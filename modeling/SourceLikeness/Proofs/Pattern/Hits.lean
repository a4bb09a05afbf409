import SourceLikeness.Proofs.Pattern.Blind
import Mathlib.Data.List.Pairwise

/-!
# Hits in two texts

What a finder finds, in one text and in two that a lexicon does not tell apart.

* `Finder.pairwise_hitsWhere`, `Finder.earlier_of_mem` : each hit starts behind those before it, and none was to be had
  earlier that goes on behind its start;
* `Pattern.notes`, `Pattern.partless` : every reading has a piece of a name, and none has a piece;
* `Finder.firm`, `Finder.clean` : the tokens and the whole hits start and stop at edges;
* `Finder.blind`, `Finder.hitsWhere_eq` : a blind finder has the same hits in both texts.
-/

namespace SourceLikeness
open Text (isAsciiWord inside wordAt wordBefore charBefore Alike Lexicon Twin Edged)
open Cursor (Beside)

/-! ## The walk over a text -/

namespace Finder
variable {f : Finder} {accept : Hit → Bool} {s t : List Char} {h : Hit} {i n : Nat}

/-- The place where a search looks for a hit. -/
def start (s : List Char) (i : Nat) : Cursor := ⟨i, charBefore s i, s.drop i, []⟩

theorem in_start (s : List Char) (i : Nat) : (start s i).In s := ⟨rfl, rfl⟩

/-- The hit that starts at an offset of a text. -/
def hitOf (f : Finder) (accept : Hit → Bool) (s : List Char) (i : Nat) : Option Hit :=
  f.hitAt accept (charBefore s i) i (s.drop i)

theorem read_of_hitOf (h' : f.hitOf accept s i = some h) :
    ∃ d, f.pattern.read (start s i) = some d ∧ h = ⟨⟨i, d.offset⟩, d.parts⟩ := by
  unfold hitOf hitAt at h'
  split_ifs at h'
  split at h'
  · exact nomatch h'
  · rename_i d hd
    dsimp only at h'
    split_ifs at h'
    exact ⟨d, hd, (Option.some.inj h').symm⟩

theorem accept_of_hitOf (h' : f.hitOf accept s i = some h) : accept h = true := by
  unfold hitOf hitAt at h'
  split_ifs at h'
  split at h'
  · exact nomatch h'
  · dsimp only at h'
    split_ifs at h' with hall
    obtain rfl := Option.some.inj h'
    exact (Bool.and_eq_true_iff.1 hall).2

theorem before_of_hitOf (h' : f.hitOf accept s i = some h) : f.before (charBefore s i) = true := by
  unfold hitOf hitAt at h'
  split_ifs at h' with hbefore
  exact hbefore

/-- A finder that bars nothing finds what its pattern reads where it likes the characters around. -/
theorem hitOf_of_read {d : Cursor} (hbefore : f.before (charBefore s i) = true) (hafter : f.after d.rest.head? = true)
    (hbarred : f.barred = []) (hd : f.pattern.read (start s i) = some d)
    (haccept : accept ⟨⟨i, d.offset⟩, d.parts⟩ = true) :
    f.hitOf accept s i = some ⟨⟨i, d.offset⟩, d.parts⟩ := by
  unfold start at hd
  rw [hitOf, hitAt, if_pos hbefore, hd]
  dsimp only
  rw [hafter, bars, hbarred, List.any_nil, haccept]
  rfl

theorem start_of_hitOf (h' : f.hitOf accept s i = some h) : h.whole.start = i := by
  obtain ⟨d, -, rfl⟩ := read_of_hitOf h'
  rfl

/-- The walk from an offset of a text on. -/
def walk (f : Finder) (accept : Hit → Bool) (s : List Char) (i resume : Nat) : List Hit :=
  f.hitsFrom accept (charBefore s i) i resume (s.drop i)

theorem walk_of_lt (hi : i < s.length) (resume : Nat) : f.walk accept s i resume =
    match if i < resume then none else f.hitOf accept s i with
    | none => f.walk accept s (i + 1) resume
    | some hit => hit :: f.walk accept s (i + 1) (f.resume hit) := by
  have hdrop : s.drop i = s[i] :: s.drop (i + 1) := List.drop_eq_getElem_cons hi
  have hbefore : some s[i] = charBefore s (i + 1) := (List.getElem?_eq_getElem hi).symm
  rw [walk, hdrop, hitsFrom, hbefore, ← hdrop]
  rfl

theorem walk_of_length_le (hi : s.length ≤ i) (resume : Nat) :
    f.walk accept s i resume = (if i < resume then none else f.hitOf accept s i).toList := by
  have hdrop : s.drop i = [] := List.drop_eq_nil_of_le hi
  rw [walk, hdrop, hitsFrom, hitOf, hdrop]

/-- The walk by its first step: past a start without a hit, or over a hit. -/
theorem walk_cases (f : Finder) (accept : Hit → Bool) (s : List Char) (i resume : Nat) :
    (f.walk accept s i resume = if i < s.length then f.walk accept s (i + 1) resume else []) ∧
        (i < resume ∨ f.hitOf accept s i = none) ∨
      ∃ h, resume ≤ i ∧ f.hitOf accept s i = some h ∧
        f.walk accept s i resume = h :: if i < s.length then f.walk accept s (i + 1) (f.resume h) else [] := by
  rcases Nat.lt_or_ge i resume with hr | hr
  · refine Or.inl ⟨?_, Or.inl hr⟩
    split_ifs with hi
    · rw [walk_of_lt hi, if_pos hr]
    · rw [walk_of_length_le (Nat.le_of_not_lt hi), if_pos hr, Option.toList_none]
  · cases hhit : f.hitOf accept s i with
    | none =>
      refine Or.inl ⟨?_, Or.inr rfl⟩
      split_ifs with hi
      · rw [walk_of_lt hi, if_neg (Nat.not_lt.2 hr), hhit]
      · rw [walk_of_length_le (Nat.le_of_not_lt hi), if_neg (Nat.not_lt.2 hr), hhit, Option.toList_none]
    | some h =>
      refine Or.inr ⟨h, hr, rfl, ?_⟩
      split_ifs with hi
      · rw [walk_of_lt hi, if_neg (Nat.not_lt.2 hr), hhit]
      · rw [walk_of_length_le (Nat.le_of_not_lt hi), if_neg (Nat.not_lt.2 hr), hhit, Option.toList_some]

/-- What the walk finds are hits where they start, and it starts none before it may. -/
theorem hitOf_of_mem_walk {resume : Nat} (hmem : h ∈ f.walk accept s i resume) :
    f.hitOf accept s h.whole.start = some h ∧ i ≤ h.whole.start ∧ resume ≤ h.whole.start ∧
      (i ≤ s.length → h.whole.start ≤ s.length) := by
  induction hn : s.length - i generalizing i resume with
  | zero =>
    rcases walk_cases f accept s i resume with ⟨hwalk, -⟩ | ⟨g, hr, hg, hwalk⟩
    · rw [hwalk, if_neg (by omega)] at hmem
      exact absurd hmem List.not_mem_nil
    · rw [hwalk, if_neg (by omega)] at hmem
      obtain rfl := List.mem_singleton.1 hmem
      rw [start_of_hitOf hg]
      exact ⟨hg, Nat.le_refl i, hr, id⟩
  | succ n ih =>
    rcases walk_cases f accept s i resume with ⟨hwalk, -⟩ | ⟨g, hr, hg, hwalk⟩
    · rw [hwalk, if_pos (by omega)] at hmem
      obtain ⟨hhit, hi, hresume, hlen⟩ := ih hmem (by omega)
      exact ⟨hhit, by omega, hresume, fun _ => hlen (by omega)⟩
    · rw [hwalk, if_pos (by omega)] at hmem
      rcases List.mem_cons.1 hmem with rfl | hmem
      · rw [start_of_hitOf hg]
        exact ⟨hg, Nat.le_refl i, hr, id⟩
      · obtain ⟨hhit, hi, -, hlen⟩ := ih hmem (by omega)
        exact ⟨hhit, by omega, by omega, fun _ => hlen (by omega)⟩

/-- Each hit starts where the walk goes on behind the hits before it, or later. -/
theorem pairwise_walk (f : Finder) (accept : Hit → Bool) (s : List Char) (i resume : Nat) :
    (f.walk accept s i resume).Pairwise fun g h => f.resume g ≤ h.whole.start := by
  induction hn : s.length - i generalizing i resume with
  | zero =>
    rcases walk_cases f accept s i resume with ⟨hwalk, -⟩ | ⟨g, -, -, hwalk⟩
    · rw [hwalk, if_neg (by omega)]
      exact .nil
    · rw [hwalk, if_neg (by omega)]
      exact List.pairwise_singleton _ g
  | succ n ih =>
    rcases walk_cases f accept s i resume with ⟨hwalk, -⟩ | ⟨g, -, -, hwalk⟩
    · rw [hwalk, if_pos (by omega)]
      exact ih (i + 1) resume (by omega)
    · rw [hwalk, if_pos (by omega), List.pairwise_cons]
      exact ⟨fun h hmem => (hitOf_of_mem_walk hmem).2.2.1, ih (i + 1) (f.resume g) (by omega)⟩

/-- At a place before a hit there is none from which the walk would go on behind the start of the hit, or the walk did not
look for one there, since it started or went on behind that place. -/
theorem earlier_of_mem_walk {resume : Nat} (hmem : h ∈ f.walk accept s i resume) (hn : n < h.whole.start) :
    (∀ g, f.hitOf accept s n = some g → f.resume g ≤ h.whole.start) ∨ n < i ∨ n < resume ∨
      ∃ g ∈ f.walk accept s i resume, n < f.resume g ∧ f.resume g ≤ h.whole.start := by
  rcases Nat.lt_or_ge n i with hi | hi
  · exact Or.inr (Or.inl hi)
  induction hk : n - i generalizing i resume with
  | zero =>
    obtain rfl : i = n := by omega
    rcases walk_cases f accept s i resume with ⟨-, hskip⟩ | ⟨g, -, hg, hwalk⟩
    · rcases hskip with hskip | hskip
      · exact Or.inr (Or.inr (Or.inl hskip))
      · exact Or.inl fun g hg => by rw [hskip] at hg; exact nomatch hg
    · refine Or.inl fun g' hg' => ?_
      obtain rfl := Option.some.inj (hg.symm.trans hg')
      have hstart := start_of_hitOf hg
      rw [hwalk] at hmem
      rcases List.mem_cons.1 hmem with rfl | hmem
      · omega
      · split_ifs at hmem
        · exact (hitOf_of_mem_walk hmem).2.2.1
        · exact absurd hmem List.not_mem_nil
  | succ k ih =>
    rcases walk_cases f accept s i resume with ⟨hwalk, -⟩ | ⟨g, -, hg, hwalk⟩
    · rw [hwalk] at hmem ⊢
      split_ifs at hmem ⊢
      · rcases ih hmem (by omega) (by omega) with hnone | hlt | hresume | hg
        · exact Or.inl hnone
        · omega
        · exact Or.inr (Or.inr (Or.inl hresume))
        · exact Or.inr (Or.inr (Or.inr hg))
      · exact absurd hmem List.not_mem_nil
    · have hstart := start_of_hitOf hg
      rw [hwalk] at hmem ⊢
      rcases List.mem_cons.1 hmem with rfl | hmem
      · omega
      · split_ifs at hmem ⊢
        · have hreach := (hitOf_of_mem_walk hmem).2.2.1
          rcases ih hmem (by omega) (by omega) with hnone | hlt | hresume | ⟨g', hg', hbetween⟩
          · exact Or.inl hnone
          · omega
          · exact Or.inr (Or.inr (Or.inr ⟨g, List.mem_cons_self, hresume, hreach⟩))
          · exact Or.inr (Or.inr (Or.inr ⟨g', List.mem_cons_of_mem g hg', hbetween⟩))
        · exact absurd hmem List.not_mem_nil

/-- A further condition on hits drops those that do not meet it. -/
theorem hitAt_eq_filter (before : Option Char) (offset : Nat) (text : List Char) :
    f.hitAt accept before offset text = (f.hitAt (fun _ => true) before offset text).filter accept := by
  unfold hitAt
  split_ifs
  · cases f.pattern.read ⟨offset, before, text, []⟩ with
    | none => rfl
    | some d =>
      dsimp only
      rw [Bool.and_true]
      cases (f.after d.rest.head? && !f.bars ⟨⟨offset, d.offset⟩, d.parts⟩ text)
      · rfl
      · rfl
  · rfl

theorem hitsFrom_eq_of_accept {before : Option Char} {offset resume : Nat} {text : List Char}
    (hall : ∀ h ∈ f.hitsFrom (fun _ => true) before offset resume text, accept h = true) :
    f.hitsFrom accept before offset resume text = f.hitsFrom (fun _ => true) before offset resume text := by
  have hfirst : ∀ before offset resume text, (if offset < resume then none else f.hitAt accept before offset text) =
      (if offset < resume then none else f.hitAt (fun _ => true) before offset text).filter accept := by
    intro before offset resume text
    split_ifs
    · rfl
    · exact hitAt_eq_filter before offset text
  induction text generalizing before offset resume with
  | nil =>
    unfold hitsFrom at hall ⊢
    rw [hfirst]
    cases hhit : (if offset < resume then none else f.hitAt (fun _ => true) before offset []) with
    | none => rfl
    | some h =>
      dsimp only at hall
      rw [hhit] at hall
      rw [Option.filter_some, hall h (List.mem_singleton_self h), if_pos rfl]
  | cons c rest ih =>
    unfold hitsFrom at hall ⊢
    dsimp only at hall ⊢
    rw [hfirst]
    cases hhit : (if offset < resume then none else f.hitAt (fun _ => true) before offset (c :: rest)) with
    | none =>
      rw [hhit] at hall
      rw [Option.filter_none]
      exact ih hall
    | some h =>
      rw [hhit] at hall
      rw [Option.filter_some, hall h List.mem_cons_self, if_pos rfl]
      exact congrArg (h :: ·) (ih fun g hg => hall g (List.mem_cons_of_mem h hg))

/-- A further condition that all hits meet makes no difference. -/
theorem hitsWhere_eq_hits (hall : ∀ h ∈ f.hits s, accept h = true) : f.hitsWhere accept s = f.hits s :=
  hitsFrom_eq_of_accept hall

theorem hitsWhere_eq_walk (s : List Char) : f.hitsWhere accept s = f.walk accept s 0 0 := rfl

theorem pairwise_hitsWhere (f : Finder) (accept : Hit → Bool) (s : List Char) :
    (f.hitsWhere accept s).Pairwise fun g h => f.resume g ≤ h.whole.start := pairwise_walk f accept s 0 0

theorem earlier_of_mem (hmem : h ∈ f.hitsWhere accept s) (hn : n < h.whole.start) :
    (∀ g, f.hitOf accept s n = some g → f.resume g ≤ h.whole.start) ∨
      ∃ g ∈ f.hitsWhere accept s, n < f.resume g ∧ f.resume g ≤ h.whole.start := by
  rw [hitsWhere_eq_walk] at hmem ⊢
  rcases earlier_of_mem_walk hmem hn with hnone | hlt | hlt | hg
  · exact Or.inl hnone
  · exact absurd hlt (Nat.not_lt_zero n)
  · exact absurd hlt (Nat.not_lt_zero n)
  · exact Or.inr hg

theorem start_le_of_mem (hmem : h ∈ f.hitsWhere accept s) : h.whole.start ≤ s.length := by
  rw [hitsWhere_eq_walk] at hmem
  exact (hitOf_of_mem_walk hmem).2.2.2 (Nat.zero_le _)

theorem hitOf_of_mem (hmem : h ∈ f.hitsWhere accept s) : f.hitOf accept s h.whole.start = some h := by
  rw [hitsWhere_eq_walk] at hmem
  exact (hitOf_of_mem_walk hmem).1

end Finder

/-! ## Where the pieces of a hit stand -/

namespace Pattern

/-- The readings of a pattern that do not overlap are the hits of a finder. -/
abbrev reader (p : Pattern) : Finder := { pattern := p, consumes := true }

theorem readings_eq_hits (p : Pattern) (s : List Char) : p.readings s = (reader p).hits s := rfl

variable {p : Pattern} {c d : Cursor} {name : Part}

/-- How a search goes on behind its pattern. -/
def lastly (p : Pattern) : Cursor → Option Cursor := if p.ends then atEdges some else some

theorem halts_lastly (p : Pattern) : Halts p.ends p.lastly := by
  intro hp
  rw [lastly, if_pos hp]
  exact halts_atEdges (r := true) some rfl

theorem read_eq_run_lastly (p : Pattern) (c : Cursor) : p.read c = p.run c p.lastly := by
  unfold read lastly
  split_ifs with hp
  · exact run_atEdges hp fun _ _ => rfl
  · rfl

/-- A search stops at an edge if its pattern ends at one. -/
theorem inside_of_read (h : p.read c = some d) (hp : p.ends = true) : d.inside = false := by
  rw [read_eq_run_lastly] at h
  obtain ⟨m, -, hm⟩ := reads_of_run h
  rw [← Bool.not_eq_true]
  intro hd
  rw [lastly, if_pos hp, atEdges] at hm
  split_ifs at hm with hin
  obtain rfl := Option.some.inj hm
  exact hin hd

/-- Every reading has a piece of the name. -/
def notes (name : Part) : Pattern → Bool
  | seq first second => first.notes name || second.notes name
  | alt first second => first.notes name && second.notes name
  | part other body => other == name || body.notes name
  | _ => false

theorem Reads.parts_subset (h : p.Reads c d) : c.parts ⊆ d.parts := by
  induction p generalizing c d with
  | empty | wordEdge | lineStart | textStart =>
    first | obtain rfl := h | obtain ⟨-, rfl⟩ := h
    exact List.Subset.refl _
  | one set =>
    obtain ⟨x, rest, -, -, rfl⟩ := h
    exact List.Subset.refl _
  | seq p q ihp ihq =>
    obtain ⟨m, hp, hq⟩ := h
    exact List.Subset.trans (ihp hp) (ihq hq)
  | alt p q ihp ihq => exact h.elim ihp ihq
  | many body ih | few body ih =>
    induction h with
    | refl => exact List.Subset.refl _
    | tail _ hstep ihsteps => exact List.Subset.trans ihsteps (ih hstep)
  | part name body ih =>
    obtain ⟨m, hm, rfl⟩ := h
    exact List.Subset.trans (ih hm) (List.subset_cons_self _ _)

theorem Reads.exists_piece (h : p.Reads c d) (hp : p.notes name = true) : ∃ piece, (name, piece) ∈ d.parts := by
  induction p generalizing c d with
  | seq p q ihp ihq =>
    obtain ⟨m, hpm, hq⟩ := h
    rcases Bool.or_eq_true_iff.1 hp with hp | hp
    · obtain ⟨piece, hmem⟩ := ihp hpm hp
      exact ⟨piece, hq.parts_subset hmem⟩
    · exact ihq hq hp
  | alt p q ihp ihq =>
    obtain ⟨hpp, hpq⟩ := Bool.and_eq_true_iff.1 hp
    exact h.elim (fun h => ihp h hpp) fun h => ihq h hpq
  | part other body ih =>
    obtain ⟨m, hm, rfl⟩ := h
    rcases Bool.or_eq_true_iff.1 hp with hp | hp
    · obtain rfl := beq_iff_eq.1 hp
      exact ⟨_, List.mem_cons_self⟩
    · obtain ⟨piece, hmem⟩ := ih hm hp
      exact ⟨piece, List.mem_cons_of_mem _ hmem⟩
  | empty | one _ | many _ | few _ | wordEdge | lineStart | textStart => exact Bool.noConfusion hp

/-- The pattern notes no piece. -/
def partless : Pattern → Bool
  | seq first second => first.partless && second.partless
  | alt first second => first.partless && second.partless
  | many body => body.partless
  | few body => body.partless
  | part _ _ => false
  | _ => true

theorem Reads.parts_eq (h : p.Reads c d) (hp : p.partless = true) : d.parts = c.parts := by
  induction p generalizing c d with
  | empty | wordEdge | lineStart | textStart =>
    first | obtain rfl := h | obtain ⟨-, rfl⟩ := h
    rfl
  | one set =>
    obtain ⟨x, rest, -, -, rfl⟩ := h
    rfl
  | seq p q ihp ihq =>
    obtain ⟨m, hpm, hq⟩ := h
    obtain ⟨hpp, hpq⟩ := Bool.and_eq_true_iff.1 hp
    rw [ihq hq hpq, ihp hpm hpp]
  | alt p q ihp ihq =>
    obtain ⟨hpp, hpq⟩ := Bool.and_eq_true_iff.1 hp
    exact h.elim (fun h => ihp h hpp) fun h => ihq h hpq
  | many body ih | few body ih =>
    induction h with
    | refl => rfl
    | tail _ hstep ihsteps => rw [ih hstep hp, ihsteps]
  | part name body => exact Bool.noConfusion hp

theorem partless_all {ps : List Pattern} (h : ∀ p ∈ ps, p.partless = true) : (all ps).partless = true := by
  fun_induction all ps with
  | case1 => rfl
  | case2 p => exact h p List.mem_cons_self
  | case3 p ps _ ih =>
    obtain ⟨hp, hps⟩ := List.forall_mem_cons.1 h
    exact Bool.and_eq_true_iff.2 ⟨hp, ih hps⟩

theorem partless_any {ps : List Pattern} (h : ∀ p ∈ ps, p.partless = true) : (any ps).partless = true := by
  fun_induction any ps with
  | case1 => rfl
  | case2 p => exact h p List.mem_cons_self
  | case3 p ps _ ih =>
    obtain ⟨hp, hps⟩ := List.forall_mem_cons.1 h
    exact Bool.and_eq_true_iff.2 ⟨hp, ih hps⟩

theorem partless_chars (w : List Char) : (chars w).partless = true :=
  partless_all (List.forall_mem_map.2 fun _ _ => rfl)

end Pattern

namespace Finder
open Pattern
variable {f : Finder} {accept : Hit → Bool} {s t : List Char} {h : Hit} {i : Nat}

theorem firm_of_read {p : Pattern} {d : Cursor} (hp : p.tidy false p.ends = true) (hi : i ≤ s.length)
    (hd : p.read (start s i) = some d) : ∀ x ∈ d.parts, Firm s i x :=
  (reads_of_read hd).firm (in_start s i) hi (Nat.le_refl i) (e := false) nofun (inside_of_read hd) hp
    (List.forall_mem_nil _)

theorem stop_of_read {p : Pattern} {d : Cursor} (hp : p.ends = true) (hd : p.read (start s i) = some d) :
    inside s d.offset = false := by
  obtain ⟨hin, -⟩ := (reads_of_read hd).mem (in_start s i)
  rw [← hin.inside_eq]
  exact inside_of_read hd hp

theorem start_of_read {p : Pattern} {d : Cursor} (hp : p.stops p.ends = true) (hd : p.read (start s i) = some d) :
    inside s i = false := by
  rw [show inside s i = (start s i).inside from (in_start s i).inside_eq.symm, ← Bool.not_eq_true]
  intro hc
  obtain ⟨hends, hdin⟩ := (reads_of_read hd).stops hc hp
  rw [inside_of_read hd hends] at hdin
  exact Bool.noConfusion hdin

/-- The tokens of the finder start and stop at edges, be they pieces or whole hits. -/
def firm (f : Finder) : Bool :=
  f.pattern.tidy false f.pattern.ends &&
    (f.pattern.notes .token || (f.pattern.ends && f.pattern.stops f.pattern.ends))

theorem token_of_read {d : Cursor} (hf : f.firm = true) (hi : i ≤ s.length)
    (hd : f.pattern.read (start s i) = some d) :
    let h : Hit := ⟨⟨i, d.offset⟩, d.parts⟩
    i ≤ h.token.start ∧ Edged s h.token := by
  intro h
  obtain ⟨htidy, hf⟩ := Bool.and_eq_true_iff.1 hf
  unfold Hit.token Hit.part?
  cases hlookup : h.parts.lookup .token with
  | some piece =>
    obtain ⟨l, l', hparts, -⟩ := List.lookup_eq_some_iff.1 hlookup
    have hmem : (Part.token, piece) ∈ d.parts := by
      rw [show d.parts = l ++ (Part.token, piece) :: l' from hparts]
      exact List.mem_append_right _ List.mem_cons_self
    have hpiece := firm_of_read htidy hi hd _ hmem
    exact ⟨hpiece.le, hpiece.start nofun, hpiece.stop, hpiece.bounds.1, hpiece.bounds.2⟩
  | none =>
    rcases Bool.or_eq_true_iff.1 hf with hf | hf
    · obtain ⟨piece, hmem⟩ := (reads_of_read hd).exists_piece hf
      have hne := List.lookup_eq_none_iff.1 hlookup _ hmem
      rw [bne_self_eq_false] at hne
      exact Bool.noConfusion hne
    · obtain ⟨hends, hstops⟩ := Bool.and_eq_true_iff.1 hf
      exact ⟨Nat.le_refl i, start_of_read hstops hd, stop_of_read hends hd, hi,
        (reads_of_read hd).le_length (in_start s i) hi⟩

theorem token_of_mem (hf : f.firm = true) (hmem : h ∈ f.hitsWhere accept s) : Edged s h.token := by
  obtain ⟨d, hd, heq⟩ := read_of_hitOf (hitOf_of_mem hmem)
  rw [heq]
  exact (token_of_read hf (start_le_of_mem hmem) hd).2

/-- Whole hits start and stop at edges, or there is none in a text that lacks some characters. -/
def clean (absent : List Char) (f : Finder) : Bool :=
  f.pattern.dead absent || (f.pattern.ends && f.pattern.stops f.pattern.ends)

theorem whole_of_mem {absent : List Char} (hf : f.clean absent = true) (habsent : ∀ c ∈ absent, c ∉ s)
    (hmem : h ∈ f.hitsWhere accept s) : Edged s h.whole := by
  have hi := start_le_of_mem hmem
  obtain ⟨d, hd, heq⟩ := read_of_hitOf (hitOf_of_mem hmem)
  rcases Bool.or_eq_true_iff.1 hf with hdead | hf
  · rw [(reads_of_read hd).not_dead (in_start s _) habsent] at hdead
    exact Bool.noConfusion hdead
  · obtain ⟨hends, hstops⟩ := Bool.and_eq_true_iff.1 hf
    rw [heq]
    exact ⟨start_of_read hstops hd, stop_of_read hends hd, hi, (reads_of_read hd).le_length (in_start s _) hi⟩

theorem stop_of_mem (hf : f.pattern.ends = true) (hmem : h ∈ f.hitsWhere accept s) :
    inside s h.whole.stop = false := by
  obtain ⟨d, hd, heq⟩ := read_of_hitOf (hitOf_of_mem hmem)
  rw [heq]
  exact stop_of_read hf hd

theorem token_eq_whole (hf : f.pattern.partless = true) (hmem : h ∈ f.hitsWhere accept s) : h.token = h.whole := by
  obtain ⟨d, hd, heq⟩ := read_of_hitOf (hitOf_of_mem hmem)
  have hparts : h.parts = [] := by
    rw [heq]
    exact (reads_of_read hd).parts_eq hf
  rw [Hit.token, Hit.part?, hparts, List.lookup_nil, Option.getD_none]

theorem resume_eq_stop (hf : f.pattern.partless = true) (hmem : h ∈ f.hitsWhere accept s) :
    f.resume h = h.whole.stop := by
  rw [resume, token_eq_whole hf hmem, ite_self]

/-! ## Hits in two texts -/

/-- The word characters of ASCII. -/
def wordChars : List Char := "ABCDEFGHIJKLMNOPQRSTUVWXYZabcdefghijklmnopqrstuvwxyz0123456789_".toList

/-- A condition on a neighbour makes no difference between word characters. -/
def uniform (g : Option Char → Bool) : Bool := wordChars.all fun c => g (some c) == g (some '_')

theorem mem_wordChars {c : Char} (hc : isAsciiWord c = true) : c ∈ wordChars := by
  have hall : ∀ n < 128, isAsciiWord (Char.ofNat n) = true → Char.ofNat n ∈ wordChars := by decide +kernel
  have := hall c.toNat (Text.isAscii_of_isAsciiWord hc)
  rw [Char.ofNat_toNat] at this
  exact this hc

theorem eq_of_uniform {g : Option Char → Bool} (hg : uniform g = true) {c d : Char} (hc : isAsciiWord c = true)
    (hd : isAsciiWord d = true) : g (some c) = g (some d) := by
  have hall := List.all_eq_true.1 hg
  rw [beq_iff_eq.1 (hall c (mem_wordChars hc)), beq_iff_eq.1 (hall d (mem_wordChars hd))]

variable {x : Lexicon}

/-- The finder finds nothing that the lexicon does not tell. -/
def blind (x : Lexicon) (f : Finder) : Bool :=
  f.pattern.blind x false f.pattern.ends && uniform f.before && uniform f.after &&
    (f.barred.isEmpty || (f.firm && f.barred.all fun w => x.words.contains w.toList))

/-- The slice that starts so far behind an offset. -/
theorem slice_drop {α : Type} {xs : List α} {n : Nat} {p : Span} (hp : n ≤ p.start) :
    Span.slice ⟨p.start - n, p.stop - n⟩ (xs.drop n) = p.slice xs := by
  unfold Span.slice
  rw [List.drop_drop, Nat.add_sub_cancel' hp]
  congr 1
  dsimp only
  omega

theorem bars_eq (hx : x.WellFormed) (h' : Twin x s t) (hb : f.barred.all (fun w => x.words.contains w.toList) = true)
    (hle : h.whole.start ≤ h.token.start) (htoken : Edged s h.token) :
    f.bars h (s.drop h.whole.start) = f.bars h (t.drop h.whole.start) := by
  have htwin := h'.slice hx htoken.start htoken.stop
  have hword : ∀ w ∈ f.barred, w.toList = leadingWord (h.token.slice s) ↔ w.toList = leadingWord (h.token.slice t) := by
    intro w hw
    have hmem : w.toList ∈ x.words := List.contains_iff_mem.1 (List.all_eq_true.1 hb w hw)
    have hchars : ∀ c ∈ w.toList, isAsciiWord c = true := fun c hc => (hx.word _ hmem c hc).1
    unfold leadingWord
    rw [Text.eq_takeWhile_iff hchars, Text.eq_takeWhile_iff hchars, htwin.standsAt_iff hmem]
  unfold bars
  dsimp only
  rw [slice_drop hle, slice_drop hle, Bool.eq_iff_iff, List.any_eq_true, List.any_eq_true]
  simp only [beq_iff_eq]
  exact exists_congr fun w => and_congr_right (hword w)

theorem rel_read {p : Pattern} {e : Bool} (hx : x.WellFormed) (h' : Twin x s t) (hp : p.blind x e p.ends = true)
    (he : e = true → inside s i = false) :
    Option.Rel (Beside Eq s t) (p.read (start s i)) (p.read (start t i)) := by
  have hcd : Beside Eq s t (start s i) (start t i) := ⟨in_start s i, in_start t i, rfl, rfl⟩
  have hc : e = true → (start s i).inside = false := fun het => (in_start s i).inside_eq.trans (he het)
  rw [read_eq_run_lastly, read_eq_run_lastly]
  refine rel_run Cursor.steady_eq hx h' hp hcd hc (halts_lastly p) (halts_lastly p) fun c d _ hcd => ?_
  unfold lastly
  split_ifs
  · rw [atEdges, atEdges, hcd.inside_eq h'.toAlike]
    split_ifs
    · exact .none
    · exact .some hcd
  · exact .some hcd

/-- A blind pattern reads the same at the start of both texts. -/
theorem readStart_eq {p : Pattern} (hx : x.WellFormed) (h' : Twin x s t) (hp : p.blind x true p.ends = true) :
    p.readStart s = p.readStart t := by
  have hread : Option.Rel (Beside Eq s t) (p.read ⟨0, none, s, []⟩) (p.read ⟨0, none, t, []⟩) :=
    rel_read (i := 0) hx h' hp fun _ => rfl
  unfold readStart
  generalize p.read ⟨0, none, s, []⟩ = a at hread ⊢
  generalize p.read ⟨0, none, t, []⟩ = b at hread ⊢
  cases hread with
  | none => rfl
  | some hcd => rw [Option.map_some, Option.map_some, hcd.offset, hcd.parts]

/-- In two texts that the lexicon does not tell apart, there are hits at the same offsets. -/
theorem hitOf_eq (hx : x.WellFormed) (h' : Twin x s t) (hf : f.blind x = true) (hi : i ≤ s.length) :
    f.hitOf accept s i = f.hitOf accept t i := by
  simp only [blind, Bool.and_eq_true, Bool.or_eq_true, List.isEmpty_iff] at hf
  obtain ⟨⟨⟨hblind, hbefore⟩, hafter⟩, hbars⟩ := hf
  unfold hitOf hitAt
  rw [← h'.test_charBefore_eq (fun _ _ => eq_of_uniform hbefore) i]
  split_ifs with hb
  · have hread := rel_read (i := i) hx h' hblind nofun
    unfold start at hread
    cases hc : f.pattern.read ⟨i, charBefore s i, s.drop i, []⟩ with
    | none =>
      rw [hc] at hread
      generalize f.pattern.read ⟨i, charBefore t i, t.drop i, []⟩ = o at hread ⊢
      cases hread
      rfl
    | some c =>
      rw [hc] at hread
      generalize f.pattern.read ⟨i, charBefore t i, t.drop i, []⟩ = o at hread ⊢
      cases hread with
      | some hcd =>
        rename_i d
        have hafterEq : f.after c.rest.head? = f.after d.rest.head? := by
          rw [hcd.left.head?, hcd.right.head?, ← hcd.offset]
          exact h'.test_eq (fun _ _ => eq_of_uniform hafter) c.offset
        have hbarsEq : f.bars ⟨⟨i, c.offset⟩, c.parts⟩ (s.drop i) = f.bars ⟨⟨i, c.offset⟩, c.parts⟩ (t.drop i) := by
          rcases hbars with hnone | ⟨hfirm, hall⟩
          · rw [bars, bars, hnone, List.any_nil, List.any_nil]
          · obtain ⟨hle, htoken⟩ := token_of_read hfirm hi hc
            exact bars_eq (h := ⟨⟨i, c.offset⟩, c.parts⟩) hx h' hall hle htoken
        dsimp only
        rw [hafterEq, hbarsEq, hcd.offset, hcd.parts]
  · rfl

theorem walk_eq (hx : x.WellFormed) (h' : Twin x s t) (hf : f.blind x = true) (hi : i ≤ s.length) (resume : Nat) :
    f.walk accept s i resume = f.walk accept t i resume := by
  induction hn : s.length - i generalizing i resume with
  | zero =>
    rw [walk_of_length_le (by omega), walk_of_length_le (by rw [← h'.length]; omega), hitOf_eq hx h' hf hi]
  | succ n ih =>
    have hlt : i < s.length := by omega
    have hnext : ∀ r, f.walk accept s (i + 1) r = f.walk accept t (i + 1) r := fun r => ih hlt r (by omega)
    have ht : i < t.length := by rw [← h'.length]; exact hlt
    rw [walk_of_lt (s := s) hlt, walk_of_lt (s := t) ht, hitOf_eq hx h' hf hi]
    simp only [hnext]

/-- **Blind finders.** In two texts that a lexicon does not tell apart, a blind finder has the same hits. -/
theorem hitsWhere_eq (hx : x.WellFormed) (h' : Twin x s t) (hf : f.blind x = true) :
    f.hitsWhere accept s = f.hitsWhere accept t := by
  rw [hitsWhere_eq_walk, hitsWhere_eq_walk, walk_eq hx h' hf (Nat.zero_le _)]

end Finder
end SourceLikeness
