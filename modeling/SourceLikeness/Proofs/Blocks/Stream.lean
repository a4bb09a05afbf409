import SourceLikeness.Proofs.Blocks.Passes
import SourceLikeness.Proofs.Nesting.Markers
import SourceLikeness.Proofs.Pattern.Spelled

/-!
# The braces of a text and of its stream

The last passes record every brace that the text still has.

* `places` : where a character stands in a text; `Finder.hitsWhere_char` : the finder of a character finds it there;
* `braceTokens` : the tokens of the braces of a text, in their order; `depth_braceTokens` : they have its depth;
* `tokens_bracePasses` : what the passes for braces record;
* `stream_braceTokens` : the stream has them in the order of the text.
-/

namespace SourceLikeness
open Bracket
open Text (braceAt)

/-- The offsets at which a character stands in a text. -/
def places (x : Char) (s : List Char) : List Nat := (List.range s.length).filter fun i => s[i]? = some x

theorem mem_places_iff {x : Char} {s : List Char} {i : Nat} : i ∈ places x s ↔ s[i]? = some x := by
  rw [places, List.mem_filter, List.mem_range, decide_eq_true_iff, and_iff_right_iff_imp]
  exact fun h => (List.getElem?_eq_some_iff.1 h).1

theorem pairwise_places (x : Char) (s : List Char) : (places x s).Pairwise (· < ·) :=
  List.Pairwise.filter _ List.pairwise_lt_range

/-! ## The finder of a character -/

namespace Finder
open Pattern
variable {x : Char} {accept : Hit → Bool} {s : List Char} {i : Nat}

/-- The hit of one character. -/
def hitOne (i : Nat) : Hit := ⟨⟨i, i + 1⟩, []⟩

theorem hitOf_char (haccept : ∀ i, s[i]? = some x → accept (hitOne i) = true) (i : Nat) :
    hitOf { pattern := Pattern.char x } accept s i = if s[i]? = some x then some (hitOne i) else none := by
  have hread : (Pattern.char x).read (start s i) = if [x] <+: s.drop i then some ((start s i).moved s 1) else none :=
    run_char (in_start s i)
  have hiff : [x] <+: s.drop i ↔ s[i]? = some x := by
    rw [Text.prefix_drop_iff]
    exact ⟨fun h => h 0 Nat.one_pos, fun h j hj => by obtain rfl := Nat.lt_one_iff.1 hj; exact h⟩
  split_ifs with hx
  · rw [if_pos (hiff.2 hx)] at hread
    exact hitOf_of_read (f := { pattern := Pattern.char x }) rfl rfl rfl hread (haccept i hx)
  · rw [if_neg fun h => hx (hiff.1 h)] at hread
    rw [Option.eq_none_iff_forall_ne_some]
    intro h hh
    obtain ⟨d, hd, -⟩ := read_of_hitOf hh
    exact nomatch hread.symm.trans hd

theorem walk_char (haccept : ∀ i, s[i]? = some x → accept (hitOne i) = true) {r : Nat} (hr : r ≤ i) :
    walk { pattern := Pattern.char x } accept s i r =
      ((List.range' i (s.length - i)).filter fun i => s[i]? = some x).map hitOne := by
  induction hn : s.length - i generalizing i r with
  | zero =>
    rw [walk_of_length_le (by omega), if_neg (by omega), hitOf_char haccept, List.getElem?_eq_none (by omega)]
    rfl
  | succ n ih =>
    rw [walk_of_lt (by omega), if_neg (by omega), hitOf_char haccept, List.range'_succ, List.filter_cons]
    by_cases hx : s[i]? = some x
    · have hresume : resume { pattern := Pattern.char x } (hitOne i) = i + 1 := rfl
      simp only [hx, if_true, decide_true, List.map_cons]
      rw [hresume, ih (Nat.le_refl _) (by omega)]
    · simp only [hx, if_false, decide_false, Bool.false_eq_true]
      exact ih (by omega) (by omega)

theorem hitsWhere_char (haccept : ∀ i, s[i]? = some x → accept (hitOne i) = true) :
    hitsWhere { pattern := Pattern.char x } accept s = (places x s).map hitOne := by
  rw [hitsWhere_eq_walk, walk_char haccept (Nat.le_refl 0), Nat.sub_zero, places, List.range_eq_range']

end Finder

/-! ## The tokens of the braces of a text -/

def Bracket.category : Bracket → Category
  | opening => .openBrace
  | closing => .closeBrace

theorem bracket?_category (b : Bracket) : b.category.bracket? = some b := by cases b <;> rfl

/-- The token of the brace at an offset. -/
def tokenAt (s : List Char) (i : Nat) : Option (Token Category) := (braceAt s i).map fun b => ⟨b.category, i, i + 1⟩

def braceTokens (s : List Char) : List (Token Category) := (List.range s.length).filterMap (tokenAt s)

theorem Bracket.depth_filterMap {α β : Type} (side : β → Option Bracket) (g : α → Option β) (d : Nat) (l : List α) :
    depth side d (l.filterMap g) = depth (fun x => (g x).bind side) d l := by
  induction l generalizing d with
  | nil => rfl
  | cons x l ih =>
    cases hx : g x with
    | none => rw [List.filterMap_cons_none hx, depth_cons_of_none (by rw [hx]; rfl), ih]
    | some y =>
      rw [List.filterMap_cons_some hx, depth, depth, hx]
      exact congrArg _ (funext ih)

/-- The tokens of the braces have the depth of the text. -/
theorem depth_braceTokens (s : List Char) (d : Nat) :
    depth (fun k => k.symbol.bracket?) d (braceTokens s) = depth brace? d s := by
  have hside : (fun i => (tokenAt s i).bind fun k => k.symbol.bracket?) = braceAt s := by
    funext i
    unfold tokenAt
    cases braceAt s i with
    | none => rfl
    | some b => exact bracket?_category b
  have hmap : (List.range s.length).map (braceAt s) = s.map brace? := by
    refine List.ext_getElem? fun i => ?_
    rw [List.getElem?_map, List.getElem?_map]
    rcases Nat.lt_or_ge i s.length with hi | hi
    · rw [List.getElem?_range hi, List.getElem?_eq_getElem hi, Option.map_some, Option.map_some, braceAt,
        List.getElem?_eq_getElem hi, Option.bind_some]
    · rw [List.getElem?_eq_none hi, List.getElem?_eq_none (by rwa [List.length_range])]
      rfl
  rw [braceTokens, depth_filterMap, hside, depth_eq_of_map_eq hmap]

/-! ## Recording the braces -/

namespace Tokenizer
open WorkingCopy (masked)
variable {w v : Work} {x : Char} {c : Category} {fill : Char}

/-- Hits that are free and stand one behind the other are all recorded. -/
theorem tokens_foldl_classifyHit {hits : List Hit} (hsorted : hits.Pairwise fun g h => g.token.stop ≤ h.token.start)
    (hadmits : ∀ h ∈ hits, v.admits h.token = true) :
    (hits.foldl (classifyHit c fill false) v).tokens = v.tokens ++ hits.map fun h => ⟨c, h.token.start, h.token.stop⟩ := by
  induction hits generalizing v with
  | nil => exact (List.append_nil _).symm
  | cons h hits ih =>
    obtain ⟨hbehind, hsorted⟩ := List.pairwise_cons.1 hsorted
    obtain ⟨hfirst, hadmits⟩ := List.forall_mem_cons.1 hadmits
    have htake : classifyHit c fill false v h = (⟨v.cells, v.tokens ++ [⟨c, h.token.start, h.token.stop⟩]⟩ : Work).claim h.token fill := by
      rw [classifyHit_eq_take, WorkingCopy.take, if_pos hfirst, WorkingCopy.emit, if_pos hfirst]
    rw [List.foldl_cons, htake, ih hsorted fun g hg => ?_]
    · exact List.append_assoc _ _ _
    · obtain ⟨hle, hstop, hfree⟩ := WorkingCopy.admits_iff.1 (hadmits g hg)
      refine WorkingCopy.admits_iff.2 ⟨hle, ?_, fun p cell hge hlt hcell => ?_⟩
      · rwa [size_claim]
      · have := hbehind g hg
        rw [getElem?_claim, if_neg (by omega)] at hcell
        exact hfree p cell hge hlt hcell

/-- A brace stands on a free cell. -/
theorem admits_of_brace (hclear : Clear w) {i : Nat} (hi : w.text[i]? = some x) (hx : brace? x ≠ none) :
    w.admits ⟨i, i + 1⟩ = true := by
  have hlt := (List.getElem?_eq_some_iff.1 hi).1
  rw [← WorkingCopy.size_eq_length_text] at hlt
  refine WorkingCopy.admits_iff.2 ⟨Nat.le_succ i, hlt, fun p cell hge hp hcell => ?_⟩
  obtain rfl : p = i := Nat.le_antisymm (Nat.le_of_lt_succ hp) hge
  rw [WorkingCopy.text, List.getElem?_map, hcell] at hi
  rw [← Bool.not_eq_true]
  intro hclaimed
  obtain rfl := Option.some.inj hi
  exact hx (hclear cell (List.mem_of_getElem? hcell) hclaimed)

theorem found_brace (hclear : Clear w) (hx : brace? x ≠ none) :
    found { pattern := Pattern.char x } w = (places x w.text).map Finder.hitOne := by
  refine Finder.hitsWhere_char fun i hi => ?_
  have hadmits := admits_of_brace hclear hi hx
  rw [WorkingCopy.admits, Bool.and_eq_true] at hadmits
  exact hadmits.2

/-- A pass for a brace records it wherever it stands. -/
theorem tokens_classify_brace (hclear : Clear w) (hx : brace? x ≠ none) :
    (classify { pattern := Pattern.char x } c masked false w).tokens =
      w.tokens ++ (places x w.text).map fun i => ⟨c, i, i + 1⟩ := by
  change ((found { pattern := Pattern.char x } w).foldl (classifyHit c masked false) w).tokens = _
  rw [found_brace hclear hx, tokens_foldl_classifyHit, List.map_map]
  · rfl
  · rw [List.pairwise_map]
    exact (pairwise_places x w.text).imp fun h => h
  · intro h hh
    obtain ⟨i, hi, rfl⟩ := List.mem_map.1 hh
    exact admits_of_brace hclear (mem_places_iff.1 hi) hx

/-- What the pass for the opening braces leaves of the text. -/
theorem kept_classify (hfill : brace? fill = none) (f : Finder) : Kept w (classify f c fill false w) := by
  unfold classify
  generalize f.hitsWhere _ w.text = hits
  suffices h : ∀ v, Kept w v → Kept w (hits.foldl (classifyHit c fill false) v) from h w (.of_eq rfl)
  induction hits with
  | nil => exact fun v hv => hv
  | cons h hits ih =>
    intro v hv
    refine ih _ (hv.trans ?_)
    rw [classifyHit_eq_take, WorkingCopy.take]
    split_ifs with hadmits
    · rw [WorkingCopy.emit, if_pos hadmits]
      exact kept_claim hfill _ _
    · exact .of_eq rfl

/-- A cell on which no token is recorded stays as it is. -/
theorem getElem?_foldl_classifyHit {hits : List Hit} {p : Nat} (hp : ∀ h ∈ hits, ¬ (h.token.start ≤ p ∧ p < h.token.stop))
    (v : Work) : (hits.foldl (classifyHit c fill false) v).cells[p]? = v.cells[p]? := by
  induction hits generalizing v with
  | nil => rfl
  | cons h hits ih =>
    obtain ⟨hh, hits⟩ := List.forall_mem_cons.1 hp
    rw [List.foldl_cons, ih hits, classifyHit_eq_take, WorkingCopy.take]
    split_ifs with hadmits
    · rw [WorkingCopy.emit, if_pos hadmits, getElem?_claim, if_neg hh]
    · rfl

/-- The pass for the opening braces leaves the closing ones. -/
theorem places_classify_opening (hclear : Clear w) :
    places '\x7d' (classify { pattern := Pattern.char '\x7b' } c masked false w).text = places '\x7d' w.text := by
  have hkept : Kept w (classify { pattern := Pattern.char '\x7b' } c masked false w) := kept_classify rfl _
  have hlen : (classify { pattern := Pattern.char '\x7b' } c masked false w).text.length = w.text.length := by
    have hsize := (edits_classify { pattern := Pattern.char '\x7b' } c isAscii_masked false w).grows.size_eq
    rwa [WorkingCopy.size_eq_length_text, WorkingCopy.size_eq_length_text] at hsize
  have hclosing : ∀ {s : List Char} {i : Nat}, s[i]? = some '\x7d' ↔ braceAt s i = some .closing := by
    intro s i
    unfold braceAt
    cases s[i]? with
    | none => simp
    | some x =>
      rw [Option.bind_some, Option.some.injEq, brace?]
      split_ifs with ho hc
      · rw [ho]
        decide
      · simp [hc]
      · simp [hc]
  unfold places
  rw [hlen]
  refine List.filter_congr fun i _ => decide_eq_decide.2 ⟨fun hi => ?_, fun hi => ?_⟩
  · rcases hkept.braceAt_eq i with hnone | heq
    · rw [hclosing, hnone] at hi
      exact nomatch hi
    · rwa [hclosing, ← heq, ← hclosing]
  · rw [WorkingCopy.text, List.getElem?_map] at hi ⊢
    change Option.map _ ((found { pattern := Pattern.char '\x7b' } w).foldl (classifyHit c masked false) w).cells[i]? = _
    rw [getElem?_foldl_classifyHit fun h hmem hcovers => ?_]
    · exact hi
    · rw [found_brace hclear (by decide)] at hmem
      obtain ⟨j, hj, rfl⟩ := List.mem_map.1 hmem
      obtain rfl : i = j := Nat.le_antisymm (Nat.le_of_lt_succ hcovers.2) hcovers.1
      rw [mem_places_iff, WorkingCopy.text, List.getElem?_map, hi] at hj
      exact absurd (Option.some.inj hj) (by decide)

/-- What the passes for braces record. -/
theorem tokens_bracePasses (hclear : Clear w) : (runPasses bracePasses w).tokens = w.tokens ++
    ((places '\x7b' w.text).map (fun i => ⟨.openBrace, i, i + 1⟩) ++
      (places '\x7d' w.text).map fun i => ⟨.closeBrace, i, i + 1⟩) := by
  change (classify { pattern := Pattern.char '\x7d' } .closeBrace masked false
    (classify { pattern := Pattern.char '\x7b' } .openBrace masked false w)).tokens = _
  rw [tokens_classify_brace ((kept_classify rfl _).clear hclear) (by decide), places_classify_opening hclear,
    tokens_classify_brace hclear (by decide), List.append_assoc]

theorem perm_braceTokens (s : List Char) :
    ((places '\x7b' s).map (fun i => (⟨.openBrace, i, i + 1⟩ : Token Category)) ++
      (places '\x7d' s).map fun i => (⟨.closeBrace, i, i + 1⟩ : Token Category)).Perm (braceTokens s) := by
  unfold places braceTokens
  generalize List.range s.length = is
  induction is with
  | nil => exact .refl _
  | cons i is ih =>
    have htoken : tokenAt s i = (s[i]?.bind brace?).map fun b => ⟨b.category, i, i + 1⟩ := rfl
    by_cases ho : s[i]? = some '\x7b'
    · have hc : ¬ s[i]? = some '\x7d' := by
        rw [ho]
        decide
      rw [List.filter_cons_of_pos (p := fun i => s[i]? = some '\x7b') (decide_eq_true ho),
        List.filter_cons_of_neg (p := fun i => s[i]? = some '\x7d') (by rwa [decide_eq_true_iff]),
        List.filterMap_cons_some (by rw [htoken, ho]; rfl)]
      exact ih.cons _
    · by_cases hc : s[i]? = some '\x7d'
      · rw [List.filter_cons_of_neg (p := fun i => s[i]? = some '\x7b') (by rwa [decide_eq_true_iff]),
          List.filter_cons_of_pos (p := fun i => s[i]? = some '\x7d') (decide_eq_true hc),
          List.filterMap_cons_some (by rw [htoken, hc]; rfl)]
        exact List.perm_middle.trans (ih.cons _)
      · have hnone : tokenAt s i = none := by
          rw [htoken]
          cases hi : s[i]? with
          | none => rfl
          | some x =>
            rw [hi] at ho hc
            rw [Option.bind_some, brace?_eq_none_iff.2 ⟨fun h => ho (congrArg some h), fun h => hc (congrArg some h)⟩]
            rfl
        rw [List.filter_cons_of_neg (p := fun i => s[i]? = some '\x7b') (by rwa [decide_eq_true_iff]),
          List.filter_cons_of_neg (p := fun i => s[i]? = some '\x7d') (by rwa [decide_eq_true_iff]),
          List.filterMap_cons_none hnone]
        exact ih

/-- The tokens of the braces stand in order of place. -/
theorem stream_braceTokens {s : List Char} {tokens : List (Token Category)} (h : tokens.Perm (braceTokens s)) :
    Token.stream tokens = braceTokens s := by
  have hmem : ∀ {k}, k ∈ braceTokens s → tokenAt s k.start = some k := by
    intro k hk
    obtain ⟨i, -, hi⟩ := List.mem_filterMap.1 hk
    obtain ⟨b, hb, rfl⟩ := Option.map_eq_some_iff.1 hi
    exact hi
  refine Token.stream_eq h ?_ fun place => Or.inl fun k hk l hl hks hls => ?_
  · refine List.pairwise_filterMap.2 (List.pairwise_lt_range.imp fun {i j} hij k hk l hl => ?_)
    obtain ⟨b, -, rfl⟩ := Option.map_eq_some_iff.1 hk
    obtain ⟨b', -, rfl⟩ := Option.map_eq_some_iff.1 hl
    exact Token.precedes_iff.2 (Or.inl hij)
  · have hstart : k.start = l.start := congrArg Span.start (hks.trans hls.symm)
    have hk' := hmem hk
    rw [hstart, hmem hl] at hk'
    exact (Option.some.inj hk').symm

end Tokenizer
end SourceLikeness
