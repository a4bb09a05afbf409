import SourceLikeness.Proofs.Pattern.Behind
import SourceLikeness.Proofs.Pattern.Within

/-!
# Searching by retries

A finder looks at every start of a text. The same hits are found by a search that jumps to the next reading: from a
place on it is given the preferred reading with the least start, goes on at the end of its token (or of the whole
reading) if it is a hit, and retries one place behind its start if it is not.

* `Pattern.readAt`, `Pattern.Seeks` : the preferred reading at a start, and what is asked of a function that gives the
  next one; `Pattern.seek` is such a function, for every pattern and every text (`seeks_seek`);
* `Finder.approves` : what makes a reading a hit;
* `Finder.Finds` : the walk over the starts as rules; it has one result (`finds_iff`);
* `Finder.Search`, `round`, `search` : the search by retries. What a round leaves to be found is what the walk finds
  from the next place on (`round_finds`), so that the search finds what the walk finds (`search_finds`);
* `search_eq_hitsWhere` : the search stops, and its hits are those of the finder.
-/

namespace SourceLikeness
open Text (charBefore)

/-! ## The next reading -/

namespace Pattern
variable {p : Pattern} {s : List Char} {h : Hit} {i : Nat}

/-- What a pattern prefers to read at a start. -/
def readAt (p : Pattern) (s : List Char) (i : Nat) : Option Hit :=
  (p.read (Finder.start s i)).map fun d => ⟨⟨i, d.offset⟩, d.parts⟩

/-- A function gives the preferred reading with the least start from a place on. -/
structure Seeks (p : Pattern) (s : List Char) (find : Nat → Option Hit) : Prop where
  found : ∀ {i h}, i ≤ s.length → find i = some h →
    i ≤ h.whole.start ∧ h.whole.start ≤ s.length ∧ p.readAt s h.whole.start = some h ∧
      ∀ k, i ≤ k → k < h.whole.start → p.readAt s k = none
  missed : ∀ {i}, i ≤ s.length → find i = none → ∀ k, i ≤ k → k ≤ s.length → p.readAt s k = none

/-- The first of the starts from a place on at which the pattern reads something. -/
def seek (p : Pattern) (s : List Char) (i : Nat) : Option Hit :=
  (List.range' i (s.length + 1 - i)).findSome? (p.readAt s)

theorem start_of_readAt (h' : p.readAt s i = some h) : h.whole.start = i := by
  obtain ⟨d, -, rfl⟩ := Option.map_eq_some_iff.1 h'
  rfl

theorem seeks_seek (p : Pattern) (s : List Char) : p.Seeks s (p.seek s) where
  found {i h} _ hfind := by
    obtain ⟨before, j, behind, hrange, hread, hnone⟩ := List.findSome?_eq_some_iff.1 hfind
    obtain ⟨k, hk, rfl, htail⟩ := List.range'_eq_append_iff.1 hrange
    obtain ⟨hj, -⟩ := List.range'_eq_cons_iff.1 htail.symm
    obtain rfl : h.whole.start = j := start_of_readAt hread
    have hmem : h.whole.start ∈ List.range' i (s.length + 1 - i) := by
      rw [hrange]
      exact List.mem_append_right _ List.mem_cons_self
    rw [List.mem_range'_1] at hmem
    refine ⟨hmem.1, by omega, hread, fun m hle hlt => hnone m ?_⟩
    rw [List.mem_range'_1]
    omega
  missed {i} hi hfind k hle hlen := by
    refine List.findSome?_eq_none_iff.1 hfind k ?_
    rw [List.mem_range'_1]
    omega

end Pattern

namespace Finder
variable {f : Finder} {accept : Hit → Bool} {s : List Char} {find : Nat → Option Hit} {g h : Hit} {hs hs' : List Hit}
  {i j n : Nat}

/-! ## The walk as rules -/

/-- Whether a reading is a hit: the finder likes the characters around it, its token does not begin with a barred word,
and it is accepted. What else is asked of the text of the token is part of `accept`. -/
def approves (f : Finder) (accept : Hit → Bool) (s : List Char) (h : Hit) : Bool :=
  f.before (charBefore s h.whole.start) && f.after s[h.whole.stop]? && !f.bars h (s.drop h.whole.start) && accept h

/-- The hits of a walk over the starts of a text, from a start on. Behind a hit the walk goes on at the end of the token,
or of the whole hit, but always past the start. -/
inductive Finds (f : Finder) (accept : Hit → Bool) (s : List Char) : Nat → List Hit → Prop
  | stop {i : Nat} (hi : s.length < i) : Finds f accept s i []
  | pass {i : Nat} {hs : List Hit} (hi : i ≤ s.length)
      (hno : ∀ h, f.pattern.readAt s i = some h → f.approves accept s h = false) (hrest : Finds f accept s (i + 1) hs) :
      Finds f accept s i hs
  | hit {i : Nat} {h : Hit} {hs : List Hit} (hi : i ≤ s.length) (hread : f.pattern.readAt s i = some h)
      (hok : f.approves accept s h = true) (hrest : Finds f accept s (max (f.resume h) (i + 1)) hs) :
      Finds f accept s i (h :: hs)

/-- The hit at a start is the preferred reading there if it is one. -/
theorem hitOf_eq_filter (i : Nat) : f.hitOf accept s i = (f.pattern.readAt s i).filter (f.approves accept s) := by
  unfold hitOf hitAt Pattern.readAt start
  cases hd : f.pattern.read ⟨i, charBefore s i, s.drop i, []⟩ with
  | none => rw [ite_self, Option.map_none, Option.filter_none]
  | some d =>
    have hin : d.In s := ((Pattern.reads_of_read hd).mem (in_start s i)).1
    rw [Option.map_some, Option.filter_some]
    unfold approves
    dsimp only
    rw [hin.head?]
    cases f.before (charBefore s i) <;> rfl

theorem hitOf_eq_some_iff : f.hitOf accept s i = some h ↔ f.pattern.readAt s i = some h ∧ f.approves accept s h = true := by
  rw [hitOf_eq_filter, Option.filter_eq_some_iff]

theorem hitOf_eq_none_iff :
    f.hitOf accept s i = none ↔ ∀ h, f.pattern.readAt s i = some h → f.approves accept s h = false := by
  rw [hitOf_eq_filter, Option.filter_eq_none_iff]
  simp only [Bool.not_eq_true]

/-- The rules have one result at most. -/
theorem Finds.unique (h : f.Finds accept s i hs) (h' : f.Finds accept s i hs') : hs = hs' := by
  induction h generalizing hs' with
  | stop hi =>
    cases h' with
    | stop => rfl
    | pass hle | hit hle => omega
  | pass hi hno _ ih =>
    cases h' with
    | stop hlt => omega
    | pass _ _ hrest => exact ih hrest
    | hit _ hread hok => exact Bool.noConfusion ((hno _ hread).symm.trans hok)
  | hit hi hread hok _ ih =>
    cases h' with
    | stop hlt => omega
    | pass _ hno => exact Bool.noConfusion ((hno _ hread).symm.trans hok)
    | hit _ hread' _ hrest =>
      obtain rfl := Option.some.inj (hread.symm.trans hread')
      rw [ih hrest]

/-- The hits of the walk from a start on. -/
def hitsBehind (f : Finder) (accept : Hit → Bool) (s : List Char) (i : Nat) : List Hit :=
  if i ≤ s.length then f.walk accept s i 0 else []

/-- A walk that may not start a hit before a place goes on from there. -/
theorem walk_eq_hitsBehind (hj : j ≤ s.length) (r : Nat) : f.walk accept s j r = f.hitsBehind accept s (max r j) := by
  induction hn : r - j generalizing j with
  | zero =>
    have hr : r ≤ j := by omega
    rw [Nat.max_eq_right hr, hitsBehind, if_pos hj, walk_of_resume_le hr]
  | succ n ih =>
    have hlt : j < r := by omega
    have hmax : max r j = max r (j + 1) := by omega
    rcases walk_cases f accept s j r with ⟨hwalk, -⟩ | ⟨h, hle, -⟩
    · rw [hwalk, hmax]
      split_ifs with hlen
      · exact ih hlen (by omega)
      · rw [hitsBehind, if_neg (by omega)]
    · omega

/-- The walk follows the rules. -/
theorem finds_hitsBehind (f : Finder) (accept : Hit → Bool) (s : List Char) (i : Nat) :
    f.Finds accept s i (f.hitsBehind accept s i) := by
  induction hn : s.length + 1 - i using Nat.strongRecOn generalizing i with
  | ind n ih =>
    rcases Nat.lt_or_ge s.length i with hi | hi
    · rw [hitsBehind, if_neg (Nat.not_le.2 hi)]
      exact .stop hi
    · have hstep : ∀ r, (if i < s.length then f.walk accept s (i + 1) r else []) =
          f.hitsBehind accept s (max r (i + 1)) := by
        intro r
        split_ifs with hlen
        · exact walk_eq_hitsBehind hlen r
        · rw [hitsBehind, if_neg (by omega)]
      rw [hitsBehind, if_pos hi]
      rcases walk_cases f accept s i 0 with ⟨hwalk, hnone⟩ | ⟨h, -, hhit, hwalk⟩
      · rw [hwalk, hstep, Nat.zero_max]
        exact .pass hi (hitOf_eq_none_iff.1 (hnone.resolve_left (Nat.not_lt_zero i))) (ih _ (by omega) _ rfl)
      · rw [hwalk, hstep]
        obtain ⟨hread, hok⟩ := hitOf_eq_some_iff.1 hhit
        exact .hit hi hread hok (ih _ (by omega) _ rfl)

theorem finds_iff : f.Finds accept s 0 hs ↔ hs = f.hitsWhere accept s := by
  have hwalk : f.Finds accept s 0 (f.hitsWhere accept s) := by
    have hbehind := finds_hitsBehind f accept s 0
    rwa [hitsBehind, if_pos (Nat.zero_le _)] at hbehind
  constructor
  · intro h
    exact h.unique hwalk
  · rintro rfl
    exact hwalk

/-- Starts at which nothing reads are passed. -/
theorem Finds.of_readAt_eq_none (h : f.Finds accept s j hs) (hij : i ≤ j) (hj : j ≤ s.length + 1)
    (hnone : ∀ k, i ≤ k → k < j → f.pattern.readAt s k = none) : f.Finds accept s i hs := by
  induction hn : j - i generalizing i with
  | zero =>
    obtain rfl : i = j := by omega
    exact h
  | succ n ih =>
    have hno := hnone i (Nat.le_refl i) (by omega)
    refine .pass (by omega) (fun g hg => ?_) (ih (by omega) (fun k hk => hnone k (by omega)) (by omega))
    rw [hno] at hg
    exact nomatch hg

/-! ## The search -/

/-- Where a search by retries stands: the place that it looks from, and the hits so far. -/
structure Search where
  place : Nat
  found : List Hit

/-- One round of a search, if it does not stop. -/
def round (f : Finder) (accept : Hit → Bool) (s : List Char) (find : Nat → Option Hit) (w : Search) : Option Search :=
  if w.place ≤ s.length then
    (find w.place).map fun h =>
      let retry := h.whole.start + 1
      if f.approves accept s h then ⟨max (f.resume h) retry, w.found ++ [h]⟩ else ⟨retry, w.found⟩
  else none

/-- The hits of a search, if it stops within a number of rounds. -/
def search (f : Finder) (accept : Hit → Bool) (s : List Char) (find : Nat → Option Hit) : Nat → Search → Option (List Hit)
  | 0, _ => none
  | n + 1, w =>
    match f.round accept s find w with
    | none => some w.found
    | some w' => search f accept s find n w'

variable {w w' : Search}

/-- Where a search stops, the walk finds nothing more. -/
theorem finds_of_round_eq_none (hfind : f.pattern.Seeks s find) (hw : f.round accept s find w = none) :
    f.Finds accept s w.place [] := by
  unfold round at hw
  split_ifs at hw with hplace
  · have hnone := hfind.missed hplace (Option.map_eq_none_iff.1 hw)
    exact (Finds.stop (Nat.lt_succ_self _)).of_readAt_eq_none (by omega) (Nat.le_refl _)
      fun k hk hlt => hnone k hk (Nat.le_of_lt_succ hlt)
  · exact .stop (Nat.not_le.1 hplace)

/-- A round goes on at a later place. It adds what the walk finds before that place. -/
theorem round_finds (hfind : f.pattern.Seeks s find) (hw : f.round accept s find w = some w') :
    w.place < w'.place ∧ ∃ gs, w'.found = w.found ++ gs ∧
      ∀ hs, f.Finds accept s w'.place hs → f.Finds accept s w.place (gs ++ hs) := by
  unfold round at hw
  split_ifs at hw with hplace
  obtain ⟨h, hh, rfl⟩ := Option.map_eq_some_iff.1 hw
  obtain ⟨hle, hlen, hread, hnone⟩ := hfind.found hplace hh
  dsimp only
  split_ifs with hok
  · refine ⟨by dsimp only; omega, [h], rfl, fun hs hrest => ?_⟩
    exact (Finds.hit hlen hread hok hrest).of_readAt_eq_none hle (by omega) hnone
  · refine ⟨by dsimp only; omega, [], (List.append_nil _).symm, fun hs hrest => ?_⟩
    refine (Finds.pass hlen (fun g hg => ?_) hrest).of_readAt_eq_none hle (by omega) hnone
    obtain rfl := Option.some.inj (hread.symm.trans hg)
    exact Bool.eq_false_iff.2 hok

/-- A search with a round for each place that is left stops, and adds what the walk finds. -/
theorem search_finds (hfind : f.pattern.Seeks s find) (hn : s.length + 1 - w.place < n) :
    ∃ hs, f.search accept s find n w = some (w.found ++ hs) ∧ f.Finds accept s w.place hs := by
  induction n generalizing w with
  | zero => omega
  | succ n ih =>
    rw [search]
    cases hw : f.round accept s find w with
    | none => exact ⟨[], by rw [List.append_nil], finds_of_round_eq_none hfind hw⟩
    | some w' =>
      obtain ⟨hlt, gs, hfound, hgs⟩ := round_finds hfind hw
      have hplace : w.place ≤ s.length := by
        by_contra hbehind
        rw [round, if_neg hbehind] at hw
        exact nomatch hw
      obtain ⟨hs, hsearch, hfinds⟩ := ih (w := w') (by omega)
      refine ⟨gs ++ hs, ?_, hgs hs hfinds⟩
      dsimp only
      rw [hsearch, hfound, List.append_assoc]

/-! ## The hits -/

/-- Behind the token of a hit start the tokens of the hits after it. -/
theorem pairwise_token (f : Finder) (accept : Hit → Bool) (s : List Char) :
    (f.hitsWhere accept s).Pairwise fun g h => g.token.stop ≤ h.token.start := by
  refine (pairwise_hitsWhere f accept s).imp_of_mem fun {g h} hg hh hle => ?_
  have hstart : h.whole.start ≤ h.token.start := (within_of_mem hh).token.le
  have hstop : g.token.stop ≤ f.resume g := by
    unfold resume
    split_ifs
    · exact (within_whole_of_mem hg).token.stop_le
    · exact Nat.le_refl _
  omega

/-- Behind a hit start the hits after it, if the finder consumes its hits or notes no pieces. -/
theorem pairwise_whole (hf : f.consumes = true ∨ f.pattern.partless = true) (accept : Hit → Bool) (s : List Char) :
    (f.hitsWhere accept s).Pairwise fun g h => g.whole.stop ≤ h.whole.start := by
  refine (pairwise_hitsWhere f accept s).imp_of_mem fun {g h} hg _ hle => ?_
  have hresume : f.resume g = g.whole.stop := by
    rcases hf with hconsumes | hpartless
    · rw [resume, if_pos hconsumes]
    · exact resume_eq_stop hpartless hg
  rwa [hresume] at hle

/-- **The search by retries and the walk find the same hits.** Given a function that gives the next reading, the search
stops, after no more rounds than there are places, and its hits are those of the finder, which are the one result of the
walk over the starts. Their tokens come in the order of the text and do not overlap, and neither do the whole hits, if the
finder consumes them or its pattern notes no pieces. Offsets count characters, which in a text of ASCII are its bytes. -/
theorem search_eq_hitsWhere (f : Finder) (accept : Hit → Bool) (s : List Char) {find : Nat → Option Hit}
    (hfind : f.pattern.Seeks s find) :
    f.search accept s find (s.length + 2) ⟨0, []⟩ = some (f.hitsWhere accept s) ∧
      (∀ hs, f.Finds accept s 0 hs ↔ hs = f.hitsWhere accept s) ∧
      (∀ h ∈ f.hitsWhere accept s, h.token.start ≤ h.token.stop) ∧
      (f.hitsWhere accept s).Pairwise (fun g h => g.token.stop ≤ h.token.start) ∧
      (f.consumes = true ∨ f.pattern.partless = true →
        (f.hitsWhere accept s).Pairwise fun g h => g.whole.stop ≤ h.whole.start) := by
  refine ⟨?_, fun hs => finds_iff, fun h hmem => (within_of_mem hmem).token.start_le_stop, pairwise_token f accept s,
    fun hf => pairwise_whole hf accept s⟩
  obtain ⟨hs, hsearch, hfinds⟩ :
      ∃ hs, f.search accept s find (s.length + 2) ⟨0, []⟩ = some ([] ++ hs) ∧ f.Finds accept s 0 hs :=
    search_finds hfind (Nat.lt_succ_self _)
  rw [hsearch, List.nil_append, finds_iff.1 hfinds]

/-- Stars behind a name: the second star is refused, and so is the retry one place behind the blank before it. -/
theorem search_eq_hitsWhere_stars :
    let f : Finder := ⟨.all [.blanks, .part .token (.char '*')], fun c => c.any Text.isAsciiWord, fun _ => true, [], false⟩
    let s := ['a', ' ', '*', ' ', '*', 'b', ' ', '*']
    f.pattern.Seeks s (f.pattern.seek s) ∧ (f.hitsWhere (fun _ => true) s).map Hit.token = [⟨2, 3⟩, ⟨7, 8⟩] ∧
      f.search (fun _ => true) s (f.pattern.seek s) (s.length + 2) ⟨0, []⟩ = some (f.hitsWhere (fun _ => true) s) := by
  intro f s
  have hseeks : f.pattern.Seeks s (f.pattern.seek s) := Pattern.seeks_seek f.pattern s
  exact ⟨hseeks, by decide +kernel, (search_eq_hitsWhere f (fun _ => true) s hseeks).1⟩

end Finder
end SourceLikeness
