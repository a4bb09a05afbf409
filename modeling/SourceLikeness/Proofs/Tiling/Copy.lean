import SourceLikeness.Proofs.Tiling.Threshold

/-!
# Copies

A candidate that stands as a whole in the reference is one tile, at the first place where it stands.

* `pairs_wholeAt_iff` : the whole candidate as a tile;
* `isGreedyTiling_copy` : that tile alone is the greedy tiling;
* `tile_eq_of_copy` : so it is what `tile` returns, and all of the candidate is covered.
-/

namespace SourceLikeness.Tiling
variable {α : Type} [BEq α] {candidate reference : List α} {least j : Nat}

/-- The tile of a whole candidate. -/
def wholeAt (candidate : List α) (j : Nat) : Tile := ⟨0, j, candidate.length⟩

theorem isPrefixOf_iff_forall (xs ys : List α) : xs.isPrefixOf ys = true ↔
    ∀ k < xs.length, ∃ x y, xs[k]? = some x ∧ ys[k]? = some y ∧ (x == y) = true := by
  induction xs generalizing ys with
  | nil => exact iff_of_true rfl fun k hk => absurd hk (Nat.not_lt_zero k)
  | cons x xs ih =>
    cases ys with
    | nil =>
      refine iff_of_false Bool.false_ne_true fun h => ?_
      obtain ⟨-, y, -, hy, -⟩ := h 0 (Nat.zero_lt_succ _)
      exact nomatch hy
    | cons y ys =>
      rw [List.isPrefixOf, Bool.and_eq_true, ih, List.length_cons, Nat.forall_lt_succ_left]
      simp

/-- A candidate that stands at a place of the reference is a run there. -/
theorem pairs_wholeAt_iff : Pairs candidate reference (wholeAt candidate j) ↔ candidate.isPrefixOf (reference.drop j) = true := by
  rw [isPrefixOf_iff_forall]
  simp only [Pairs, wholeAt, Nat.zero_add, List.getElem?_drop]

/-- A run that is as long as the candidate is all of it. -/
theorem eq_wholeAt {t : Tile} (h : Pairs candidate reference t) (hlength : t.length = candidate.length) (ht : 0 < t.length) :
    t = wholeAt candidate t.reference := by
  have hle := h.candidate_le ht
  have hstart : t.candidate = 0 := by omega
  rw [wholeAt, ← hlength, ← hstart]

/-- **Copies.** The tile of the whole candidate at the first place where it stands is the greedy tiling: it is the
longest run, and leaves nothing of the candidate. -/
theorem isGreedyTiling_copy (hleast : 0 < least) (hlong : least ≤ candidate.length)
    (hj : candidate.isPrefixOf (reference.drop j) = true) (hfirst : ∀ i < j, candidate.isPrefixOf (reference.drop i) = false) :
    IsGreedyTiling least candidate reference [wholeAt candidate j] := by
  have hlongest : ∀ u, Pairs candidate reference u → u.length ≤ candidate.length := by
    intro u hu
    rcases Nat.eq_zero_or_pos u.length with hzero | hpos
    · omega
    · have hle := hu.candidate_le hpos
      omega
  have hchoice : IsChoice least (Available candidate reference []) (wholeAt candidate j) := by
    refine ⟨⟨pairs_wholeAt_iff.2 hj, List.forall_mem_nil _⟩, hlong, fun u hu => hlongest u hu.1, fun u hu hlength => ?_⟩
    have hwhole := eq_wholeAt hu.1 hlength (by rw [hlength]; exact Nat.lt_of_lt_of_le hleast hlong)
    have hstands : candidate.isPrefixOf (reference.drop u.reference) = true := by
      rw [← pairs_wholeAt_iff, ← hwhole]
      exact hu.1
    rcases Nat.lt_trichotomy u.reference j with hlt | heq | hgt
    · rw [hfirst _ hlt] at hstands
      exact Bool.noConfusion hstands
    · rw [heq] at hwhole
      exact Or.inl hwhole
    · rw [hwhole]
      exact Or.inr (Or.inr ⟨rfl, hgt⟩)
  refine ⟨.commit .start hchoice, fun t ht => ?_⟩
  by_contra hlen
  have hpos : 0 < t.length := by omega
  have hle := ht.1.candidate_le hpos
  have hcovered : (wholeAt candidate j).CoversCandidate t.candidate := ⟨Nat.zero_le _, by rw [wholeAt]; dsimp only; omega⟩
  exact (ht.2 _ (List.mem_singleton_self _)).1 t.candidate ⟨hcovered, Nat.le_refl _, by omega⟩

variable [Weighted α]

omit [BEq α] [Weighted α] in
/-- Where every place is left out, no element is left. -/
theorem elementsAt_eq_nil {p : Nat → Prop} [DecidablePred p] (h : ∀ k < candidate.length, ¬ p k) :
    elementsAt p candidate = [] := by
  rw [elementsAt, List.map_eq_nil_iff, List.filter_eq_nil_iff]
  intro e he
  rw [decide_eq_true_iff]
  exact h e.2 (by have := (List.mem_zipIdx he).2.1; omega)

/-- The tiling of a candidate whose first place in the reference is known. -/
theorem tile_eq_of_first {minRun : Nat} (hlong : max 1 minRun ≤ candidate.length)
    (hj : candidate.isPrefixOf (reference.drop j) = true) (hfirst : ∀ i < j, candidate.isPrefixOf (reference.drop i) = false) :
    tile candidate reference minRun = ⟨[wholeAt candidate j], weigh candidate, weigh candidate⟩ := by
  have htiles : (tile candidate reference minRun).tiles = [wholeAt candidate j] :=
    (isGreedyTiling_tile candidate reference minRun).unique (isGreedyTiling_copy (by omega) hlong hj hfirst)
  have hweight := matchedWeight_add_weigh candidate reference minRun
  rw [htiles, elementsAt_eq_nil, weigh, Nat.add_zero] at hweight
  · change Tiling.mk (tile candidate reference minRun).tiles (tile candidate reference minRun).matchedWeight _ = _
    rw [htiles, hweight]
  · intro k hk hclear
    exact hclear ⟨_, List.mem_singleton_self _, Nat.zero_le k, by rw [wholeAt]; dsimp only; omega⟩

/-- A candidate that is its own reference is one tile. -/
theorem tile_self [ReflBEq α] {minRun : Nat} (hlong : max 1 minRun ≤ candidate.length) :
    tile candidate candidate minRun = ⟨[⟨0, 0, candidate.length⟩], weigh candidate, weigh candidate⟩ :=
  tile_eq_of_first hlong
    ((isPrefixOf_iff_forall _ _).2 fun _ hk => ⟨_, _, List.getElem?_eq_getElem hk, List.getElem?_eq_getElem hk, BEq.rfl⟩)
    fun i hi => absurd hi (Nat.not_lt_zero i)

/-- **A copy is found whole.** If a candidate that is long enough stands in the reference, then its tiling is a single
tile, all of the candidate at the first place where it stands, and the weight is that of the candidate. -/
theorem tile_eq_of_copy (candidate reference : List α) (minRun : Nat) (hlong : max 1 minRun ≤ candidate.length)
    (hcopy : ∃ i, candidate.isPrefixOf (reference.drop i) = true) :
    ∃ j, candidate.isPrefixOf (reference.drop j) = true ∧ (∀ i < j, candidate.isPrefixOf (reference.drop i) = false) ∧
      tile candidate reference minRun = ⟨[⟨0, j, candidate.length⟩], weigh candidate, weigh candidate⟩ := by
  have hfirst : ∀ i < Nat.find hcopy, candidate.isPrefixOf (reference.drop i) = false :=
    fun i hi => Bool.eq_false_iff.2 (Nat.find_min hcopy hi)
  exact ⟨Nat.find hcopy, Nat.find_spec hcopy, hfirst, tile_eq_of_first hlong (Nat.find_spec hcopy) hfirst⟩

/-- Three symbols that stand twice in the reference are found at the first place. -/
theorem tile_eq_of_copy_aba :
    tile ['a', 'b', 'a'] ['b', 'a', 'b', 'a', 'b', 'a'] 2 = ⟨[⟨0, 1, 3⟩], 3, 3⟩ := by
  obtain ⟨j, hj, hfirst, htile⟩ := tile_eq_of_copy ['a', 'b', 'a'] ['b', 'a', 'b', 'a', 'b', 'a'] 2 (by decide)
    ⟨1, by decide⟩
  have hpos : j ≠ 0 := by
    rintro rfl
    exact absurd hj (by decide)
  have hle : ¬ 1 < j := fun hlt => absurd (hfirst 1 hlt) (by decide)
  obtain rfl : j = 1 := by omega
  exact htile

end SourceLikeness.Tiling
