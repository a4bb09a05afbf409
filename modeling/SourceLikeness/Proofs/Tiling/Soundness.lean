import SourceLikeness.Proofs.Tiling.Round

/-!
# What a tiling covers

* `elementsAt` : the elements of a list at some of its places;
* `tile_sound` : the tiles of a tiling are long enough, pair equal elements and have no place in common, and
  its weight is that of the elements which they cover;
* `tile_complete` : no run that is long enough is left between the tiles.
-/

namespace SourceLikeness.Tiling
variable {α : Type}

/-! ## The elements at some places -/

/-- The elements of a list at the places that have a property, in order. -/
def elementsAt (p : Nat → Prop) [DecidablePred p] (xs : List α) : List α :=
  (xs.zipIdx.filter fun e => p e.2).map Prod.fst

theorem filterMap_gaps (p : Nat → Prop) [DecidablePred p] (es : List (α × Nat)) :
    (es.map fun e => if p e.2 then none else some e.1).filterMap id =
      (es.filter fun e => ¬ p e.2).map Prod.fst := by
  induction es with
  | nil => rfl
  | cons e es ih =>
    rw [List.map_cons]
    by_cases h : p e.2
    · rw [if_pos h, List.filterMap_cons_none rfl, List.filter_cons_of_neg (by simp [h]), ih]
    · rw [if_neg h, List.filterMap_cons_some (f := id) rfl, List.filter_cons_of_pos (by simp [h]), List.map_cons, ih]

theorem Shows.eq_map {covered : Nat → Prop} [DecidablePred covered] {xs : List α} {gaps : List (Option α)}
    (h : Shows covered xs gaps) : gaps = xs.zipIdx.map fun e => if covered e.2 then none else some e.1 := by
  refine List.ext_getElem? fun p => ?_
  rw [List.getElem?_map, List.getElem?_zipIdx, Nat.zero_add]
  rcases Nat.lt_or_ge p xs.length with hp | hp
  · have hgap : p < gaps.length := by rw [h.length_eq]; exact hp
    simp only [List.getElem?_eq_getElem hp, Option.map_some]
    split_ifs with hc
    · rw [List.getElem?_eq_getElem hgap]
      cases ho : gaps[p] with
      | none => rfl
      | some x =>
        refine absurd hc ((h.getElem?_eq_iff p x).1 ?_).2
        rw [List.getElem?_eq_getElem hgap, ho]
    · exact (h.getElem?_eq_iff p _).2 ⟨List.getElem?_eq_getElem hp, hc⟩
  · rw [List.getElem?_eq_none hp, List.getElem?_eq_none (by rw [h.length_eq]; exact hp)]
    rfl

section Weight
variable [Weighted α]

theorem weigh_filter_add (p : α × Nat → Bool) (es : List (α × Nat)) :
    weigh ((es.filter p).map Prod.fst) + weigh ((es.filter fun e => !p e).map Prod.fst) =
      weigh (es.map Prod.fst) := by
  induction es with
  | nil => rfl
  | cons e es ih =>
    rw [List.map_cons, weigh]
    cases h : p e with
    | true =>
      rw [List.filter_cons_of_pos h, List.filter_cons_of_neg (by simp [h]), List.map_cons, weigh]
      omega
    | false =>
      rw [List.filter_cons_of_neg (by simp [h]), List.filter_cons_of_pos (by simp [h]), List.map_cons, weigh]
      omega

/-- The elements at some places and those at the others make up the weight of a list. -/
theorem weigh_elementsAt_add (p : Nat → Prop) [DecidablePred p] (xs : List α) :
    weigh (elementsAt p xs) + weigh (elementsAt (fun i => ¬ p i) xs) = weigh xs := by
  have h := weigh_filter_add (fun e => decide (p e.2)) xs.zipIdx
  rw [List.zipIdx_map_fst] at h
  simpa only [elementsAt, decide_not] using h

/-- What is left of a list weighs as much as its elements that are not covered. -/
theorem Shows.weighOpen_eq {covered : Nat → Prop} [DecidablePred covered] {xs : List α}
    {gaps : List (Option α)} (h : Shows covered xs gaps) :
    weighOpen gaps = weigh (elementsAt (fun p => ¬ covered p) xs) := by
  rw [h.eq_map, weighOpen, filterMap_gaps]
  rfl

end Weight

/-! ## Soundness and completeness -/

variable [BEq α] [Weighted α]

/-- **A tiling is sound.** Each of its tiles is long enough, lies inside both lists and pairs equal
elements; no place of either list is covered twice; and its weight is that of the elements of the
candidate that are covered, which is no more than that of the candidate and, if equal elements weigh the
same, no more than that of the reference. -/
theorem tile_sound (candidate reference : List α) (minRun : Nat) :
    (∀ t ∈ (tile candidate reference minRun).tiles,
      max 1 minRun ≤ t.length ∧ t.candidate + t.length ≤ candidate.length ∧
        t.reference + t.length ≤ reference.length ∧ Pairs candidate reference t) ∧
    (tile candidate reference minRun).tiles.Pairwise Tile.Apart ∧
    (tile candidate reference minRun).matchedWeight =
      weigh (elementsAt (fun p => ∃ t ∈ (tile candidate reference minRun).tiles, t.CoversCandidate p) candidate) ∧
    (tile candidate reference minRun).matchedWeight ≤ weigh candidate ∧
    ((∀ x y : α, (x == y) = true → Weighted.weight x = Weighted.weight y) →
      (tile candidate reference minRun).matchedWeight ≤ weigh reference) := by
  obtain ⟨hsound, -⟩ := Cover.sound_rounds_start candidate reference minRun
  have hopen := hsound.leaves.candidate.weighOpen_eq
  have hsplit := weigh_elementsAt_add
    (fun p => ∃ t ∈ (tile candidate reference minRun).tiles, t.CoversCandidate p) candidate
  have hcandidate : (tile candidate reference minRun).matchedWeight + weighOpen _ = weigh candidate :=
    hsound.weight_candidate
  refine ⟨?_, hsound.greedy.pairwise_apart, ?_, ?_, ?_⟩
  · intro t ht
    obtain ⟨hle, hpairs⟩ := hsound.greedy.pairs t ht
    exact ⟨hle, hpairs.candidate_le (by omega), hpairs.reference_le (by omega), hpairs⟩
  · rw [hopen] at hcandidate
    exact Nat.add_right_cancel (hcandidate.trans hsplit.symm)
  · omega
  · intro hw
    have hreference : (tile candidate reference minRun).matchedWeight + weighOpen _ = weigh reference :=
      hsound.weight_reference hw
    omega

/-- Of three symbols the first two are covered. Symbols that are equal weigh the same, so that the weight is
no more than that of the reference. -/
theorem tile_sound_aab :
    ⟨0, 0, 2⟩ ∈ (tile ['a', 'a', 'b'] ['a', 'a', 'a', 'a'] 2).tiles ∧
      Pairs ['a', 'a', 'b'] ['a', 'a', 'a', 'a'] ⟨0, 0, 2⟩ ∧
      (tile ['a', 'a', 'b'] ['a', 'a', 'a', 'a'] 2).matchedWeight ≤ weigh ['a', 'a', 'a', 'a'] := by
  have hmem : ⟨0, 0, 2⟩ ∈ (tile ['a', 'a', 'b'] ['a', 'a', 'a', 'a'] 2).tiles := by decide
  obtain ⟨htiles, -, -, -, hreference⟩ := tile_sound ['a', 'a', 'b'] ['a', 'a', 'a', 'a'] 2
  exact ⟨hmem, (htiles _ hmem).2.2.2, hreference fun _ _ _ => rfl⟩

/-- **A tiling is complete.** No run of equal elements that is long enough is left of which no element is
covered. -/
theorem tile_complete (candidate reference : List α) (minRun : Nat) :
    ¬ ∃ i j n, max 1 minRun ≤ n ∧
      (∀ k < n, ∃ x y, candidate[i + k]? = some x ∧ reference[j + k]? = some y ∧ (x == y) = true) ∧
      ∀ k < n, ∀ t ∈ (tile candidate reference minRun).tiles,
        ¬ t.CoversCandidate (i + k) ∧ ¬ t.CoversReference (j + k) := by
  rintro ⟨i, j, n, hn, hpairs, hclear⟩
  have hless := (isGreedyTiling_tile candidate reference minRun).2 ⟨i, j, n⟩
  refine absurd hn (Nat.not_le_of_lt (hless ⟨hpairs, fun s hs => ⟨?_, ?_⟩⟩))
  · rintro p ⟨hs', hle, hlt⟩
    refine (hclear (p - i) (by dsimp only at hle hlt; omega) s hs).1 ?_
    rwa [Nat.add_sub_cancel' hle]
  · rintro p ⟨hs', hle, hlt⟩
    refine (hclear (p - j) (by dsimp only at hle hlt; omega) s hs).2 ?_
    rwa [Nat.add_sub_cancel' hle]

end SourceLikeness.Tiling
