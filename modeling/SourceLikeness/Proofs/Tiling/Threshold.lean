import SourceLikeness.Proofs.Tiling.Soundness
import Mathlib.Data.List.Infix

/-!
# Tilings of a greater least length

Asking for longer tiles takes the shortest away from a tiling and leaves the others as they are.

* `Greedy.mono` : tiles that are chosen with a greater least length are chosen with a smaller one too;
* `IsGreedyTiling.exists_short` : so they come first, and all others are shorter;
* `tiles_tile_eq_filter` : the tiles and the weight of a tiling of a greater least length.
-/

namespace SourceLikeness.Tiling
variable {α : Type} [BEq α] {candidate reference : List α} {least least' : Nat}

theorem IsChoice.mono {free : Tile → Prop} {t : Tile} (h : IsChoice least' free t) (hle : least ≤ least') :
    IsChoice least free t :=
  ⟨h.available, Nat.le_trans hle h.least_le, h.longest, h.first⟩

theorem Greedy.mono {tiles : List Tile} (h : Greedy least' candidate reference tiles) (hle : least ≤ least') :
    Greedy least candidate reference tiles := by
  induction h with
  | start => exact .start
  | commit _ hc ih => exact .commit ih (hc.mono hle)

/-- What can be chosen after some tiles could be chosen after fewer. -/
theorem Available.of_append {tiles rest : List Tile} {t : Tile} (h : Available candidate reference (tiles ++ rest) t) :
    Available candidate reference tiles t :=
  ⟨h.1, fun s hs => h.2 s (List.mem_append_left _ hs)⟩

/-- The tiles that are long enough for a greater least length come first, and all others are too short for it. -/
theorem IsGreedyTiling.exists_short {long all : List Tile} (hlong : IsGreedyTiling least' candidate reference long)
    (hall : IsGreedyTiling least candidate reference all) (hle : least ≤ least') :
    ∃ short, all = long ++ short ∧ ∀ t ∈ short, t.length < least' := by
  obtain ⟨short, rfl⟩ := (hlong.1.mono hle).prefix_of_isGreedyTiling hall
  refine ⟨short, rfl, fun t ht => ?_⟩
  obtain ⟨before, after, rfl⟩ := List.append_of_mem ht
  have hall' : Greedy least candidate reference ((long ++ before) ++ t :: after) := by
    rw [List.append_assoc]
    exact hall.1
  exact hlong.2 t hall'.isChoice.available.of_append

section Weight
variable [Weighted α]

omit [BEq α] in
theorem weigh_le_of_sublist {xs ys : List α} (h : xs.Sublist ys) : weigh xs ≤ weigh ys := by
  induction h with
  | slnil => exact Nat.le_refl 0
  | cons y _ ih =>
    rw [weigh]
    exact Nat.le_trans ih (Nat.le_add_left _ _)
  | cons_cons x _ ih =>
    rw [weigh, weigh]
    exact Nat.add_le_add_left ih _

omit [BEq α] in
/-- The elements at some places weigh no more than those at more places. -/
theorem weigh_elementsAt_mono {p q : Nat → Prop} [DecidablePred p] [DecidablePred q] (h : ∀ i, p i → q i)
    (xs : List α) : weigh (elementsAt p xs) ≤ weigh (elementsAt q xs) := by
  refine weigh_le_of_sublist (List.Sublist.map Prod.fst (List.monotone_filter_right _ fun e he => ?_))
  exact decide_eq_true (h e.2 (of_decide_eq_true he))

/-- The weight of a tiling and that of what it does not cover are the weight of the whole. -/
theorem matchedWeight_add_weigh (candidate reference : List α) (minRun : Nat) :
    (tile candidate reference minRun).matchedWeight +
      weigh (elementsAt (fun p => ¬ ∃ t ∈ (tile candidate reference minRun).tiles, t.CoversCandidate p) candidate) =
        weigh candidate := by
  obtain ⟨hsound, -⟩ := Cover.sound_rounds_start candidate reference minRun
  have hopen := hsound.leaves.candidate.weighOpen_eq
  have hweight := hsound.weight_candidate
  rwa [hopen] at hweight

/-- A tiling with more tiles weighs no less. -/
theorem matchedWeight_le_of_prefix {minRun minRun' : Nat}
    (h : (tile candidate reference minRun').tiles <+: (tile candidate reference minRun).tiles) :
    (tile candidate reference minRun').matchedWeight ≤ (tile candidate reference minRun).matchedWeight := by
  have hmatched := matchedWeight_add_weigh candidate reference minRun
  have hmatched' := matchedWeight_add_weigh candidate reference minRun'
  have hopen : weigh (elementsAt (fun p => ¬ ∃ t ∈ (tile candidate reference minRun).tiles, t.CoversCandidate p) candidate) ≤
      weigh (elementsAt (fun p => ¬ ∃ t ∈ (tile candidate reference minRun').tiles, t.CoversCandidate p) candidate) :=
    weigh_elementsAt_mono (fun p hp hcovered => hp (hcovered.imp fun t ht => ⟨h.subset ht.1, ht.2⟩)) candidate
  omega

end Weight

/-- **A greater least length takes the shortest tiles away.** The tiles that are left are the first ones, namely those
that are long enough, and so their weight is no greater. -/
theorem tiles_tile_eq_filter [Weighted α] (candidate reference : List α) {minRun minRun' : Nat} (hle : minRun ≤ minRun') :
    (tile candidate reference minRun').tiles <+: (tile candidate reference minRun).tiles ∧
      (tile candidate reference minRun').tiles =
        (tile candidate reference minRun).tiles.filter (max 1 minRun' ≤ ·.length) ∧
      (tile candidate reference minRun').matchedWeight ≤ (tile candidate reference minRun).matchedWeight := by
  have hlong := isGreedyTiling_tile candidate reference minRun'
  obtain ⟨short, hall, hshort⟩ := hlong.exists_short (isGreedyTiling_tile candidate reference minRun) (by omega)
  have hfirst : (tile candidate reference minRun').tiles <+: (tile candidate reference minRun).tiles := ⟨short, hall.symm⟩
  refine ⟨hfirst, ?_, matchedWeight_le_of_prefix hfirst⟩
  have hkept : (tile candidate reference minRun').tiles.filter (max 1 minRun' ≤ ·.length) =
      (tile candidate reference minRun').tiles :=
    List.filter_eq_self.2 fun t ht => decide_eq_true (hlong.1.pairs t ht).1
  have hdropped : short.filter (max 1 minRun' ≤ ·.length) = [] :=
    List.filter_eq_nil_iff.2 fun t ht => by
      have hlt := hshort t ht
      rw [decide_eq_true_iff]
      omega
  rw [hall, List.filter_append, hkept, hdropped, List.append_nil]

/-- Of a tile of three symbols and one of a single symbol the first is left. -/
theorem tiles_tile_eq_filter_abcd :
    (tile ['a', 'b', 'c', 'd'] ['d', 'a', 'b', 'c'] 2).tiles = [⟨0, 1, 3⟩] ∧
      (tile ['a', 'b', 'c', 'd'] ['d', 'a', 'b', 'c'] 1).tiles = [⟨0, 1, 3⟩, ⟨3, 0, 1⟩] ∧
      (tile ['a', 'b', 'c', 'd'] ['d', 'a', 'b', 'c'] 2).matchedWeight ≤
        (tile ['a', 'b', 'c', 'd'] ['d', 'a', 'b', 'c'] 1).matchedWeight := by
  obtain ⟨-, -, hweight⟩ := tiles_tile_eq_filter ['a', 'b', 'c', 'd'] ['d', 'a', 'b', 'c'] (show 1 ≤ 2 by decide)
  exact ⟨by decide, by decide, hweight⟩

end SourceLikeness.Tiling
