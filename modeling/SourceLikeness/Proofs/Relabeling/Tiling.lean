import SourceLikeness.Proofs.Tiling.Round

/-!
# Tiling under other names

A tiling sees of an element only which elements it equals and what it weighs.

* `Tiling.Relabels` : a map that keeps both;
* `Cover.map` : a cover under such a map; `Cover.commit_map`, `Cover.round_map` : what is done to a cover is
  done to its image;
* `tile_map` : so the tiling of two lists is that of their images.
-/

namespace SourceLikeness.Tiling
variable {α β : Type}

/-! ## Covers of images -/

namespace Cover

/-- A cover of the images of the elements. -/
def map (f : α → β) (c : Cover α) : Cover β :=
  ⟨c.candidate.map (Option.map f), c.reference.map (Option.map f), c.tiles, c.weight⟩

theorem slice_map (f : α → β) (xs : List (Option α)) (first length : Nat) :
    slice (xs.map (Option.map f)) first length = (slice xs first length).map (Option.map f) := by
  rw [slice, slice, ← List.map_drop, ← List.map_take]

theorem blank_map (f : α → β) (xs : List (Option α)) (first length : Nat) :
    blank (xs.map (Option.map f)) first length = (blank xs first length).map (Option.map f) := by
  simp only [blank, slice_map, List.map_append, List.map_take, List.map_drop, List.map_map]
  rfl

theorem start_map (f : α → β) (candidate reference : List α) :
    start (candidate.map f) (reference.map f) = (start candidate reference).map f := by
  simp only [start, map, List.map_map]
  rfl

theorem isFree_map (f : α → β) (c : Cover α) (t : Tile) : (c.map f).isFree t = c.isFree t := by
  have hsome : Option.isSome ∘ Option.map f = Option.isSome := funext fun _ => Option.isSome_map
  simp only [isFree, map, slice_map, List.all_map, hsome]

end Cover

variable [BEq α] [BEq β] [Weighted α] [Weighted β] {f : α → β}

/-- The map keeps which elements are equal and what they weigh. -/
structure Relabels (f : α → β) : Prop where
  beq_eq : ∀ x y, (f x == f y) = (x == y)
  weight_eq : ∀ x, Weighted.weight (f x) = Weighted.weight x

/-! ## Runs -/

theorem commonRun_map (hf : Relabels f) (xs ys : List (Option α)) :
    commonRun (xs.map (Option.map f)) (ys.map (Option.map f)) = commonRun xs ys := by
  induction xs generalizing ys with
  | nil => rfl
  | cons x xs ih =>
    rcases x with _ | x
    · rfl
    rcases ys with _ | ⟨_ | y, ys⟩
    · rfl
    · rfl
    change (if f x == f y then commonRun (xs.map (Option.map f)) (ys.map (Option.map f)) + 1 else 0) = _
    rw [hf.beq_eq, ih]
    rfl

theorem runsAt_map (hf : Relabels f) (least : Nat) (xs : List (Option α)) (i j : Nat) (ys : List (Option α)) :
    runsAt least (xs.map (Option.map f)) i j (ys.map (Option.map f)) = runsAt least xs i j ys := by
  induction ys generalizing j with
  | nil => rfl
  | cons y ys ih => rw [List.map_cons, runsAt, runsAt, ih, ← List.map_cons, commonRun_map hf]

theorem runsFrom_map (hf : Relabels f) (least : Nat) (ys : List (Option α)) (i : Nat) (xs : List (Option α)) :
    runsFrom least (ys.map (Option.map f)) i (xs.map (Option.map f)) = runsFrom least ys i xs := by
  induction xs generalizing i with
  | nil => rfl
  | cons x xs ih => rw [List.map_cons, runsFrom, runsFrom, ih, ← List.map_cons, runsAt_map hf]

/-! ## Weights -/

theorem weigh_map (hf : Relabels f) (xs : List α) : weigh (xs.map f) = weigh xs := by
  induction xs with
  | nil => rfl
  | cons x xs ih => rw [List.map_cons, weigh, weigh, hf.weight_eq, ih]

theorem weighOpen_map (hf : Relabels f) (xs : List (Option α)) :
    weighOpen (xs.map (Option.map f)) = weighOpen xs := by
  rw [weighOpen, weighOpen, ← weigh_map hf, List.filterMap_map, List.map_filterMap]
  rfl

/-! ## Rounds -/

namespace Cover

theorem commit_map (hf : Relabels f) (c : Cover α) (t : Tile) : (c.map f).commit t = (c.commit t).map f := by
  rw [commit, commit, isFree_map, apply_ite (map f)]
  simp only [map, blank_map, slice_map, weighOpen_map hf]

theorem foldl_commit_map (hf : Relabels f) (c : Cover α) (ts : List Tile) :
    ts.foldl commit (c.map f) = (ts.foldl commit c).map f := by
  induction ts generalizing c with
  | nil => rfl
  | cons t ts ih => rw [List.foldl_cons, List.foldl_cons, commit_map hf, ih]

theorem runs_map (hf : Relabels f) (least : Nat) (c : Cover α) : (c.map f).runs least = c.runs least :=
  runsFrom_map hf least c.reference 0 c.candidate

/-- A round on the images has the runs of the round on the elements, and commits the same tiles. -/
theorem round_map (hf : Relabels f) (least : Nat) (c : Cover α) :
    (c.map f).round least = ((c.round least).1, (c.round least).2.map f) := by
  rw [round, runs_map hf, foldl_commit_map hf]
  rfl

theorem rounds_map (hf : Relabels f) (least n : Nat) (c : Cover α) :
    (c.map f).rounds least n = (c.rounds least n).map f := by
  induction n generalizing c with
  | zero => rfl
  | succ n ih =>
    rw [rounds_succ, rounds_succ, round_map hf, apply_ite (map f), ih]

end Cover

/-- **The names of the elements do not matter to a tiling.** -/
theorem tile_map (hf : Relabels f) (candidate reference : List α) (minRun : Nat) :
    tile (candidate.map f) (reference.map f) minRun = tile candidate reference minRun := by
  simp only [tile, Cover.start_map, Cover.rounds_map hf, List.length_map, weigh_map hf]
  rfl

end SourceLikeness.Tiling
