import SourceLikeness.Proofs.Tiling.Greedy
import SourceLikeness.Proofs.Window

/-!
# Covers

What a cover says about the two lists, and what committing the choice does to it.

* `getElem?_blank`, `weighOpen_blank` : a list after some of its elements were made gaps;
* `Shows` : a list with gaps holds the elements of a list, but for the places that are covered;
* `Cover.Fits` : a tile is a run of the elements that are left;
* `Cover.Sound` : the tiles were chosen one at a time, the gaps are the places that they cover, and the
  weight is what the gaps take away from the weight of a list; `Cover.Sound.commit` keeps all of it.
-/

namespace SourceLikeness.Tiling
variable {α : Type}

/-! ## Gaps -/

namespace Cover

theorem length_blank (xs : List (Option α)) (first length : Nat) :
    (blank xs first length).length = xs.length := length_window _ xs first length

theorem getElem?_blank (xs : List (Option α)) (first length p : Nat) :
    (blank xs first length)[p]? =
      if first ≤ p ∧ p < first + length then xs[p]?.map (fun _ => none) else xs[p]? :=
  getElem?_window _ xs first length p

/-- The elements before a run, those of the run and those behind it. -/
theorem take_append_slice_append_drop (xs : List (Option α)) (first length : Nat) :
    xs.take first ++ slice xs first length ++ xs.drop (first + length) = xs := by
  rw [slice, ← List.drop_drop, List.append_assoc, List.take_append_drop, List.take_append_drop]

end Cover

section Weight
variable [Weighted α]

theorem weigh_append (xs ys : List α) : weigh (xs ++ ys) = weigh xs + weigh ys := by
  induction xs with
  | nil => rw [List.nil_append, weigh, Nat.zero_add]
  | cons x xs ih => rw [List.cons_append, weigh, weigh, ih, Nat.add_assoc]

theorem weighOpen_append (xs ys : List (Option α)) : weighOpen (xs ++ ys) = weighOpen xs + weighOpen ys := by
  rw [weighOpen, List.filterMap_append, weigh_append]
  rfl

theorem weighOpen_map_some (xs : List α) : weighOpen (xs.map some) = weigh xs := by
  rw [weighOpen, List.filterMap_map]
  congr 1
  exact List.filterMap_some

theorem weighOpen_map_none (xs : List (Option α)) : weighOpen (xs.map fun _ => (none : Option α)) = 0 := by
  rw [weighOpen, List.filterMap_map]
  induction xs with
  | nil => rfl
  | cons x xs ih => exact ih

/-- A run takes its weight along when it is made a gap. -/
theorem weighOpen_blank (xs : List (Option α)) (first length : Nat) :
    weighOpen (Cover.blank xs first length) + weighOpen (Cover.slice xs first length) = weighOpen xs := by
  have h := congrArg weighOpen (Cover.take_append_slice_append_drop xs first length)
  rw [weighOpen_append, weighOpen_append] at h
  rw [Cover.blank, weighOpen_append, weighOpen_append, weighOpen_map_none]
  omega

/-- The two sides of a run weigh the same if equal elements do. -/
theorem Agree.weighOpen_eq [BEq α] (hw : ∀ x y : α, (x == y) = true → Weighted.weight x = Weighted.weight y)
    {xs ys : List (Option α)} {n : Nat} (h : Agree xs ys n) :
    weighOpen (xs.take n) = weighOpen (ys.take n) := by
  induction n generalizing xs ys with
  | zero => rw [List.take_zero, List.take_zero]
  | succ n ih =>
    obtain ⟨x, y, xs, ys, rfl, rfl⟩ := h.eq_cons
    obtain ⟨he, h⟩ := (agree_cons x y xs ys n).1 h
    change Weighted.weight x + weighOpen (xs.take n) = Weighted.weight y + weighOpen (ys.take n)
    rw [hw x y he, ih h]

end Weight

/-! ## What is left of a list -/

/-- A list with gaps holds the elements of a list, but for the places that are covered. -/
structure Shows (covered : Nat → Prop) (xs : List α) (gaps : List (Option α)) : Prop where
  length_eq : gaps.length = xs.length
  getElem?_eq_iff : ∀ p x, gaps[p]? = some (some x) ↔ xs[p]? = some x ∧ ¬ covered p

theorem Shows.start (xs : List α) : Shows (fun _ => False) xs (xs.map some) where
  length_eq := List.length_map _
  getElem?_eq_iff p x := by simp

theorem Shows.blank {covered : Nat → Prop} {xs : List α} {gaps : List (Option α)} (h : Shows covered xs gaps)
    (first length : Nat) :
    Shows (fun p => covered p ∨ first ≤ p ∧ p < first + length) xs (Cover.blank gaps first length) where
  length_eq := (Cover.length_blank gaps first length).trans h.length_eq
  getElem?_eq_iff p x := by
    rw [Cover.getElem?_blank, not_or, ← and_assoc, ← h.getElem?_eq_iff]
    split_ifs with hp
    · simp [hp]
    · simp only [hp, not_false_eq_true, and_true]

/-- A covered place is a gap, so an element that is no gap is the one of the list. -/
theorem Shows.getElem?_of_isSome {covered : Nat → Prop} {xs : List α} {gaps : List (Option α)} {p : Nat} {x : α}
    (h : Shows covered xs gaps) (hx : xs[p]? = some x)
    (hs : ∀ o, gaps[p]? = some o → o.isSome = true) : gaps[p]? = some (some x) := by
  have hp : p < gaps.length := by
    rw [h.length_eq]
    exact (List.getElem?_eq_some_iff.1 hx).1
  obtain ⟨x', hx'⟩ := Option.isSome_iff_exists.1 (hs _ (List.getElem?_eq_getElem hp))
  have hgap : gaps[p]? = some (some x') := by rw [List.getElem?_eq_getElem hp, hx']
  have he := ((h.getElem?_eq_iff p x').1 hgap).1
  rw [hgap, ← Option.some.inj (he.symm.trans hx)]

theorem Shows.congr {covered covered' : Nat → Prop} {xs : List α} {gaps : List (Option α)}
    (h : Shows covered xs gaps) (hc : ∀ p, covered p ↔ covered' p) : Shows covered' xs gaps := by
  rwa [show covered' = covered from funext fun p => propext (hc p).symm]

/-! ## Covers of two lists -/

namespace Cover
variable {candidate reference : List α} {c : Cover α} {t : Tile}

/-- A cover leaves the elements of two lists that none of its tiles covers. -/
structure Leaves (candidate reference : List α) (c : Cover α) : Prop where
  candidate : Shows (fun p => ∃ s ∈ c.tiles, s.CoversCandidate p) candidate c.candidate
  reference : Shows (fun p => ∃ s ∈ c.tiles, s.CoversReference p) reference c.reference

theorem leaves_start (candidate reference : List α) : (start candidate reference).Leaves candidate reference where
  candidate := (Shows.start candidate).congr fun p => by simp [start]
  reference := (Shows.start reference).congr fun p => by simp [start]

/-- A tile is a run of the elements that a cover leaves. -/
def Fits [BEq α] (c : Cover α) (t : Tile) : Prop :=
  Agree (c.candidate.drop t.candidate) (c.reference.drop t.reference) t.length

/-- The runs of what is left are the runs of the two lists that no tile covers. -/
theorem Leaves.fits_iff [BEq α] (h : c.Leaves candidate reference) (t : Tile) :
    c.Fits t ↔ Available candidate reference c.tiles t := by
  simp only [Fits, Agree, List.getElem?_drop, h.candidate.getElem?_eq_iff, h.reference.getElem?_eq_iff]
  constructor
  · intro ht
    refine ⟨?_, fun s hs => ⟨?_, ?_⟩⟩
    · intro k hk
      obtain ⟨x, y, hx, hy, he⟩ := ht k hk
      exact ⟨x, y, hx.1, hy.1, he⟩
    · rintro p ⟨hs', hle, hlt⟩
      obtain ⟨x, y, hx, -, -⟩ := ht (p - t.candidate) (by omega)
      rw [Nat.add_sub_cancel' hle] at hx
      exact hx.2 ⟨s, hs, hs'⟩
    · rintro p ⟨hs', hle, hlt⟩
      obtain ⟨x, y, -, hy, -⟩ := ht (p - t.reference) (by omega)
      rw [Nat.add_sub_cancel' hle] at hy
      exact hy.2 ⟨s, hs, hs'⟩
  · rintro ⟨hpairs, hapart⟩ k hk
    obtain ⟨x, y, hx, hy, he⟩ := hpairs k hk
    refine ⟨x, y, ⟨hx, ?_⟩, ⟨hy, ?_⟩, he⟩
    · rintro ⟨s, hs, hs'⟩
      exact (hapart s hs).1 _ ⟨hs', Tile.coversCandidate_add hk⟩
    · rintro ⟨s, hs, hs'⟩
      exact (hapart s hs).2 _ ⟨hs', Tile.coversReference_add hk⟩

theorem length_le_of_fits_start [BEq α] (h : (start candidate reference).Fits t) :
    t.length ≤ candidate.length := by
  obtain ⟨hpairs, -⟩ := ((leaves_start candidate reference).fits_iff t).1 h
  rcases Nat.eq_zero_or_pos t.length with hzero | hpos
  · omega
  · have := hpairs.candidate_le hpos
    omega

/-! ## Free tiles -/

theorem all_isSome_slice (xs : List (Option α)) (first length : Nat) :
    (slice xs first length).all Option.isSome = true ↔
      ∀ k < length, ∀ o, xs[first + k]? = some o → o.isSome = true := by
  rw [List.all_eq_true]
  constructor
  · intro h k hk o ho
    refine h o (List.mem_of_getElem? (i := k) ?_)
    rw [slice, List.getElem?_take_of_lt hk, List.getElem?_drop, ho]
  · intro h o ho
    obtain ⟨k, ho⟩ := List.getElem?_of_mem ho
    have hk : k < length := by
      have := (List.getElem?_eq_some_iff.1 ho).1
      rw [slice, List.length_take] at this
      omega
    rw [slice, List.getElem?_take_of_lt hk, List.getElem?_drop] at ho
    exact h k hk o ho

theorem isFree_of_fits [BEq α] (h : c.Fits t) : c.isFree t = true := by
  rw [isFree, Bool.and_eq_true, all_isSome_slice, all_isSome_slice]
  constructor
  · intro k hk o ho
    obtain ⟨x, y, hx, -, -⟩ := h k hk
    rw [List.getElem?_drop, ho] at hx
    rw [Option.some.inj hx, Option.isSome_some]
  · intro k hk o ho
    obtain ⟨x, y, -, hy, -⟩ := h k hk
    rw [List.getElem?_drop, ho] at hy
    rw [Option.some.inj hy, Option.isSome_some]

/-- A run of the two lists whose elements are all left is a run of what is left. -/
theorem Leaves.fits_of_isFree [BEq α] (h : c.Leaves candidate reference) (hp : Pairs candidate reference t)
    (hf : c.isFree t = true) : c.Fits t := by
  rw [isFree, Bool.and_eq_true, all_isSome_slice, all_isSome_slice] at hf
  intro k hk
  obtain ⟨x, y, hx, hy, he⟩ := hp k hk
  rw [List.getElem?_drop, List.getElem?_drop]
  exact ⟨x, y, h.candidate.getElem?_of_isSome hx (hf.1 k hk), h.reference.getElem?_of_isSome hy (hf.2 k hk), he⟩

/-! ## Committing a tile -/

variable [Weighted α]

theorem tiles_commit (h : c.isFree t = true) : (c.commit t).tiles = c.tiles ++ [t] := by
  rw [commit, if_pos h]

theorem commit_of_not_isFree (h : c.isFree t ≠ true) : c.commit t = c := by
  rw [commit, if_neg h]

theorem Leaves.commit (h : c.Leaves candidate reference) (hf : c.isFree t = true) :
    (c.commit t).Leaves candidate reference := by
  have htiles : ∀ q : Tile → Prop, (∃ s ∈ c.tiles ++ [t], q s) ↔ (∃ s ∈ c.tiles, q s) ∨ q t := by
    intro q
    simp only [List.mem_append, List.mem_singleton, or_and_right, exists_or, exists_eq_left]
  rw [Cover.commit, if_pos hf]
  exact ⟨(h.candidate.blank _ _).congr fun p => (htiles _).symm,
    (h.reference.blank _ _).congr fun p => (htiles _).symm⟩

/-- What holds of a cover of two lists at any time: its tiles were chosen one at a time, the gaps are
the places that they cover, and its weight is what it takes from the weight of either list. The
reference is only weighed right if equal elements weigh the same. -/
structure Sound [BEq α] (least : Nat) (candidate reference : List α) (c : Cover α) : Prop where
  leaves : c.Leaves candidate reference
  greedy : Greedy least candidate reference c.tiles
  weight_candidate : c.weight + weighOpen c.candidate = weigh candidate
  weight_reference : (∀ x y : α, (x == y) = true → Weighted.weight x = Weighted.weight y) →
    c.weight + weighOpen c.reference = weigh reference

theorem sound_start [BEq α] (least : Nat) (candidate reference : List α) :
    (start candidate reference).Sound least candidate reference where
  leaves := leaves_start candidate reference
  greedy := .start
  weight_candidate := by rw [start, weighOpen_map_some, Nat.zero_add]
  weight_reference _ := by rw [start, weighOpen_map_some, Nat.zero_add]

/-- Committing the choice among the runs of what is left keeps a cover sound. -/
theorem Sound.commit [BEq α] {least : Nat} (h : c.Sound least candidate reference)
    (ht : IsChoice least c.Fits t) : (c.commit t).Sound least candidate reference := by
  have hf : c.isFree t = true := isFree_of_fits ht.available
  refine ⟨h.leaves.commit hf, ?_, ?_, ?_⟩
  · rw [tiles_commit hf]
    refine .commit h.greedy ?_
    rwa [← show c.Fits = Available candidate reference c.tiles from
      funext fun u => propext (h.leaves.fits_iff u)]
  · have hblank := weighOpen_blank c.candidate t.candidate t.length
    have hweight := h.weight_candidate
    rw [Cover.commit, if_pos hf]
    dsimp only
    omega
  · intro hw
    have hblank := weighOpen_blank c.reference t.reference t.length
    have hsides : weighOpen (slice c.candidate t.candidate t.length) =
        weighOpen (slice c.reference t.reference t.length) := Agree.weighOpen_eq hw ht.available
    have hweight := h.weight_reference hw
    rw [Cover.commit, if_pos hf]
    dsimp only
    omega

end Cover
end SourceLikeness.Tiling
