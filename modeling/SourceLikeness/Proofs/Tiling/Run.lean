import SourceLikeness.Tiling
import Mathlib.Data.List.Basic
import Mathlib.Order.MinMax
import Mathlib.Order.Nat

/-!
# Runs of two lists with gaps

How far two lists agree, and the lists of runs that a round looks through.

* `Agree` : two lists hold equal elements, and no gap, at their first places; `agree_iff_le_commonRun`;
* `Tile.Before` : the order of tiles by place; `mem_runsFrom`, `runsFrom_pairwise` : the runs of two
  lists are the longest from each pair of starts, in that order;
* `longest_le_iff`, `longest_eq_or` : the greatest length of some runs.
-/

namespace SourceLikeness

/-- A tile stands before another in the candidate, or at the same place there and before it in the
reference. -/
def Tile.Before (s t : Tile) : Prop :=
  s.candidate < t.candidate ∨ s.candidate = t.candidate ∧ s.reference < t.reference

namespace Tiling
variable {α : Type} [BEq α]

/-! ## Agreement -/

/-- Two lists hold equal elements, and no gap, at their first `n` places. -/
def Agree (xs ys : List (Option α)) (n : Nat) : Prop :=
  ∀ k < n, ∃ x y, xs[k]? = some (some x) ∧ ys[k]? = some (some y) ∧ (x == y) = true

theorem agree_zero (xs ys : List (Option α)) : Agree xs ys 0 := fun k hk => absurd hk (Nat.not_lt_zero k)

theorem agree_cons (x y : α) (xs ys : List (Option α)) (n : Nat) :
    Agree (some x :: xs) (some y :: ys) (n + 1) ↔ (x == y) = true ∧ Agree xs ys n := by
  constructor
  · intro h
    constructor
    · obtain ⟨x', y', hx, hy, he⟩ := h 0 (by omega)
      cases hx
      cases hy
      exact he
    · intro k hk
      simpa only [List.getElem?_cons_succ] using h (k + 1) (by omega)
  · rintro ⟨he, h⟩ k hk
    cases k with
    | zero => exact ⟨x, y, rfl, rfl, he⟩
    | succ k => simpa only [List.getElem?_cons_succ] using h k (by omega)

theorem Agree.eq_cons {xs ys : List (Option α)} {n : Nat} (h : Agree xs ys (n + 1)) :
    ∃ x y xs' ys', xs = some x :: xs' ∧ ys = some y :: ys' := by
  obtain ⟨x, y, hx, hy, -⟩ := h 0 (by omega)
  rw [← List.head?_eq_getElem?] at hx hy
  obtain ⟨xs', rfl⟩ := List.head?_eq_some_iff.1 hx
  obtain ⟨ys', rfl⟩ := List.head?_eq_some_iff.1 hy
  exact ⟨x, y, xs', ys', rfl, rfl⟩

/-- Two lists agree as far as their common run reaches, and no further. -/
theorem agree_iff_le_commonRun (xs ys : List (Option α)) (n : Nat) :
    Agree xs ys n ↔ n ≤ commonRun xs ys := by
  induction xs, ys using commonRun.induct generalizing n with
  | case1 x xs y ys he ih =>
    rw [commonRun, if_pos he]
    cases n with
    | zero => simp only [agree_zero, Nat.zero_le]
    | succ n => rw [agree_cons, ih n, Nat.succ_le_succ_iff, and_iff_right he]
  | case2 x xs y ys he =>
    rw [commonRun, if_neg he]
    cases n with
    | zero => simp only [agree_zero, Nat.zero_le]
    | succ n => exact iff_of_false (fun h => he ((agree_cons x y xs ys n).1 h).1) (Nat.not_succ_le_zero n)
  | case3 xs ys hne =>
    rw [commonRun]
    · cases n with
      | zero => simp only [agree_zero, Nat.zero_le]
      | succ n =>
        refine iff_of_false (fun h => ?_) (Nat.not_succ_le_zero n)
        obtain ⟨x, y, xs, ys, rfl, rfl⟩ := h.eq_cons
        exact hne x xs y ys rfl rfl
    · exact hne

/-! ## The runs from every start -/

theorem mem_runsAt {least i j : Nat} {xs ys : List (Option α)} {t : Tile} :
    t ∈ runsAt least xs i j ys ↔
      ∃ k < ys.length, t = ⟨i, j + k, commonRun xs (ys.drop k)⟩ ∧ least ≤ t.length := by
  induction ys generalizing j with
  | nil => simp only [runsAt, List.not_mem_nil, List.length_nil, Nat.not_lt_zero, false_and, exists_false]
  | cons y ys ih =>
    have hrest : (∃ k < ys.length, t = ⟨i, j + (k + 1), commonRun xs (ys.drop k)⟩ ∧ least ≤ t.length) ↔
        t ∈ runsAt least xs i (j + 1) ys := by
      rw [ih]
      simp only [Nat.add_assoc, Nat.add_comm 1]
    rw [List.length_cons, Nat.exists_lt_succ_left, runsAt]
    simp only [Nat.add_zero, List.drop_zero, List.drop_succ_cons, hrest]
    split_ifs with hlt
    · refine ⟨Or.inr, fun h => h.resolve_left ?_⟩
      rintro ⟨rfl, hle⟩
      exact absurd hle (Nat.not_le_of_lt hlt)
    · rw [List.mem_cons]
      refine or_congr_left ⟨fun h => ⟨h, ?_⟩, And.left⟩
      rw [h]
      exact Nat.le_of_not_lt hlt

theorem mem_runsFrom {least i : Nat} {xs ys : List (Option α)} {t : Tile} :
    t ∈ runsFrom least ys i xs ↔ ∃ m < xs.length, ∃ k < ys.length,
      t = ⟨i + m, k, commonRun (xs.drop m) (ys.drop k)⟩ ∧ least ≤ t.length := by
  induction xs generalizing i with
  | nil => simp only [runsFrom, List.not_mem_nil, List.length_nil, Nat.not_lt_zero, false_and, exists_false]
  | cons x xs ih =>
    rw [List.length_cons, Nat.exists_lt_succ_left, runsFrom, List.mem_append, mem_runsAt, ih]
    simp only [Nat.zero_add, Nat.add_zero, List.drop_zero, List.drop_succ_cons, Nat.add_assoc,
      Nat.add_comm 1]

theorem runsAt_pairwise (least i j : Nat) (xs ys : List (Option α)) :
    (runsAt least xs i j ys).Pairwise Tile.Before := by
  induction ys generalizing j with
  | nil => exact List.Pairwise.nil
  | cons y ys ih =>
    rw [runsAt]
    split_ifs with hlt
    · exact ih (j + 1)
    · refine List.Pairwise.cons ?_ (ih (j + 1))
      intro t ht
      obtain ⟨k, -, rfl, -⟩ := mem_runsAt.1 ht
      exact Or.inr ⟨rfl, show j < j + 1 + k by omega⟩

/-- The runs are listed by start in the candidate, then by start in the reference. -/
theorem runsFrom_pairwise (least i : Nat) (xs ys : List (Option α)) :
    (runsFrom least ys i xs).Pairwise Tile.Before := by
  induction xs generalizing i with
  | nil => exact List.Pairwise.nil
  | cons x xs ih =>
    rw [runsFrom, List.pairwise_append]
    refine ⟨runsAt_pairwise least i 0 _ ys, ih (i + 1), ?_⟩
    intro s hs t ht
    obtain ⟨k, -, rfl, -⟩ := mem_runsAt.1 hs
    obtain ⟨m, -, k', -, rfl, -⟩ := mem_runsFrom.1 ht
    exact Or.inl (show i < i + 1 + m by omega)

/-! ## The longest of some runs -/

theorem longest_cons (least : Nat) (t : Tile) (runs : List Tile) :
    longest least (t :: runs) = longest (max least t.length) runs := rfl

theorem longest_le_iff (least n : Nat) (runs : List Tile) :
    longest least runs ≤ n ↔ least ≤ n ∧ ∀ t ∈ runs, t.length ≤ n := by
  induction runs generalizing least with
  | nil => simp only [longest, List.foldl_nil, List.not_mem_nil, false_implies, implies_true, and_true]
  | cons t runs ih => rw [longest_cons, ih, max_le_iff, List.forall_mem_cons, and_assoc]

/-- The greatest length is the least one asked for, or that of a run. -/
theorem longest_eq_or (least : Nat) (runs : List Tile) :
    longest least runs = least ∨ ∃ t ∈ runs, t.length = longest least runs := by
  induction runs generalizing least with
  | nil => exact Or.inl rfl
  | cons t runs ih =>
    rw [longest_cons]
    rcases ih (max least t.length) with h | ⟨u, hu, h⟩
    · rcases max_choice least t.length with hm | hm
      · exact Or.inl (h.trans hm)
      · exact Or.inr ⟨t, List.mem_cons_self, (h.trans hm).symm⟩
    · exact Or.inr ⟨u, List.mem_cons_of_mem t hu, h⟩

end Tiling
end SourceLikeness
