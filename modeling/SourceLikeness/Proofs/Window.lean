import Mathlib.Data.List.Basic

/-!
# Changing a window of a list

A list whose elements from one place on, a number of them, went through a function: its length and its
elements (`length_window`, `getElem?_window`). Nothing is asked of the place and the number, so a window
may reach beyond the end of the list.
-/

namespace SourceLikeness
variable {α : Type}

theorem length_window (f : α → α) (xs : List α) (first count : Nat) :
    (xs.take first ++ ((xs.drop first).take count).map f ++ xs.drop (first + count)).length = xs.length := by
  simp only [List.length_append, List.length_take, List.length_map, List.length_drop]
  omega

theorem getElem?_window (f : α → α) (xs : List α) (first count p : Nat) :
    (xs.take first ++ ((xs.drop first).take count).map f ++ xs.drop (first + count))[p]? =
      if first ≤ p ∧ p < first + count then xs[p]?.map f else xs[p]? := by
  rcases Nat.lt_or_ge p xs.length with hp | hp
  · rcases Nat.lt_or_ge p first with h | h
    · rw [List.append_assoc, List.getElem?_append_left (by rw [List.length_take]; omega),
        List.getElem?_take_of_lt h, if_neg (by omega)]
    · have hfirst : (xs.take first).length = first := by rw [List.length_take]; omega
      rw [List.append_assoc, List.getElem?_append_right (by omega), hfirst]
      rcases Nat.lt_or_ge p (first + count) with h' | h'
      · rw [List.getElem?_append_left (by simp only [List.length_map, List.length_take, List.length_drop]; omega),
          List.getElem?_map, List.getElem?_take_of_lt (by omega), List.getElem?_drop,
          Nat.add_sub_cancel' h, if_pos ⟨h, h'⟩]
      · have hcount : (((xs.drop first).take count).map f).length = count := by
          simp only [List.length_map, List.length_take, List.length_drop]
          omega
        rw [List.getElem?_append_right (by omega), hcount, List.getElem?_drop, if_neg (by omega)]
        congr 1
        omega
  · have hnone : xs[p]? = none := List.getElem?_eq_none hp
    rw [List.getElem?_eq_none (by rw [length_window]; exact hp), hnone, Option.map_none, ite_self]

end SourceLikeness
