import Mathlib.Data.List.Induction
import Mathlib.Data.Set.Card

/-!
# The distinct elements of a list

`List.eraseDups` keeps the first of equal elements, in order.

* `eraseDups_append_singleton` : what a further element does;
* `nodup_eraseDups`, `eraseDups_sublist` : it keeps each element once, and adds none;
* `ncard_eq_length` : a list without repetitions is as long as the set that it lists is large.
-/

namespace SourceLikeness
variable {α : Type} [BEq α] [LawfulBEq α]

/-- A further element comes last, unless it is there already. -/
theorem eraseDups_append_singleton (xs : List α) (x : α) :
    (xs ++ [x]).eraseDups = if x ∈ xs then xs.eraseDups else xs.eraseDups ++ [x] := by
  rw [List.eraseDups_append]
  split_ifs with hx
  · rw [List.removeAll, List.filter_cons_of_neg (by simpa using hx)]
    exact List.append_nil _
  · rw [List.removeAll, List.filter_cons_of_pos (by simpa using hx)]
    rfl

theorem nodup_eraseDups (xs : List α) : xs.eraseDups.Nodup := by
  induction xs using List.reverseRecOn with
  | nil => exact List.nodup_nil
  | append_singleton xs x ih =>
    rw [eraseDups_append_singleton]
    split_ifs with hx
    · exact ih
    · refine ih.append (List.nodup_singleton x) fun y hy hlast => hx ?_
      rw [← List.mem_singleton.1 hlast]
      exact List.mem_eraseDups.1 hy

theorem eraseDups_sublist (xs : List α) : xs.eraseDups.Sublist xs := by
  induction xs using List.reverseRecOn with
  | nil => exact List.Sublist.refl _
  | append_singleton xs x ih =>
    rw [eraseDups_append_singleton]
    split_ifs
    · exact ih.trans (List.sublist_append_left xs [x])
    · exact ih.append (List.Sublist.refl [x])

omit [BEq α] [LawfulBEq α] in
/-- A set has as many elements as a list in which each of them stands once. -/
theorem ncard_eq_length {s : Set α} {xs : List α} (hnodup : xs.Nodup) (hmem : ∀ x, x ∈ s ↔ x ∈ xs) :
    s.ncard = xs.length := by
  classical
  have hs : s = ↑xs.toFinset := Set.ext fun x => by rw [hmem, Finset.mem_coe, List.mem_toFinset]
  rw [hs, Set.ncard_coe_finset, List.toFinset_card_of_nodup hnodup]

end SourceLikeness
