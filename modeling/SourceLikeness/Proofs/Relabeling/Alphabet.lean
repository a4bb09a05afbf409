import SourceLikeness.Alphabet
import Mathlib.Data.List.Nodup

/-!
# Alphabets without a fault

* `Alphabet.faultAfter?_eq_none_iff` : what it means that no fault is found among some categories;
* `Alphabet.injective_symbol` : no two categories share a character;
* `Alphabet.category?_symbol` : so a character leads back to its category.
-/

namespace SourceLikeness
open Text (isBlank isControl)

theorem Category.mem_all (c : Category) : c ∈ Category.all := by
  cases c <;> decide

namespace Alphabet
variable {a : Alphabet}

/-- Whether the character of a category can be seen. -/
def IsSeen (a : Alphabet) (c : Category) : Prop :=
  isBlank (a.symbol c) = false ∧ isControl (a.symbol c) = false

/-- No fault is found if each character can be seen and differs from those that came before it. -/
theorem faultAfter?_eq_none_iff (earlier cs : List Category) :
    a.faultAfter? earlier cs = none ↔ (∀ c ∈ cs, a.IsSeen c) ∧
      (∀ e ∈ earlier, ∀ c ∈ cs, a.symbol e ≠ a.symbol c) ∧ cs.Pairwise fun c d => a.symbol c ≠ a.symbol d := by
  induction cs generalizing earlier with
  | nil => simp [faultAfter?]
  | cons c cs ih =>
    rw [List.forall_mem_cons, List.pairwise_cons]
    have hsplit : (∀ e ∈ earlier, ∀ d ∈ c :: cs, a.symbol e ≠ a.symbol d) ↔
        (∀ e ∈ earlier, a.symbol e ≠ a.symbol c) ∧ ∀ e ∈ earlier, ∀ d ∈ cs, a.symbol e ≠ a.symbol d := by
      simp only [List.forall_mem_cons, forall_and]
    rw [hsplit, faultAfter?]
    cases hseen : isBlank (a.symbol c) || isControl (a.symbol c) with
    | true =>
      have hunseen : ¬ a.IsSeen c := fun h => by rw [h.1, h.2] at hseen; cases hseen
      simp [hunseen]
    | false =>
      have hc : a.IsSeen c := Bool.or_eq_false_iff.1 hseen
      cases hfind : earlier.find? fun e => a.symbol e == a.symbol c with
      | some e =>
        have he := List.find?_some hfind
        have hshared : ¬ ∀ e ∈ earlier, a.symbol e ≠ a.symbol c := fun h =>
          h e (List.mem_of_find?_eq_some hfind) (eq_of_beq he)
        simp [hshared]
      | none =>
        have hnew : ∀ e ∈ earlier, a.symbol e ≠ a.symbol c := fun e he h =>
          List.find?_eq_none.1 hfind e he (beq_iff_eq.2 h)
        change a.faultAfter? (c :: earlier) cs = none ↔ _
        rw [ih, List.forall_mem_cons]
        constructor
        · rintro ⟨hs, ⟨hfirst, he⟩, hp⟩
          exact ⟨⟨hc, hs⟩, ⟨hnew, he⟩, hfirst, hp⟩
        · rintro ⟨⟨-, hs⟩, ⟨-, he⟩, hfirst, hp⟩
          exact ⟨hs, ⟨hfirst, he⟩, hp⟩

/-- An alphabet can be used if and only if its characters can be seen and no two categories share one. -/
theorem fault?_eq_none_iff : a.fault? = none ↔ (∀ c, a.IsSeen c) ∧ Function.Injective a.symbol := by
  rw [fault?, faultAfter?_eq_none_iff]
  constructor
  · rintro ⟨hs, -, hp⟩
    have hnodup : (Category.all.map a.symbol).Nodup := List.pairwise_map.2 hp
    exact ⟨fun c => hs c c.mem_all, fun c d h => List.inj_on_of_nodup_map hnodup c.mem_all d.mem_all h⟩
  · rintro ⟨hs, hinj⟩
    have hnodup : Category.all.Nodup := by decide
    exact ⟨fun c _ => hs c, List.forall_mem_nil _, hnodup.imp fun hcd h => hcd (hinj h)⟩

theorem injective_symbol (h : a.fault? = none) : Function.Injective a.symbol := (fault?_eq_none_iff.1 h).2

/-- The character of a category stands for that category. -/
theorem category?_symbol (h : a.fault? = none) (c : Category) : a.category? (a.symbol c) = some c := by
  cases hfind : a.category? (a.symbol c) with
  | none => exact absurd (beq_self_eq_true _) (List.find?_eq_none.1 hfind c c.mem_all)
  | some d =>
    rw [category?] at hfind
    have hd := List.find?_some hfind
    rw [injective_symbol h (eq_of_beq hd)]

end Alphabet
end SourceLikeness
