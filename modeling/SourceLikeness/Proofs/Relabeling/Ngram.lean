import SourceLikeness.Ngram
import Mathlib.Data.List.Basic

/-!
# N-grams under other names

* `windows_map` : the windows of images are the images of the windows;
* `eraseDups_map` : a map that keeps elements apart keeps which of them are distinct;
* `Profile.build_map` : so the profile of two texts does not depend on the characters that they are written in.
-/

namespace SourceLikeness.Ngram
variable {α β : Type}

theorem windows_map (f : α → β) (width : Nat) (xs : List α) :
    windows width (xs.map f) = (windows width xs).map (List.map f) := by
  induction xs with
  | nil => rfl
  | cons x xs ih =>
    rw [List.map_cons, windows, windows, ← List.map_cons, List.length_map, ih, ← List.map_take,
      apply_ite (List.map (List.map f))]
    rfl

section Distinct
variable [BEq α] [LawfulBEq α] [BEq β] [LawfulBEq β] {f : α → β}

theorem contains_map (hf : Function.Injective f) (xs : List α) (x : α) : (xs.map f).contains (f x) = xs.contains x :=
  Bool.eq_iff_iff.2 (by rw [List.contains_iff_mem, List.contains_iff_mem, List.mem_map_of_injective hf])

theorem eraseDups_map (hf : Function.Injective f) (xs : List α) : (xs.map f).eraseDups = xs.eraseDups.map f := by
  induction hn : xs.length using Nat.strongRecOn generalizing xs with
  | ind n ih =>
    cases xs with
    | nil => rfl
    | cons x xs =>
      have hne : (fun b => !b == f x) ∘ f = fun b => !b == x := funext fun b => by
        rw [Function.comp_apply, Bool.eq_iff_iff]
        simp [hf.eq_iff]
      have hlt : (xs.filter fun b => !b == x).length < n := by
        rw [← hn]
        exact Nat.lt_succ_of_le (List.length_filter_le _ xs)
      rw [List.map_cons, List.eraseDups_cons, List.filter_map, hne, ih _ hlt _ rfl, List.eraseDups_cons, List.map_cons]

end Distinct

/-- The distinct windows of a text in any symbols. -/
def distinct [BEq α] (width : Nat) (xs : List α) : List (List α) :=
  if width = 0 then [] else (windows width xs).eraseDups

section Texts
variable [BEq α] [LawfulBEq α] {f : α → Char}

theorem grams_map (hf : Function.Injective f) (xs : List α) (width : Nat) :
    grams (xs.map f) width = (distinct width xs).map (List.map f) := by
  rw [grams, distinct, windows_map, eraseDups_map hf.list_map, apply_ite (List.map (List.map f))]
  rfl

/-- The profile of two texts counts windows of their elements, in whatever characters these are written. -/
theorem Profile.build_map (hf : Function.Injective f) (candidate reference : List α) (width : Nat) :
    Profile.build (candidate.map f) (reference.map f) width =
      { width := width
        candidate := (distinct width candidate).length
        reference := (distinct width reference).length
        shared := ((distinct width candidate).filter ((distinct width reference).contains ·)).length
        union := (distinct width candidate).length +
          ((distinct width reference).filter fun g => !(distinct width candidate).contains g).length } := by
  have hcontains : ∀ (gs : List (List α)) (g : List α), (gs.map (List.map f)).contains (g.map f) = gs.contains g :=
    contains_map hf.list_map
  simp only [build, grams_map hf, List.filter_map, List.length_map, Function.comp_def, hcontains]

end Texts
end SourceLikeness.Ngram
