import SourceLikeness.Proofs.Nesting.Basic
import SourceLikeness.Proofs.WorkingCopy.Edit
import SourceLikeness.Tokenizer.SwitchStatement

/-!
# Braces of a text

* `brace?`, `Balanced` : which bracket a character is, and texts whose braces are nested;
* `Text.braceAt` : the brace at an offset; `depth_eq_of_slices` : two texts with the same braces around two balanced
  parts have the same depth;
* `balanced_of_closingBrace` : the text in front of the brace that closes a block is balanced.
-/

namespace SourceLikeness
open Bracket

instance {α : Type} (side : α → Option Bracket) (l : List α) : Decidable (Nested side l) :=
  decidable_of_iff _ nested_iff_depth.symm

/-- Which bracket a character is, if it is a brace. -/
def brace? (c : Char) : Option Bracket :=
  if c = '\x7b' then some .opening else if c = '\x7d' then some .closing else none

theorem brace?_eq_none_iff {c : Char} : brace? c = none ↔ c ≠ '\x7b' ∧ c ≠ '\x7d' := by
  unfold brace?
  split_ifs <;> simp [*]

/-- The braces of a text are nested. -/
abbrev Balanced (s : List Char) : Prop := Nested brace? s

section Nested
variable {α : Type} {side : α → Option Bracket} {l : List α}

theorem Nested.of_none (h : ∀ x ∈ l, side x = none) : Nested side l := by
  rw [nested_iff_depth]
  induction l with
  | nil => rfl
  | cons x l ih =>
    obtain ⟨hx, hl⟩ := List.forall_mem_cons.1 h
    rw [depth_cons_of_none hx]
    exact ih hl

/-- Lists with the same brackets have the same depth. -/
theorem Bracket.depth_eq_of_map_eq {β : Type} {side' : β → Option Bracket} {l' : List β} (h : l'.map side' = l.map side)
    (d : Nat) : depth side' d l' = depth side d l := by
  have hid : ∀ {γ : Type} (f : γ → Option Bracket) (k : List γ), depth f d k = depth id d (k.map f) := fun f k =>
    (depth_map id f d k).symm
  rw [hid side', h, ← hid side]

end Nested

/-! ## Spans of a text -/

namespace Span
variable {α : Type} {a b c : Nat} {xs : List α}

theorem slice_append (hab : a ≤ b) (hbc : b ≤ c) (xs : List α) :
    slice ⟨a, b⟩ xs ++ slice ⟨b, c⟩ xs = slice ⟨a, c⟩ xs := by
  unfold slice
  dsimp only
  rw [show c - a = (b - a) + (c - b) by omega, List.take_add, List.drop_drop, Nat.add_sub_cancel' hab]

/-- A list is what lies before a span, in it and behind it. -/
theorem take_slice_drop (p : Span) (xs : List α) : xs.take p.start ++ (p.slice xs ++ xs.drop (max p.start p.stop)) = xs := by
  have hdrop : xs.drop (max p.start p.stop) = (xs.drop p.start).drop (p.stop - p.start) := by
    rw [List.drop_drop]
    congr 1
    omega
  rw [slice, hdrop, List.take_append_drop, List.take_append_drop]

theorem slice_one {n : Nat} {x : α} (h : xs[n]? = some x) : slice ⟨n, n + 1⟩ xs = [x] := by
  obtain ⟨hlt, rfl⟩ := List.getElem?_eq_some_iff.1 h
  rw [slice, Nat.add_sub_cancel_left, List.drop_eq_getElem_cons hlt, List.take_succ_cons, List.take_zero]

theorem mem_slice_iff {p : Span} {x : α} : x ∈ p.slice xs ↔ ∃ i, p.start ≤ i ∧ i < p.stop ∧ xs[i]? = some x := by
  rw [List.mem_iff_getElem?]
  constructor
  · rintro ⟨j, hj⟩
    rw [WorkingCopy.getElem?_slice] at hj
    split_ifs at hj with hlt
    exact ⟨p.start + j, by omega, by omega, hj⟩
  · rintro ⟨i, hle, hlt, hi⟩
    refine ⟨i - p.start, ?_⟩
    rw [WorkingCopy.getElem?_slice, if_pos (by omega), Nat.add_sub_cancel' hle, hi]

end Span

namespace Text
variable {s t : List Char} {p : Span} {i : Nat}

/-- The brace at an offset of a text. -/
def braceAt (s : List Char) (i : Nat) : Option Bracket := s[i]?.bind brace?

theorem map_brace?_eq (hlen : t.length = s.length) (h : ∀ i, braceAt t i = braceAt s i) : t.map brace? = s.map brace? := by
  refine List.ext_getElem? fun i => ?_
  have hi := h i
  unfold braceAt at hi
  rw [List.getElem?_map, List.getElem?_map]
  rcases Nat.lt_or_ge i s.length with hs | hs
  · have ht : i < t.length := hlen ▸ hs
    rw [List.getElem?_eq_getElem hs, List.getElem?_eq_getElem ht] at hi ⊢
    exact congrArg some hi
  · rw [List.getElem?_eq_none hs, List.getElem?_eq_none (hlen ▸ hs)]

theorem braceAt_take (s : List Char) (n i : Nat) : braceAt (s.take n) i = if i < n then braceAt s i else none := by
  unfold braceAt
  rw [List.getElem?_take]
  split_ifs <;> rfl

theorem braceAt_drop (s : List Char) (n i : Nat) : braceAt (s.drop n) i = braceAt s (n + i) := by
  rw [braceAt, braceAt, List.getElem?_drop]

theorem braceAt_slice (p : Span) (s : List Char) (i : Nat) :
    braceAt (p.slice s) i = if i < p.stop - p.start then braceAt s (p.start + i) else none := by
  rw [Span.slice, braceAt_take, braceAt_drop]

/-- A part is balanced if the part of another text with the same braces is. -/
theorem balanced_slice_congr (hlen : t.length = s.length) (h : ∀ i, p.start ≤ i → i < p.stop → braceAt t i = braceAt s i)
    (hs : Balanced (p.slice s)) : Balanced (p.slice t) := by
  have hmap : (p.slice t).map brace? = (p.slice s).map brace? := by
    refine map_brace?_eq ?_ fun i => ?_
    · rw [Span.slice, Span.slice, List.length_take, List.length_take, List.length_drop, List.length_drop, hlen]
    · rw [braceAt_slice, braceAt_slice]
      split_ifs with hi
      · exact h _ (Nat.le_add_right _ _) (by omega)
      · rfl
  rw [Balanced, nested_iff_depth, depth_eq_of_map_eq hmap]
  exact nested_iff_depth.1 hs

/-- Two texts with the same braces outside of a span that is balanced in both have the same depth. -/
theorem depth_eq_of_slices (hlen : t.length = s.length) (hout : ∀ i, ¬ (p.start ≤ i ∧ i < p.stop) → braceAt t i = braceAt s i)
    (hs : Balanced (p.slice s)) (ht : Balanced (p.slice t)) (d : Nat) : depth brace? d t = depth brace? d s := by
  have hbefore : (t.take p.start).map brace? = (s.take p.start).map brace? := by
    refine map_brace?_eq (by rw [List.length_take, List.length_take, hlen]) fun i => ?_
    rw [braceAt_take, braceAt_take]
    split_ifs with hi
    · exact hout i (by omega)
    · rfl
  have hbehind : (t.drop (max p.start p.stop)).map brace? = (s.drop (max p.start p.stop)).map brace? := by
    refine map_brace?_eq (by rw [List.length_drop, List.length_drop, hlen]) fun i => ?_
    rw [braceAt_drop, braceAt_drop]
    exact hout _ (by omega)
  have hrest : ∀ e, depth brace? e (p.slice t ++ t.drop (max p.start p.stop)) =
      depth brace? e (p.slice s ++ s.drop (max p.start p.stop)) := by
    intro e
    rw [depth_append, depth_append, ht.depth_eq, hs.depth_eq, Option.bind_some, Option.bind_some, depth_eq_of_map_eq hbehind]
  rw [← Span.take_slice_drop p t, ← Span.take_slice_drop p s, depth_append, depth_append, depth_eq_of_map_eq hbefore]
  exact congrArg _ (funext hrest)

end Text

/-! ## The brace that closes a block -/

namespace Tokenizer.SwitchStatement

theorem depth_of_closingBrace {depth offset n : Nat} {s : List Char} (h : closingBrace (depth + 1) offset s = some n) :
    ∃ u v, s = u ++ '\x7d' :: v ∧ n = offset + u.length ∧ Bracket.depth brace? depth u = some 0 := by
  have hopening : brace? '\x7b' = some .opening := rfl
  have hclosing : brace? '\x7d' = some .closing := rfl
  induction s generalizing depth offset with
  | nil => exact nomatch h
  | cons c s ih =>
    have hcons : ∀ {depth'}, closingBrace (depth' + 1) (offset + 1) s = some n →
        (∀ u, Bracket.depth brace? depth' u = some 0 → Bracket.depth brace? depth (c :: u) = some 0) →
        ∃ u v, c :: s = u ++ '\x7d' :: v ∧ n = offset + u.length ∧ Bracket.depth brace? depth u = some 0 := by
      intro depth' h hdepth
      obtain ⟨u, v, rfl, rfl, hu⟩ := ih h
      exact ⟨c :: u, v, rfl, by rw [List.length_cons]; omega, hdepth u hu⟩
    unfold closingBrace at h
    split_ifs at h with hopen hclose hle
    · subst hopen
      exact hcons h fun u hu => (depth_cons_of_opening hopening).trans hu
    · obtain rfl := Option.some.inj h
      obtain rfl : depth = 0 := by omega
      exact ⟨[], s, by rw [hclose]; rfl, rfl, rfl⟩
    · obtain ⟨e, rfl⟩ := Nat.exists_eq_succ_of_ne_zero (show depth ≠ 0 by omega)
      subst hclose
      exact hcons h fun u hu => (depth_cons_of_closing hclosing).trans hu
    · exact hcons h fun u hu => (depth_cons_of_none (brace?_eq_none_iff.2 ⟨hopen, hclose⟩)).trans hu

/-- The text up to the brace that closes a block is balanced. -/
theorem balanced_of_closingBrace {s : List Char} {a n : Nat} (h : closingBrace 1 a (s.drop a) = some n) :
    a ≤ n ∧ s[n]? = some '\x7d' ∧ Balanced (Span.slice ⟨a, n⟩ s) := by
  obtain ⟨u, v, hs, rfl, hu⟩ := depth_of_closingBrace h
  have hslice : Span.slice ⟨a, a + u.length⟩ s = u := by
    rw [Span.slice, hs, Nat.add_sub_cancel_left, List.take_left]
  refine ⟨Nat.le_add_right _ _, ?_, ?_⟩
  · rw [← List.getElem?_drop, hs, List.getElem?_append_right (Nat.le_refl _), Nat.sub_self, List.getElem?_cons_zero]
  · rw [hslice]
    exact nested_iff_depth.2 hu

end Tokenizer.SwitchStatement
end SourceLikeness
