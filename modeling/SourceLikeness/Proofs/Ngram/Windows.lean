import SourceLikeness.Ngram
import SourceLikeness.Proofs.Distinct
import SourceLikeness.Proofs.Tree.Leaves

/-!
# Windows of a text

The windows of a text are its pieces of a given length, wherever they start.

* `windows_eq_map` : one window for each place from which enough is left;
* `mem_windows` : exactly the pieces of that length;
* `offsets`, `slices` : the places of the characters in bytes, and what lies between one place and another that is a
  given number of characters further on; `slices_eq` : these are the windows, however many bytes a character takes.
-/

namespace SourceLikeness.Ngram
open Parsed (sliceBytes sliceBytes_append)

variable {α : Type} {width : Nat}

/-! ## By characters -/

theorem windows_eq_map (hwidth : 0 < width) (xs : List α) :
    windows width xs = (List.range (xs.length + 1 - width)).map fun i => (xs.drop i).take width := by
  induction xs with
  | nil => rw [windows, List.length_nil, Nat.zero_add, Nat.sub_eq_zero_of_le hwidth, List.range_zero, List.map_nil]
  | cons x xs ih =>
    rw [windows]
    split_ifs with hle
    · rw [List.length_cons] at hle
      rw [List.length_cons, Nat.succ_sub hle, List.range_succ_eq_map, List.map_cons, List.map_map, ih]
      rfl
    · rw [Nat.sub_eq_zero_of_le (Nat.lt_of_not_le hle), List.range_zero, List.map_nil]

theorem length_windows (hwidth : 0 < width) (xs : List α) : (windows width xs).length = xs.length + 1 - width := by
  rw [windows_eq_map hwidth, List.length_map, List.length_range]

/-- The windows of a text are its pieces of that length. -/
theorem mem_windows (hwidth : 0 < width) {xs g : List α} : g ∈ windows width xs ↔ g <:+: xs ∧ g.length = width := by
  induction xs with
  | nil =>
    refine iff_of_false List.not_mem_nil ?_
    rintro ⟨hg, rfl⟩
    rw [List.infix_nil.1 hg] at hwidth
    exact absurd hwidth (Nat.lt_irrefl 0)
  | cons x xs ih =>
    rw [windows]
    split_ifs with hle
    · have hfirst : g = (x :: xs).take width ↔ g <+: x :: xs ∧ g.length = width := by
        constructor
        · rintro rfl
          exact ⟨List.take_prefix _ _, List.length_take_of_le hle⟩
        · rintro ⟨hg, rfl⟩
          exact List.prefix_iff_eq_take.1 hg
      rw [List.mem_cons, ih, hfirst, List.infix_cons_iff, or_and_right]
    · refine iff_of_false List.not_mem_nil ?_
      rintro ⟨hg, rfl⟩
      exact hle hg.length_le

/-! ## By bytes -/

/-- Where the characters of a text start, in bytes, and where the last one ends. -/
def offsets : List Char → List Nat
  | [] => [0]
  | c :: rest => 0 :: (offsets rest).map (c.utf8Size + ·)

theorem length_offsets (text : List Char) : (offsets text).length = text.length + 1 := by
  induction text with
  | nil => rfl
  | cons c rest ih => rw [offsets, List.length_cons, List.length_map, ih, List.length_cons]

theorem getElem?_offsets {text : List Char} {i : Nat} (hi : i ≤ text.length) :
    (offsets text)[i]? = some (utf8 (text.take i)).length := by
  induction text generalizing i with
  | nil =>
    obtain rfl := Nat.le_zero.1 hi
    rfl
  | cons c rest ih =>
    cases i with
    | zero => rfl
    | succ i =>
      rw [offsets, List.getElem?_cons_succ, List.getElem?_map, ih (Nat.le_of_succ_le_succ hi), List.take_succ_cons,
        length_utf8_cons]
      rfl

/-- What lies between the start of a character and the place `width` characters further on. -/
def slices (width : Nat) (text : List Char) : List (List Char) :=
  (windows (width + 1) (offsets text)).filterMap fun places =>
    places.head?.bind fun start => places.getLast?.bind fun stop => sliceBytes start stop text

/-- A slice by bytes holds the characters between its two places. -/
theorem sliceBytes_offsets (text : List Char) (i width : Nat) :
    sliceBytes (utf8 (text.take i)).length (utf8 (text.take (i + width))).length text =
      some ((text.drop i).take width) := by
  have hslice := sliceBytes_append (text.take i) ((text.drop i).take width) ((text.drop i).drop width)
  rwa [List.take_append_drop, List.take_append_drop, ← length_utf8_append, ← List.take_add] at hslice

/-- Windows by bytes are windows by characters. -/
theorem slices_eq (hwidth : 0 < width) (text : List Char) : slices width text = windows width text := by
  have hcount : (offsets text).length + 1 - (width + 1) = text.length + 1 - width := by
    rw [length_offsets, Nat.add_sub_add_right]
  rw [slices, windows_eq_map (Nat.succ_pos width), windows_eq_map hwidth, hcount, List.filterMap_map,
    ← List.filterMap_eq_map]
  refine List.filterMap_congr fun i hi => ?_
  have hle : i + width ≤ text.length := by
    have := List.mem_range.1 hi
    omega
  have hlen : (((offsets text).drop i).take (width + 1)).length = width + 1 := by
    rw [List.length_take, List.length_drop, length_offsets]
    omega
  have hstart : (((offsets text).drop i).take (width + 1)).head? = some (utf8 (text.take i)).length := by
    rw [List.head?_take, if_neg (Nat.succ_ne_zero width), List.head?_drop, getElem?_offsets (Nat.le_of_add_right_le hle)]
  have hstop : (((offsets text).drop i).take (width + 1)).getLast? = some (utf8 (text.take (i + width))).length := by
    rw [List.getLast?_eq_getElem?, hlen, Nat.add_sub_cancel, List.getElem?_take_of_lt (Nat.lt_succ_self width),
      List.getElem?_drop, getElem?_offsets hle]
  rw [Function.comp_apply, hstart, Option.bind_some, hstop, Option.bind_some, sliceBytes_offsets]
  rfl

end SourceLikeness.Ngram
