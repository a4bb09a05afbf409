import SourceLikeness.Proofs.Text.Cut
import SourceLikeness.Proofs.WorkingCopy.Twin
import SourceLikeness.Tokenizer.Docstring

/-!
# Docstrings of two texts

A line that holds nothing but a literal holds nothing else in the other text: its ones are a numeral.

* `IsLone`, `loneSpan` : such a line, and the span of its literal;
* `Lone`, `lone_of_mem_spans` : the spans of the literals hold ones and stand between edges;
* `spans_eq` : they stand at the same offsets of both texts;
* `twin_apply` : the pass that erases docstrings makes twins of twins.
-/

namespace SourceLikeness.Tokenizer.Docstring
open Text
open WorkingCopy (Step)
variable {s t : List Char} {x : Lexicon} {w w' : Work}

/-- A line holds nothing but a literal. -/
def IsLone (line : List Char) : Prop := trim line ≠ [] ∧ (trim line).all (· == WorkingCopy.literal) = true

instance (line : List Char) : Decidable (IsLone line) := inferInstanceAs (Decidable (_ ∧ _))

/-- The span of what is not blank of a line that starts at an offset. -/
def loneSpan (o : Nat) (line : List Char) : Span :=
  let start := o + (line.length - (trimStart line).length)
  ⟨start, start + (trim line).length⟩

theorem spansFrom_cons (o : Nat) (line : List Char) (lines : List (List Char)) :
    spansFrom o (line :: lines) =
      (if IsLone line then [loneSpan o line] else []) ++ spansFrom (o + line.length + 1) lines := by
  have hiff : (decide (trim line ≠ []) && (trim line).all (· == WorkingCopy.literal)) = true ↔ IsLone line := by
    rw [Bool.and_eq_true, decide_eq_true_eq]
    exact Iff.rfl
  rw [spansFrom]
  by_cases h : IsLone line
  · rw [if_pos h]
    exact if_pos (hiff.2 h)
  · rw [if_neg h]
    exact if_neg (mt hiff.1 h)

/-- The ones of one text are a numeral, so the other text has them too. -/
theorem eq_of_all_ones (hnum : x.numerals = true) (h : Text.Twin x s t)
    (hs : s.all (· == WorkingCopy.literal) = true) : s = t := by
  have hone : ∀ (i : Nat) (c : Char), s[i]? = some c → c = '1' := fun i c hc =>
    beq_iff_eq.1 (List.all_eq_true.1 hs c (List.mem_of_getElem? hc))
  have hdigits : NumeralAt s.length s 0 := by
    refine ⟨fun j hj => ?_, rfl⟩
    rw [Nat.zero_add, List.getElem?_eq_getElem hj, Option.any_some,
      hone j _ (List.getElem?_eq_getElem hj)]
    decide
  refine List.ext_getElem? fun i => ?_
  rcases Nat.lt_or_ge i s.length with hi | hi
  · have hsame := h.forward.numeral hnum s.length 0 hdigits i hi
    rwa [Nat.zero_add] at hsame
  · rw [List.getElem?_eq_none hi, List.getElem?_eq_none (h.length ▸ hi)]

theorem IsLone.of_twin (hx : x.WellFormed) (hnum : x.numerals = true) (h : Text.Twin x s t) (hs : IsLone s) :
    IsLone t := by
  have heq := eq_of_all_ones hnum (h.trim hx) hs.2
  unfold IsLone
  rw [← heq]
  exact hs

theorem alike_trimStart (h : Alike s t) : Alike (trimStart s) (trimStart t) := by
  rw [trimStart, trimStart, dropWhile_eq_drop isBlank s, dropWhile_eq_drop isBlank t, ← h.length_takeWhile uniform_isBlank]
  exact h.drop _

theorem loneSpan_eq (h : Alike s t) (o : Nat) : loneSpan o s = loneSpan o t := by
  have hstart := alike_trimStart h
  have htrim : (trim s).length = (trim t).length := by
    rw [trim, trim, trimEnd_eq_take, trimEnd_eq_take, List.length_take, List.length_take, hstart.trimmed_eq,
      hstart.length]
  unfold loneSpan
  rw [h.length, hstart.length, htrim]

/-- What is not blank of a line stands between two edges. -/
theorem edged_loneSpan (line : List Char) : Edged line (loneSpan 0 line) := by
  have hskip : (line.takeWhile isBlank).length ≤ line.length := (List.takeWhile_prefix _).length_le
  have hstart : trimStart line = line.drop (line.takeWhile isBlank).length := dropWhile_eq_drop _ _
  have hbody := trimmed_le (trimStart line)
  have hlength : (trim line).length = trimmed (trimStart line) := by
    rw [trim, trimEnd_eq_take, List.length_take, Nat.min_eq_left hbody]
  have hedge := inside_trimmed (trimStart line)
  have hskipEdge := inside_length_takeWhile uniform_isBlank line
  rw [hstart, List.length_drop] at hbody
  rw [hstart] at hedge hlength
  unfold loneSpan
  rw [hlength, hstart, List.length_drop, Nat.sub_sub_self hskip, Nat.zero_add]
  exact ⟨hskipEdge, inside_of_drop hskipEdge hedge, hskip, by dsimp only; omega⟩

theorem shift_loneSpan (o : Nat) (line : List Char) : (loneSpan 0 line).shift o = loneSpan o line := by
  simp only [loneSpan, Span.shift, Span.mk.injEq]
  omega

/-- A span of a text that holds a literal, between two edges. -/
structure Lone (s : List Char) (p : Span) : Prop where
  edged : Edged s p
  lt : p.start < p.stop
  ones : ∀ i, p.start ≤ i → i < p.stop → s[i]? = some WorkingCopy.literal

theorem lone_loneSpan {line : List Char} (h : IsLone line) : Lone line (loneSpan 0 line) where
  edged := edged_loneSpan line
  lt := Nat.lt_add_of_pos_right (List.length_pos_iff.2 h.1)
  ones i hle hlt := by
    have hskip : (line.takeWhile isBlank).length ≤ line.length := (List.takeWhile_prefix _).length_le
    have hstart : trimStart line = line.drop (line.takeWhile isBlank).length := dropWhile_eq_drop _ _
    have hbody : trim line = (line.drop (line.takeWhile isBlank).length).take (trimmed (trimStart line)) := by
      rw [trim, trimEnd_eq_take, ← hstart]
    simp only [loneSpan, hstart, List.length_drop] at hle hlt
    have hin : i - (line.takeWhile isBlank).length < (trim line).length := by omega
    have hone : (trim line)[i - (line.takeWhile isBlank).length]? = some WorkingCopy.literal := by
      rw [List.getElem?_eq_getElem hin]
      exact congrArg some (beq_iff_eq.1 (List.all_eq_true.1 h.2 _ (List.getElem_mem hin)))
    have hwidth := hin
    rw [hbody, List.length_take] at hwidth
    rw [hbody, List.getElem?_take_of_lt (by omega), List.getElem?_drop, Nat.add_sub_cancel' (by omega)] at hone
    exact hone

theorem Lone.of_slice {q p : Span} (hq : Edged s q) (h : Lone (q.slice s) p) : Lone s (p.shift q.start) where
  edged := hq.of_slice h.edged
  lt := Nat.add_lt_add_right h.lt _
  ones i hle hlt := by
    have hle : p.start + q.start ≤ i := hle
    have hlt : i < p.stop + q.start := hlt
    have hone := h.ones (i - q.start) (by omega) (by omega)
    rw [WorkingCopy.getElem?_slice] at hone
    split_ifs at hone
    rwa [Nat.add_sub_cancel' (by omega)] at hone

theorem slice_line (s : List Char) (o n : Nat) : Span.slice ⟨o, o + n⟩ s = (s.drop o).take n := by
  rw [Span.slice, Nat.add_sub_cancel_left]

/-- The literals that stand alone on their lines. -/
theorem lone_of_mem_spansFrom {o : Nat} (ho : wordBefore s o = false) (hle : o ≤ s.length) :
    ∀ p ∈ spansFrom o (pieces (· == '\n') (s.drop o)), Lone s p := by
  induction hn : s.length - o using Nat.strongRecOn generalizing o with
  | ind n ih =>
    have hwidth : ((s.drop o).take (lineLength s o)).length = lineLength s o := by
      rw [List.length_take, List.length_drop, Nat.min_eq_left (lineLength_le s o)]
    rw [pieces_drop s o, spansFrom_cons, hwidth]
    intro p hp
    rcases List.mem_append.1 hp with hp | hp
    · split_ifs at hp with hlone
      · obtain rfl := List.mem_singleton.1 hp
        rw [← slice_line] at hlone ⊢
        rw [← shift_loneSpan]
        exact Lone.of_slice (edged_line ho hle) (lone_loneSpan hlone)
      · exact absurd hp List.not_mem_nil
    · split_ifs at hp with hlt
      · exact ih _ (by omega) (o := o + lineLength s o + 1) (wordAt_line_end s o) hlt rfl p hp
      · exact absurd hp List.not_mem_nil

theorem lone_of_mem_spans {p : Span} (hp : p ∈ spans s) : Lone s p :=
  lone_of_mem_spansFrom (o := 0) rfl (Nat.zero_le _) p hp

/-- The literals stand at the same offsets of both texts. -/
theorem spansFrom_eq (hx : x.WellFormed) (hnum : x.numerals = true) (h : Text.Twin x s t) {o : Nat}
    (ho : wordBefore s o = false) (hle : o ≤ s.length) :
    spansFrom o (pieces (· == '\n') (s.drop o)) = spansFrom o (pieces (· == '\n') (t.drop o)) := by
  induction hn : s.length - o using Nat.strongRecOn generalizing o with
  | ind n ih =>
    have hedged := edged_line ho hle
    have hline := h.slice hx hedged.start hedged.stop
    rw [slice_line, slice_line] at hline
    have hlone : IsLone ((s.drop o).take (lineLength s o)) ↔ IsLone ((t.drop o).take (lineLength s o)) :=
      ⟨.of_twin hx hnum hline, .of_twin hx hnum hline.symm⟩
    have hwidth : ((s.drop o).take (lineLength s o)).length = lineLength s o := by
      rw [List.length_take, List.length_drop, Nat.min_eq_left (lineLength_le s o)]
    have hrest : spansFrom (o + lineLength s o + 1)
          (if o + lineLength s o < s.length then pieces (· == '\n') (s.drop (o + lineLength s o + 1)) else []) =
        spansFrom (o + lineLength s o + 1)
          (if o + lineLength s o < s.length then pieces (· == '\n') (t.drop (o + lineLength s o + 1)) else []) := by
      split_ifs with hlt
      · exact ih _ (by omega) (wordAt_line_end s o) hlt rfl
      · rfl
    rw [pieces_drop s o, pieces_drop t o, ← lineLength_eq h.toAlike, ← h.length, spansFrom_cons, spansFrom_cons,
      ← hline.length, hwidth, ← loneSpan_eq hline.toAlike, ← hrest, if_congr hlone rfl rfl]

theorem spans_eq (hx : x.WellFormed) (hnum : x.numerals = true) (h : Text.Twin x s t) : spans s = spans t :=
  spansFrom_eq hx hnum h (o := 0) rfl (Nat.zero_le _)

/-- **Docstrings.** The pass makes twins of twins, if the lexicon has the numerals. -/
theorem twin_apply (hx : x.WellFormed) (hnum : x.numerals = true) (hfill : IsBlot x WorkingCopy.blank)
    (h : WorkingCopy.Twin x w w') : WorkingCopy.Twin x (apply w) (apply w') := by
  unfold apply
  rw [← spans_eq hx hnum h.text]
  refine (Step.foldl (fun p hmem v v' hv => ?_) h.step).toTwin
  exact hv.overwrite hx hfill (lone_of_mem_spans hmem).edged.margin

end SourceLikeness.Tokenizer.Docstring
