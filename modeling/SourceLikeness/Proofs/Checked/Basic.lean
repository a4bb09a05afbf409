import SourceLikeness.Proofs.WorkingCopy.Source

/-!
# Operations that can fail

A slice fails if its offsets are not in order, behind the end of the text or inside a character; a difference of two
numbers fails if it is negative. Here these operations are partial: they give nothing where they fail. The passes do
without the checks, since no check fails on a working copy.

* `sub?`, `cut?`, `from?`, `slice?` : differences, and parts of a text by offsets that count bytes;
* `WorkingCopy.overwrite?`, `claim?`, `take?` : the operations of a working copy, with a check at each use of an offset;
* `slice?_eq`, `WorkingCopy.claim?_eq`, … : on a text of ASCII no check fails for offsets inside the text, and none fails
  for spans that are clamped first.
-/

namespace SourceLikeness

/-! ## Differences -/

/-- A difference, if it is not negative. -/
def sub? (a b : Nat) : Option Nat := if b ≤ a then some (a - b) else none

theorem sub?_eq {a b : Nat} (h : b ≤ a) : sub? a b = some (a - b) := if_pos h

/-! ## Parts of a text -/

/-- A text cut at an offset in bytes, if the offset is not behind its end and not inside a character. -/
def cut? (n : Nat) : List Char → Option (List Char × List Char)
  | [] => if n = 0 then some ([], []) else none
  | c :: rest =>
    if n = 0 then some ([], c :: rest)
    else do
      let left ← sub? n c.utf8Size
      let (u, v) ← cut? left rest
      some (c :: u, v)

/-- The text from an offset on. -/
def from? (text : List Char) (n : Nat) : Option (List Char) := (cut? n text).map (·.2)

/-- The part of a text in a span. -/
def slice? (text : List Char) (s : Span) : Option (List Char) := do
  let length ← sub? s.stop s.start
  let rest ← from? text s.start
  (cut? length rest).map (·.1)

/-- The second byte of a character of two bytes is no place to cut, and neither is one behind the end. -/
example : cut? 2 ['a', 'é', 'b'] = none ∧ cut? 3 ['a', 'é', 'b'] = some (['a', 'é'], ['b']) ∧
    slice? ['a', 'b'] ⟨1, 3⟩ = none ∧ slice? ['a', 'b'] ⟨1, 0⟩ = none ∧ slice? ['a', 'é'] ⟨1, 3⟩ = some ['é'] := by
  decide

/-- All characters of a text are of ASCII, so that an offset in bytes is one in characters. -/
def AllAscii (text : List Char) : Prop := ∀ c ∈ text, IsAscii c

namespace AllAscii
variable {text : List Char}

theorem sublist {part : List Char} (h : AllAscii text) (hpart : part.Sublist text) : AllAscii part :=
  fun c hc => h c (hpart.subset hc)

theorem drop (h : AllAscii text) (n : Nat) : AllAscii (text.drop n) := h.sublist (List.drop_sublist n text)

theorem slice (h : AllAscii text) (s : Span) : AllAscii (s.slice text) :=
  (h.drop s.start).sublist (List.take_sublist _ _)

theorem length_utf8 (h : AllAscii text) : (utf8 text).length = text.length := by
  induction text with
  | nil => rfl
  | cons c rest ih =>
    obtain ⟨hc, hrest⟩ := List.forall_mem_cons.1 h
    rw [length_utf8_cons, WorkingCopy.utf8Size_of_isAscii hc, ih hrest, List.length_cons, Nat.add_comm]

theorem cut?_eq (h : AllAscii text) {n : Nat} (hn : n ≤ text.length) : cut? n text = some (text.take n, text.drop n) := by
  induction text generalizing n with
  | nil =>
    obtain rfl := Nat.le_zero.1 hn
    rfl
  | cons c rest ih =>
    obtain ⟨hc, hrest⟩ := List.forall_mem_cons.1 h
    cases n with
    | zero => rfl
    | succ n =>
      rw [cut?, if_neg (Nat.succ_ne_zero n), WorkingCopy.utf8Size_of_isAscii hc, sub?_eq (Nat.le_add_left 1 n),
        Option.bind_eq_bind, Option.bind_some, Nat.add_sub_cancel, ih hrest (Nat.le_of_succ_le_succ hn)]
      rfl

theorem from?_eq (h : AllAscii text) {n : Nat} (hn : n ≤ text.length) : from? text n = some (text.drop n) := by
  rw [from?, h.cut?_eq hn]
  rfl

theorem slice?_eq (h : AllAscii text) {s : Span} (hs : s.start ≤ s.stop) (hstop : s.stop ≤ text.length) :
    slice? text s = some (s.slice text) := by
  have hlength : s.stop - s.start ≤ (text.drop s.start).length := by
    rw [List.length_drop]
    exact Nat.sub_le_sub_right hstop _
  rw [slice?, sub?_eq hs, h.from?_eq (Nat.le_trans hs hstop), Option.bind_eq_bind, Option.bind_some, Option.bind_eq_bind,
    Option.bind_some, (h.drop s.start).cut?_eq hlength]
  rfl

end AllAscii

/-! ## The operations of a working copy -/

namespace WorkingCopy
variable {α : Type} {w : WorkingCopy α}

/-- Overwrites a span, clamped to the text: what stood there is read and then replaced. -/
def overwrite? (w : WorkingCopy α) (s : Span) (fill : Char) : Option (WorkingCopy α) :=
  let s' := s.clamp (utf8 w.text).length
  if s'.start < s'.stop then (slice? w.text s').map fun _ => w.overwrite s fill else some w

/-- Overwrites a span and claims its cells, of which there must be enough. -/
def claim? (w : WorkingCopy α) (s : Span) (fill : Char) : Option (WorkingCopy α) := do
  let s' := s.clamp (utf8 w.text).length
  let _ ← w.overwrite? s fill
  guard (s'.start ≤ s'.stop ∧ s'.stop ≤ w.size)
  some (w.claim s fill)

/-- Records a token and claims its span, or does nothing. -/
def take? (w : WorkingCopy α) (symbol : α) (s : Span) (fill : Char) : Option (WorkingCopy α) :=
  if w.admits s then (w.emit symbol s).claim? s fill else some w

end WorkingCopy

theorem Span.start_clamp_le (s : Span) (n : Nat) : (s.clamp n).start ≤ (s.clamp n).stop := Nat.min_le_right _ _

theorem Span.stop_clamp_le (s : Span) (n : Nat) : (s.clamp n).stop ≤ n := Nat.min_le_right _ _

namespace WorkingCopy
variable {α : Type} {w : WorkingCopy α}

theorem mapSpan_of_stop_le {β : Type} (f : β → β) {s : Span} (hs : s.stop ≤ s.start) (xs : List β) : mapSpan f s xs = xs := by
  rw [mapSpan, Span.slice, Nat.sub_eq_zero_of_le hs, List.take_zero, List.map_nil, List.append_nil, Nat.max_eq_left hs,
    List.take_append_drop]

theorem overwrite?_eq (hw : AllAscii w.text) (s : Span) (fill : Char) : w.overwrite? s fill = some (w.overwrite s fill) := by
  unfold overwrite?
  rw [hw.length_utf8, ← size_eq_length_text]
  dsimp only
  split_ifs with hlt
  · rw [hw.slice?_eq (Nat.le_of_lt hlt) (by rw [← size_eq_length_text]; exact s.stop_clamp_le _)]
    rfl
  · rw [overwrite, mapSpan_of_stop_le _ (Nat.le_of_not_lt hlt)]

theorem claim?_eq (hw : AllAscii w.text) (s : Span) (fill : Char) : w.claim? s fill = some (w.claim s fill) := by
  have hguard : (s.clamp (utf8 w.text).length).start ≤ (s.clamp (utf8 w.text).length).stop ∧
      (s.clamp (utf8 w.text).length).stop ≤ w.size := by
    rw [hw.length_utf8, ← size_eq_length_text]
    exact ⟨s.start_clamp_le _, s.stop_clamp_le _⟩
  rw [claim?, overwrite?_eq hw]
  simp only [guard, if_pos hguard]
  rfl

theorem take?_eq (hw : AllAscii w.text) (symbol : α) (s : Span) (fill : Char) :
    w.take? symbol s fill = some (w.take symbol s fill) := by
  unfold take? take
  split_ifs
  · exact claim?_eq ((grows_emit w symbol s).text_ascii hw) s fill
  · rfl

/-- A working copy of ASCII stays one. -/
theorem Edits.allAscii {w' : WorkingCopy α} (h : Edits w w') (hw : AllAscii w.text) : AllAscii w'.text :=
  h.grows.text_ascii hw

/-- A fold over spans that edits a working copy step by step, if no check fails on a working copy of ASCII. -/
theorem foldlM_eq {β : Type} {f : WorkingCopy α → β → WorkingCopy α} {f? : WorkingCopy α → β → Option (WorkingCopy α)}
    (hedits : ∀ w x, Edits w (f w x)) {xs : List β} (hw : AllAscii w.text)
    (h : ∀ w', Edits w w' → AllAscii w'.text → ∀ x ∈ xs, f? w' x = some (f w' x)) :
    xs.foldlM f? w = some (xs.foldl f w) := by
  induction xs generalizing w with
  | nil => rfl
  | cons x xs ih =>
    have hx := hedits w x
    rw [List.foldlM_cons, h w .refl hw x List.mem_cons_self, Option.bind_eq_bind, Option.bind_some]
    exact ih (hx.allAscii hw) fun w' hw' hascii y hy => h w' (hx.trans hw') hascii y (List.mem_cons_of_mem x hy)

end WorkingCopy
end SourceLikeness
