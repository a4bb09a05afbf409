import SourceLikeness.WorkingCopy
import SourceLikeness.Proofs.Window
import Mathlib.Logic.Relation

/-!
# Editing a working copy

All that a pass can do to a working copy is to overwrite or claim spans, to take tokens and to set markers.

* `WorkingCopy.Edit`, `WorkingCopy.Edits` : one of these operations with an ASCII fill, and any number of them;
* `WorkingCopy.Grows` : what no operation undoes: the number of cells, ASCII, newlines, claims, tokens;
* `WorkingCopy.Sound` : the tokens lie inside the text, and those that are no markers lie on claimed cells
  and apart from each other;
* `Edits.grows`, `Edits.sound` : both hold of every sequence of operations.
-/

namespace SourceLikeness

/-- A character of ASCII. -/
def IsAscii (c : Char) : Prop := c.toNat < 128

instance (c : Char) : Decidable (IsAscii c) := inferInstanceAs (Decidable (c.toNat < 128))

/-- Two tokens have no place in common, unless one of them is a marker. -/
def Token.Apart {α : Type} (s t : Token α) : Prop :=
  s.start < s.stop → t.start < t.stop → s.stop ≤ t.start ∨ t.stop ≤ s.start

theorem Token.Apart.symm {α : Type} {s t : Token α} (h : s.Apart t) : t.Apart s :=
  fun ht hs => (h hs ht).symm

namespace Cell

/-- What an operation keeps of a cell. -/
structure Grows (c c' : Cell) : Prop where
  ascii : IsAscii c.char → IsAscii c'.char
  newline : c.char = '\n' → c'.char = '\n'
  claimed : c.claimed = true → c'.claimed = true

theorem Grows.refl (c : Cell) : c.Grows c := ⟨id, id, id⟩

theorem Grows.trans {c c' c'' : Cell} (h : c.Grows c') (h' : c'.Grows c'') : c.Grows c'' :=
  ⟨h'.ascii ∘ h.ascii, h'.newline ∘ h.newline, h'.claimed ∘ h.claimed⟩

theorem grows_fill {fill : Char} (hfill : IsAscii fill) (c : Cell) : c.Grows (c.fill fill) := by
  unfold Cell.fill
  split_ifs with h
  · exact Grows.refl c
  · exact ⟨fun _ => hfill, fun hc => absurd hc h, id⟩

theorem grows_claim {fill : Char} (hfill : IsAscii fill) (c : Cell) : c.Grows (c.claim fill) :=
  (grows_fill hfill c).trans ⟨id, id, fun _ => rfl⟩

end Cell

namespace WorkingCopy
variable {α β : Type} {w w' w'' : WorkingCopy α}

theorem size_eq_length_text (w : WorkingCopy α) : w.size = w.text.length := by rw [size, text, List.length_map]

/-! ## Spans of a list -/

theorem mapSpan_eq (f : β → β) (s : Span) (xs : List β) :
    mapSpan f s xs = xs.take s.start ++ ((xs.drop s.start).take (s.stop - s.start)).map f ++
      xs.drop (s.start + (s.stop - s.start)) := by
  rw [mapSpan, Span.slice, show max s.start s.stop = s.start + (s.stop - s.start) by omega]

theorem length_mapSpan (f : β → β) (s : Span) (xs : List β) : (mapSpan f s xs).length = xs.length := by
  rw [mapSpan_eq, length_window]

/-- The elements of a list after those of a span went through a function. What lies behind the end of the
list does not count. -/
theorem getElem?_mapSpan_clamp (f : β → β) (s : Span) (xs : List β) (p : Nat) :
    (mapSpan f (s.clamp xs.length) xs)[p]? = if s.start ≤ p ∧ p < s.stop then xs[p]?.map f else xs[p]? := by
  rw [mapSpan_eq, getElem?_window]
  rcases Nat.lt_or_ge p xs.length with hp | hp
  · refine if_congr ?_ rfl rfl
    simp only [Span.clamp]
    omega
  · rw [List.getElem?_eq_none hp, Option.map_none, ite_self, ite_self]

theorem getElem?_slice (s : Span) (xs : List β) (p : Nat) :
    (s.slice xs)[p]? = if p < s.stop - s.start then xs[s.start + p]? else none := by
  rw [Span.slice, List.getElem?_take, List.getElem?_drop]

/-! ## Which tokens are admitted -/

/-- A span inside the text is claimed if one of its cells is. -/
theorem isClaimed_iff {s : Span} (hs : s.start ≤ s.stop) (hstop : s.stop ≤ w.size) :
    w.isClaimed s = true ↔ ∃ p c, s.start ≤ p ∧ p < s.stop ∧ w.cells[p]? = some c ∧ c.claimed = true := by
  simp only [isClaimed, hs, hstop, decide_true, Bool.true_and, List.any_eq_true]
  constructor
  · rintro ⟨c, hc, hclaimed⟩
    obtain ⟨k, hk⟩ := List.getElem?_of_mem hc
    rw [getElem?_slice] at hk
    split_ifs at hk with hlt
    exact ⟨s.start + k, c, by omega, by omega, hk, hclaimed⟩
  · rintro ⟨p, c, hle, hlt, hp, hclaimed⟩
    refine ⟨c, List.mem_of_getElem? (i := p - s.start) ?_, hclaimed⟩
    rw [getElem?_slice, if_pos (by omega), Nat.add_sub_cancel' hle, hp]

/-- A token is admitted if it lies inside the text and on no claimed cell. -/
theorem admits_iff {s : Span} : w.admits s = true ↔ s.start ≤ s.stop ∧ s.stop ≤ w.size ∧
    ∀ p c, s.start ≤ p → p < s.stop → w.cells[p]? = some c → c.claimed = false := by
  simp only [admits, Bool.and_eq_true, decide_eq_true_eq, Bool.not_eq_true', and_assoc]
  refine and_congr_right fun hs => and_congr_right fun hstop => ?_
  rw [← Bool.not_eq_true, isClaimed_iff hs hstop]
  push Not
  simp only [Bool.not_eq_true]

/-! ## What no operation undoes -/

/-- The cells are as many as before and keep what a cell keeps, and the tokens are those of before
followed by others. -/
structure Grows (w w' : WorkingCopy α) : Prop where
  size_eq : w'.size = w.size
  cell : ∀ (p : Nat) (c : Cell), w.cells[p]? = some c → ∃ c' : Cell, w'.cells[p]? = some c' ∧ c.Grows c'
  tokens : w.tokens <+: w'.tokens

theorem Grows.refl (w : WorkingCopy α) : w.Grows w :=
  ⟨rfl, fun _ c hc => ⟨c, hc, Cell.Grows.refl c⟩, List.prefix_refl _⟩

theorem Grows.trans (h : w.Grows w') (h' : w'.Grows w'') : w.Grows w'' where
  size_eq := h'.size_eq.trans h.size_eq
  cell p c hc := by
    obtain ⟨c', hc', hg⟩ := h.cell p c hc
    obtain ⟨c'', hc'', hg'⟩ := h'.cell p c' hc'
    exact ⟨c'', hc'', hg.trans hg'⟩
  tokens := h.tokens.trans h'.tokens

theorem grows_mapSpan {f : Cell → Cell} (hf : ∀ c : Cell, c.Grows (f c)) (w : WorkingCopy α) (s : Span) :
    w.Grows { w with cells := mapSpan f (s.clamp w.size) w.cells } where
  size_eq := length_mapSpan _ _ _
  cell p c hc := by
    rw [size, getElem?_mapSpan_clamp, hc]
    split_ifs
    · exact ⟨f c, rfl, hf c⟩
    · exact ⟨c, rfl, Cell.Grows.refl c⟩
  tokens := List.prefix_refl _

theorem grows_emit (w : WorkingCopy α) (symbol : α) (s : Span) : w.Grows (w.emit symbol s) := by
  unfold emit
  split_ifs
  · exact ⟨rfl, fun _ c hc => ⟨c, hc, Cell.Grows.refl c⟩, List.prefix_append _ _⟩
  · exact Grows.refl w

theorem grows_overwrite (w : WorkingCopy α) (s : Span) {fill : Char} (hfill : IsAscii fill) :
    w.Grows (w.overwrite s fill) := grows_mapSpan (Cell.grows_fill hfill) w s

theorem grows_claim (w : WorkingCopy α) (s : Span) {fill : Char} (hfill : IsAscii fill) :
    w.Grows (w.claim s fill) := grows_mapSpan (Cell.grows_claim hfill) w s

theorem grows_take (w : WorkingCopy α) (symbol : α) (s : Span) {fill : Char} (hfill : IsAscii fill) :
    w.Grows (w.take symbol s fill) := by
  unfold take
  split_ifs
  · exact (grows_emit w symbol s).trans (grows_claim _ s hfill)
  · exact Grows.refl w

/-- The text stays ASCII. -/
theorem Grows.text_ascii (h : w.Grows w') (hw : ∀ c ∈ w.text, IsAscii c) : ∀ c ∈ w'.text, IsAscii c := by
  intro c hc
  obtain ⟨cell', hmem, rfl⟩ := List.mem_map.1 hc
  obtain ⟨p, hp⟩ := List.getElem?_of_mem hmem
  have hlt : p < w.cells.length := by
    rw [show w.cells.length = w'.cells.length from h.size_eq.symm]
    exact (List.getElem?_eq_some_iff.1 hp).1
  obtain ⟨cell'', hp'', hg⟩ := h.cell p _ (List.getElem?_eq_getElem hlt)
  obtain rfl := Option.some.inj (hp.symm.trans hp'')
  exact hg.ascii (hw _ (List.mem_map_of_mem (List.getElem_mem hlt)))

/-- A newline stays where it is. -/
theorem Grows.text_newline (h : w.Grows w') {p : Nat} (hp : w.text[p]? = some '\n') :
    w'.text[p]? = some '\n' := by
  rw [text, List.getElem?_map, Option.map_eq_some_iff] at hp ⊢
  obtain ⟨c, hc, hn⟩ := hp
  obtain ⟨c', hc', hg⟩ := h.cell p c hc
  exact ⟨c', hc', hg.newline hn⟩

/-! ## What holds of the tokens -/

/-- The tokens lie inside the text; those that are no markers lie on claimed cells and apart from each
other. -/
structure Sound (w : WorkingCopy α) : Prop where
  bounds : ∀ t ∈ w.tokens, t.start ≤ t.stop ∧ t.stop ≤ w.size
  claimed : ∀ t ∈ w.tokens, ∀ p, t.start ≤ p → p < t.stop → ∃ c, w.cells[p]? = some c ∧ c.claimed = true
  apart : w.tokens.Pairwise Token.Apart

theorem Sound.of_tokens_eq (h : w.Sound) (hg : w.Grows w') (ht : w'.tokens = w.tokens) : w'.Sound where
  bounds t hmem := by
    rw [ht] at hmem
    rw [hg.size_eq]
    exact h.bounds t hmem
  claimed t hmem p hle hlt := by
    rw [ht] at hmem
    obtain ⟨c, hc, hclaimed⟩ := h.claimed t hmem p hle hlt
    obtain ⟨c', hc', hcg⟩ := hg.cell p c hc
    exact ⟨c', hc', hcg.claimed hclaimed⟩
  apart := by
    rw [ht]
    exact h.apart

/-- A token that is admitted lies apart from those recorded before, whose cells are claimed. -/
theorem Sound.apart_of_admits (h : w.Sound) {s : Span} (hs : w.admits s = true) (symbol : α) :
    ∀ t ∈ w.tokens, t.Apart ⟨symbol, s.start, s.stop⟩ := by
  obtain ⟨-, -, hfree⟩ := admits_iff.1 hs
  intro t ht htne hsne
  by_contra hno
  dsimp only at hsne hno
  obtain ⟨c, hc, hclaimed⟩ := h.claimed t ht (max t.start s.start) (by omega) (by omega)
  have := hfree _ c (by omega) (by omega) hc
  rw [hclaimed] at this
  exact Bool.noConfusion this

theorem Sound.apart_append (h : w.Sound) {s : Span} (hs : w.admits s = true) (symbol : α) :
    List.Pairwise Token.Apart (w.tokens ++ [⟨symbol, s.start, s.stop⟩]) := by
  refine List.pairwise_append.2 ⟨h.apart, List.pairwise_singleton _ _, ?_⟩
  intro t ht u hu
  obtain rfl := List.mem_singleton.1 hu
  exact h.apart_of_admits hs symbol t ht

theorem Sound.mark (h : w.Sound) (symbol : α) (place : Nat) : (w.mark symbol place).Sound := by
  unfold WorkingCopy.mark emit
  split_ifs with hadm
  · obtain ⟨-, hstop, -⟩ := admits_iff.1 hadm
    refine ⟨List.forall_mem_append.2 ⟨h.bounds, ?_⟩, List.forall_mem_append.2 ⟨h.claimed, ?_⟩,
      h.apart_append hadm symbol⟩
    · exact List.forall_mem_singleton.2 ⟨Nat.le_refl place, hstop⟩
    · exact List.forall_mem_singleton.2 fun p hle hlt => absurd (Nat.lt_of_le_of_lt hle hlt) (Nat.lt_irrefl place)
  · exact h

theorem Sound.take (h : w.Sound) (symbol : α) (s : Span) {fill : Char} (hfill : IsAscii fill) :
    (w.take symbol s fill).Sound := by
  unfold WorkingCopy.take emit
  split_ifs with hadm
  · obtain ⟨hs, hstop, -⟩ := admits_iff.1 hadm
    have hclaim := h.of_tokens_eq (grows_claim w s hfill) rfl
    refine ⟨List.forall_mem_append.2 ⟨hclaim.bounds, ?_⟩, List.forall_mem_append.2 ⟨hclaim.claimed, ?_⟩,
      h.apart_append hadm symbol⟩
    · exact List.forall_mem_singleton.2 ⟨hs, Nat.le_trans hstop (Nat.le_of_eq (grows_claim w s hfill).size_eq.symm)⟩
    · rw [List.forall_mem_singleton]
      intro p hle hlt
      have hp : p < w.cells.length := Nat.lt_of_lt_of_le hlt hstop
      refine ⟨(w.cells[p]).claim fill, ?_, rfl⟩
      change (mapSpan (Cell.claim fill) (s.clamp w.cells.length) w.cells)[p]? = _
      rw [getElem?_mapSpan_clamp, if_pos ⟨hle, hlt⟩, List.getElem?_eq_getElem hp, Option.map_some]
  · exact h

/-! ## Sequences of operations -/

/-- One operation on a working copy. -/
inductive Edit : WorkingCopy α → WorkingCopy α → Prop
  | overwrite (w : WorkingCopy α) (s : Span) {fill : Char} (hfill : IsAscii fill) : Edit w (w.overwrite s fill)
  | claim (w : WorkingCopy α) (s : Span) {fill : Char} (hfill : IsAscii fill) : Edit w (w.claim s fill)
  | take (w : WorkingCopy α) (symbol : α) (s : Span) {fill : Char} (hfill : IsAscii fill) :
      Edit w (w.take symbol s fill)
  | mark (w : WorkingCopy α) (symbol : α) (place : Nat) : Edit w (w.mark symbol place)

/-- Any number of operations. -/
abbrev Edits : WorkingCopy α → WorkingCopy α → Prop := Relation.ReflTransGen Edit

namespace Edits

theorem overwrite (h : Edits w w') (s : Span) {fill : Char} (hfill : IsAscii fill) :
    Edits w (w'.overwrite s fill) := h.tail (.overwrite w' s hfill)

theorem claim (h : Edits w w') (s : Span) {fill : Char} (hfill : IsAscii fill) : Edits w (w'.claim s fill) :=
  h.tail (.claim w' s hfill)

theorem take (h : Edits w w') (symbol : α) (s : Span) {fill : Char} (hfill : IsAscii fill) :
    Edits w (w'.take symbol s fill) := h.tail (.take w' symbol s hfill)

theorem mark (h : Edits w w') (symbol : α) (place : Nat) : Edits w (w'.mark symbol place) :=
  h.tail (.mark w' symbol place)

/-- A fold whose steps are sequences of operations is one. -/
theorem foldl {f : WorkingCopy α → β → WorkingCopy α} (hf : ∀ w x, Edits w (f w x)) (xs : List β)
    (h : Edits w w') : Edits w (xs.foldl f w') := by
  induction xs generalizing w' with
  | nil => exact h
  | cons x xs ih => exact ih (h.trans (hf w' x))

end Edits

theorem Edit.grows (h : Edit w w') : w.Grows w' := by
  cases h with
  | overwrite s hfill => exact grows_overwrite w s hfill
  | claim s hfill => exact grows_claim w s hfill
  | take symbol s hfill => exact grows_take w symbol s hfill
  | mark symbol place => exact grows_emit w symbol _

theorem Edit.sound (h : Edit w w') (hw : w.Sound) : w'.Sound := by
  cases h with
  | overwrite s hfill => exact hw.of_tokens_eq (grows_overwrite w s hfill) rfl
  | claim s hfill => exact hw.of_tokens_eq (grows_claim w s hfill) rfl
  | take symbol s hfill => exact hw.take symbol s hfill
  | mark symbol place => exact hw.mark symbol place

theorem Edits.grows (h : Edits w w') : w.Grows w' := by
  induction h with
  | refl => exact Grows.refl w
  | tail _ he ih => exact ih.trans he.grows

theorem Edits.sound (h : Edits w w') (hw : w.Sound) : w'.Sound := by
  induction h with
  | refl => exact hw
  | tail _ he ih => exact he.sound ih

end WorkingCopy
end SourceLikeness
