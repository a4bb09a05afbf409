import SourceLikeness.Proofs.Blocks.Depth
import SourceLikeness.Proofs.Nesting.Fences
import SourceLikeness.Proofs.WorkingCopy.Twin

/-!
# Operations that keep the depth of a text

A working copy keeps its depth when what is written over is balanced.

* `Level w w'` : the text of `w'` has the depth of that of `w`, and no brace was recorded but markers;
* `Kept w w'` : the cells of `w'` are those of `w` or claimed without a brace;
* `Reached w w'` : both, and the tokens of `w` come first; `Reached.mark`, `Reached.claim`, `Reached.take` : one more
  operation; `Reached.foldl` : any number of them;
* `Holds w tokens` : the tokens recorded since hold balanced text of `w`; `Reached.take_of_holds` : taking one of them.
-/

namespace SourceLikeness.Tokenizer
open Text (braceAt)
open WorkingCopy (size_eq_length_text)
variable {w w' w'' : Work} {s : Span} {fill : Char} {p : Nat} {c : Category}

/-- Whether a token is a brace that is no marker. -/
def isBrace (t : Token Category) : Bool := !t.isMarker && t.symbol.bracket?.isSome

/-- No brace stands on a claimed cell. -/
def Clear (w : Work) : Prop := ∀ c ∈ w.cells, c.claimed = true → brace? c.char = none

/-- No brace stands in a span of a text. -/
def Braceless (p : Span) (s : List Char) : Prop := ∀ i, p.start ≤ i → i < p.stop → braceAt s i = none

theorem Braceless.balanced {p : Span} {s : List Char} (h : Braceless p s) : Balanced (p.slice s) := by
  refine Nested.of_none fun x hx => ?_
  obtain ⟨i, hle, hlt, hi⟩ := Span.mem_slice_iff.1 hx
  have hnone := h i hle hlt
  rwa [braceAt, hi] at hnone

/-- The text has the same depth, and no brace was recorded but markers. -/
structure Level (w w' : Work) : Prop where
  size_eq : w'.size = w.size
  depth : ∀ d, Bracket.depth brace? d w'.text = Bracket.depth brace? d w.text
  braces : w'.tokens.filter isBrace = w.tokens.filter isBrace
  clear : Clear w → Clear w'

theorem Level.refl (w : Work) : Level w w := ⟨rfl, fun _ => rfl, rfl, id⟩

theorem Level.trans (h : Level w w') (h' : Level w' w'') : Level w w'' :=
  ⟨h'.size_eq.trans h.size_eq, fun d => (h'.depth d).trans (h.depth d), h'.braces.trans h.braces, h'.clear ∘ h.clear⟩

/-- The cells are those of before, or claimed and without a brace. -/
def Kept (w w' : Work) : Prop :=
  ∀ p : Nat, w'.cells[p]? = w.cells[p]? ∨ ∃ c : Cell, w'.cells[p]? = some c ∧ c.claimed = true ∧ brace? c.char = none

namespace Kept

theorem of_eq (h : w'.cells = w.cells) : Kept w w' := fun p => Or.inl (by rw [h])

theorem trans (h : Kept w w') (h' : Kept w' w'') : Kept w w'' := fun p =>
  (h' p).elim (fun heq => heq ▸ h p) Or.inr

theorem braceAt_eq (h : Kept w w') (p : Nat) : braceAt w'.text p = none ∨ braceAt w'.text p = braceAt w.text p := by
  unfold braceAt WorkingCopy.text
  rw [List.getElem?_map, List.getElem?_map]
  rcases h p with heq | ⟨c, hc, -, hnone⟩
  · rw [heq]
    exact Or.inr rfl
  · rw [hc]
    exact Or.inl hnone

theorem braceless (h : Kept w w') (hs : Braceless s w.text) : Braceless s w'.text := fun i hle hlt =>
  (h.braceAt_eq i).elim id fun heq => heq.trans (hs i hle hlt)

theorem clear (h : Kept w w') (hw : Clear w) : Clear w' := by
  intro c hc hclaimed
  obtain ⟨p, hp⟩ := List.getElem?_of_mem hc
  rcases h p with heq | ⟨d, hd, -, hnone⟩
  · exact hw c (List.mem_of_getElem? (heq ▸ hp)) hclaimed
  · obtain rfl := Option.some.inj (hp.symm.trans hd)
    exact hnone

/-- A span that is free is as it was. -/
theorem getElem?_text_eq (h : Kept w w') (hs : w'.admits s = true) (hle : s.start ≤ p) (hlt : p < s.stop) :
    w'.text[p]? = w.text[p]? := by
  obtain ⟨-, -, hfree⟩ := WorkingCopy.admits_iff.1 hs
  rw [WorkingCopy.text, WorkingCopy.text, List.getElem?_map, List.getElem?_map]
  rcases h p with heq | ⟨c, hc, hclaimed, -⟩
  · rw [heq]
  · have hnot := hfree p c hle hlt hc
    rw [hclaimed] at hnot
    exact Bool.noConfusion hnot

theorem slice_eq (h : Kept w w') (hs : w'.admits s = true) : s.slice w'.text = s.slice w.text := by
  refine List.ext_getElem? fun j => ?_
  rw [WorkingCopy.getElem?_slice, WorkingCopy.getElem?_slice]
  split_ifs with hj
  · exact h.getElem?_text_eq hs (Nat.le_add_right _ _) (by omega)
  · rfl

end Kept

/-- A working copy that was reached by operations that keep the depth. -/
structure Reached (w w' : Work) : Prop extends Level w w' where
  kept : Kept w w'
  tokens : w.tokens <+: w'.tokens

namespace Reached

theorem refl (w : Work) : Reached w w := ⟨.refl w, .of_eq rfl, List.prefix_refl _⟩

theorem trans (h : Reached w w') (h' : Reached w' w'') : Reached w w'' :=
  ⟨h.toLevel.trans h'.toLevel, h.kept.trans h'.kept, h.tokens.trans h'.tokens⟩

/-- A fold reaches what its steps reach. Each step may use what was reached before it, and that its tokens are among
those in the end. -/
theorem foldl {β : Type} {g : Work → β → Work} {tokens : List (Token Category)} {xs : List β}
    (hgrow : ∀ v x, v.tokens <+: (g v x).tokens)
    (hstep : ∀ x ∈ xs, ∀ v, Reached w v → (g v x).tokens <+: tokens → Reached w (g v x)) (h : Reached w w')
    (htokens : (xs.foldl g w').tokens <+: tokens) : Reached w (xs.foldl g w') := by
  induction xs generalizing w' with
  | nil => exact h
  | cons x xs ih =>
    obtain ⟨hx, hxs⟩ := List.forall_mem_cons.1 hstep
    have hrest : ∀ (ys : List β) (v : Work), v.tokens <+: (ys.foldl g v).tokens := by
      intro ys
      induction ys with
      | nil => exact fun v => List.prefix_refl _
      | cons y ys ihys => exact fun v => (hgrow v y).trans (ihys (g v y))
    exact ih hxs (hx w' h ((hrest xs (g w' x)).trans htokens)) htokens

end Reached

/-! ## Operations -/

theorem getElem?_claim (w : Work) (s : Span) (fill : Char) (p : Nat) : (w.claim s fill).cells[p]? =
    if s.start ≤ p ∧ p < s.stop then w.cells[p]?.map (Cell.claim fill) else w.cells[p]? :=
  WorkingCopy.getElem?_mapSpan_clamp _ s w.cells p

theorem brace?_claim (hfill : brace? fill = none) (c : Cell) : brace? (c.claim fill).char = none := by
  have hnewline : brace? '\n' = none := rfl
  unfold Cell.claim Cell.fill
  split_ifs with h
  · change brace? c.char = none
    rw [h, hnewline]
  · exact hfill

theorem braceAt_claim (hfill : brace? fill = none) (w : Work) (s : Span) (p : Nat) :
    braceAt (w.claim s fill).text p = if s.start ≤ p ∧ p < s.stop then none else braceAt w.text p := by
  unfold braceAt WorkingCopy.text
  rw [List.getElem?_map, getElem?_claim, List.getElem?_map]
  split_ifs
  · cases w.cells[p]? with
    | none => rfl
    | some c => exact brace?_claim hfill c
  · rfl

theorem kept_claim (hfill : brace? fill = none) (w : Work) (s : Span) : Kept w (w.claim s fill) := by
  intro p
  rw [getElem?_claim]
  split_ifs
  · cases w.cells[p]? with
    | none => exact Or.inl rfl
    | some c => exact Or.inr ⟨_, rfl, rfl, brace?_claim hfill c⟩
  · exact Or.inl rfl

theorem length_text_claim (w : Work) (s : Span) (fill : Char) : (w.claim s fill).text.length = w.text.length := by
  rw [← size_eq_length_text, ← size_eq_length_text, size_claim]

theorem reached_claim (hfill : brace? fill = none) (hs : Balanced (s.slice w.text)) : Reached w (w.claim s fill) where
  size_eq := size_claim w s fill
  depth := by
    refine Text.depth_eq_of_slices (p := s) (length_text_claim w s fill) (fun i hi => ?_) hs (Braceless.balanced ?_)
    · rw [braceAt_claim hfill, if_neg hi]
    · intro i hle hlt
      rw [braceAt_claim hfill, if_pos ⟨hle, hlt⟩]
  braces := rfl
  clear := (kept_claim hfill w s).clear
  kept := kept_claim hfill w s
  tokens := List.prefix_refl _

/-- What is recorded and is no brace, or has no width, keeps the depth. -/
theorem reached_emit (h : isBrace ⟨c, s.start, s.stop⟩ = false) (w : Work) : Reached w (w.emit c s) := by
  unfold WorkingCopy.emit
  split_ifs
  · refine ⟨⟨rfl, fun _ => rfl, ?_, id⟩, .of_eq rfl, List.prefix_append _ _⟩
    rw [List.filter_append, List.filter_cons_of_neg (by rw [h]; exact Bool.false_ne_true), List.filter_nil, List.append_nil]
  · exact .refl w

theorem reached_take (hc : c.bracket? = none) (hfill : brace? fill = none)
    (hs : w.admits s = true → Balanced (s.slice w.text)) : Reached w (w.take c s fill) := by
  have hnot : isBrace ⟨c, s.start, s.stop⟩ = false := by
    rw [isBrace, hc]
    exact Bool.and_false _
  unfold WorkingCopy.take
  split_ifs with hadmits
  · have htext : (w.emit c s).text = w.text := by
      unfold WorkingCopy.emit
      split_ifs
      rfl
    refine (reached_emit hnot w).trans (reached_claim hfill ?_)
    rw [htext]
    exact hs hadmits
  · exact .refl w

/-- The tokens recorded since a working copy hold balanced parts of its text. -/
def Holds (w : Work) (tokens : List (Token Category)) : Prop :=
  ∀ k ∈ tokens.drop w.tokens.length, Balanced (k.span.slice w.text)

namespace Reached

theorem mark (h : Reached w w') (c : Category) (place : Nat) : Reached w (w'.mark c place) := by
  refine h.trans (reached_emit ?_ w')
  rw [isBrace, Token.isMarker, beq_self_eq_true]
  rfl

/-- A span in which there was no brace can be claimed. -/
theorem claim (h : Reached w w') (hfill : brace? fill = none) (hs : Braceless s w.text) : Reached w (w'.claim s fill) :=
  h.trans (reached_claim hfill (h.kept.braceless hs).balanced)

theorem take (h : Reached w w') (hc : c.bracket? = none) (hfill : brace? fill = none) (hs : Braceless s w.text) :
    Reached w (w'.take c s fill) :=
  h.trans (reached_take hc hfill fun _ => (h.kept.braceless hs).balanced)

/-- What is taken is among the tokens recorded since. -/
theorem mem_recorded {tokens : List (Token Category)} (h : Reached w w') (hadmits : w'.admits s = true)
    (htokens : (w'.take c s fill).tokens <+: tokens) : ⟨c, s.start, s.stop⟩ ∈ tokens.drop w.tokens.length := by
  have htake : (w'.take c s fill).tokens = w'.tokens ++ [⟨c, s.start, s.stop⟩] := by
    rw [WorkingCopy.take, if_pos hadmits, WorkingCopy.emit, if_pos hadmits]
    rfl
  obtain ⟨others, hothers⟩ := h.tokens
  obtain ⟨rest, hrest⟩ := htokens
  rw [← hrest, htake, ← hothers, List.append_assoc, List.append_assoc, List.drop_left]
  exact List.mem_append_right _ (List.mem_append_left _ (List.mem_singleton.2 rfl))

/-- A token can be taken if it is among those that hold balanced text. -/
theorem take_of_holds {tokens : List (Token Category)} (h : Reached w w') (hc : c.bracket? = none)
    (hfill : brace? fill = none) (hholds : Holds w tokens) (htokens : (w'.take c s fill).tokens <+: tokens) :
    Reached w (w'.take c s fill) := by
  refine h.trans (reached_take hc hfill fun hadmits => ?_)
  rw [h.kept.slice_eq hadmits]
  exact hholds _ (h.mem_recorded hadmits htokens)

end Reached
end SourceLikeness.Tokenizer
