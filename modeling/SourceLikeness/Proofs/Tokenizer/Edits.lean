import SourceLikeness.Tokenizer.Pipeline
import SourceLikeness.Proofs.WorkingCopy.Edit

/-!
# The passes edit the working copy

Whatever a pass looks for, it changes the working copy by the operations of the working copy only, with
fills of ASCII.

* `Action.IsPlain` : the fill of an action is ASCII; `isPlain_of_mem_passes` : it is in every tokenizer;
* `Action.edits_apply` : a plain action is a sequence of operations, one lemma for each kind of pass;
* `edits_runPasses` : and so are any number of passes.
-/

namespace SourceLikeness.Tokenizer
open WorkingCopy

theorem isAscii_masked : IsAscii masked := by decide
theorem isAscii_literal : IsAscii literal := by decide
theorem isAscii_blank : IsAscii blank := by decide
theorem isAscii_terminator : IsAscii terminator := by decide
theorem isAscii_switchEnd : IsAscii switchEnd := by decide
theorem isAscii_operator : IsAscii WorkingCopy.operator := by decide

/-! ## The passes that need a finder only -/

theorem edits_erase (f : Finder) {fill : Char} (hfill : IsAscii fill) (w : Work) :
    Edits w (erase f fill w) :=
  .foldl (fun _ (hit : Hit) => Edits.overwrite .refl hit.whole hfill) _ .refl

theorem edits_classifyHit (category : Category) {fill : Char} (hfill : IsAscii fill) (swallows : Bool)
    (w : Work) (hit : Hit) : Edits w (classifyHit category fill swallows w hit) := by
  have htake : Edits w (w.take category hit.token fill) := Edits.take .refl category hit.token hfill
  unfold classifyHit
  split_ifs with hadm hswallows
  · exact htake.claim hit.whole hfill
  · exact htake
  · exact .refl

theorem edits_classify (f : Finder) (category : Category) {fill : Char} (hfill : IsAscii fill)
    (swallows : Bool) (w : Work) : Edits w (classify f category fill swallows w) :=
  .foldl (fun w hit => edits_classifyHit category hfill swallows w hit) _ .refl

/-! ## The other passes -/

theorem edits_docstrings (w : Work) : Edits w (Docstring.apply w) :=
  .foldl (fun _ s => Edits.overwrite .refl s isAscii_blank) _ .refl

namespace ConditionalExpression

theorem edits_openBlock (lead : Option Category) (place : Nat) {w w' : Work} (h : Edits w w') :
    Edits w (openBlock lead place w') := by
  have hopen := (h.mark .conditional place).mark .openBrace place
  cases lead with
  | none => exact hopen
  | some category => exact hopen.mark category place

theorem edits_applyHit (w : Work) (hit : Hit) : Edits w (applyHit w hit) := by
  unfold applyHit
  dsimp only
  generalize lead? hit = lead
  split
  · rename_i condition thenBranch elseBranch _ _ _
    have hfirst := edits_openBlock (lead.map (·.1)) thenBranch.start (Relation.ReflTransGen.refl (a := w))
    have hsecond := edits_openBlock (lead.map (·.1)) elseBranch.start (hfirst.mark .closeBrace elseBranch.start)
    refine Edits.claim (.claim (.claim ?_ _ isAscii_masked) _ isAscii_masked) _ isAscii_terminator
    cases lead with
    | none => exact hsecond.mark .closeBrace _
    | some l => exact (hsecond.mark .closeBrace _).claim l.2 isAscii_masked
  · exact .refl

theorem edits_apply (w : Work) : Edits w (apply w) := .foldl edits_applyHit _ .refl

end ConditionalExpression

namespace BareBody

theorem edits_wrap (w : Work) (body : Span) : Edits w (wrap w body) := .mark (.mark .refl _ _) _ _

theorem edits_apply (w : Work) : Edits w (apply w) := .foldl edits_wrap _ .refl

end BareBody

namespace SwitchStatement

theorem edits_applyLabel (stop : Nat) (w : Work) (label : Span) : Edits w (applyLabel stop w label) := by
  have htake : Edits w (w.take .conditional label terminator) := .take .refl _ _ isAscii_terminator
  unfold applyLabel
  dsimp only
  split_ifs
  · exact htake
  · exact (htake.mark _ _).mark _ _
  · exact .refl

theorem edits_applyRegion (header : Span) (stop : Nat) (w : Work) : Edits w (applyRegion header stop w) := by
  have hshell : Edits w (w.claim ⟨stop, stop + 1⟩ switchEnd) := .claim .refl _ isAscii_switchEnd
  unfold applyRegion
  refine .foldl (edits_applyLabel stop) _ (.claim ?_ _ isAscii_terminator)
  exact hshell.foldl (fun _ s => Edits.claim .refl s isAscii_masked) _

theorem edits_applyHeader (w : Work) (header : Span) : Edits w (applyHeader w header) := by
  unfold applyHeader
  split_ifs
  · exact .refl
  · split
    · exact .refl
    · exact edits_applyRegion header _ w

theorem edits_apply (w : Work) : Edits w (apply w) := .foldl edits_applyHeader _ .refl

end SwitchStatement

namespace CompoundAssignment

theorem edits_applyHit (w : Work) (hit : Hit) : Edits w (applyHit w hit) := by
  unfold applyHit
  dsimp only
  split_ifs
  · exact .refl
  · exact Edits.claim (.take (.mark .refl _ _) _ _ isAscii_operator) _ isAscii_operator

theorem edits_apply (w : Work) : Edits w (apply w) := .foldl edits_applyHit _ .refl

end CompoundAssignment

/-! ## All passes -/

/-- An action that fills, if it asks for a fill, with a character of ASCII. -/
def Action.IsPlain : Action → Prop
  | .erase _ fill => IsAscii fill
  | .classify _ _ fill _ => IsAscii fill
  | _ => True

/-- A plain action is a sequence of operations. -/
theorem Action.edits_apply {a : Action} (h : a.IsPlain) (w : Work) : Edits w (a.apply w) := by
  cases a with
  | erase finder fill => exact edits_erase finder h w
  | classify finder category fill swallows => exact edits_classify finder category h swallows w
  | docstrings => exact edits_docstrings w
  | conditionalExpressions => exact ConditionalExpression.edits_apply w
  | bareBodies => exact BareBody.edits_apply w
  | switches => exact SwitchStatement.edits_apply w
  | compoundAssignments => exact CompoundAssignment.edits_apply w

theorem isPlain_erasing (name : String) (p : Pattern) {fill : Char} (hfill : IsAscii fill) :
    (Pass.erasing name p fill).action.IsPlain := hfill

theorem isPlain_construct (name : String) (p : Pattern) (category : Category) :
    (Pass.construct name p category).action.IsPlain := isAscii_masked

theorem isPlain_calls (p : Pattern) (barred : List String) : (Pass.calls p barred).action.IsPlain :=
  isAscii_masked

theorem isPlain_operator (name : String) (f : Finder) (category : Category) :
    (Pass.operator name f category).action.IsPlain := isAscii_operator

theorem isPlain_declarationPasses (s : Settings) : ∀ p ∈ declarationPasses s, p.action.IsPlain := by
  unfold declarationPasses
  simp only [List.forall_mem_append]
  refine ⟨⟨⟨?_, ?_⟩, ?_⟩, ?_⟩ <;> split_ifs <;> simp [isPlain_construct]

theorem isPlain_cPasses (s : Settings) : ∀ p ∈ cPasses s, p.action.IsPlain := by
  have hswallows : (Action.classify Operator.initializer .assign WorkingCopy.operator true).IsPlain :=
    isAscii_operator
  have hown : Action.conditionalExpressions.IsPlain ∧ Action.bareBodies.IsPlain ∧ Action.switches.IsPlain ∧
      Action.compoundAssignments.IsPlain := ⟨trivial, trivial, trivial, trivial⟩
  simp only [cPasses, operatorPasses, bracePasses, List.forall_mem_append, List.forall_mem_cons,
    isPlain_construct, isPlain_calls, isPlain_operator,
    isPlain_erasing _ _ isAscii_literal, isPlain_erasing _ _ isAscii_blank, isPlain_erasing _ _ isAscii_masked,
    hswallows, hown, List.not_mem_nil, false_implies, implies_true, and_true, true_and]
  exact isPlain_declarationPasses s

theorem isPlain_pyPasses : ∀ p ∈ pyPasses, p.action.IsPlain := by
  have hown : Action.docstrings.IsPlain ∧ Action.compoundAssignments.IsPlain := ⟨trivial, trivial⟩
  simp only [pyPasses, operatorPasses, bracePasses, List.forall_mem_append, List.forall_mem_cons,
    isPlain_construct, isPlain_calls, isPlain_operator, isPlain_erasing _ _ isAscii_literal,
    isPlain_erasing _ _ isAscii_blank, hown, List.not_mem_nil, false_implies, implies_true, and_self]

/-- Every pass of every tokenizer is plain. -/
theorem isPlain_of_mem_passes {s : Settings} {p : Pass} (hp : p ∈ s.passes) : p.action.IsPlain := by
  unfold Settings.passes at hp
  split at hp
  · exact isPlain_cPasses s p hp
  · exact isPlain_pyPasses p hp

/-- Any number of plain passes are a sequence of operations. -/
theorem edits_runPasses {passes : List Pass} (h : ∀ p ∈ passes, p.action.IsPlain) (w : Work) :
    Edits w (runPasses passes w) := by
  induction passes generalizing w with
  | nil => exact .refl
  | cons p ps ih =>
    obtain ⟨hp, hps⟩ := List.forall_mem_cons.1 h
    exact (Action.edits_apply hp w).trans (ih hps _)

end SourceLikeness.Tokenizer
