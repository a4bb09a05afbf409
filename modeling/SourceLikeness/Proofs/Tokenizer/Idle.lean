import SourceLikeness.Proofs.Pattern.Leads
import SourceLikeness.Tokenizer.Pipeline

/-!
# Passes that find nothing

* `Action.barren` : all that a pass looks for needs a lead;
* `Action.apply_eq_self`, `runPasses_eq_self` : such passes leave a working copy whose text lacks the leads as it is.
-/

namespace SourceLikeness.Tokenizer
open Pattern (reader readings_eq_hits)
variable {x : Leads} {w : Work}

/-- All that the pass looks for needs a lead. -/
def Action.barren (x : Leads) : Action → Bool
  | .erase finder _ => finder.pattern.barren x false false false
  | .classify finder _ _ _ => finder.pattern.barren x false false false
  | docstrings => false
  | conditionalExpressions => ConditionalExpression.finder.pattern.barren x false false false
  | bareBodies =>
    [BareBody.elseBody, BareBody.doBody, BareBody.forHeader, Pattern.word BareBody.headed].all
      (·.barren x false false false)
  | switches => SwitchStatement.header.barren x false false false
  | compoundAssignments => CompoundAssignment.compound.barren x false false false

theorem readings_eq_nil {p : Pattern} {s : List Char} (hp : p.barren x false false false = true) (hs : x.Lacks s) :
    p.readings s = [] := by
  rw [readings_eq_hits, Finder.hits, Finder.hitsWhere_eq_nil hp hs]

theorem bodies_eq_nil {s : List Char} (h : Action.barren x .bareBodies = true) (hs : x.Lacks s) :
    BareBody.bodies s = [] := by
  simp only [Action.barren, List.all_cons, List.all_nil, Bool.and_true, Bool.and_eq_true] at h
  obtain ⟨helse, hdo, hfor, hword⟩ := h
  have hheaders : BareBody.withoutHeaders s = s := by
    rw [BareBody.withoutHeaders, readings_eq_nil hfor hs, List.map_nil, List.foldl_nil]
  unfold BareBody.bodies BareBody.headedBodies
  dsimp only
  rw [hheaders, readings_eq_nil helse hs, readings_eq_nil hdo hs, readings_eq_nil hword hs]
  rfl

/-- A pass that needs leads leaves a text that lacks them as it is. -/
theorem Action.apply_eq_self {a : Action} (ha : a.barren x = true) (hw : x.Lacks w.text) : a.apply w = w := by
  cases a with
  | erase finder fill => rw [apply, Tokenizer.erase, Finder.hits, Finder.hitsWhere_eq_nil ha hw, List.foldl_nil]
  | classify finder category fill swallows => rw [apply, Tokenizer.classify, Finder.hitsWhere_eq_nil ha hw, List.foldl_nil]
  | docstrings => exact Bool.noConfusion ha
  | conditionalExpressions =>
    rw [apply, ConditionalExpression.apply, Finder.hitsWhere_eq_nil ha hw, List.foldl_nil]
  | bareBodies => rw [apply, BareBody.apply, bodies_eq_nil ha hw, List.foldl_nil]
  | switches => rw [apply, SwitchStatement.apply, readings_eq_nil ha hw, List.map_nil, List.foldl_nil]
  | compoundAssignments => rw [apply, CompoundAssignment.apply, readings_eq_nil ha hw, List.foldl_nil]

theorem runPasses_append (ps qs : List Pass) (w : Work) : runPasses (ps ++ qs) w = runPasses qs (runPasses ps w) :=
  List.foldl_append

theorem runPasses_cons (p : Pass) (ps : List Pass) (w : Work) : runPasses (p :: ps) w = runPasses ps (p.apply w) := rfl

theorem classify_eq_self {f : Finder} {category : Category} {fill : Char} {swallows : Bool} {w : Work}
    (h : f.hits w.text = []) : classify f category fill swallows w = w := by
  have hnone : f.hitsWhere (fun hit => !w.isClaimed hit.token) w.text = f.hits w.text :=
    Finder.hitsWhere_eq_hits fun hit hmem => by
      rw [h] at hmem
      exact absurd hmem List.not_mem_nil
  rw [classify, hnone, h, List.foldl_nil]

/-- Passes that need leads leave a text that lacks them as it is. -/
theorem runPasses_eq_self {passes : List Pass} (hpasses : passes.all (·.action.barren x) = true) (hw : x.Lacks w.text) :
    runPasses passes w = w := by
  induction passes with
  | nil => rfl
  | cons p passes ih =>
    rw [List.all_cons, Bool.and_eq_true] at hpasses
    have happly : p.apply w = w := Action.apply_eq_self hpasses.1 hw
    rw [runPasses, List.foldl_cons, happly]
    exact ih hpasses.2

end SourceLikeness.Tokenizer
