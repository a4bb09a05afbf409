import SourceLikeness.Proofs.Renaming.ConditionalExpression
import SourceLikeness.Proofs.Renaming.Docstring
import SourceLikeness.Proofs.Tokenizer.Default

/-!
# All passes over two texts

Whether a pass can tell two texts apart is computed from its finder and from what it fills with. So it is enough to
compute it once for each list of passes.

* `Action.blind`, `Action.twin` : a pass that passes the check makes twins of twins;
* `twin_runPasses` : so does a list of such passes;
* `pyLexicon`, `blind_pyPasses` : the words that the passes for Python read;
* `cLexicon`, `blind_cPasses` : those that the passes for the C family read, up to the last that reads a word.
-/

namespace SourceLikeness.Tokenizer
open Pattern (reader)
open Text (Lexicon)
open WorkingCopy (Twin)
variable {x : Lexicon} {w w' : Work}

/-! ## Blind passes -/

/-- The lexicon has all that the pass reads, and may lose what it writes over. -/
def Action.blind (x : Lexicon) : Action → Bool
  | .erase finder fill =>
    finder.blind x &&
      if fill = WorkingCopy.literal then finder.pattern.ends && finder.pattern.partless
      else spares x (finder.clean x.absent) && Text.blots x fill
  | .classify finder _ fill swallows =>
    finder.blind x && spares x finder.firm && (!swallows || spares x (finder.clean x.absent)) && Text.blots x fill
  | docstrings => x.numerals && Text.blots x WorkingCopy.blank
  | conditionalExpressions => ConditionalExpression.blind x
  | bareBodies => BareBody.blind x
  | switches => SwitchStatement.blind x
  | compoundAssignments =>
    (reader CompoundAssignment.compound).blind x && spares x (reader CompoundAssignment.compound).firm &&
      spares x ((reader CompoundAssignment.compound).clean x.absent) && Text.blots x WorkingCopy.operator

/-- A pass makes twins of twins. -/
theorem Action.twin (hx : x.WellFormed) {a : Action} (ha : a.blind x = true) (h : Twin x w w') :
    Twin x (a.apply w) (a.apply w') := by
  cases a with
  | erase finder fill =>
    obtain ⟨hf, hfill⟩ := Bool.and_eq_true_iff.1 ha
    split_ifs at hfill with hone
    · obtain ⟨hends, hparts⟩ := Bool.and_eq_true_iff.1 hfill
      subst hone
      exact twin_erase_ones hx hf hends hparts h
    · obtain ⟨hclean, hblot⟩ := Bool.and_eq_true_iff.1 hfill
      exact twin_erase hx hf hclean (Text.isBlot_of_blots hblot) h
  | classify finder category fill swallows =>
    simp only [blind, Bool.and_eq_true] at ha
    obtain ⟨⟨⟨hf, hfirm⟩, hclean⟩, hblot⟩ := ha
    refine twin_classify hx hf hfirm (fun hs => ?_) (Text.isBlot_of_blots hblot) h
    rwa [hs, Bool.not_true, Bool.false_or] at hclean
  | docstrings =>
    obtain ⟨hnum, hblot⟩ := Bool.and_eq_true_iff.1 ha
    exact Docstring.twin_apply hx hnum (Text.isBlot_of_blots hblot) h
  | conditionalExpressions => exact ConditionalExpression.twin_apply hx ha h
  | bareBodies => exact BareBody.twin_apply hx ha h
  | switches => exact SwitchStatement.twin_apply hx ha h
  | compoundAssignments =>
    simp only [blind, Bool.and_eq_true] at ha
    obtain ⟨⟨⟨hf, hfirm⟩, hclean⟩, hblot⟩ := ha
    exact CompoundAssignment.twin_apply hx hf hfirm hclean (Text.isBlot_of_blots hblot) h

/-- **Blind passes.** Passes that pass the check make twins of twins. -/
theorem twin_runPasses (hx : x.WellFormed) {passes : List Pass} (hpasses : passes.all (·.action.blind x) = true)
    (h : Twin x w w') : Twin x (runPasses passes w) (runPasses passes w') := by
  induction passes generalizing w w' with
  | nil => exact h
  | cons p passes ih =>
    rw [List.all_cons, Bool.and_eq_true] at hpasses
    exact ih hpasses.2 (Action.twin hx hpasses.1 h)

/-! ## Python -/

/-- The words that the passes for Python read. -/
def pyWords : List String :=
  ["from", "import", "async", "for", "while", "if", "elif", "else", "def", "lambda", "class", "return", "yield",
    "break", "continue", "pass", "and", "or", "not", "in", "is", "with", "assert", "del", "await", "raise", "except"]

def pyLexicon : Lexicon := ⟨pyWords.map String.toList, [], [], true⟩

theorem wellFormed_pyLexicon : pyLexicon.WellFormed := Lexicon.wellFormed_of_all (by decide +kernel) rfl rfl

theorem blind_pyPasses : pyPasses.all (·.action.blind pyLexicon) = true := by decide +kernel

/-! ## The C family -/

/-- The words that the passes for the C family read when nothing is said about types. -/
def cWords : List String :=
  ["if", "else", "for", "while", "do", "switch", "case", "default", "break", "continue", "goto", "return", "struct",
    "union", "enum", "class", "interface", "sizeof", "new", "delete", "typeof", "import", "use", "package", "const",
    "void", "unsigned", "signed", "long", "short", "int", "char", "double", "float"]

/-- The body of an `else` is looked for behind the `else` that a longer word begins with, too. -/
def cLexicon : Lexicon :=
  ⟨(cWords ++ ["elseif"]).map String.toList, ["else".toList], ['#'], true⟩

theorem wellFormed_cLexicon : cLexicon.WellFormed :=
  Lexicon.wellFormed_of_all (by decide +kernel) (by decide +kernel) (by decide +kernel)

theorem wellFormed_plain : Lexicon.plain.WellFormed := Lexicon.wellFormed_of_all rfl rfl rfl

/-- How many passes for the C family come before those for operators, which read no words. -/
def cWordPasses : Nat := 25

theorem blind_cPasses :
    ((cPasses (.ofDialect .cFamily)).take cWordPasses).all (·.action.blind cLexicon) = true ∧
      ((cPasses (.ofDialect .cFamily)).drop cWordPasses).all (·.action.blind .plain) = true := by
  constructor
  · decide +kernel
  · decide +kernel

end SourceLikeness.Tokenizer
