import SourceLikeness.Tokenizer.BareBody
import SourceLikeness.Tokenizer.CompoundAssignment
import SourceLikeness.Tokenizer.ConditionalExpression
import SourceLikeness.Tokenizer.Docstring
import SourceLikeness.Tokenizer.Header
import SourceLikeness.Tokenizer.Inert
import SourceLikeness.Tokenizer.Operator
import SourceLikeness.Tokenizer.Settings
import SourceLikeness.Tokenizer.Statement
import SourceLikeness.Tokenizer.SwitchStatement

/-!
# The pipeline

A tokenizer is a list of passes over one working copy. A pass records its construct and overwrites
it, so that later passes, which look for more general constructs, do not find it again: the order of
the passes is part of what they mean.

* `Pass` : what a pass does; `Pass.name`, `Pass.apply`;
* `Settings.passes` : the passes of a dialect in order;
* `Tokenizer` : settings that can be used; `Tokenizer.tokenize` : the token stream of a source;
* `Stage`, `Tokenizer.stages` : the working copy before and after each pass.
-/

namespace SourceLikeness
open Pattern WorkingCopy

namespace Tokenizer

/-! ## Passes -/

/-- The ways to change a working copy. -/
inductive Action where
  | erase (finder : Finder) (fill : Char)
  | classify (finder : Finder) (category : Category) (fill : Char) (swallows : Bool)
  | docstrings
  | conditionalExpressions
  | bareBodies
  | switches
  | compoundAssignments

/-- A named step of a tokenizer. -/
structure Pass where
  name : String
  action : Action

def Action.apply : Action → Work → Work
  | .erase finder fill, w => Tokenizer.erase finder fill w
  | .classify finder category fill swallows, w => Tokenizer.classify finder category fill swallows w
  | docstrings, w => Docstring.apply w
  | conditionalExpressions, w => ConditionalExpression.apply w
  | bareBodies, w => BareBody.apply w
  | switches, w => SwitchStatement.apply w
  | compoundAssignments, w => CompoundAssignment.apply w

namespace Pass

def apply (p : Pass) (w : Work) : Work := p.action.apply w

def erasing (name : String) (p : Pattern) (fill : Char) : Pass := ⟨name, .erase { pattern := p } fill⟩

/-- A pass that records a construct. It reads as an operand afterwards. -/
def construct (name : String) (p : Pattern) (category : Category) : Pass :=
  ⟨name, .classify { pattern := p } category masked false⟩

/-- A pass that records the calls that a pattern finds, but for some words. -/
def calls (p : Pattern) (barred : List String) : Pass :=
  ⟨"calls", .classify { pattern := p, barred := barred } .call masked false⟩

/-- A pass that records an operator. It does not read as an operand afterwards. -/
def operator (name : String) (f : Finder) (category : Category) : Pass :=
  ⟨name, .classify f category WorkingCopy.operator false⟩

end Pass

/-! ## The passes of a dialect -/

/-- The passes for typed declarations, one for pointers and one for each kind of number. A list of
types that is empty has no pass. -/
def declarationPasses (s : Settings) : List Pass :=
  let pass (name : String) (pattern : List String → Pattern) (category : Category)
      (types : List String) : List Pass :=
    if types = [] then [] else [.construct name (pattern types) category]
  pass "pointer_declarations" Statement.pointerDeclaration .pointer s.types ++
    pass "char_declarations" Statement.declaration .char s.charTypes ++
    pass "float_declarations" Statement.declaration .double s.floatTypes ++
    pass "int_declarations" Statement.declaration .int s.intTypes

/-- The passes for the operators that both dialects share, around those for logic. -/
def operatorPasses (increments logic : List Pass) : List Pass :=
  [⟨"compound_assignment", .compoundAssignments⟩] ++ increments ++
    [.operator "multiplication" Operator.multiplication .math,
      .operator "arithmetic" Operator.arithmetic .math] ++ logic ++
    [.operator "bitwise" Operator.bitwise .shift,
      .operator "complement" { pattern := text "~" } .shift,
      .operator "comparison" Operator.comparison .compare]

/-- The passes for the braces that no other pass has overwritten. -/
def bracePasses : List Pass :=
  [.construct "open_braces" (text "\x7b") .openBrace,
    .construct "close_braces" (text "\x7d") .closeBrace]

def cPasses (s : Settings) : List Pass :=
  [.erasing "literals" Inert.cLiteral literal,
    .erasing "comments" Inert.cComment blank,
    .erasing "imports" Inert.cImport blank,
    .erasing "preprocessor" Inert.cDirective blank,
    ⟨"ternary", .conditionalExpressions⟩,
    .construct "function_pointers" Header.functionPointer .pointer,
    .construct "pointer_returning_functions" Header.pointerReturningFunction .function,
    ⟨"missing_braces", .bareBodies⟩,
    .construct "loops" Header.cLoop .loop,
    .construct "do_loops" (word ["do"]) .loop,
    .erasing "do_while_tails" Header.doTail masked,
    ⟨"switch", .switches⟩,
    .construct "conditionals" Header.cConditional .conditional,
    .construct "functions" Header.cFunction .function,
    .construct "struct_pointers" Header.structPointer .pointer,
    .construct "struct_definitions" Header.structDefinition .struct,
    .construct "struct_variables" Header.structVariable .struct,
    .calls Statement.cCall Statement.cNotCalls,
    .construct "casts" Statement.cast .cast,
    .construct "returns" (word ["return"]) .return] ++
  declarationPasses s ++
  [.construct "control" Statement.cControl .control] ++
  operatorPasses [.construct "increments" Operator.increment .math]
    [.operator "logic" { pattern := any [text "&&", text "||"] } .logic,
      .operator "negation" Operator.negation .logic] ++
  [⟨"initializers", .classify Operator.initializer .assign WorkingCopy.operator true⟩,
    .operator "assignments" Operator.assignment .assign] ++
  bracePasses

def pyPasses : List Pass :=
  [.erasing "literals" Inert.pyLiteral literal,
    .erasing "comments" Inert.pyComment blank,
    .erasing "imports" Inert.pyImport blank,
    ⟨"docstrings", .docstrings⟩,
    .construct "loops" Header.pyLoop .loop,
    .construct "conditionals" Header.pyConditional .conditional,
    .construct "functions" Header.pyFunction .function,
    .construct "lambdas" Header.lambda .function,
    .construct "classes" Header.pyClass .struct,
    .construct "decorators" Header.decorator .struct,
    .calls Statement.pyCall Statement.pyNotCalls,
    .construct "returns" (word ["return", "yield"]) .return,
    .construct "control" (word ["break", "continue", "pass"]) .control] ++
  operatorPasses [] [.operator "logic" { pattern := word ["and", "or", "not"] } .logic] ++
  [.operator "assignments" Operator.assignment .assign] ++
  bracePasses

def Settings.passes (s : Settings) : List Pass :=
  match s.dialect with
  | .cFamily => cPasses s
  | .python => pyPasses

/-! ## Running the passes -/

/-- A pass with the working copy before it and after it. -/
structure Stage where
  pass : Pass
  before : Work
  after : Work

namespace Stage

/-- The tokens that the pass recorded, in the order of recording. -/
def recorded (s : Stage) : List (Token Category) := s.after.tokens.drop s.before.tokens.length

end Stage

def stagesFrom (w : Work) : List Pass → List Stage
  | [] => []
  | p :: ps =>
    let after := p.apply w
    ⟨p, w, after⟩ :: stagesFrom after ps

def runPasses (passes : List Pass) (w : Work) : Work := passes.foldl (fun w p => p.apply w) w

end Tokenizer

/-- Settings that can be used. -/
structure Tokenizer where
  settings : Tokenizer.Settings
  usable : settings.fault? = none

namespace Tokenizer

/-- The tokenizer of some settings, or why there is none. -/
def build (s : Settings) : Except Settings.Fault Tokenizer :=
  match h : s.fault? with
  | some fault => .error fault
  | none => .ok ⟨s, h⟩

def passes (t : Tokenizer) : List Pass := t.settings.passes

def alphabet (t : Tokenizer) : Alphabet := t.settings.alphabet

def run (t : Tokenizer) (source : List Char) : Work := runPasses t.passes (.ofSource source)

def classes (t : Tokenizer) (source : List Char) : List (Token Category) :=
  Token.stream (t.run source).tokens

def stages (t : Tokenizer) (source : List Char) : List Stage :=
  stagesFrom (.ofSource source) t.passes

/-- The tokens with their categories written in the alphabet. -/
def write (t : Tokenizer) (tokens : List (Token Category)) : List (Token Char) :=
  tokens.map (Token.map t.alphabet.symbol)

/-- The token stream of a source. -/
def tokenize (t : Tokenizer) (source : List Char) : List (Token Char) := t.write (t.classes source)

end Tokenizer
end SourceLikeness
