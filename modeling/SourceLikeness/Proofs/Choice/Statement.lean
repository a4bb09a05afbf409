import SourceLikeness.Proofs.Braces.Statement

/-!
# Choices between two values

A statement that assigns or returns one of two values, written as a conditional expression or with `if` and `else`.

* `Choice`, `Choice.expression`, `Choice.branches` : the choices and their two texts;
* `Choice.agrees` : the choices of which both texts record the same;
* `Segment`, `Segment.piece` : the pieces that both texts are cut into. A conditional expression has marks where its
  blocks start and stop;
* `Choice.expressionSegments`, `Choice.branchSegments` : the two texts as pieces.
-/

namespace SourceLikeness.Tokenizer

/-- A sign that belongs to what stands behind it. -/
inductive Unary where
  | minus | star | ampersand
deriving DecidableEq

/-- A name or a number, maybe behind a sign. -/
structure Operand where
  unary : Option Unary := none
  value : Value

/-- What is done with a value: it is assigned to something or returned. -/
inductive Use where
  | assign (target : Name)
  | give

/-- A choice between two values by a comparison. -/
structure Choice where
  left : Value
  comparison : Comparison
  right : Value
  yes : Operand
  no : Operand
  use : Use

/-! ## Texts -/

namespace Unary

def char : Unary → Char
  | minus => '-'
  | star => '*'
  | ampersand => '&'

/-- What the sign is recorded as if it seems to join two operands. -/
def category : Unary → Category
  | minus => .math
  | star => .math
  | ampersand => .shift

end Unary

def Operand.text (u : Operand) : String := (u.unary.elim "" fun m => String.singleton m.char) ++ u.value.text

namespace Use

def text : Use → String
  | assign x => x.text ++ " ="
  | give => "return"

def category : Use → Category
  | assign _ => .assign
  | give => .return

/-- Whether a sign directly behind seems to join two operands. -/
def joins : Use → Bool
  | assign _ => false
  | give => true

end Use

namespace Choice

def condition (k : Choice) : Condition := .compare k.left k.comparison k.right

/-- The choice as a conditional expression, in a block. -/
def expression (k : Choice) : String :=
  "\x7b " ++ k.use.text ++ " " ++ k.condition.text ++ " ? " ++ k.yes.text ++ " : " ++ k.no.text ++ "; \x7d"

/-- The choice with `if` and `else`, in a block. -/
def branches (k : Choice) : String :=
  "\x7b if (" ++ k.condition.text ++ ") \x7b " ++ k.use.text ++ " " ++ k.yes.text ++ "; \x7d else \x7b " ++
    k.use.text ++ " " ++ k.no.text ++ "; \x7d \x7d"

/-- The sign behind a question mark is recorded and that behind a colon is not, an equals sign keeps a sign behind it from
being recorded, and a `return` does not. -/
def agrees (k : Choice) : Bool :=
  match k.use with
  | .assign _ => k.yes.unary.isNone
  | .give => k.no.unary.isNone

end Choice

/-! ## Pieces -/

/-- What becomes of a piece. What is carried is recorded as marks, and a sign that joins is recorded. -/
inductive Segment.Role where
  | openBrace | closeBrace | header | assign | give | carried | condition | question | colon
  | unary (m : Unary) (joins : Bool)
  | mark (category : Category)
  | still
deriving DecidableEq

def Segment.Role.category : Segment.Role → Option Category
  | openBrace => some .openBrace
  | closeBrace => some .closeBrace
  | header => some .conditional
  | assign => some .assign
  | give => some .return
  | unary m true => some m.category
  | mark category => some category
  | _ => none

/-- The pieces of the two texts. A sign joins if what stands before its blank reads as an operand. -/
inductive Segment where
  | openBrace (spaced : Bool)
  | closeBrace
  | ifHead (c : Condition)
  | elseWord
  | target (carried : Bool) (x : Name)
  | giveWord (carried : Bool)
  | condition (c : Condition)
  | question
  | gap
  | colon
  | plain (v : Value)
  | signed (joins : Bool) (m : Unary) (v : Value)
  | semicolon
  | mark (category : Category)

namespace Segment
open Lexeme (word sign)
open Item (keyword bracketed)

def piece : Segment → Piece Role
  | openBrace false => ⟨.openBrace, [], [sign '\x7b'], []⟩
  | openBrace true => ⟨.openBrace, [sign ' '], [sign '\x7b'], []⟩
  | closeBrace => ⟨.closeBrace, [sign ' '], [sign '\x7d'], []⟩
  | ifHead c => ⟨.header, [sign ' '], keyword "if" :: bracketed c.lexemes ++ [sign ' '], []⟩
  | elseWord => ⟨.header, [sign ' '], [keyword "else"], []⟩
  | target carried x => ⟨if carried then .carried else .assign, [sign ' ', word x.chars, sign ' '], [sign '='], []⟩
  | giveWord carried => ⟨if carried then .carried else .give, [sign ' '], [keyword "return"], []⟩
  | condition c => ⟨.condition, [], sign ' ' :: c.lexemes ++ [sign ' '], []⟩
  | question => ⟨.question, [], [sign '?'], []⟩
  | gap => ⟨.still, [sign ' '], [], []⟩
  | colon => ⟨.colon, [], [sign ':'], []⟩
  | plain v => ⟨.still, sign ' ' :: v.lexemes, [], []⟩
  | signed joins m v => ⟨.unary m joins, [sign ' '], [sign m.char], v.lexemes⟩
  | semicolon => ⟨.still, [sign ';'], [], []⟩
  | mark category => ⟨.mark category, [], [], []⟩

/-- The text of a piece. -/
def chars (a : Segment) : List Char := Lexeme.text (a.piece.lexemes untouched)

/-- What says what is done with a value. -/
def lead (carried : Bool) : Use → Segment
  | .assign x => target carried x
  | .give => giveWord carried

/-- A value, with the blank before it. -/
def operand (joins : Bool) : Operand → Segment
  | ⟨none, v⟩ => plain v
  | ⟨some m, v⟩ => signed joins m v

end Segment

namespace Choice
open Segment

/-- The marks at the start of a block. -/
def openMarks (k : Choice) : List Segment := [.mark .conditional, .mark .openBrace, .mark k.use.category]

def expressionSegments (k : Choice) : List Segment :=
  .openBrace false :: .lead true k.use :: .condition k.condition :: k.openMarks ++
    (.question :: .operand true k.yes :: .gap :: .mark .closeBrace :: k.openMarks ++
      [.colon, .operand false k.no, .mark .closeBrace, .semicolon, .closeBrace])

/-- A block that does something with a value. -/
def block (k : Choice) (spaced : Bool) (u : Operand) : List Segment :=
  [.openBrace spaced, .lead false k.use, .operand k.use.joins u, .semicolon, .closeBrace]

def branchSegments (k : Choice) : List Segment :=
  .openBrace false :: .ifHead k.condition :: k.block false k.yes ++ (.elseWord :: k.block true k.no ++ [.closeBrace])

end Choice
end SourceLikeness.Tokenizer
