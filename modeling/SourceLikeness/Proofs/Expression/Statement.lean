import SourceLikeness.Proofs.Choice.Statement

/-!
# Statements with an expression

A statement that assigns or returns operands with operators between them.

* `Front`, `Binary`, `Term`, `Formula` : signs in front of operands, operators between them, operands, and statements;
* `Formula.claimed` : one category for each operator and for each `!` and `~`, in the order of the text;
* `Formula.recorded` : what is recorded instead; `Formula.clear` : the statements where that is the same;
* `Chunk`, `Chunk.piece` : the pieces that the text is cut into; `Formula.chunks` : the text as pieces.
-/

namespace SourceLikeness.Tokenizer

/-- A sign directly in front of an operand. -/
inductive Front where
  | unary (m : Unary)
  | negation
  | complement
deriving DecidableEq

/-- An operator between two operands. -/
inductive Binary where
  | times | plus | minus | divide | remainder
  | bitAnd | bitOr | bitXor | shiftLeft | shiftRight
  | equal | unequal | below | above | atMost | atLeast
  | both | either
deriving DecidableEq

/-- A name or a number, maybe behind a sign. -/
structure Term where
  front : Option Front := none
  value : Value

/-- A statement that assigns or returns an expression. -/
structure Formula where
  use : Use
  first : Term
  rest : List (Binary × Term)

/-! ## Texts -/

namespace Front

def char : Front → Char
  | unary m => m.char
  | negation => '!'
  | complement => '~'

/-- What the sign should be recorded as. -/
def category : Front → Option Category
  | unary _ => none
  | negation => some .logic
  | complement => some .shift

end Front

namespace Binary

def text : Binary → String
  | times => "*"
  | plus => "+"
  | minus => "-"
  | divide => "/"
  | remainder => "%"
  | bitAnd => "&"
  | bitOr => "|"
  | bitXor => "^"
  | shiftLeft => "<<"
  | shiftRight => ">>"
  | equal => "=="
  | unequal => "!="
  | below => "<"
  | above => ">"
  | atMost => "<="
  | atLeast => ">="
  | both => "&&"
  | either => "||"

/-- What the operator should be recorded as. -/
def category : Binary → Category
  | times | plus | minus | divide | remainder => .math
  | bitAnd | bitOr | bitXor | shiftLeft | shiftRight => .shift
  | equal | unequal | below | above | atMost | atLeast => .compare
  | both | either => .logic

/-- The sign whose search finds the operator as well. -/
def unary? : Binary → Option Unary
  | times => some .star
  | plus | minus | divide | remainder => some .minus
  | bitAnd | bitOr | bitXor | shiftLeft | shiftRight => some .ampersand
  | _ => none

def onBits (op : Binary) : Bool := op.unary? == some .ampersand

def isShift : Binary → Bool
  | shiftLeft | shiftRight => true
  | _ => false

end Binary

namespace Term

def text (u : Term) : String := (u.front.elim "" fun f => String.singleton f.char) ++ u.value.text

/-- Whether an operator on bits is found in front of the operand. -/
def settles (u : Term) : Bool := u.front.all (· == .complement)

end Term

namespace Formula

/-- The text behind the first operand. -/
def tail : List (Binary × Term) → String
  | [] => ";"
  | (op, u) :: rest => " " ++ op.text ++ " " ++ u.text ++ tail rest

def text (s : Formula) : String := s.use.text ++ " " ++ s.first.text ++ tail s.rest

end Formula

/-! ## What should be written -/

def Use.symbol : Use → Char
  | assign _ => 'A'
  | give => 'R'

def Front.symbols : Front → List Char
  | unary _ => []
  | negation => ['L']
  | complement => ['U']

def Binary.symbol : Binary → Char
  | times | plus | minus | divide | remainder => 'M'
  | bitAnd | bitOr | bitXor | shiftLeft | shiftRight => 'U'
  | equal | unequal | below | above | atMost | atLeast => 'E'
  | both | either => 'L'

def Term.symbols (u : Term) : List Char := u.front.elim [] Front.symbols

/-- The symbol of the statement, and then those of each operator and each sign. -/
def Formula.symbols (s : Formula) : List Char :=
  s.use.symbol :: s.first.symbols ++ s.rest.flatMap fun l => l.1.symbol :: l.2.symbols

/-! ## What is recorded -/

/-- What should be recorded for the sign in front of the operand. -/
def Term.claimed (u : Term) : List Category := (u.front.bind Front.category).toList

/-- What is recorded for it. A sign that seems to join two operands is taken for an operator. -/
def Term.recorded (joins : Bool) (u : Term) : List Category :=
  match u.front with
  | some (.unary m) => if joins then [m.category] else []
  | _ => u.claimed

/-- What is recorded for an operator in front of an operand. A shift that is not found is taken for two comparisons. -/
def Binary.recorded (op : Binary) (u : Term) : List Category :=
  if op.onBits && !u.settles then (if op.isShift then [.compare, .compare] else []) else [op.category]

namespace Formula

/-- What should be recorded: the category of the statement, and then that of each operator and each sign. -/
def claimed (s : Formula) : List (List Category) :=
  [s.use.category] :: s.first.claimed :: s.rest.flatMap fun l => [[l.1.category], l.2.claimed]

def recorded (s : Formula) : List (List Category) :=
  [s.use.category] :: s.first.recorded s.use.joins :: s.rest.flatMap fun l => [l.1.recorded l.2, l.2.recorded false]

/-- No `-`, `*` or `&` stands directly behind a `return`, and no sign but `~` behind an operator on bits. -/
def clear (s : Formula) : Bool :=
  (!s.use.joins || s.first.front.all fun f => f.category.isSome) && s.rest.all fun l => !l.1.onBits || l.2.settles

end Formula

theorem Term.recorded_eq_iff {joins : Bool} {u : Term} :
    u.recorded joins = u.claimed ↔ (!joins || u.front.all fun f => f.category.isSome) = true := by
  obtain ⟨_ | ⟨m⟩ | _ | _, v⟩ := u <;> cases joins <;> simp [recorded, claimed, Front.category]

theorem Binary.recorded_eq_iff {op : Binary} {u : Term} : op.recorded u = [op.category] ↔ (!op.onBits || u.settles) = true := by
  rw [recorded]
  cases hbits : op.onBits
  · simp
  · cases u.settles <;> cases op <;> simp [isShift]

/-- **Clear statements.** Each operator and each sign is recorded as it should be if and only if the statement is clear. -/
theorem Formula.recorded_eq_iff {s : Formula} : s.recorded = s.claimed ↔ s.clear = true := by
  obtain ⟨use, first, rest⟩ := s
  have hrest : (rest.flatMap fun l => [l.1.recorded l.2, l.2.recorded false]) =
      (rest.flatMap fun l => [[l.1.category], l.2.claimed]) ↔ (rest.all fun l => !l.1.onBits || l.2.settles) = true := by
    induction rest with
    | nil => exact iff_of_true rfl rfl
    | cons l rest ih =>
      have hterm : l.2.recorded false = l.2.claimed := Term.recorded_eq_iff.2 rfl
      rw [List.flatMap_cons, List.flatMap_cons, List.all_cons, Bool.and_eq_true, ← ih, ← Binary.recorded_eq_iff, hterm]
      simp
  rw [recorded, claimed, clear, Bool.and_eq_true, ← hrest, ← Term.recorded_eq_iff]
  simp

/-! ## Pieces -/

/-- What becomes of a piece. -/
inductive Chunk.Role where
  | assign | give
  | joined (m : Unary)
  | logic | negation | complement | compare
  | still
deriving DecidableEq

def Chunk.Role.category : Chunk.Role → Option Category
  | assign => some .assign
  | give => some .return
  | joined m => some m.category
  | logic => some .logic
  | negation => some .logic
  | complement => some .shift
  | compare => some .compare
  | still => none

/-- The pieces of the text of a statement. A sign joins if what stands before its blank reads as an operand. Half of a shift
that is not found is an angle. -/
inductive Chunk where
  | target (x : Name)
  | giveWord
  | plain (v : Value)
  | front (f : Front) (joins : Bool) (v : Value)
  | binary (op : Binary) (seen : Bool)
  | angle (spaced left : Bool)
  | semicolon

def Front.role (joins : Bool) : Front → Chunk.Role
  | unary m => if joins then .joined m else .still
  | negation => .negation
  | complement => .complement

def Binary.role (seen : Bool) (op : Binary) : Chunk.Role :=
  match op.unary? with
  | some m => if seen then .joined m else .still
  | none => if op.category = .logic then .logic else .compare

namespace Chunk
open Lexeme (word sign)
open Item (keyword)

def angleChar (left : Bool) : Char := if left then '<' else '>'

def piece : Chunk → Piece Role
  | target x => ⟨.assign, [word x.chars, sign ' '], [sign '='], []⟩
  | giveWord => ⟨.give, [], [keyword "return"], []⟩
  | plain v => ⟨.still, sign ' ' :: v.lexemes, [], []⟩
  | front f joins v => ⟨f.role joins, [sign ' '], [sign f.char], v.lexemes⟩
  | binary op seen => ⟨op.role seen, [sign ' '], op.text.toList.map sign, []⟩
  | angle spaced left => ⟨.compare, if spaced then [sign ' '] else [], [sign (angleChar left)], []⟩
  | semicolon => ⟨.still, [sign ';'], [], []⟩

/-- What says what is done with the expression. -/
def lead : Use → Chunk
  | .assign x => target x
  | .give => giveWord

/-- An operand, with the blank before it. -/
def term (joins : Bool) : Term → Chunk
  | ⟨none, v⟩ => plain v
  | ⟨some f, v⟩ => front f joins v

/-- An operator in front of an operand, with the blank before it. -/
def operator (op : Binary) (u : Term) : List Chunk :=
  if op.onBits && !u.settles then
    if op.isShift then [angle true (op == .shiftLeft), angle false (op == .shiftLeft)] else [binary op false]
  else [binary op true]

end Chunk

namespace Formula
open Chunk

/-- The pieces behind the first operand. -/
def tailChunks (rest : List (Binary × Term)) : List Chunk :=
  rest.flatMap (fun l => operator l.1 l.2 ++ [term false l.2]) ++ [semicolon]

def chunks (s : Formula) : List Chunk := lead s.use :: term s.use.joins s.first :: tailChunks s.rest

end Formula
end SourceLikeness.Tokenizer
