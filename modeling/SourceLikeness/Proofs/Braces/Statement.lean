import SourceLikeness.Proofs.Piece.Basic
import SourceLikeness.Proofs.Tokenizer.Value

/-!
# Statements with and without braces

Simple statements, written with braces around every body or around none.

* `Stmt`, `Stmt.print` : the statements and their two texts; `Stmt.clear` : no `else` of them dangles;
* `Stmt.findable` : those whose bodies can be found without braces: what is in a header, between `do` and `while`, or
  between `if` and `else` holds a single assignment;
* `Item`, `Item.piece` : the pieces that both texts are cut into;
* `Stmt.braced`, `Stmt.bare` : the two texts as pieces. Without braces there are marks where bodies start and stop;
  all bodies that an assignment is in stop behind it.
-/

namespace SourceLikeness.Tokenizer

/-- A simple statement. The counter of a `for` runs up to a bound, and a starred assignment is one through a pointer. -/
inductive Stmt where
  | assign (starred : Bool) (target : Name) (value : Value)
  | ifThen (c : Condition) (body : Stmt)
  | ifElse (c : Condition) (body other : Stmt)
  | whileDo (c : Condition) (body : Stmt)
  | forDo (i : Name) (n : Value) (body : Stmt)
  | doWhile (body : Stmt) (c : Condition)

namespace Stmt

def isIf : Stmt → Bool
  | ifThen _ _ => true
  | ifElse _ _ _ => true
  | _ => false

/-! ## Texts -/

/-- A body, between braces or as it is. -/
def block (braces : Bool) (body : String) : String := if braces then "\x7b " ++ body ++ " \x7d" else body

/-- The text of a statement with braces around every body, or around none. The `if` behind an `else` is no body. -/
def print (braces : Bool) : Stmt → String
  | assign starred x e => (if starred then "*" else "") ++ x.text ++ " = " ++ e.text ++ ";"
  | ifThen c s => "if (" ++ c.text ++ ") " ++ block braces (s.print braces)
  | ifElse c s t => "if (" ++ c.text ++ ") " ++ block braces (s.print braces) ++ " else " ++
      if t.isIf then t.print braces else block braces (t.print braces)
  | whileDo c s => "while (" ++ c.text ++ ") " ++ block braces (s.print braces)
  | forDo i n s => "for (" ++ i.text ++ " = 0; " ++ i.text ++ " < " ++ n.text ++ "; " ++ i.text ++ "++) " ++
      block braces (s.print braces)
  | doWhile s c => "do " ++ block braces (s.print braces) ++ " while (" ++ c.text ++ ");"

/-! ## Dangling `else` -/

/-- The last statement is an `if` without an `else`. -/
def endsOpen : Stmt → Bool
  | assign _ _ _ => false
  | ifThen _ _ => true
  | ifElse _ _ t => t.endsOpen
  | whileDo _ s => s.endsOpen
  | forDo _ _ s => s.endsOpen
  | doWhile _ _ => false

/-- Every `else` belongs to the `if` that it is written for, also without braces. -/
def clear : Stmt → Bool
  | assign _ _ _ => true
  | ifThen _ s => s.clear
  | ifElse _ s t => !s.endsOpen && s.clear && t.clear
  | whileDo _ s => s.clear
  | forDo _ _ s => s.clear
  | doWhile s _ => s.clear

/-! ## Statements whose bodies can be found -/

/-- A statement with one assignment, which has no star. It has a `for` or a `do` only if that is allowed, and none of
them inside a `do`. -/
def single (fors dos : Bool) : Stmt → Bool
  | assign starred _ _ => !starred
  | ifThen _ s => s.single fors dos
  | ifElse _ _ _ => false
  | whileDo _ s => s.single fors dos
  | forDo _ _ s => fors && s.single fors dos
  | doWhile s _ => dos && s.single false false

/-- A statement whose bodies can be found without braces. -/
def findable : Stmt → Bool
  | assign _ _ _ => true
  | ifThen _ s => s.single true true
  | ifElse _ s t => s.single true true && if t.isIf then t.findable else t.single false true
  | whileDo _ s => s.single true true
  | forDo _ _ s => s.single true true
  | doWhile s _ => s.single false false

end Stmt

/-! ## Pieces -/

/-- What becomes of a piece. -/
inductive Role where
  | loop | doWord | doTail | conditional | assign | openMark | closeMark | openBrace | closeBrace
deriving DecidableEq

def Role.category : Role → Option Category
  | loop => some .loop
  | doWord => some .loop
  | doTail => none
  | conditional => some .conditional
  | assign => some .assign
  | openMark => some .openBrace
  | closeMark => some .closeBrace
  | openBrace => some .openBrace
  | closeBrace => some .closeBrace

/-- The pieces of the text of a statement. An `if` is chained if it stands behind an `else`. -/
inductive Item where
  | whileHead (c : Condition)
  | forHead (i : Name) (n : Value)
  | ifHead (chained : Bool) (c : Condition)
  | elseWord
  | doWord
  | doTail (c : Condition)
  | assign (target : Name) (value : Value)
  | openMark
  | closeMark
  | openBrace
  | closeBrace

namespace Item
open Lexeme (word sign)

def keyword (w : String) : Lexeme := word w.toList

/-- Something in parentheses, with a blank before it. -/
def bracketed (ls : List Lexeme) : List Lexeme := sign ' ' :: sign '(' :: ls ++ [sign ')']

/-- What stands between the parentheses of a `for`. -/
def counting (i : Name) (n : Value) : List Lexeme :=
  [word i.chars, sign ' ', sign '=', sign ' ', keyword "0", sign ';', sign ' ', word i.chars, sign ' ', sign '<', sign ' '] ++
    n.lexemes ++ [sign ';', sign ' ', word i.chars, sign '+', sign '+']

def piece : Item → Piece Role
  | whileHead c => ⟨.loop, [], keyword "while" :: bracketed c.lexemes ++ [sign ' '], []⟩
  | forHead i n => ⟨.loop, [], keyword "for" :: bracketed (counting i n) ++ [sign ' '], []⟩
  | ifHead false c => ⟨.conditional, [], keyword "if" :: bracketed c.lexemes ++ [sign ' '], []⟩
  | ifHead true c => ⟨.conditional, [sign ' '], keyword "else" :: sign ' ' :: keyword "if" :: bracketed c.lexemes ++ [sign ' '], []⟩
  | elseWord => ⟨.conditional, [sign ' '], [keyword "else"], [sign ' ']⟩
  | doWord => ⟨.doWord, [], [keyword "do"], [sign ' ']⟩
  | doTail c => ⟨.doTail, [sign ' '], keyword "while" :: bracketed c.lexemes ++ [sign ';'], []⟩
  | assign x e => ⟨.assign, [word x.chars, sign ' '], [sign '='], sign ' ' :: e.lexemes ++ [sign ';']⟩
  | openMark => ⟨.openMark, [], [], []⟩
  | closeMark => ⟨.closeMark, [], [], []⟩
  | openBrace => ⟨.openBrace, [], [sign '\x7b'], [sign ' ']⟩
  | closeBrace => ⟨.closeBrace, [sign ' '], [sign '\x7d'], []⟩

/-- The text of a piece. -/
def chars (a : Item) : List Char := Lexeme.text (a.piece.lexemes fun _ => none)

def isMark : Item → Bool
  | openMark => true
  | closeMark => true
  | _ => false

end Item

namespace Stmt
open Item

def braced (chained : Bool) : Stmt → List Item
  | assign _ x e => [.assign x e]
  | ifThen c s => .ifHead chained c :: .openBrace :: s.braced false ++ [.closeBrace]
  | ifElse c s t => .ifHead chained c :: .openBrace :: s.braced false ++ .closeBrace ::
      if t.isIf then t.braced true else .elseWord :: .openBrace :: t.braced false ++ [.closeBrace]
  | whileDo c s => .whileHead c :: .openBrace :: s.braced false ++ [.closeBrace]
  | forDo i n s => .forHead i n :: .openBrace :: s.braced false ++ [.closeBrace]
  | doWhile s c => .doWord :: .openBrace :: s.braced false ++ [.closeBrace, .doTail c]

/-- The pieces of a statement without braces, in which so many bodies stop that it is in. -/
def bare (chained : Bool) (n : Nat) : Stmt → List Item
  | assign _ x e => .assign x e :: List.replicate n .closeMark
  | ifThen c s => .ifHead chained c :: .openMark :: s.bare false (n + 1)
  | ifElse c s t => .ifHead chained c :: .openMark :: s.bare false (n + 1) ++
      if t.isIf then t.bare true 0 else .elseWord :: .openMark :: t.bare false 1
  | whileDo c s => .whileHead c :: .openMark :: s.bare false (n + 1)
  | forDo i m s => .forHead i m :: .openMark :: s.bare false (n + 1)
  | doWhile s c => .doWord :: .openMark :: s.bare false (n + 1) ++ [.doTail c]

end Stmt
end SourceLikeness.Tokenizer
