import SourceLikeness.Category
import SourceLikeness.Text.Blank

/-!
# Alphabets

An alphabet writes each category as one character.

* `Alphabet.default` : the characters used unless the settings say otherwise;
* `Alphabet.category?` : the first category that a character stands for;
* `Alphabet.fault?` : the first reason not to use an alphabet. There is none if every character can
  be seen and no two categories share one.
-/

namespace SourceLikeness
open Text (isBlank isControl)

/-- The character of each category. -/
structure Alphabet where
  symbol : Category → Char

namespace Alphabet

/-- The characters used unless the settings say otherwise. -/
def default : Alphabet where
  symbol
    | .int => 'N'
    | .double => 'D'
    | .char => 'B'
    | .pointer => 'P'
    | .call => 'C'
    | .assign => 'A'
    | .function => 'F'
    | .cast => 'T'
    | .math => 'M'
    | .return => 'R'
    | .conditional => 'I'
    | .loop => 'S'
    | .compare => 'E'
    | .logic => 'L'
    | .shift => 'U'
    | .control => 'G'
    | .struct => 'V'
    | .openBrace => '\x7b'
    | .closeBrace => '\x7d'

instance : Inhabited Alphabet := ⟨default⟩

/-- The alphabet with other characters for the categories that `change` gives one for. -/
def override (a : Alphabet) (change : Category → Option Char) : Alphabet :=
  ⟨fun c => (change c).getD (a.symbol c)⟩

def category? (a : Alphabet) (symbol : Char) : Option Category :=
  Category.all.find? fun c => a.symbol c == symbol

inductive Fault where
  | unprintable (category : Category)
  | shared (symbol : Char) (first second : Category)
deriving DecidableEq, Repr

def Fault.message : Fault → String
  | unprintable c => s!"{c.label} maps to a non-printing character"
  | shared symbol first second =>
    "'" ++ symbol.toString ++ "' is used by both " ++ first.label ++ " and " ++ second.label

/-- The first fault among some categories, given those that came before them. -/
def faultAfter? (a : Alphabet) (earlier : List Category) : List Category → Option Fault
  | [] => none
  | c :: rest =>
    let symbol := a.symbol c
    if isBlank symbol || isControl symbol then some (.unprintable c)
    else match earlier.find? fun e => a.symbol e == symbol with
      | some e => some (.shared symbol e c)
      | none => faultAfter? a (c :: earlier) rest

def fault? (a : Alphabet) : Option Fault := a.faultAfter? [] Category.all

end Alphabet
end SourceLikeness
