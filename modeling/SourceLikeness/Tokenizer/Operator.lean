import SourceLikeness.Pattern.Search

/-!
# Operators

Whether a sign joins two operands or belongs to one is decided by the characters next to it.
-/

namespace SourceLikeness.Tokenizer.Operator
open Pattern

/-- What an operand may end with: a name, a literal, something done with, or a closing bracket. -/
def isOperand (c : Option Char) : Bool :=
  c.any fun c => c.isAlphanum || c ∈ ['_', ')', ']', '.']

/-- What may stand behind an operator on bits. -/
def startsOperand (c : Option Char) : Bool :=
  isOperand c || c.any fun c => c ∈ ['(', '~', '!', ' ', '\t']

/-- Whether a character is none of the given ones. -/
def isNot (signs : List Char) (c : Option Char) : Bool := !c.any fun c => c ∈ signs

/-- What may stand before an equals sign that assigns. -/
def mayPrecedeAssignment : Option Char → Bool := isNot ['=', '!', '<', '>', '\x60']

/-- The sign or signs of an operator, with the blanks before it. -/
def spaced (signs : Pattern) : Pattern := all [blanks, part .token signs]

def increment : Pattern :=
  let step := any [text "++", text "--"]
  any [all [name, blanks, step], all [step, blanks, name]]

/-- Products and powers. A star that no operand precedes follows a pointer. -/
def multiplication : Finder where
  pattern := spaced (all [text "*", opt (text "*")])
  before := isOperand

def arithmetic : Finder where
  pattern := spaced (any [text "//", oneOf "+-/%"])
  before := isOperand
  after := isNot ['>', '+', '-', '=']

def negation : Finder where
  pattern := text "!"
  after := isNot ['=']

def bitwise : Finder where
  pattern := all [spaced (any [text "<<", text ">>", text "&", text "^", text "|"]), blanks]
  before := isOperand
  after := startsOperand

/-- Comparisons. The head of an arrow is none. -/
def comparison : Finder where
  pattern := any (["===", "!==", "==", "!=", "<=", ">=", "<", ">"].map text)
  before := isNot ['-', '=']

/-- The equals sign before a list in braces, up to the semicolon behind it. -/
def initializer : Finder where
  pattern :=
    all [part .token (text "="), blanks, text "\x7b", many (noneOf ";"), text "\x7d", blanks, text ";"]
  before := mayPrecedeAssignment

/-- Any other equals sign that assigns. -/
def assignment : Finder where
  pattern := text "="
  before := mayPrecedeAssignment
  after := isNot ['=', '>']

end SourceLikeness.Tokenizer.Operator
