import SourceLikeness.Tokenizer.Shape

/-!
# Headers

The constructs that a block follows: loops, conditionals, functions, structures. Where a header is
told apart by what comes behind it, only the header itself is the token.
-/

namespace SourceLikeness.Tokenizer.Header
open Pattern Shape

/-! ## Pointers to functions -/

/-- A type, then a name with stars in parentheses, as far as `more` reaches. -/
def starredName (more : Pattern) : Pattern :=
  all [wordEdge, name, starsOrBlanks, text "(", stars, name, more, blanks, text ")", blanks, text "(",
    many (noneOf "()"), text ")", blanks]

def functionPointer : Pattern := all [part .token (starredName brackets), declarationEnd]

def pointerReturningFunction : Pattern :=
  all [part .token (starredName (all [blanks, text "(", many (noneOf "()"), text ")"])), text "\x7b"]

/-! ## Loops and conditionals -/

/-- The headers of `for` and `while`. -/
def cLoop : Pattern :=
  any
    [all [part .token (all [wordEdge, text "for", blanks, text "(",
        opt (all [many (noneOf ";\x7b\x7d"), text ";", many (noneOf ";\x7b\x7d"), text ";"]),
        few (noneOf ";\x7b\x7d"), text ")", blanks]), opener],
      all [part .token (all [wordEdge, text "while", blanks, text "(", plusFew (noneOf ";\x7b\x7d"),
        text ")", blanks]), opener]]

/-- The condition at the end of a `do` loop. -/
def doTail : Pattern :=
  all [wordEdge, text "while", blanks, text "(", plus (noneOf ";\x7b\x7d"), text ")", blanks,
    text ";"]

/-- The headers of `for` and `while` in Python. -/
def pyLoop : Pattern :=
  lineHeader (all [wordEdge, opt (all [text "async", someBlanks]), any [text "for", text "while"],
    wordEdge])

/-- The headers of `if` and `else if`, and a lone `else`. -/
def cConditional : Pattern :=
  any
    [all [part .token (all [wordEdge, opt (all [text "else", someBlanks]), text "if", blanks,
        text "(", plusFew (noneOf ";\x7b\x7d"), text ")", blanks]), opener],
      part .token (word ["else"])]

/-- The headers of `if`, `elif` and `else` in Python. -/
def pyConditional : Pattern :=
  any [lineHeader (word ["if", "elif"]), all [wordEdge, text "else", blanks, text ":"]]

/-! ## Functions -/

/-- The header of a function, with a type that is written behind its parameters. -/
def cFunction : Pattern :=
  all [part .token (all [wordEdge, name, plus (one (.only [.blank, .char '*'])), name, blanks,
    text "(", many (noneOf "\x7b;"), text ")",
    opt (all [blanks, any [text "->", text ":"], many (noneOf "\x7b;=")]), blanks]), text "\x7b"]

def pyFunction : Pattern :=
  all [wordEdge, opt (all [text "async", someBlanks]), text "def", someBlanks, name, blanks,
    text "(", many (noneOf ")"), text ")", many (noneOf ":\n"), text ":"]

/-- The header of a function without a name. -/
def lambda : Pattern := lineHeader (word ["lambda"])

/-! ## Structures -/

def structPointer : Pattern :=
  all [wordEdge, any [text "struct", text "union"], someBlanks, name, stars, name]

def structDefinition : Pattern :=
  all [part .token (all [word ["struct", "union", "enum", "class", "interface"],
    many (noneOf "\x7b;()=")]), text "\x7b"]

def structVariable : Pattern :=
  all [part .token (all [wordEdge, any [text "struct", text "union"], someBlanks, name, someBlanks,
    name, brackets, furtherNames, blanks]), declarationEnd]

def pyClass : Pattern :=
  all [wordEdge, text "class", someBlanks, name, many (noneOf ":\n"), text ":"]

def decorator : Pattern :=
  all [lineStart, gap, part .token (all [text "@", plus (one (.only [.word, .char '.']))])]

end SourceLikeness.Tokenizer.Header
