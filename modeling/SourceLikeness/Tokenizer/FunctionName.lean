import SourceLikeness.Language
import SourceLikeness.Pattern.Search
import SourceLikeness.Tokenizer.Shape

/-!
# Names of functions

The names of the functions that a source defines. They are looked for in the source itself and not
in a working copy, so comments and literals are read too.
-/

namespace SourceLikeness.Tokenizer.FunctionName
open Pattern Shape

def cHeader : Pattern :=
  all [wordEdge, name, plus (one (.only [.blank, .char '*'])), part .token name, blanks, text "(",
    many (noneOf "\x7b;"), text ")", blanks, text "\x7b"]

def cPointerHeader : Pattern :=
  all [wordEdge, name, starsOrBlanks, text "(", stars, part .token name, blanks, text "(",
    many (noneOf "\x7b;"), text ")", blanks, text ")", blanks, text "(", many (noneOf "\x7b;"),
    text ")", blanks, text "\x7b"]

def pyHeader : Pattern := all [wordEdge, text "def", someBlanks, part .token name]

def headers : Dialect → List Pattern
  | .cFamily => [cHeader, cPointerHeader]
  | .python => [pyHeader]

/-- Names that are not reported: that of the entry point, and words that only look like names. -/
def unreported : List String := ["main", "if", "while", "for", "switch", "return", "sizeof"]

/-- Puts a name into an ordered list, unless it is there already. -/
def insert (name : String) : List String → List String
  | [] => [name]
  | other :: rest =>
    if name = other then other :: rest
    else if name < other then name :: other :: rest
    else other :: insert name rest

/-- The names of the functions that a source defines, each once and in the order of their
characters. -/
def names (dialect : Dialect) (source : List Char) : List String :=
  let found := (headers dialect).flatMap fun p =>
    (p.readings source).map fun hit => String.ofList (hit.token.slice source)
  (found.filter (· ∉ unreported)).foldr insert []

end SourceLikeness.Tokenizer.FunctionName
