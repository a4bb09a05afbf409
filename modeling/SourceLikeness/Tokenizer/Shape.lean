import SourceLikeness.Pattern.Basic

/-!
# Shapes that many constructs share

Pieces of patterns: the rest of a line, pointer stars, array brackets, lists of declared names.
-/

namespace SourceLikeness.Tokenizer.Shape
open Pattern

def gap : Pattern := many (oneOf " \t")

def restOfLine : Pattern := many (noneOf "\n")

def escape : Pattern := all [text "\\", noneOf "\n"]

def starsOrBlanks : Pattern := many (one (.only [.blank, .char '*']))

/-- At least one star, with any blanks around. -/
def stars : Pattern := all [blanks, text "*", starsOrBlanks]

def brackets : Pattern := many (all [blanks, text "[", many (noneOf "]"), text "]"])

def furtherNames : Pattern := many (all [blanks, text ",", blanks, name, brackets])

def opener : Pattern := one (.only [.char '\x7b', .word, .char '*', .char '(', .char '.'])

def declarationEnd : Pattern := oneOf ";="

/-- A word and the text behind it up to a colon on the same line. -/
def lineHeader (words : Pattern) : Pattern := all [words, many (noneOf ":\n"), text ":"]

end SourceLikeness.Tokenizer.Shape
