import SourceLikeness.Tokenizer.Shape

/-!
# Text that says nothing to the tokenizer

Literals, comments, imports and directives, in both dialects.
-/

namespace SourceLikeness.Tokenizer.Inert
open Pattern Shape

/-! ## Literals -/

/-- A literal between two quotes, on one line or not, in which a backslash escapes. -/
def quoted (quote : Pattern) (plain : Pattern) : Pattern :=
  all [quote, many (alt plain escape), quote]

def doubleQuoted : Pattern := quoted (text "\"") (noneOf "\"\\\n")

/-- A character literal of the C family. It is short, so that an apostrophe that means something
else is not taken for the start of one. -/
def charLiteral : Pattern :=
  all [text "'", alt (all [escape, upTo (noneOf "'\\\n") 8]) (noneOf "'\\\n"), text "'"]

def cLiteral : Pattern :=
  any [doubleQuoted, charLiteral, quoted (text "\x60") (noneOf "\x60\\")]

def pyLiteral : Pattern :=
  any [all [text "\"\"\"", few anyChar, text "\"\"\""], all [text "'''", few anyChar, text "'''"],
    doubleQuoted, quoted (text "'") (noneOf "'\\\n")]

/-! ## Comments -/

/-- The comments of the C family. The opener that comes first decides of which form one is. -/
def cComment : Pattern :=
  any [all [text "//", restOfLine], all [text "/*", few anyChar, text "*/"]]

def pyComment : Pattern := all [text "#", restOfLine]

/-! ## Imports and directives -/

/-- A directive at the start of a line, up to the end of its name. -/
def directive (names : Pattern) : Pattern := all [lineStart, gap, text "#", gap, names, wordEdge]

def cImport : Pattern :=
  any [all [directive (any [text "include", text "import"]), restOfLine],
    all [lineStart, gap, any [text "import", text "use", text "package"], wordEdge,
      many (noneOf ";\n"), opt (text ";")]]

def pyImport : Pattern :=
  all [lineStart, gap,
    opt (all [text "from", plus (oneOf " \t"), plus (one (.only [.word, .char '.'])),
      plus (oneOf " \t")]),
    text "import", wordEdge,
    alt (all [many (noneOf "\n("), text "(", many (noneOf ")"), text ")"]) restOfLine]

/-- The directives of the C family, `define` with lines that continue it before all others. -/
def cDirective : Pattern :=
  any [all [directive (text "define"), restOfLine, many (all [text "\\\n", restOfLine])],
    all [directive (plus (one (.only [.range 'a' 'z']))), restOfLine]]

end SourceLikeness.Tokenizer.Inert
