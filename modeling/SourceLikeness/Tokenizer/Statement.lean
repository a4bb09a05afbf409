import SourceLikeness.Tokenizer.Shape

/-!
# Statements

Calls, casts, returns, jumps and typed declarations.

A type keyword is one word or several. `keywords` makes a list of keywords canonical: each stands in
it once, longer ones before shorter ones, so that `unsigned long` is not read as `unsigned`.
-/

namespace SourceLikeness.Tokenizer.Statement
open Pattern Shape

/-! ## Calls, casts, returns and jumps -/

/-- Words of the C family that may stand before a parenthesis without calling anything. -/
def cNotCalls : List String :=
  ["return", "sizeof", "if", "while", "for", "switch", "case", "else", "do", "new", "delete",
    "typeof"]

/-- Words of Python that may stand before a parenthesis without calling anything. -/
def pyNotCalls : List String :=
  ["and", "or", "not", "in", "is", "return", "yield", "if", "elif", "while", "for", "with", "assert",
    "del", "await", "lambda", "raise", "except"]

def cCall : Pattern :=
  all [alt textStart (one (.except (("-+*/%|$<>^".toList.map .char) ++ [.blank]))), blanks, wordEdge,
    part .token (all [name, blanks, text "(", few (noneOf ";\x7b\x7d"), text ")", blanks]), text ";"]

/-- A name that does not start with a digit. -/
def identifier : Pattern :=
  all [one (.only [.range 'A' 'Z', .range 'a' 'z', .char '_']), many wordChar]

/-- The name of what is called. The arguments stay visible to later passes. -/
def pyCall : Pattern :=
  all [wordEdge,
    part .token (all [identifier, many (all [blanks, text ".", blanks, identifier])]), blanks,
    text "("]

/-- A type in parentheses before an operand. -/
def cast : Pattern :=
  all [part .token (all [text "(", blanks, name, many (all [someBlanks, name]),
    many (all [blanks, text "*"]), blanks, text ")", blanks]), one (.only [.word, .char '(', .char '.'])]

def cControl : Pattern :=
  any [all [wordEdge, any [text "continue", text "break"], blanks, text ";"],
    all [wordEdge, text "goto", someBlanks, name, blanks, text ";"]]

/-! ## Type keywords -/

/-- A keyword as the list of its words. -/
abbrev Keyword := List (List Char)

/-- A character as a regular expression. One with a meaning of its own stands behind a backslash. -/
def escape (c : Char) : List Char :=
  if "\\.+*?()|[]\x7b\x7d^$#&-~".toList.contains c then ['\\', c] else [c]

/-- A keyword as a regular expression, with one or more blanks between two words. -/
def spelling (k : Keyword) : List Char := "\\s+".toList.intercalate (k.map (·.flatMap escape))

/-- How many bytes a text takes in UTF-8. -/
def byteLength : List Char → Nat
  | [] => 0
  | c :: rest => c.utf8Size + byteLength rest

/-- The order of keywords: the one with the longer spelling first, and of two of one length the one
whose spelling comes first. -/
def comesBefore (j k : Keyword) : Bool :=
  byteLength (spelling k) < byteLength (spelling j) ||
    (byteLength (spelling j) == byteLength (spelling k) && spelling j < spelling k)

/-- Puts a keyword into an ordered list, unless it is there already. -/
def insertKeyword (k : Keyword) : List Keyword → List Keyword
  | [] => [k]
  | j :: rest =>
    if k = j then j :: rest
    else if comesBefore k j then k :: j :: rest
    else j :: insertKeyword k rest

/-- The keywords of a list, each once and in order. -/
def keywords (types : List String) : List Keyword :=
  (types.map fun t => Text.words t.toList).foldr insertKeyword []

def keyword : Keyword → Pattern
  | [] => empty
  | [w] => chars w
  | w :: ws => all [chars w, someBlanks, keyword ws]

/-! ## Typed declarations -/

/-- The declaration of pointers to values of some types, or to values of no type at all. -/
def pointerDeclaration (types : List String) : Pattern :=
  all [wordEdge,
    part .token (all [any ((keywords types).map keyword ++ [text "void"]), stars,
      opt (all [text "const", someBlanks]), name, brackets,
      many (all [blanks, text ",", opt stars, name, brackets]), blanks]), declarationEnd]

/-- The declaration of variables of some types. The first name may have a width in bits. -/
def declaration (types : List String) : Pattern :=
  all [wordEdge,
    part .token (all [any ((keywords types).map keyword), someBlanks, name, brackets,
      opt (all [blanks, text ":", blanks, plus (one (.only [.range '0' '9']))]), furtherNames, blanks]),
    declarationEnd]

end SourceLikeness.Tokenizer.Statement
