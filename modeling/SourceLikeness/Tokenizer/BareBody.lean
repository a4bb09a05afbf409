import SourceLikeness.Tokenizer.Pass

/-!
# Bodies without braces

The body of an `else`, `do`, `while`, `if` or `for` that is a single statement is put between two
brace markers. An `else` directly before an `if` is left to that `if`.

The semicolons in the header of a `for` do not end its body, so the headers are hidden while the
bodies behind a closing parenthesis are looked for.
-/

namespace SourceLikeness.Tokenizer.BareBody
open Pattern

/-- A statement without braces, up to its semicolon. -/
def statement : Pattern := part .token (all [plus (noneOf ";\x7b\x7d"), text ";"])

/-- The statement behind an `else`. -/
def elseBody : Pattern := all [wordEdge, text "else", blanks, statement]

/-- The statement behind a `do`. -/
def doBody : Pattern := all [word ["do"], blanks, statement]

def forHeader : Pattern :=
  all [wordEdge, text "for", blanks, text "(",
    part .token (all [many (noneOf ";\x7b\x7d"), text ";", many (noneOf ";\x7b\x7d"), text ";",
      many (noneOf ")\x7b\x7d")]),
    text ")"]

def headed : List String := ["while", "if", "for"]

/-- The statement behind a header. -/
def headedBody : Pattern :=
  all [any (headed.map text), blanks, text "(", plusFew (noneOf ";\x7b\x7d"), text ")", blanks,
    statement]

/-- An `if` at the start of a text. -/
def leadingIf : Pattern := all [blanks, text "if", wordEdge]

def hide (text : List Char) (s : Span) : List Char :=
  WorkingCopy.mapSpan (fun _ => '.') s text

def withoutHeaders (text : List Char) : List Char :=
  ((forHeader.readings text).map Hit.token).foldl hide text

/-- The bodies behind the headers of a text. -/
def headedBodies (text : List Char) : List Span :=
  ((word headed).readings text).filterMap fun hit =>
    (headedBody.readStart (text.drop hit.whole.start)).map fun body =>
      body.token.shift hit.whole.start

def bodies (text : List Char) : List Span :=
  let elseBodies := ((elseBody.readings text).map Hit.token).filter fun s =>
    (leadingIf.readStart (s.slice text)).isNone
  elseBodies ++ (doBody.readings text).map Hit.token ++ headedBodies (withoutHeaders text)

/-- Puts a body between brace markers. The blanks in front of it stay outside. -/
def wrap (w : Work) (body : Span) : Work :=
  let skipped := ((body.slice w.text).takeWhile Text.isLayout).length
  (w.mark .openBrace (body.start + skipped)).mark .closeBrace body.stop

def apply (w : Work) : Work := (bodies w.text).foldl wrap w

end SourceLikeness.Tokenizer.BareBody
