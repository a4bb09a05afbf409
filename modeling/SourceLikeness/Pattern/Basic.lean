import SourceLikeness.Span
import SourceLikeness.Text.Blank
import SourceLikeness.Text.Word

/-!
# Patterns

A pattern describes how a piece of text may read, with its readings in an order of preference.

* `CharSet` : the sets that a single character is tested against;
* `Pattern` : the patterns, made of characters, sequence, ordered choice, repetition and tests of
  the place; `Part` names the pieces of a reading that are asked for later;
* `Pattern.run` : tries the readings of a pattern at a place, the preferred one first, and takes the
  first with which the rest of the work succeeds.

A repetition is meant for a body that reads at least one character, so as many rounds as there are
characters left are enough.
-/

namespace SourceLikeness
open Text (isBlank isWord)

/-! ## Sets of characters -/

inductive CharSet.Entry where
  | char (c : Char)
  | range (first last : Char)
  | word
  | blank
deriving DecidableEq, Repr

/-- A set of characters: the characters of some entries, or all others. -/
inductive CharSet where
  | only (entries : List CharSet.Entry)
  | except (entries : List CharSet.Entry)
deriving DecidableEq, Repr

namespace CharSet

def Entry.holds (c : Char) : Entry → Bool
  | char d => c == d
  | range first last => first ≤ c && c ≤ last
  | word => isWord c
  | blank => isBlank c

def holds (c : Char) : CharSet → Bool
  | only entries => entries.any (Entry.holds c)
  | except entries => !entries.any (Entry.holds c)

end CharSet

/-! ## The patterns -/

/-- The pieces of a reading. `token` is the piece that a token is made of; the others are those of a
conditional expression: the sign or word that says where its value goes, the condition and the two
branches. -/
inductive Part where
  | token
  | assigned
  | returned
  | condition
  | thenBranch
  | elseBranch
deriving DecidableEq, Repr

/-- What a piece of text may read as. -/
inductive Pattern where
  /-- Reads nothing. -/
  | empty
  | one (set : CharSet)
  | seq (first second : Pattern)
  /-- Reads the first pattern if it can, else the second. -/
  | alt (first second : Pattern)
  /-- Reads the body any number of times, as often as it can. -/
  | many (body : Pattern)
  /-- Reads the body any number of times, as rarely as it can. -/
  | few (body : Pattern)
  /-- Reads nothing, where a word starts or stops. -/
  | wordEdge
  /-- Reads nothing, at the start of a line. -/
  | lineStart
  /-- Reads nothing, at the start of the text. -/
  | textStart
  | part (name : Part) (body : Pattern)
deriving Repr

/-- A place in a text: the number of characters passed, the last of them, the characters to come,
and the pieces noted on the way. -/
structure Cursor where
  offset : Nat
  before : Option Char
  rest : List Char
  parts : List (Part × Span)
deriving DecidableEq, Repr

namespace Cursor

/-- The place after one more character. -/
def advance (s : Cursor) (c : Char) (rest : List Char) : Cursor := ⟨s.offset + 1, some c, rest, s.parts⟩

def note (s : Cursor) (name : Part) (t : Cursor) : Cursor :=
  { t with parts := (name, ⟨s.offset, t.offset⟩) :: t.parts }

/-- Whether exactly one of the two neighbours is a word character. -/
def atWordEdge (s : Cursor) : Bool := s.before.any isWord != s.rest.head?.any isWord

/-- Whether nothing or a newline stands before the place. -/
def atLineStart (s : Cursor) : Bool := s.before.all (· == '\n')

end Cursor

namespace Pattern
variable {β : Type}

/-! ## Trying the readings -/

/-- What tries the readings of a pattern: it is told how the work goes on behind a reading. -/
abbrev Trial (β : Type) := Cursor → (Cursor → Option β) → Option β

/-- At most as many rounds as a text has characters, one more being better than no more. -/
def greedily (body : Trial β) : List Char → Trial β
  | [], s, next => next s
  | _ :: left, s, next => (body s fun t => greedily body left t next) <|> next s

/-- At most as many rounds as a text has characters, no more being better than one more. -/
def sparingly (body : Trial β) : List Char → Trial β
  | [], s, next => next s
  | _ :: left, s, next => next s <|> body s fun t => sparingly body left t next

def run : Pattern → Trial β
  | empty, s, next => next s
  | one set, s, next =>
    match s.rest with
    | [] => none
    | c :: rest => if set.holds c then next (s.advance c rest) else none
  | seq first second, s, next => first.run s fun t => second.run t next
  | alt first second, s, next => first.run s next <|> second.run s next
  | many body, s, next => greedily body.run s.rest s next
  | few body, s, next => sparingly body.run s.rest s next
  | wordEdge, s, next => if s.atWordEdge then next s else none
  | lineStart, s, next => if s.atLineStart then next s else none
  | textStart, s, next => if s.before.isNone then next s else none
  | part name body, s, next => body.run s fun t => next (s.note name t)

/-- Where the preferred reading at a place ends. -/
def read (p : Pattern) (s : Cursor) : Option Cursor := p.run s some

/-! ## Making patterns -/

/-- Never reads. -/
def never : Pattern := one (.only [])

def char (c : Char) : Pattern := one (.only [.char c])

def oneOf (cs : String) : Pattern := one (.only (cs.toList.map .char))

/-- Reads one character that is not among the given ones. -/
def noneOf (cs : String) : Pattern := one (.except (cs.toList.map .char))

def anyChar : Pattern := one (.except [])

def all : List Pattern → Pattern
  | [] => empty
  | [p] => p
  | p :: ps => seq p (all ps)

def any : List Pattern → Pattern
  | [] => never
  | [p] => p
  | p :: ps => alt p (any ps)

def chars (text : List Char) : Pattern := all (text.map char)

def text (text : String) : Pattern := chars text.toList

/-- Reads the body if it can. -/
def opt (body : Pattern) : Pattern := alt body empty

/-- Reads the body at least once, as often as it can. -/
def plus (body : Pattern) : Pattern := seq body (many body)

/-- Reads the body at least once, as rarely as it can. -/
def plusFew (body : Pattern) : Pattern := seq body (few body)

/-- Reads the body at most `n` times, as often as it can. -/
def upTo (body : Pattern) : Nat → Pattern
  | 0 => empty
  | n + 1 => opt (seq body (upTo body n))

def wordChar : Pattern := one (.only [.word])

def name : Pattern := plus wordChar

def blanks : Pattern := many (one (.only [.blank]))

/-- Reads at least one blank. -/
def someBlanks : Pattern := plus (one (.only [.blank]))

/-- Reads one of some words, and only where it stands as a whole. -/
def word (ws : List String) : Pattern := all [wordEdge, any (ws.map text), wordEdge]

end Pattern
end SourceLikeness
