import SourceLikeness.Token.Basic

/-!
# The working copy

The text that the passes of a tokenizer read and overwrite, together with what they have recorded.

* A working copy has one cell for each byte of the source. A cell of an ASCII character holds it,
  the cells of any other character hold `foreign`, so that an offset into the cells is an offset
  into the source's bytes.
* `overwrite` writes over a span, `claim` also keeps it from being taken again.
* `emit` records a token, `take` records and claims, `mark` records a token of no width.
-/

namespace SourceLikeness

/-- One byte of the source as the passes see it. -/
structure Cell where
  char : Char
  claimed : Bool
deriving DecidableEq, Repr

/-- Writes a character into a cell, unless the cell holds a newline. -/
def Cell.fill (fill : Char) (c : Cell) : Cell := if c.char = '\n' then c else { c with char := fill }

def Cell.claim (fill : Char) (c : Cell) : Cell := { c.fill fill with claimed := true }

/-- The cells of a text and the tokens recorded so far, in the order of recording. -/
structure WorkingCopy (α : Type) where
  cells : List Cell
  tokens : List (Token α)
deriving DecidableEq, Repr

namespace WorkingCopy
variable {α : Type}

/-! ## Fills -/

/-- What stands for a byte of a character beyond ASCII. -/
def foreign : Char := '\x7f'

/-- Fill for a construct that is done with and reads as an operand from now on. -/
def masked : Char := '.'

/-- Fill for string and character literals. -/
def literal : Char := '1'

/-- Fill for comments and imports. -/
def blank : Char := ' '

/-- Fill that reads as the end of a statement. -/
def terminator : Char := ';'

/-- Stands for the closing brace of a `switch`. -/
def switchEnd : Char := '$'

/-- Fill for an operator that has its token. It does not read as an operand. -/
def operator : Char := '\x60'

/-! ## Making and reading -/

def cellsOf (c : Char) : List Cell :=
  if c.toNat < 128 then [⟨c, false⟩] else List.replicate c.utf8Size ⟨foreign, false⟩

/-- The working copy of a source: nothing is claimed and nothing is recorded. -/
def ofSource (source : List Char) : WorkingCopy α := ⟨source.flatMap cellsOf, []⟩

def text (w : WorkingCopy α) : List Char := w.cells.map (·.char)

def size (w : WorkingCopy α) : Nat := w.cells.length

/-- Whether a span touches a claimed cell. A span that is not inside the text touches none. -/
def isClaimed (w : WorkingCopy α) (s : Span) : Bool :=
  s.start ≤ s.stop && s.stop ≤ w.size && (s.slice w.cells).any (·.claimed)

/-! ## Writing -/

/-- The list with `f` applied at the offsets of a span. -/
def mapSpan {β : Type} (f : β → β) (s : Span) (xs : List β) : List β :=
  xs.take s.start ++ (s.slice xs).map f ++ xs.drop (max s.start s.stop)

/-- Fills the cells of a span that lie inside the text. -/
def overwrite (w : WorkingCopy α) (s : Span) (fill : Char) : WorkingCopy α :=
  { w with cells := mapSpan (Cell.fill fill) (s.clamp w.size) w.cells }

/-- Fills the cells of a span that lie inside the text, and claims them. -/
def claim (w : WorkingCopy α) (s : Span) (fill : Char) : WorkingCopy α :=
  { w with cells := mapSpan (Cell.claim fill) (s.clamp w.size) w.cells }

/-! ## Recording -/

/-- Whether a token may be recorded: its span lies inside the text and touches no claimed cell. -/
def admits (w : WorkingCopy α) (s : Span) : Bool :=
  s.start ≤ s.stop && s.stop ≤ w.size && !w.isClaimed s

/-- Records a token if its span admits it. -/
def emit (w : WorkingCopy α) (symbol : α) (s : Span) : WorkingCopy α :=
  if w.admits s then { w with tokens := w.tokens ++ [⟨symbol, s.start, s.stop⟩] } else w

/-- Records a token of no width. -/
def mark (w : WorkingCopy α) (symbol : α) (place : Nat) : WorkingCopy α :=
  w.emit symbol ⟨place, place⟩

/-- Records a token and claims its span, or does nothing. -/
def take (w : WorkingCopy α) (symbol : α) (s : Span) (fill : Char) : WorkingCopy α :=
  if w.admits s then (w.emit symbol s).claim s fill else w

end WorkingCopy
end SourceLikeness
