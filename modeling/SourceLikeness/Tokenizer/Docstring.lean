import SourceLikeness.Tokenizer.Pass

/-!
# Docstrings

A line that holds nothing but a literal says nothing to the program, and its literal is erased.
-/

namespace SourceLikeness.Tokenizer.Docstring
open Text (pieces trim trimStart)

/-- The spans of the literals that stand alone on their lines. The lines come with the offset of the
first of them. -/
def spansFrom (offset : Nat) : List (List Char) → List Span
  | [] => []
  | line :: rest =>
    let body := trim line
    let start := offset + (line.length - (trimStart line).length)
    let following := spansFrom (offset + line.length + 1) rest
    if body ≠ [] && body.all (· == WorkingCopy.literal) then ⟨start, start + body.length⟩ :: following
    else following

def spans (text : List Char) : List Span := spansFrom 0 (pieces (· == '\n') text)

def apply (w : Work) : Work :=
  (spans w.text).foldl (fun w s => w.overwrite s WorkingCopy.blank) w

end SourceLikeness.Tokenizer.Docstring
