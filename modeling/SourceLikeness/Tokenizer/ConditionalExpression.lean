import SourceLikeness.Tokenizer.Pass

/-!
# Conditional expressions

`condition ? a : b ;` is recorded like an `if` with two blocks. An `=` or a `return` in front of the
condition is recorded in both blocks. The condition stays on one line and holds no brace.

All of it is recorded as markers: those of the first block stand at the question mark and before the
colon, those of the second at the colon and before the semicolon.
-/

namespace SourceLikeness.Tokenizer.ConditionalExpression
open Pattern

/-- What may stand before a conditional expression and the blanks in front of it. -/
def mayPrecede (c : Option Char) : Bool :=
  c.any fun c => c.isAlphanum || c ∈ ['_', ';', '\x7b', '\x7d', '(', ')']

/-- A comparison on one line, outside of which no sign of a comparison stands. -/
def condition : Pattern :=
  all [plus (noneOf ";<>=\x7b\x7d\n"), any [text "==", text ">=", text "<=", text ">", text "<"],
    plus (noneOf ";<>=?\x7b\x7d\n")]

def finder : Finder where
  pattern := all
    [blanks, opt (any [part .assigned (text "="), part .returned (word ["return"])]),
      part .condition condition,
      part .thenBranch (all [text "?", plus (noneOf ":;")]),
      part .elseBranch (all [text ":", plus (noneOf ";"), text ";"])]
  before := mayPrecede
  consumes := true

/-- The cell at the start of a span. -/
def first (s : Span) : Span := ⟨s.start, s.start + 1⟩

/-- What stands in front of the condition, and the category that both blocks record for it. -/
def lead? (hit : Hit) : Option (Category × Span) :=
  match hit.part? .assigned with
  | some s => some (.assign, s)
  | none => (hit.part? .returned).map (Category.return, ·)

/-- Whether the question mark and the colon of a hit are still free. -/
def isFree (w : Work) (hit : Hit) : Bool :=
  (hit.part? .thenBranch).any (fun s => !w.isClaimed (first s)) &&
    (hit.part? .elseBranch).any (fun s => !w.isClaimed (first s))

/-- The markers at the start of a block, and at the place before it where another block ends. -/
def openBlock (lead : Option Category) (place : Nat) (w : Work) : Work :=
  let w := (w.mark .conditional place).mark .openBrace place
  lead.elim w (w.mark · place)

def applyHit (w : Work) (hit : Hit) : Work :=
  match hit.part? .condition, hit.part? .thenBranch, hit.part? .elseBranch with
  | some condition, some thenBranch, some elseBranch =>
    let lead := lead? hit
    let question := thenBranch.start
    let colon := elseBranch.start
    let w := openBlock (lead.map (·.1)) question w
    let w := w.mark .closeBrace colon
    let w := openBlock (lead.map (·.1)) colon w
    let w := w.mark .closeBrace (elseBranch.stop - 1)
    let w := lead.elim w fun l => w.claim l.2 WorkingCopy.masked
    let w := w.claim condition WorkingCopy.masked
    let w := w.claim (first thenBranch) WorkingCopy.masked
    w.claim (first elseBranch) WorkingCopy.terminator
  | _, _, _ => w

def apply (w : Work) : Work := (finder.hitsWhere (isFree w) w.text).foldl applyHit w

end SourceLikeness.Tokenizer.ConditionalExpression
