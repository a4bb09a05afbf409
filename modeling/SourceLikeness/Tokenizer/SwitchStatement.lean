import SourceLikeness.Tokenizer.Pass

/-!
# Switch statements

A `switch` is recorded as one conditional block for each of its labels. Its header and its closing
brace are overwritten, and so is the `break` that ends a case.

A case that is no block of its own is put between brace markers. It ends at the next label of the
same depth, or with the `switch`.
-/

namespace SourceLikeness.Tokenizer.SwitchStatement
open Pattern Text

def header : Pattern := all [word ["switch"], many (noneOf "\x7b;"), text "\x7b"]

/-- A `break` and what comes before it, from a label on. -/
def caseBreak : Pattern :=
  all [word ["case", "default"], many (noneOf ":"), text ":", few anyChar,
    part .token (all [wordEdge, text "break", blanks, text ";"])]

def label : Pattern :=
  all [wordEdge,
    any [all [text "case", wordEdge, many (noneOf ":\n")], all [text "default", blanks]], text ":"]

/-- Where the block is closed that stands open `depth` deep at the start of a text. -/
def closingBrace (depth offset : Nat) : List Char → Option Nat
  | [] => none
  | c :: rest =>
    if c = '\x7b' then closingBrace (depth + 1) (offset + 1) rest
    else if c = '\x7d' then
      if depth ≤ 1 then some offset else closingBrace (depth - 1) (offset + 1) rest
    else closingBrace depth (offset + 1) rest

def startsWord (word : String) (before : Option Char) (text : List Char) : Bool :=
  word.toList.isPrefixOf text && !before.any isAsciiWord &&
    !(text.drop word.toList.length).head?.any isAsciiWord

/-- Where a case ends whose body starts with a text: at a closing brace that it did not open, at the
end of the `switch`, or at a label outside of any brace that it did open. -/
def caseEnd (depth offset : Nat) (before : Option Char) : List Char → Option Nat
  | [] => none
  | c :: rest =>
    if c = '\x7b' then caseEnd (depth + 1) (offset + 1) (some c) rest
    else if c = '\x7d' then
      if depth = 0 then some offset else caseEnd (depth - 1) (offset + 1) (some c) rest
    else if depth = 0 &&
        (c == WorkingCopy.switchEnd || startsWord "case" before (c :: rest) ||
          startsWord "default" before (c :: rest)) then some offset
    else caseEnd depth (offset + 1) (some c) rest

/-- The character before an offset. -/
def charBefore (text : List Char) : Nat → Option Char
  | 0 => none
  | n + 1 => text[n]?

/-- Records one label of a `switch` whose closing brace stands at `stop`. -/
def applyLabel (stop : Nat) (w : Work) (label : Span) : Work :=
  if w.admits label then
    let w := w.take .conditional label WorkingCopy.terminator
    let text := w.text
    let body := label.stop + ((text.drop label.stop).takeWhile isLayout).length
    if text[body]? = some '\x7b' then w
    else
      let caseStop := (caseEnd 0 body (charBefore text body) (text.drop body)).getD stop
      (w.mark .openBrace label.stop).mark .closeBrace caseStop
  else w

/-- The readings of a pattern inside a span, as spans of the text. -/
def tokensWithin (p : Pattern) (region : Span) (text : List Char) : List Span :=
  (p.readings (region.slice text)).map fun hit => hit.token.shift region.start

/-- Records the `switch` of a header whose closing brace stands at `stop`. -/
def applyRegion (header : Span) (stop : Nat) (w : Work) : Work :=
  let region : Span := ⟨header.stop, stop⟩
  let w := w.claim ⟨stop, stop + 1⟩ WorkingCopy.switchEnd
  let w := (tokensWithin caseBreak region w.text).foldl (·.claim · WorkingCopy.masked) w
  let w := w.claim header WorkingCopy.terminator
  (tokensWithin label region w.text).foldl (applyLabel stop) w

/-- Records the `switch` of a header, if the header is free and its block is closed. -/
def applyHeader (w : Work) (header : Span) : Work :=
  if w.isClaimed header then w
  else match closingBrace 1 header.stop (w.text.drop header.stop) with
    | none => w
    | some stop => applyRegion header stop w

def apply (w : Work) : Work := ((header.readings w.text).map Hit.whole).foldl applyHeader w

end SourceLikeness.Tokenizer.SwitchStatement
