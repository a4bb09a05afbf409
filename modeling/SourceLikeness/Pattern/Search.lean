import SourceLikeness.Pattern.Basic

/-!
# Searching a text for a pattern

* `Hit` : where a pattern was found and where the pieces of the reading stand;
* `Finder` : a pattern together with what is asked of the characters around a hit and of its token;
* `Finder.hits` : walks over the text from left to right. At a start the preferred reading is taken
  if everything asked of it holds, and the walk goes on behind its token (or behind the whole hit
  if the finder says so). Otherwise the walk goes on at the next start.
-/

namespace SourceLikeness
open Text (isAsciiWord)

/-- A reading of a pattern in a text. -/
structure Hit where
  whole : Span
  parts : List (Part × Span)
deriving DecidableEq, Repr

namespace Hit

/-- Where a piece of the reading stands, if the reading has it. -/
def part? (h : Hit) (name : Part) : Option Span := h.parts.lookup name

/-- What a token is made of: the piece of that name, or the whole. -/
def token (h : Hit) : Span := (h.part? .token).getD h.whole

end Hit

/-- A pattern and the conditions on its hits. -/
structure Finder where
  pattern : Pattern
  /-- Asked of the character before a hit, `none` at the start of the text. -/
  before : Option Char → Bool := fun _ => true
  /-- Asked of the character behind a hit, `none` at the end of the text. -/
  after : Option Char → Bool := fun _ => true
  /-- Words that the token must not begin with. -/
  barred : List String := []
  /-- Whether the search goes on behind the whole hit and not behind its token. -/
  consumes : Bool := false

namespace Finder

def leadingWord (text : List Char) : List Char := text.takeWhile isAsciiWord

/-- Whether the token of a hit begins with a barred word. The text is that from the hit on. -/
def bars (f : Finder) (h : Hit) (text : List Char) : Bool :=
  let token : Span := ⟨h.token.start - h.whole.start, h.token.stop - h.whole.start⟩
  f.barred.any fun w => w.toList == leadingWord (token.slice text)

/-- The hit that starts at a place, if the preferred reading there is one. -/
def hitAt (f : Finder) (accept : Hit → Bool) (before : Option Char) (offset : Nat)
    (text : List Char) : Option Hit :=
  if f.before before then
    match f.pattern.read ⟨offset, before, text, []⟩ with
    | none => none
    | some t =>
      let hit : Hit := ⟨⟨offset, t.offset⟩, t.parts⟩
      if f.after t.rest.head? && !f.bars hit text && accept hit then some hit else none
  else none

/-- Where the search goes on after a hit. -/
def resume (f : Finder) (h : Hit) : Nat := if f.consumes then h.whole.stop else h.token.stop

/-- The hits that start at `offset` or later, none of them before `resume`. -/
def hitsFrom (f : Finder) (accept : Hit → Bool) (before : Option Char) (offset resume : Nat)
    (text : List Char) : List Hit :=
  let hit? := if offset < resume then none else f.hitAt accept before offset text
  match text with
  | [] => hit?.toList
  | c :: rest =>
    match hit? with
    | none => hitsFrom f accept (some c) (offset + 1) resume rest
    | some hit => hit :: hitsFrom f accept (some c) (offset + 1) (f.resume hit) rest

def hitsWhere (f : Finder) (accept : Hit → Bool) (text : List Char) : List Hit :=
  f.hitsFrom accept none 0 0 text

def hits (f : Finder) (text : List Char) : List Hit := f.hitsWhere (fun _ => true) text

end Finder

namespace Pattern

/-- The readings of a pattern in a text that do not overlap, from left to right. -/
def readings (p : Pattern) (text : List Char) : List Hit :=
  Finder.hits { pattern := p, consumes := true } text

def readStart (p : Pattern) (text : List Char) : Option Hit :=
  (p.read ⟨0, none, text, []⟩).map fun t => ⟨⟨0, t.offset⟩, t.parts⟩

end Pattern
end SourceLikeness
