import SourceLikeness.Text.Blank

/-!
# Tiling

A tile is a run of equal elements of two lists, the candidate and the reference. `tile` covers the
candidate with tiles, the longest first, so that no element of either list is in two of them.

* A round looks for the longest runs among the elements that no tile covers yet, and commits them
  in order of their place, leaving out those that touch a run committed before them.
* Rounds go on until the runs of one are no longer than the shortest that is asked for.

Elements that are covered are blanked out: a list with gaps is a `List (Option α)`, and a gap equals
nothing.
-/

namespace SourceLikeness

/-- Elements that count by a weight when they are covered. -/
class Weighted (α : Type) where
  weight : α → Nat

/-- A line of a text without the blanks at its ends. -/
structure Line where
  text : List Char
deriving DecidableEq, Repr

namespace Line

def ofText (raw : List Char) : Line := ⟨Text.trim raw⟩

def all (text : List Char) : List Line := (Text.lines text).map ofText

end Line

instance : Weighted Line := ⟨fun line => line.text.length⟩

instance : Weighted Char := ⟨fun _ => 1⟩

/-- A run of equal elements: where it starts in the candidate and in the reference, and its
length. -/
structure Tile where
  candidate : Nat
  reference : Nat
  length : Nat
deriving DecidableEq, Repr

/-- The tiles in order of commitment, the weight of what they cover and of the whole candidate. -/
structure Tiling where
  tiles : List Tile
  matchedWeight : Nat
  totalWeight : Nat
deriving DecidableEq, Repr

namespace Tiling
variable {α : Type}

def weigh [Weighted α] : List α → Nat
  | [] => 0
  | x :: xs => Weighted.weight x + weigh xs

def weighOpen [Weighted α] (xs : List (Option α)) : Nat := weigh (xs.filterMap id)

/-! ## Runs -/

/-- The length of the run at the start of two lists with gaps. -/
def commonRun [BEq α] : List (Option α) → List (Option α) → Nat
  | some x :: xs, some y :: ys => if x == y then commonRun xs ys + 1 else 0
  | _, _ => 0

/-- The runs of at least `least` elements from one start in the candidate. -/
def runsAt [BEq α] (least : Nat) (xs : List (Option α)) (i : Nat) :
    Nat → List (Option α) → List Tile
  | _, [] => []
  | j, y :: ys =>
    let length := commonRun xs (y :: ys)
    if length < least then runsAt least xs i (j + 1) ys
    else ⟨i, j, length⟩ :: runsAt least xs i (j + 1) ys

/-- The runs of at least `least` elements, by start in the candidate and then in the reference. -/
def runsFrom [BEq α] (least : Nat) (ys : List (Option α)) :
    Nat → List (Option α) → List Tile
  | _, [] => []
  | i, x :: xs => runsAt least (x :: xs) i 0 ys ++ runsFrom least ys (i + 1) xs

/-- The length of the longest of some runs, and no less than `least`. -/
def longest (least : Nat) (runs : List Tile) : Nat := runs.foldl (fun n t => max n t.length) least

/-! ## Rounds -/

/-- The two lists with gaps where they are covered, the tiles that cover them in order of commitment,
and the weight of what they cover of the candidate. -/
structure Cover (α : Type) where
  candidate : List (Option α)
  reference : List (Option α)
  tiles : List Tile
  weight : Nat
deriving DecidableEq, Repr

namespace Cover

/-- Nothing is covered. -/
def start (candidate reference : List α) : Cover α :=
  ⟨candidate.map some, reference.map some, [], 0⟩

def slice (xs : List (Option α)) (first length : Nat) : List (Option α) := (xs.drop first).take length

/-- Whether no element of a tile is covered on either side. -/
def isFree (c : Cover α) (t : Tile) : Bool :=
  (slice c.candidate t.candidate t.length).all Option.isSome &&
    (slice c.reference t.reference t.length).all Option.isSome

def blank (xs : List (Option α)) (first length : Nat) : List (Option α) :=
  xs.take first ++ (slice xs first length).map (fun _ => none) ++ xs.drop (first + length)

def commit [Weighted α] (c : Cover α) (t : Tile) : Cover α :=
  if c.isFree t then
    { candidate := blank c.candidate t.candidate t.length
      reference := blank c.reference t.reference t.length
      tiles := c.tiles ++ [t]
      weight := c.weight + weighOpen (slice c.candidate t.candidate t.length) }
  else c

/-- The runs of at least `least` elements that are not covered. -/
def runs [BEq α] (least : Nat) (c : Cover α) : List Tile :=
  runsFrom least c.reference 0 c.candidate

/-- One round: its runs have the greatest length there is, and no less than `least`. -/
def round [BEq α] [Weighted α] (least : Nat) (c : Cover α) : Nat × Cover α :=
  let runs := c.runs least
  let best := longest least runs
  (best, (runs.filter (·.length == best)).foldl commit c)

/-- Rounds until one has runs of the least length only. -/
def rounds [BEq α] [Weighted α] (least : Nat) : Nat → Cover α → Cover α
  | 0, c => c
  | n + 1, c =>
    let (best, c) := c.round least
    if best ≤ least then c else rounds least n c

end Cover

/-! ## Tilings -/

/-- Covers a candidate with tiles of at least `minRun` elements. Tiles have at least one.

The runs of a round are shorter than those of the round before, so that there are at most as many
rounds as elements, and one more. -/
def tile [BEq α] [Weighted α] (candidate reference : List α) (minRun : Nat) : Tiling :=
  let cover := (Cover.start candidate reference).rounds (max 1 minRun) (candidate.length + 1)
  { tiles := cover.tiles
    matchedWeight := cover.weight
    totalWeight := weigh candidate }

def tileLines (candidate reference : List Char) (minRun : Nat) : Tiling :=
  tile (Line.all candidate) (Line.all reference) minRun

def tileSymbols (candidate reference : List Char) (minRun : Nat) : Tiling :=
  tile candidate reference minRun

/-- The weight covered, in percent of the whole. An empty candidate scores 0. -/
def score (t : Tiling) : Float :=
  if t.totalWeight = 0 then 0 else t.matchedWeight.toFloat / t.totalWeight.toFloat * 100

end Tiling
end SourceLikeness
