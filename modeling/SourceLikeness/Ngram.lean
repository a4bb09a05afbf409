/-!
# N-grams

The windows of `n` symbols of two texts, and how many of them the texts share.

* `grams` : the distinct windows of a text;
* `Profile` : the sizes of the two sets, of what they share and of what they are together;
* `Profile.score` : shared in whole percent.
-/

namespace SourceLikeness.Ngram

def windows {α : Type} (width : Nat) : List α → List (List α)
  | [] => []
  | x :: xs =>
    if width ≤ (x :: xs).length then (x :: xs).take width :: windows width xs else []

/-- The distinct windows of a text. A width of 0 gives none. -/
def grams (symbols : List Char) (width : Nat) : List (List Char) :=
  if width = 0 then [] else (windows width symbols).eraseDups

/-- The numbers of distinct windows of two texts. -/
structure Profile where
  width : Nat
  candidate : Nat
  reference : Nat
  /-- How many windows both texts have. -/
  shared : Nat
  /-- How many windows one text or the other has. -/
  union : Nat
deriving DecidableEq, Repr

namespace Profile

def build (candidate reference : List Char) (width : Nat) : Profile :=
  let a := grams candidate width
  let b := grams reference width
  { width := width
    candidate := a.length
    reference := b.length
    shared := (a.filter (b.contains ·)).length
    union := a.length + (b.filter fun g => !a.contains g).length }

/-- The whole number next to a number that is not negative. A tie goes to the even one.

Numbers from 2^52 on are whole. Below, adding 2^52 leaves no room for a fraction. -/
def roundEven (x : Float) : Float :=
  let whole : Float := 4503599627370496
  if x < whole then (x + whole) - whole else x

/-- The windows shared, in whole percent of all. Two empty sets score 0. -/
def score (p : Profile) : Float :=
  if p.union = 0 then 0 else roundEven (p.shared.toFloat / p.union.toFloat * 100)

end Profile
end SourceLikeness.Ngram
