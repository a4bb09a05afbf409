import SourceLikeness.Decimal.Shortest

/-!
# Written numbers

* `Style.write` : the shortest decimal that reads back, in one of two styles. `json` keeps a point
  and turns to exponents for small and large numbers, `plain` does neither;
* `fixed` : a number with a fixed count of places;
* `padStart`, `padEnd` : a text filled up with spaces.
-/

namespace SourceLikeness.Decimal

/-! ## Padding -/

def padStart (width : Nat) (text : String) : String :=
  String.ofList (List.replicate (width - text.length) ' ') ++ text

/-- The text with spaces behind it, up to a width. -/
def padEnd (width : Nat) (text : String) : String :=
  text ++ String.ofList (List.replicate (width - text.length) ' ')

/-! ## Shortest decimals -/

/-- How the shortest decimal of a number is written. -/
structure Style where
  tie : Tie
  /-- The places of the point for which no exponent is written. -/
  positional : Int → Bool
  /-- Whether a whole number keeps a point and a zero. -/
  keepsPoint : Bool
  nan : String
  infinity : String
  minusInfinity : String

/-- Numbers in JSON: positional from 10^-5 up to, but not including, 10^16. -/
def json : Style where
  tie := .toEven
  positional point := -4 ≤ point && point ≤ 16
  keepsPoint := true
  nan := "null"
  infinity := "null"
  minusInfinity := "null"

/-- Numbers in messages: always positional. -/
def plain : Style where
  tie := .up
  positional _ := true
  keepsPoint := false
  nan := "NaN"
  infinity := "inf"
  minusInfinity := "-inf"

namespace Style

/-- A decimal without an exponent. -/
def positionally (s : Style) (d : Digits) : List Char :=
  let zeros (n : Int) : List Char := List.replicate n.toNat '0'
  let whole := if d.point ≤ 0 then ['0'] else
    d.digits.take d.point.toNat ++ zeros (d.point - d.digits.length)
  let fraction := zeros (min (-d.point) (if d.digits = [] then 0 else -d.point)) ++
    d.digits.drop d.point.toNat
  if fraction ≠ [] then whole ++ ['.'] ++ fraction
  else if s.keepsPoint then whole ++ ['.', '0'] else whole

/-- A decimal with one digit before its point and an exponent. -/
def scientifically (d : Digits) : List Char :=
  let exponent := d.point - 1
  let sign := if exponent < 0 then ['-'] else ['+']
  let fraction := d.digits.drop 1
  d.digits.take 1 ++ (if fraction = [] then [] else '.' :: fraction) ++ ['e'] ++ sign ++
    Nat.toDigits 10 exponent.natAbs

/-- The shortest decimal that reads back as a number. -/
def write (s : Style) (x : Float) : String :=
  match Real.ofFloat x with
  | .nan => s.nan
  | .infinite negative => if negative then s.minusInfinity else s.infinity
  | .finite negative mantissa exponent =>
    let d := shortest s.tie mantissa exponent
    let text := if d.digits = [] || s.positional d.point then s.positionally d else scientifically d
    String.ofList (if negative then '-' :: text else text)

end Style

/-! ## Fixed places -/

/-- A whole number of units of `10 ^ -places` with its point. -/
def withPlaces (places count : Nat) : List Char :=
  let whole := Nat.toDigits 10 (count / tenTo places)
  let fraction := Nat.toDigits 10 (count % tenTo places)
  whole ++ ['.'] ++ List.replicate (places - fraction.length) '0' ++ fraction

/-- The exact value of a number rounded to some places. A tie goes to the even neighbour. -/
def fixed (places : Nat) (x : Float) : String :=
  match Real.ofFloat x with
  | .nan => "NaN"
  | .infinite negative => if negative then "-inf" else "inf"
  | .finite negative mantissa exponent =>
    let count := roundDiv .toEven (numerator mantissa exponent * tenTo places) (denominator exponent)
    let text := withPlaces places count
    String.ofList (if negative then '-' :: text else text)

end SourceLikeness.Decimal
