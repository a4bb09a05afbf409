import SourceLikeness.Decimal.Ratio

/-!
# Shortest decimals

The fewest decimal digits that read back as a given double.

A double is what all numbers of an interval around it read back as. For 1, 2, … 17 digits the two
neighbours of the double on the grid of that many digits are tested against the interval, and the
first grid with a hit gives the digits. Of two hits the nearer one is taken.
-/

namespace SourceLikeness.Decimal

/-- A decimal without its sign: `0.d₁d₂… * 10 ^ point`, the first and the last digit not being 0. -/
structure Digits where
  digits : List Char
  point : Int
deriving DecidableEq, Repr

/-- The numbers that read back as one double, as numerators over a common denominator. -/
structure Interval where
  low : Nat
  value : Nat
  high : Nat
  denominator : Nat
  /-- Whether the ends belong to it. -/
  closed : Bool
deriving DecidableEq, Repr

namespace Interval

/-- The interval of `mantissa * 2 ^ (exponent - 1074)`. Below a power of two the doubles lie twice as
close. -/
def around (mantissa exponent : Nat) : Interval :=
  let unit := numerator 1 exponent
  let below := if mantissa = twoTo 52 && 0 < exponent then 1 else 2
  { low := (4 * mantissa - below) * unit
    value := 4 * mantissa * unit
    high := (4 * mantissa + 2) * unit
    denominator := 4 * Decimal.denominator exponent
    closed := mantissa % 2 == 0 }

def holds (i : Interval) (n d : Nat) : Bool :=
  let scaled := n * i.denominator
  if i.closed then i.low * d ≤ scaled && scaled ≤ i.high * d
  else i.low * d < scaled && scaled < i.high * d

end Interval

/-- The power of ten above a ratio less than 1, as the number of zeros behind its point. At most
`fuel` zeros are looked for. -/
def leadingZeros (n d : Nat) : Nat → Nat
  | 0 => 0
  | fuel + 1 => if d ≤ 10 * n then 0 else leadingZeros (10 * n) d fuel + 1

/-- The exponent `p` with `10 ^ (p - 1) ≤ n / d < 10 ^ p`. -/
def magnitude (n d : Nat) : Int :=
  if d ≤ n then (Nat.toDigits 10 (n / d)).length else -(leadingZeros n d 400 : Int)

/-- The digit that a list of digits stands for without its trailing zeros. -/
def withoutTrailingZeros (digits : List Char) : List Char :=
  (digits.reverse.dropWhile (· == '0')).reverse

/-- The decimal with a whole number of units `10 ^ unit`. -/
def digitsOf (count : Nat) (unit : Int) : Digits :=
  let digits := Nat.toDigits 10 count
  ⟨withoutTrailingZeros digits, unit + digits.length⟩

/-- The neighbour on the grid of `10 ^ unit` that reads back, if one does. -/
def onGrid (tie : Tie) (i : Interval) (unit : Int) : Option Digits :=
  let n := i.value * tenTo (-unit).toNat
  let d := i.denominator * tenTo unit.toNat
  let floor := n / d
  let reads (count : Nat) := i.holds (count * tenTo unit.toNat) (tenTo (-unit).toNat)
  match reads floor, reads (floor + 1) with
  | true, true => some (digitsOf (roundDiv tie n d) unit)
  | true, false => some (digitsOf floor unit)
  | false, true => some (digitsOf (floor + 1) unit)
  | false, false => none

/-- The first grid with a hit, from that of `count` digits on. -/
def firstGrid (tie : Tie) (i : Interval) (top : Int) (count : Nat) : Nat → Digits
  | 0 => ⟨[], 0⟩
  | fuel + 1 =>
    match onGrid tie i (top - count) with
    | some digits => digits
    | none => firstGrid tie i top (count + 1) fuel

/-- The fewest digits that read back as `mantissa * 2 ^ (exponent - 1074)`. -/
def shortest (tie : Tie) (mantissa exponent : Nat) : Digits :=
  if mantissa = 0 then ⟨[], 0⟩
  else
    let i := Interval.around mantissa exponent
    firstGrid tie i (magnitude i.value i.denominator) 1 17

end SourceLikeness.Decimal
