/-!
# Ratios, rounding and doubles

The exact value of a double is a ratio of two whole numbers, and the double next to a ratio is found
in whole numbers.

* `twoTo`, `tenTo` : powers;
* `roundDiv` : a quotient rounded to a whole number, a tie going as asked;
* `Real` : a sign and `mantissa * 2 ^ (exponent - 1074)`, if it is finite; `Real.ofFloat` takes a double apart;
* `nearestFloat` : the double next to a ratio. A tie goes to the even mantissa.
-/

namespace SourceLikeness.Decimal

abbrev twoTo (n : Nat) : Nat := Nat.pow 2 n

abbrev tenTo (n : Nat) : Nat := Nat.pow 10 n

/-! ## Rounding -/

/-- Which of two neighbours a value in the middle goes to. -/
inductive Tie where
  | toEven
  | up
deriving DecidableEq, Repr

/-- Whether a remainder rounds up, given twice the remainder, the divisor and the floor. -/
def Tie.roundsUp (tie : Tie) (twice divisor floor : Nat) : Bool :=
  if twice < divisor then false
  else if divisor < twice then true
  else match tie with
    | toEven => floor % 2 == 1
    | up => true

/-- The quotient rounded to the whole number next to it. -/
def roundDiv (tie : Tie) (n d : Nat) : Nat :=
  let floor := n / d
  if tie.roundsUp (2 * (n % d)) d floor then floor + 1 else floor

/-! ## Taking a double apart -/

/-- What a double stands for. A finite one is `mantissa * 2 ^ (exponent - 1074)` with its sign. -/
inductive Real where
  | nan
  | infinite (negative : Bool)
  | finite (negative : Bool) (mantissa exponent : Nat)
deriving DecidableEq, Repr

def Real.ofBits (bits : Nat) : Real :=
  let negative := bits / twoTo 63 % 2 == 1
  let exponent := bits / twoTo 52 % twoTo 11
  let fraction := bits % twoTo 52
  if exponent = 2047 then (if fraction = 0 then .infinite negative else .nan)
  else if exponent = 0 then .finite negative fraction 0
  else .finite negative (twoTo 52 + fraction) (exponent - 1)

def Real.ofFloat (x : Float) : Real := .ofBits x.toBits.toNat

/-- The numerator of `mantissa * 2 ^ (exponent - 1074)`. -/
def numerator (mantissa exponent : Nat) : Nat := mantissa * twoTo (exponent - 1074)

/-- The denominator of `mantissa * 2 ^ (exponent - 1074)`. -/
def denominator (exponent : Nat) : Nat := twoTo (1074 - exponent)

/-! ## The double next to a ratio -/

/-- The exponent at which the mantissa of `n / d` has 53 bits, or the least exponent. -/
def scale (n d : Nat) : Nat :=
  let whole := n * twoTo 1074 / d
  whole.log2 - 52

/-- The bits of the double next to `n / d`. -/
def nearestBits (n d : Nat) : Nat :=
  let exponent := scale n d
  let mantissa := roundDiv .toEven (n * twoTo 1074) (d * twoTo exponent)
  -- a mantissa without its leading bit is that of the least exponent; the carry of a mantissa that
  -- was rounded up to 54 bits goes into the exponent
  let bits := exponent * twoTo 52 + mantissa
  if bits < 2047 * twoTo 52 then bits else 2047 * twoTo 52

def nearestFloat (negative : Bool) (n d : Nat) : Float :=
  Float.ofBits (UInt64.ofNat ((if negative then twoTo 63 else 0) + nearestBits n d))

end SourceLikeness.Decimal
