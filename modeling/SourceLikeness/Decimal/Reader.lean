import SourceLikeness.Decimal.Ratio

/-!
# Reading numbers

* `readInt?` : a whole number of 64 bits with a sign;
* `readFloat?` : a decimal with a sign, a point and an exponent, or a word for what is no number or
  not finite. The double next to its exact value is taken.
-/

namespace SourceLikeness.Decimal

/-- Takes a sign off a text. A minus sign gives `true`. -/
def takeSign : List Char → Bool × List Char
  | '-' :: rest => (true, rest)
  | '+' :: rest => (false, rest)
  | text => (false, text)

/-- The number that some digits stand for, behind a number that is there already. -/
def digitsValue (text : List Char) : Nat :=
  text.foldl (fun n c => 10 * n + (c.toNat - '0'.toNat)) 0

/-- A number without a sign. -/
def readNat? (text : List Char) : Option Nat :=
  if text ≠ [] && text.all Char.isDigit then some (digitsValue text) else none

/-- A whole number between -2^63 and 2^63 - 1. -/
def readInt? (text : List Char) : Option Int :=
  let (negative, digits) := takeSign text
  (readNat? digits).bind fun n =>
    if negative then (if n ≤ twoTo 63 then some (-n) else none)
    else if n < twoTo 63 then some n else none

/-- An exponent with its mark, if there is one. Nothing may follow it. -/
def readExponent? : List Char → Option Int
  | [] => some 0
  | c :: rest =>
    if c = 'e' || c = 'E' then
      let (negative, digits) := takeSign rest
      (readNat? digits).map fun n => if negative then -(n : Int) else n
    else none

/-- The double next to `mantissa * 10 ^ exponent`. Where the exponent decides alone, the power is
not computed. -/
def scaled (negative : Bool) (mantissa : Nat) (exponent : Int) : Float :=
  let reach := exponent + (Nat.toDigits 10 mantissa).length
  if mantissa = 0 || reach < -400 then nearestFloat negative 0 1
  else if 400 < reach then nearestFloat negative (twoTo 1024) 1
  else nearestFloat negative (mantissa * tenTo exponent.toNat) (tenTo (-exponent).toNat)

/-- A decimal without a sign: digits with or without a point among them, then an exponent. -/
def readUnsigned? (negative : Bool) (text : List Char) : Option Float :=
  let whole := text.takeWhile Char.isDigit
  let behind := text.dropWhile Char.isDigit
  let (fraction, behind) := match behind with
    | '.' :: rest => (rest.takeWhile Char.isDigit, rest.dropWhile Char.isDigit)
    | _ => ([], behind)
  if whole = [] && fraction = [] then none
  else (readExponent? behind).map fun e =>
    scaled negative (digitsValue (whole ++ fraction)) (e - fraction.length)

/-- A number with a sign, or a word. Words are read in any case. -/
def readFloat? (text : List Char) : Option Float :=
  let (negative, rest) := takeSign text
  let word := String.ofList (rest.map Char.toLower)
  if word = "inf" || word = "infinity" then some (nearestFloat negative (twoTo 1024) 1)
  else if word = "nan" then some (0 / 0)
  else readUnsigned? negative rest

end SourceLikeness.Decimal
