import SourceLikeness.Decimal.Reader
import SourceLikeness.Toml.Basic

/-!
# TOML numbers, dates and times

Whole numbers of 64 bits to four bases, other numbers, dates, times and both together. An underscore
may stand between two digits.
-/

namespace SourceLikeness.Toml

/-! ## Digits -/

/-- The longest run of digits at the start of a text, without the underscores between them. -/
def digitRun (isDigit : Char → Bool) : List Char → List Char × List Char
  | '_' :: c :: rest =>
    if isDigit c then
      let (digits, behind) := digitRun isDigit rest
      (c :: digits, behind)
    else ([], '_' :: c :: rest)
  | c :: rest =>
    if isDigit c then
      let (digits, behind) := digitRun isDigit rest
      (c :: digits, behind)
    else ([], c :: rest)
  | [] => ([], [])

/-- A run of digits that does not begin with an underscore. -/
def readDigits (isDigit : Char → Bool) (text : List Char) : Reads (List Char) :=
  match text with
  | c :: _ => if isDigit c then some (digitRun isDigit text) else none
  | [] => none

/-- A sign, if there is one. -/
def readSign : List Char → List Char × List Char
  | '+' :: rest => (['+'], rest)
  | '-' :: rest => (['-'], rest)
  | text => ([], text)

/-- The digits of a whole number to base 10. They begin with 0 only if that is all. -/
def readWhole (text : List Char) : Reads (List Char) :=
  match text with
  | '0' :: rest => some (['0'], rest)
  | _ => readDigits Char.isDigit text

/-! ## Whole numbers -/

def valueOf (base : Nat) (digits : List Char) : Nat :=
  digits.foldl
    (fun n c => base * n + (if c.isDigit then c.toNat - '0'.toNat else c.toLower.toNat - 'a'.toNat + 10))
    0

/-- A whole number to a base that is no sign and not above 2^63 - 1. -/
def readBase (base : Nat) (isDigit : Char → Bool) (text : List Char) : Reads Toml :=
  (readDigits isDigit text).bind fun (digits, rest) =>
    let n := valueOf base digits
    if n < Decimal.twoTo 63 then some (.integer n, rest) else none

/-- A digit to base 16. -/
def isHexDigit (c : Char) : Bool := c.isDigit || ('a' ≤ c && c ≤ 'f') || ('A' ≤ c && c ≤ 'F')

def readInteger : List Char → Reads Toml
  | '0' :: 'x' :: rest => readBase 16 isHexDigit rest
  | '0' :: 'o' :: rest => readBase 8 (fun c => '0' ≤ c && c ≤ '7') rest
  | '0' :: 'b' :: rest => readBase 2 (fun c => c == '0' || c == '1') rest
  | text =>
    let (sign, behind) := readSign text
    (readWhole behind).bind fun (digits, rest) =>
      (Decimal.readInt? (sign ++ digits)).map fun n => (.integer n, rest)

/-! ## Other numbers -/

def readExponent : List Char → Reads (List Char)
  | [] => none
  | c :: text =>
    if c = 'e' || c = 'E' then
      let (sign, behind) := readSign text
      (readDigits Char.isDigit behind).map fun (digits, rest) => ('e' :: sign ++ digits, rest)
    else none

/-- A point and the digits behind it. -/
def readFraction : List Char → Reads (List Char)
  | '.' :: text => (readDigits Char.isDigit text).map fun (digits, rest) => ('.' :: digits, rest)
  | _ => none

/-- What makes a number no whole one: an exponent, or a fraction with or without one. -/
def readTail (text : List Char) : Reads (List Char) :=
  match readFraction text with
  | some (fraction, rest) =>
    match readExponent rest with
    | some (exponent, rest) => some (fraction ++ exponent, rest)
    | none => some (fraction, rest)
  | none => readExponent text

/-- A number with a fraction or an exponent that is not too large. -/
def readFinite (text : List Char) : Reads Toml :=
  let (sign, behind) := readSign text
  (readWhole behind).bind fun (digits, behind) =>
    (readTail behind).bind fun (tail, rest) =>
      (Decimal.readFloat? (sign ++ digits ++ tail)).bind fun x =>
        if x.isInf && 0 < x then none else some (.float x, rest)

/-- A word for what is not finite or no number, with or without a sign. -/
def readSpecial (text : List Char) : Reads Toml :=
  let (sign, behind) := readSign text
  match skipWord? "inf".toList behind, skipWord? "nan".toList behind with
  | some rest, _ => (Decimal.readFloat? (sign ++ "inf".toList)).map fun x => (.float x, rest)
  | none, some rest => some (.float (0 / 0), rest)
  | none, none => none

/-! ## Dates and times -/

def readFixed (n : Nat) (text : List Char) : Reads Nat :=
  if (text.take n).length = n && (text.take n).all Char.isDigit then
    some (Decimal.digitsValue (text.take n), text.drop n)
  else none

def readTwo (low high : Nat) (text : List Char) : Reads Nat :=
  (readFixed 2 text).filter fun r => low ≤ r.1 && r.1 ≤ high

def daysOf (year month : Nat) : Nat :=
  if month = 2 then
    if year % 4 = 0 && (year % 100 ≠ 0 || year % 400 = 0) then 29 else 28
  else if month ∈ [4, 6, 9, 11] then 30
  else 31

/-- The text behind a date. -/
def skipDate? (text : List Char) : Option (List Char) := do
  let (year, text) ← readFixed 4 text
  let text ← skipChar? '-' text
  let (month, text) ← readTwo 1 12 text
  let text ← skipChar? '-' text
  let (_, text) ← readTwo 1 (daysOf year month) text
  return text

/-- The text behind the fraction of a second, if there is one. -/
def skipFraction : List Char → List Char
  | '.' :: c :: rest => if c.isDigit then rest.dropWhile Char.isDigit else '.' :: c :: rest
  | text => text

/-- The text behind a time. -/
def skipTime? (text : List Char) : Option (List Char) := do
  let (_, text) ← readTwo 0 23 text
  let text ← skipChar? ':' text
  let (_, text) ← readTwo 0 59 text
  let text ← skipChar? ':' text
  let (_, text) ← readTwo 0 60 text
  return skipFraction text

/-- The text behind the offset of a time. -/
def skipOffset? : List Char → Option (List Char)
  | [] => none
  | c :: text =>
    if c = 'Z' || c = 'z' then some text
    else if c = '+' || c = '-' then do
      let (_, text) ← readTwo 0 23 text
      let text ← skipChar? ':' text
      let (_, text) ← readTwo 0 59 text
      return text
    else none

/-- The text behind a time and what parts it from a date. -/
def skipDayTime? : List Char → Option (List Char)
  | [] => none
  | c :: text =>
    if c ∈ ['T', 't', ' '] then (skipTime? text).map fun text => (skipOffset? text).getD text else none

def readMoment (text : List Char) : Reads Toml :=
  match skipDate? text with
  | some text => some (.moment, (skipDayTime? text).getD text)
  | none => (skipTime? text).map fun text => (.moment, text)

/-- A date, a time or a number. What reads as several of them reads as the first of them. -/
def readNumber (text : List Char) : Reads Toml :=
  readMoment text <|> readFinite text <|> readSpecial text <|> readInteger text

end SourceLikeness.Toml
