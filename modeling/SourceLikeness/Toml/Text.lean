import SourceLikeness.Toml.Basic

/-!
# TOML texts

The four forms of a text: between double quotes with escapes or between apostrophes without, each on
one line or between three quotes on several. A text of several lines may end in up to two quotes of
its own, and a line break directly behind its opening quotes does not belong to it.
-/

namespace SourceLikeness.Toml

/-! ## Escapes -/

/-- The value of a digit to base 16. -/
def hexDigit? (c : Char) : Option Nat :=
  if '0' ≤ c && c ≤ '9' then some (c.toNat - '0'.toNat)
  else if 'a' ≤ c && c ≤ 'f' then some (c.toNat - 'a'.toNat + 10)
  else if 'A' ≤ c && c ≤ 'F' then some (c.toNat - 'A'.toNat + 10)
  else none

/-- The value of some digits to base 16, behind a value that is there already. -/
def hexValue? (n : Nat) : List Char → Option Nat
  | [] => some n
  | c :: rest => (hexDigit? c).bind fun d => hexValue? (16 * n + d) rest

/-- The character of a code point that is written to base 16. -/
def codePoint? (digits : List Char) : Option Char :=
  (hexValue? 0 digits).bind fun n => if n.isValidChar then some (Char.ofNat n) else none

/-- The character that a letter behind a backslash stands for. -/
def escape? (c : Char) : Option Char :=
  if c = '"' || c = '\\' then some c
  else if c = 'b' then some '\x08'
  else if c = 't' then some '\t'
  else if c = 'n' then some '\n'
  else if c = 'f' then some '\x0c'
  else if c = 'r' then some '\r'
  else none

/-! ## One line -/

def readBasic : List Char → Reads (List Char)
  | [] => none
  | '"' :: rest => some ([], rest)
  | '\\' :: 'u' :: a :: b :: c :: d :: rest =>
    (codePoint? [a, b, c, d]).bind fun x => consRead x (readBasic rest)
  | '\\' :: 'U' :: a :: b :: c :: d :: e :: f :: g :: h :: rest =>
    (codePoint? [a, b, c, d, e, f, g, h]).bind fun x => consRead x (readBasic rest)
  | '\\' :: c :: rest => (escape? c).bind fun x => consRead x (readBasic rest)
  | c :: rest => if isPlain c && c ≠ '\\' then consRead c (readBasic rest) else none

def readLiteral : List Char → Reads (List Char)
  | [] => none
  | '\'' :: rest => some ([], rest)
  | c :: rest => if isPlain c then consRead c (readLiteral rest) else none

/-! ## Several lines -/

/-- The end of a text of several lines, behind its first three closing quotes: quotes that follow at
once belong to the text, two of them at most. -/
def closeLines (quote : Char) (rest : List Char) : List Char × List Char :=
  let own := (rest.takeWhile (· == quote)).take 2
  (own, rest.drop own.length)

/-- Whether nothing but gaps stands before the next line break. -/
def lineIsOver (text : List Char) : Bool := (skipNewline? (skipGap text)).isSome

/-- The rest of a text between double quotes on several lines. While `skipping`, gaps and line breaks
are passed over, as they are behind a backslash at the end of a line. -/
def readBasicLines (skipping : Bool) : List Char → Reads (List Char)
  | [] => none
  | '"' :: '"' :: '"' :: rest => some (closeLines '"' rest)
  | '\r' :: '\n' :: rest =>
    if skipping then readBasicLines true rest else consRead '\n' (readBasicLines false rest)
  | '\\' :: 'u' :: a :: b :: c :: d :: rest =>
    (codePoint? [a, b, c, d]).bind fun x => consRead x (readBasicLines false rest)
  | '\\' :: 'U' :: a :: b :: c :: d :: e :: f :: g :: h :: rest =>
    (codePoint? [a, b, c, d, e, f, g, h]).bind fun x => consRead x (readBasicLines false rest)
  | '\\' :: c :: rest =>
    if lineIsOver (c :: rest) then readBasicLines true (c :: rest)
    else (escape? c).bind fun x => consRead x (readBasicLines false rest)
  | c :: rest =>
    if skipping && (isGap c || c = '\n') then readBasicLines true rest
    else if (isPlain c && c ≠ '\\') || c = '\n' then consRead c (readBasicLines false rest)
    else none

def readLiteralLines : List Char → Reads (List Char)
  | [] => none
  | '\'' :: '\'' :: '\'' :: rest => some (closeLines '\'' rest)
  | '\r' :: '\n' :: rest => consRead '\n' (readLiteralLines rest)
  | c :: rest => if isPlain c || c = '\n' then consRead c (readLiteralLines rest) else none

/-- The text behind a line break, if it starts with one. -/
def dropNewline (text : List Char) : List Char := (skipNewline? text).getD text

def readText : List Char → Reads (List Char)
  | '"' :: '"' :: '"' :: rest => readBasicLines false (dropNewline rest)
  | '\'' :: '\'' :: '\'' :: rest => readLiteralLines (dropNewline rest)
  | '"' :: rest => readBasic rest
  | '\'' :: rest => readLiteral rest
  | _ => none

end SourceLikeness.Toml
