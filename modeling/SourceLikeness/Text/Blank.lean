/-!
# Blank characters, trimming and lines

* `isBlank` : the Unicode property `White_Space`; `isControl` : the category `Cc`;
* `isLayout` : the five ASCII characters that may stand between two statements;
* `trim` : a text without the blanks at its two ends;
* `pieces` : a text cut at separators; `words` : the runs of characters that are not blank;
* `lines` : a text cut at its newlines.
-/

namespace SourceLikeness.Text

/-- The Unicode property `White_Space`. -/
def isBlank (c : Char) : Bool :=
  let n := c.toNat
  (9 ≤ n && n ≤ 13) || n == 0x20 || n == 0x85 || n == 0xA0 || n == 0x1680 ||
    (0x2000 ≤ n && n ≤ 0x200A) || n == 0x2028 || n == 0x2029 || n == 0x202F || n == 0x205F ||
    n == 0x3000

/-- The Unicode category `Cc`. -/
def isControl (c : Char) : Bool :=
  let n := c.toNat
  n < 0x20 || (0x7F ≤ n && n ≤ 0x9F)

/-- Space, tab, newline, form feed and carriage return. The vertical tab is not among them. -/
def isLayout (c : Char) : Bool :=
  c == ' ' || c == '\t' || c == '\n' || c == '\x0c' || c == '\r'

/-! ## Trimming -/

/-- The text from its first character that is not blank. -/
def trimStart (text : List Char) : List Char := text.dropWhile isBlank

/-- The text up to its last character that is not blank. -/
def trimEnd (text : List Char) : List Char := (trimStart text.reverse).reverse

/-- The text without the blanks at its two ends. -/
def trim (text : List Char) : List Char := trimEnd (trimStart text)

/-! ## Words and lines -/

/-- Puts a character in front of the first piece, which it opens if there is none. -/
def joinFirst (c : Char) : List (List Char) → List (List Char)
  | [] => [[c]]
  | piece :: pieces => (c :: piece) :: pieces

/-- The pieces between separators, those of no characters included. -/
def pieces (separates : Char → Bool) : List Char → List (List Char)
  | [] => [[]]
  | c :: rest =>
    if separates c then [] :: pieces separates rest else joinFirst c (pieces separates rest)

/-- The maximal runs of characters that are not blank. -/
def words (text : List Char) : List (List Char) := (pieces isBlank text).filter (· ≠ [])

/-- The lines of a text. A newline ends a line, and so does a carriage return directly before one;
the text after the last newline is a line if it is not empty. -/
def lines : List Char → List (List Char)
  | [] => []
  | '\n' :: rest => [] :: lines rest
  | '\r' :: '\n' :: rest => [] :: lines rest
  | c :: rest => joinFirst c (lines rest)

end SourceLikeness.Text
