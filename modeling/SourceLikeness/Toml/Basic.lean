/-!
# TOML values

* `Toml` : the values of a document;
* `Toml.Reads` : what reading a piece of a document gives, a value and the text behind it;
* `isPlain`, `isGap`, `skipGap`, `skipNewline?`, `skipLineEnd?`, `skipTrivia?` : characters and what
  stands between values.
-/

namespace SourceLikeness

/-- A TOML value. A date or a time is only known to be one. -/
inductive Toml where
  | string (value : String)
  | integer (value : Int)
  | float (value : Float)
  | boolean (value : Bool)
  | moment
  | array (entries : List Toml)
  | table (entries : List (String × Toml))

namespace Toml

/-- A value that was read and the text behind it, or nothing if there is none. -/
abbrev Reads (α : Type) := Option (α × List Char)

/-- A character that may stand in a comment: a tab, or anything but a control character. -/
def isPlain (c : Char) : Bool := c == '\t' || (0x20 ≤ c.toNat && c.toNat ≠ 0x7F)

def isGap (c : Char) : Bool := c == ' ' || c == '\t'

/-- The text behind any spaces and tabs. -/
def skipGap (text : List Char) : List Char := text.dropWhile isGap

/-- The text behind a line break. -/
def skipNewline? : List Char → Option (List Char)
  | '\n' :: rest => some rest
  | '\r' :: '\n' :: rest => some rest
  | _ => none

/-- The text behind the end of a line, before which a comment may stand. -/
def skipLineEnd? (text : List Char) : Option (List Char) :=
  let rest := match skipGap text with
    | '#' :: rest => rest.dropWhile isPlain
    | rest => rest
  if rest = [] then some [] else skipNewline? rest

/-- The text behind any gaps, line breaks and comments. -/
def skipTrivia? (inComment : Bool) : List Char → Option (List Char)
  | [] => some []
  | c :: rest =>
    if c = '\n' then skipTrivia? false rest
    else if c = '\r' then if rest.head? = some '\n' then skipTrivia? false rest else none
    else if inComment then if isPlain c then skipTrivia? true rest else none
    else if isGap c then skipTrivia? false rest
    else if c = '#' then skipTrivia? true rest
    else some (c :: rest)

/-- The text behind a given character. -/
def skipChar? (c : Char) : List Char → Option (List Char)
  | [] => none
  | d :: rest => if d = c then some rest else none

/-- The text behind a given word. -/
def skipWord? (word : List Char) (text : List Char) : Option (List Char) :=
  if word.isPrefixOf text then some (text.drop word.length) else none

/-- The text with a character in front, and what is behind it. -/
def consRead (c : Char) (r : Reads (List Char)) : Reads (List Char) := r.map fun (text, rest) => (c :: text, rest)

end Toml
end SourceLikeness
