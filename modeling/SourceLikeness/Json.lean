import SourceLikeness.Decimal.Written

/-!
# JSON

Values whose records keep the order of their keys, and how they are written over several lines.

* `Json` : the values;
* `Json.quoted` : a text between quotes;
* `Json.pretty` : a value with one entry a line, indented by two spaces a level.
-/

namespace SourceLikeness

/-- A JSON value. -/
inductive Json where
  | null
  | bool (value : Bool)
  | count (value : Nat)
  | number (value : Float)
  | text (value : String)
  | list (entries : List Json)
  | record (entries : List (String × Json))

namespace Json

/-- A digit of a number to base 16. -/
def hexDigit (n : Nat) : Char := Nat.digitChar (n % 16)

def escaped (c : Char) : List Char :=
  if c = '"' then ['\\', '"']
  else if c = '\\' then ['\\', '\\']
  else if c = '\x08' then ['\\', 'b']
  else if c = '\x0c' then ['\\', 'f']
  else if c = '\n' then ['\\', 'n']
  else if c = '\r' then ['\\', 'r']
  else if c = '\t' then ['\\', 't']
  else if c.toNat < 0x20 then ['\\', 'u', '0', '0', hexDigit (c.toNat / 16), hexDigit c.toNat]
  else [c]

def quoted (text : String) : List Char := '"' :: text.toList.flatMap escaped ++ ['"']

/-- A line break and the indentation of a level. -/
def newline (level : Nat) : List Char := '\n' :: List.replicate (2 * level) ' '

mutual

def write (level : Nat) : Json → List Char
  | null => "null".toList
  | bool value => (if value then "true" else "false").toList
  | count value => Nat.toDigits 10 value
  | number value => (Decimal.json.write value).toList
  | text value => quoted value
  | list [] => ['[', ']']
  | list (entry :: rest) =>
    '[' :: newline (level + 1) ++ write (level + 1) entry ++ writeEntries (level + 1) rest ++
      newline level ++ [']']
  | record [] => ['\x7b', '\x7d']
  | record (entry :: rest) =>
    '\x7b' :: newline (level + 1) ++ writeNamed (level + 1) entry ++ writeRecord (level + 1) rest ++
      newline level ++ ['\x7d']
termination_by structural value => value

/-- The entries of a list behind the first. -/
def writeEntries (level : Nat) : List Json → List Char
  | [] => []
  | entry :: rest => ',' :: newline level ++ write level entry ++ writeEntries level rest
termination_by structural entries => entries

def writeNamed (level : Nat) : String × Json → List Char
  | (name, value) => quoted name ++ [':', ' '] ++ write level value
termination_by structural entry => entry

/-- The entries of a record behind the first. -/
def writeRecord (level : Nat) : List (String × Json) → List Char
  | [] => []
  | entry :: rest => ',' :: newline level ++ writeNamed level entry ++ writeRecord level rest
termination_by structural entries => entries

end

def pretty (value : Json) : String := String.ofList (write 0 value)

def ofOption {α : Type} (f : α → Json) : Option α → Json
  | none => null
  | some x => f x

end Json
end SourceLikeness
