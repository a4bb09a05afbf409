import SourceLikeness.Toml.Number
import SourceLikeness.Toml.Text

/-!
# TOML documents

A document is a list of sections, each with entries `key = value`. A key may have several parts, of
which all but the last are names of tables.

* `Item` : an entry while the document is read. A table remembers how it came about, which decides
  what may still be added to it;
* `readValue` : a value, nested less than `maxDepth` deep;
* `read?` : a document.
-/

namespace SourceLikeness.Toml

/-! ## Items -/

/-- How a table came about: by a header of its own, by a header of a table below it, or by a key of
several parts. -/
inductive Origin where
  | header
  | implied
  | dotted
deriving DecidableEq, Repr

/-- An entry while its document is read. -/
inductive Item where
  | value (v : Toml)
  | table (origin : Origin) (entries : List (String × Item))
  | tables (list : List (List (String × Item)))

abbrev Entries := List (String × Item)

/-- The entries with one of them changed. A new one comes last. -/
def update? (name : String) (f : Option Item → Option Item) : Entries → Option Entries
  | [] => (f none).map fun item => [(name, item)]
  | (other, item) :: rest =>
    if other = name then (f (some item)).map fun item => (other, item) :: rest
    else (update? name f rest).map ((other, item) :: ·)

/-- The list with its last entry changed, if there is one. -/
def updateLast? {α : Type} (f : α → Option α) : List α → Option (List α)
  | [] => none
  | [x] => (f x).map fun x => [x]
  | x :: rest => (updateLast? f rest).map (x :: ·)

/-- Puts a value under a key. Tables that the key names and that are not there are made. The table
that holds the value must have been made by such a key itself, if the key has several parts; a table
with a header is never reached. -/
def put? (key : String) (v : Toml) (mayHold : Bool) : List String → Entries → Option Entries
  | [], entries =>
    if mayHold && entries.all (·.1 ≠ key) then some (entries ++ [(key, .value v)]) else none
  | name :: path, entries => update? name (fun
      | none => (put? key v true path []).map (.table .dotted)
      | some (.table .dotted below) => (put? key v true path below).map (.table .dotted)
      | some (.table .implied below) => (put? key v false path below).map (.table .implied)
      | some (.tables list) => (updateLast? (put? key v false path) list).map .tables
      | _ => none) entries

/-- Changes the entries of the table that a path leads to. Tables that are not there are made. -/
def within? (f : Entries → Option Entries) : List String → Entries → Option Entries
  | [], entries => f entries
  | name :: path, entries => update? name (fun
      | none => (within? f path []).map (.table .implied)
      | some (.table origin below) => (within? f path below).map (.table origin)
      | some (.tables list) => (updateLast? (within? f path) list).map .tables
      | some (.value _) => none) entries

mutual

def Item.toValue : Item → Toml
  | .value v => v
  | .table _ entries => .table (entryValues entries)
  | .tables list => .array (tableValues list)
termination_by structural item => item

def entryValues : List (String × Item) → List (String × Toml)
  | [] => []
  | entry :: rest => namedValue entry :: entryValues rest
termination_by structural entries => entries

def namedValue : String × Item → String × Toml
  | (name, item) => (name, item.toValue)
termination_by structural entry => entry

def tableValues : List (List (String × Item)) → List Toml
  | [] => []
  | entries :: rest => .table (entryValues entries) :: tableValues rest
termination_by structural list => list

end

/-! ## Keys -/

/-- Values are nested less deep than this, and keys have fewer parts. -/
def maxDepth : Nat := 80

/-- A character of a key without quotes. -/
def isBare (c : Char) : Bool := c.isAlphanum || c == '_' || c == '-'

def readPart : List Char → Reads (List Char)
  | '"' :: rest => readBasic rest
  | '\'' :: rest => readLiteral rest
  | text => if text.takeWhile isBare = [] then none else some (text.takeWhile isBare, text.dropWhile isBare)

/-- A part of a key without the gaps around it. -/
def readSpacedPart (text : List Char) : Reads String :=
  (readPart (skipGap text)).map fun (part, rest) => (String.ofList part, skipGap rest)

/-- The parts of a key, `n` at most. -/
def readParts : Nat → List Char → Reads (List String)
  | 0, _ => none
  | n + 1, text =>
    (readSpacedPart text).bind fun (part, rest) =>
      match rest with
      | '.' :: rest => (readParts n rest).map fun (parts, rest) => (part :: parts, rest)
      | _ => some ([part], rest)

/-- A key as the path to a table and the name of an entry in it. -/
def readKey (text : List Char) : Reads (List String × String) :=
  (readParts (maxDepth - 1) text).bind fun (parts, rest) =>
    parts.getLast?.map fun last => ((parts.dropLast, last), rest)

/-! ## Values -/

mutual

/-- A value inside of `depth` others. A step takes one unit of fuel; two units for each character are
enough. -/
def readValue (depth : Nat) : Nat → List Char → Reads Toml
  | 0, _ => none
  | _ + 1, [] => none
  | fuel + 1, c :: rest =>
    if c = '"' || c = '\'' then
      (readText (c :: rest)).map fun (text, rest) => (.string (String.ofList text), rest)
    else if c = '[' then
      if depth + 1 < maxDepth then readElements (depth + 1) fuel rest else none
    else if c = '\x7b' then
      if depth + 1 < maxDepth then
        match skipChar? '\x7d' (skipGap rest) with
        | some rest => some (.table [], rest)
        | none => readPairs (depth + 1) [] fuel rest
      else none
    else if c = 't' then
      (skipWord? "rue".toList rest).map fun rest => (.boolean true, rest)
    else if c = 'f' then
      (skipWord? "alse".toList rest).map fun rest => (.boolean false, rest)
    else readNumber (c :: rest)

/-- The elements of a list up to its closing bracket. A comma may stand behind the last. -/
def readElements (depth : Nat) : Nat → List Char → Reads Toml
  | 0, _ => none
  | fuel + 1, text =>
    (skipTrivia? false text).bind fun text =>
      match text with
      | ']' :: rest => some (.array [], rest)
      | _ =>
        (readValue depth fuel text).bind fun (v, rest) =>
          (skipTrivia? false rest).bind fun rest =>
            match rest with
            | ']' :: rest => some (.array [v], rest)
            | ',' :: rest =>
              match readElements depth fuel rest with
              | some (.array vs, rest) => some (.array (v :: vs), rest)
              | _ => none
            | _ => none

/-- The entries of a table between braces up to the closing one. -/
def readPairs (depth : Nat) (entries : Entries) : Nat → List Char → Reads Toml
  | 0, _ => none
  | fuel + 1, text =>
    (readKey text).bind fun ((path, key), rest) =>
      (skipChar? '=' rest).bind fun rest =>
        (readValue depth fuel (skipGap rest)).bind fun (v, rest) =>
          (put? key v true path entries).bind fun entries =>
            match skipGap rest with
            | '\x7d' :: rest => some (.table (entryValues entries), rest)
            | ',' :: rest => readPairs depth entries fuel rest
            | _ => none

end

/-! ## Sections -/

/-- A document while it is read: the sections before the present one, where the present one belongs,
and its entries. -/
structure Draft where
  root : Entries
  path : List String
  /-- The name of the present section and whether it is one of a list of tables. The first section
  has no name. -/
  header? : Option (String × Bool)
  entries : Entries

namespace Draft

/-- A document of which nothing was read. -/
def start : Draft := ⟨[], [], none, []⟩

/-- All sections, with the present one put where it belongs. -/
def close? (d : Draft) : Option Entries :=
  match d.header? with
  | none => some d.entries
  | some (name, false) =>
    within? (update? name fun
      | none => some (.table .header d.entries)
      | some _ => none) d.path d.root
  | some (name, true) =>
    within? (update? name fun
      | none => some (.tables [d.entries])
      | some (.tables list) => some (.tables (list ++ [d.entries]))
      | some _ => none) d.path d.root

/-- The entries that a table of some name has before its own section, and the others. Only a table
that a header of another one made may have any. -/
def takeImplied? (name : String) : Entries → Option (Entries × Entries)
  | [] => some ([], [])
  | (other, item) :: rest =>
    if other = name then
      match item with
      | .table .implied below => some (below, rest)
      | _ => none
    else (takeImplied? name rest).map fun (below, rest) => (below, (other, item) :: rest)

/-- The entries of a table that a path leads to, if all of the path is there. -/
def find? : List String → Entries → Option Entries
  | [], entries => some entries
  | name :: path, entries =>
    match entries.lookup name with
    | some (.table _ below) => find? path below
    | some (.tables list) => list.getLast?.bind (find? path)
    | _ => none

def openTable? (d : Draft) (path : List String) (name : String) : Option Draft := do
  let root ← d.close?
  let root ← within? some path root
  let (entries, _) ← (find? path root).bind (takeImplied? name)
  let root ← within? (fun es => (takeImplied? name es).map (·.2)) path root
  return ⟨root, path, some (name, false), entries⟩

def openElement? (d : Draft) (path : List String) (name : String) : Option Draft := do
  let root ← d.close?
  let root ← within? (update? name fun
    | none => some (.tables [])
    | some (.tables list) => some (.tables list)
    | some _ => none) path root
  return ⟨root, path, some (name, true), []⟩

end Draft

def readHeader (d : Draft) : List Char → Option (Draft × List Char)
  | '[' :: '[' :: text => do
    let ((path, name), text) ← readKey text
    let text ← skipWord? "]]".toList text
    let text ← skipLineEnd? text
    return (← d.openElement? path name, text)
  | '[' :: text => do
    let ((path, name), text) ← readKey text
    let text ← skipChar? ']' text
    let text ← skipLineEnd? text
    return (← d.openTable? path name, text)
  | _ => none

def readEntry (d : Draft) (text : List Char) : Option (Draft × List Char) := do
  let ((path, key), text) ← readKey text
  let text ← skipChar? '=' text
  let (v, text) ← readValue 0 (2 * text.length + 2) (skipGap text)
  let text ← skipLineEnd? text
  let entries ← put? key v true path d.entries
  return ({ d with entries := entries }, text)

/-- The lines of a document, `fuel` at most. -/
def readLines (d : Draft) : Nat → List Char → Option Draft
  | 0, _ => none
  | fuel + 1, text =>
    match skipGap text with
    | [] => some d
    | c :: rest =>
      if c = '#' || c = '\n' || c = '\r' then (skipLineEnd? (c :: rest)).bind (readLines d fuel)
      else if c = '[' then (readHeader d (c :: rest)).bind fun (d, text) => readLines d fuel text
      else (readEntry d (c :: rest)).bind fun (d, text) => readLines d fuel text

/-- The text without a byte order mark at its start. -/
def dropMark : List Char → List Char
  | '\ufeff' :: rest => rest
  | text => text

def read? (text : List Char) : Option Toml := do
  let text := dropMark text
  let d ← readLines .start (text.length + 1) text
  let entries ← d.close?
  return .table (entryValues entries)

end SourceLikeness.Toml
