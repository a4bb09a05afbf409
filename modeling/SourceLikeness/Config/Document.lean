import SourceLikeness.Config.Basic
import SourceLikeness.Toml.Document

/-!
# Configuration files

A configuration is a TOML document. Unknown entries are passed over, and what is not given keeps its
default.

* `Record` : a value that stands for several named ones. They may also be given in order as a list,
  and a date or a time is a record without any that is known;
* `choice?` : one of some names, as a text or as the name of an empty table or list that stands alone;
* `Config.ofToml?`, `Config.parse` : the configuration of a document.
-/

namespace SourceLikeness
namespace Config

/-! ## Decoding values -/

/-- Values under their names. -/
abbrev Record := List (String × Toml)

/-- The named values that a value stands for. In a list they are given in order. -/
def record? (names : List String) : Toml → Option Record
  | .table entries => some entries
  | .array entries => some (names.zip entries)
  | .moment => some []
  | _ => none

/-- A value of a record, or its default if it is not given. -/
def field {α : Type} (r : Record) (name : String) (default : α) (decode : Toml → Option α) :
    Option α :=
  match r.lookup name with
  | none => some default
  | some v => decode v

/-- A whole number that is not negative. -/
def count? : Toml → Option Nat
  | .integer n => if 0 ≤ n then some n.toNat else none
  | _ => none

def char? : Toml → Option Char
  | .string s => match s.toList with
    | [c] => some c
    | _ => none
  | _ => none

def string? : Toml → Option String
  | .string s => some s
  | _ => none

def strings? : Toml → Option (List String)
  | .array entries => entries.mapM string?
  | _ => none

/-- Whether a value is an empty table or list. -/
def isEmpty : Toml → Bool
  | .table entries => entries.isEmpty
  | .array entries => entries.isEmpty
  | _ => false

/-- The name that a value chooses: a text, or the name of the only entry of a table if that entry is
empty. -/
def chosen? : Toml → Option String
  | .string s => some s
  | .table [(name, v)] => if isEmpty v then some name else none
  | _ => none

def choice? {α : Type} (alternatives : List α) (name : α → String) (v : Toml) : Option α :=
  (chosen? v).bind fun s => alternatives.find? fun a => name a = s

/-! ## Decoding a configuration -/

/-- The alphabet in which some categories are written otherwise than by default. -/
def alphabet? (v : Toml) : Option Alphabet := do
  let r ← record? (Category.all.map Category.label) v
  let chars ← Category.all.mapM fun c =>
    (field r c.label (Alphabet.default.symbol c) char?).map fun symbol => (c, symbol)
  return Alphabet.default.override (chars.lookup ·)

def ofToml? (v : Toml) : Option Config := do
  let top ← record? ["tiling", "ngram", "tree", "tokenizer", "output"] v
  let d : Config := {}
  let (minRun, unit) ← field top "tiling" (d.minRun, d.unit) fun v => do
    let r ← record? ["min_run", "unit"] v
    return (← field r "min_run" d.minRun count?,
      ← field r "unit" d.unit (choice? [.lines, .symbols] TilingUnit.name))
  let width ← field top "ngram" d.width fun v => do
    field (← record? ["width"] v) "width" d.width count?
  let tree ← field top "tree" d.tree fun v => do
    let r ← record? ["scalars", "sequences"] v
    return {
      scalars := ← field r "scalars" d.tree.scalars (choice? [.loose, .strict] ScalarPolicy.name)
      sequences := ← field r "sequences" d.tree.sequences
        (choice? [.penalize, .truncate] SequencePolicy.name) }
  let tokenizer ← field top "tokenizer" [] (record? ["int_types", "char_types", "float_types", "alphabet"])
  let types (name : String) := field tokenizer name none fun v => (strings? v).map some
  let format ← field top "output" d.format fun v => do
    field (← record? ["format"] v) "format" d.format (choice? [.terminal, .json] OutputFormat.name)
  return {
    minRun := minRun
    unit := unit
    width := width
    tree := tree
    intTypes := ← types "int_types"
    charTypes := ← types "char_types"
    floatTypes := ← types "float_types"
    alphabet := ← field tokenizer "alphabet" d.alphabet alphabet?
    format := format }

/-- What is said of a text that is no configuration. -/
def unreadable : String := "TOML parse error"

/-- The configuration that a text holds. The path is that of the file. -/
def parse (path : String) (text : List Char) : Except Failure Config :=
  match (Toml.read? text).bind ofToml? with
  | none => .error (.config path unreadable)
  | some config =>
    match config.fault? with
    | some fault => .error (.config path fault.toFailure.message)
    | none => .ok config

end Config
end SourceLikeness
