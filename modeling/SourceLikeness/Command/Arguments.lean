import SourceLikeness.Decimal.Reader

/-!
# Command-line arguments

Arguments are read from left to right against a description of what a command takes.

* `Parameter`, `Usage` : the options and flags of a command, and its places for plain arguments;
* `Refusal` : why arguments are refused, or what is printed instead of running a command;
* `Reading` : what was read so far. The value of an option and the arguments at a place are looked
  at when the next argument that is known has come, or at the end; an argument that is not known is
  refused before that;
* `Usage.read` : the arguments of a command; `Usage.readUpTo` : those before a subcommand.
-/

namespace SourceLikeness.Command

/-! ## Descriptions -/

inductive Kind where
  | flag
  | help
  | version
  | path
  | choice (names : List String)
  /-- A number that is not negative. -/
  | count
  | number
deriving DecidableEq, Repr

/-- An option or a flag. -/
structure Parameter where
  name : String
  short : Option Char := none
  kind : Kind := .flag
deriving DecidableEq, Repr

/-- What a command takes. All places must be filled; the last may take several arguments. -/
structure Usage where
  parameters : List Parameter
  places : Nat := 0
  lastTakesMany : Bool := false
deriving DecidableEq, Repr

/-- Why arguments are refused. The last two are no errors: help or a version was asked for. -/
inductive Refusal where
  | missingRequiredArgument
  | unknownArgument
  | invalidSubcommand
  | invalidValue
  | valueValidation
  /-- An option or a flag is given twice. -/
  | argumentConflict
  | tooManyValues
  | displayHelp
  | displayVersion
deriving DecidableEq, Repr

namespace Refusal

def name : Refusal → String
  | missingRequiredArgument => "MissingRequiredArgument"
  | unknownArgument => "UnknownArgument"
  | invalidSubcommand => "InvalidSubcommand"
  | invalidValue => "InvalidValue"
  | valueValidation => "ValueValidation"
  | argumentConflict => "ArgumentConflict"
  | tooManyValues => "TooManyValues"
  | displayHelp => "DisplayHelp"
  | displayVersion => "DisplayVersion"

def code : Refusal → Nat
  | displayHelp => 0
  | displayVersion => 0
  | _ => 2

end Refusal

/-! ## Values -/

/-- A number that is not negative and has at most 64 bits. -/
def readCount? (text : String) : Option Nat :=
  let digits := match text.toList with
    | '+' :: rest => rest
    | text => text
  (Decimal.readNat? digits).filter (· < Decimal.twoTo 64)

/-- Why a value does not fit a parameter. -/
def Kind.refusal? (k : Kind) (value : String) : Option Refusal :=
  match k with
  | .path => if value = "" then some .invalidValue else none
  | .choice names => if value ∈ names then none else some .invalidValue
  | .count => if (readCount? value).isNone then some .valueValidation else none
  | .number => if (Decimal.readFloat? value.toList).isNone then some .valueValidation else none
  | _ => none

def Kind.takesValue : Kind → Bool
  | .flag => false
  | .help => false
  | .version => false
  | _ => true

/-! ## Readings -/

/-- What was read but not looked at. -/
inductive Pending where
  | nothing
  /-- An option and its value, if that has come. -/
  | option (p : Parameter) (value : Option String)
  | place (values : List String)
deriving DecidableEq, Repr

/-- What was read so far. -/
structure Reading where
  given : List (String × String)
  plain : List String
  pending : Pending
  onlyPlain : Bool
deriving DecidableEq, Repr

namespace Reading

/-- Nothing was read. -/
def start : Reading := ⟨[], [], .nothing, false⟩

/-- The value of an option, or the empty text for a flag that is set. -/
def value? (r : Reading) (name : String) : Option String := r.given.lookup name

def isSet (r : Reading) (name : String) : Bool := (r.value? name).isSome

/-- The number of plain arguments, looked at or not. -/
def plainCount (r : Reading) : Nat :=
  match r.pending with
  | .place values => r.plain.length + values.length
  | _ => r.plain.length

def isWaiting (r : Reading) : Bool :=
  match r.pending with
  | .option _ none => true
  | _ => false

def give (r : Reading) (p : Parameter) (value : String) : Except Refusal Reading :=
  if r.isSet p.name then .error .argumentConflict
  else match p.kind.refusal? value with
    | some refusal => .error refusal
    | none => .ok { r with given := r.given ++ [(p.name, value)], pending := .nothing }

/-- Looks at what was read but not looked at. -/
def settle (r : Reading) : Except Refusal Reading :=
  match r.pending with
  | .nothing => .ok r
  | .option _ none => .error .invalidValue
  | .option p (some value) => r.give p value
  | .place values =>
    if values.any (· = "") then .error .invalidValue
    else .ok { r with plain := r.plain ++ values, pending := .nothing }

/-- Reads an option with a value that was given at once. -/
def giveAttached (r : Reading) (p : Parameter) (value : String) : Except Refusal Reading := do
  (← r.settle).give p value

def await (r : Reading) (p : Parameter) : Except Refusal Reading := do
  return { (← r.settle) with pending := .option p none }

def setFlag (r : Reading) (p : Parameter) : Except Refusal Reading := do
  let r ← r.settle
  match p.kind with
  | .help => throw .displayHelp
  | .version => throw .displayVersion
  | _ => r.give p ""

end Reading

namespace Usage

/-! ## Single arguments -/

/-- The name and the value of a long option. -/
def cutValue (text : List Char) : String × Option String :=
  let name := String.ofList (text.takeWhile (· ≠ '='))
  match text.dropWhile (· ≠ '=') with
  | [] => (name, none)
  | _ :: value => (name, some (String.ofList value))

/-- Reads what stands behind two hyphens. -/
def readLong (u : Usage) (r : Reading) (text : List Char) : Except Refusal Reading :=
  let (name, value) := cutValue text
  match u.parameters.find? (·.name = name), value with
  | none, _ => .error .unknownArgument
  | some p, some value =>
    if p.kind.takesValue then r.giveAttached p value else .error .tooManyValues
  | some p, none => if p.kind.takesValue then r.await p else r.setFlag p

/-- Reads what stands behind one hyphen: flags of one letter, and at last an option with its value. -/
def readShort (u : Usage) (r : Reading) : List Char → Except Refusal Reading
  | [] => .ok r
  | c :: rest =>
    match u.parameters.find? (·.short = some c) with
    | none => .error .unknownArgument
    | some p =>
      if p.kind.takesValue then
        match rest with
        | [] => r.await p
        | '=' :: value => r.giveAttached p (String.ofList value)
        | value => r.giveAttached p (String.ofList value)
      else do readShort u (← r.setFlag p) rest

def readPlain (u : Usage) (r : Reading) (text : String) : Except Refusal Reading :=
  if u.places ≤ r.plainCount && !(u.lastTakesMany && 0 < u.places) then .error .unknownArgument
  else match r.pending with
    | .place values =>
      if u.lastTakesMany && u.places ≤ r.plainCount then
        .ok { r with pending := .place (values ++ [text]) }
      else do return { (← r.settle) with pending := .place [text] }
    | _ => do return { (← r.settle) with pending := .place [text] }

/-- Reads one argument. A hyphen alone is a plain one. -/
def readOne (u : Usage) (r : Reading) (argument : String) : Except Refusal Reading :=
  if r.onlyPlain then u.readPlain r argument
  else match argument.toList with
    | ['-', '-'] => .ok { r with onlyPlain := true }
    | '-' :: '-' :: text => u.readLong r text
    | '-' :: c :: text => u.readShort r (c :: text)
    | _ =>
      match r.pending with
      | .option p none => .ok { r with pending := .option p (some argument) }
      | _ => u.readPlain r argument

/-! ## Lists of arguments -/

def read (u : Usage) (arguments : List String) : Except Refusal Reading := do
  let r ← arguments.foldlM (u.readOne ·) .start
  let r ← r.settle
  if r.plain.length < u.places then throw .missingRequiredArgument
  return r

/-- Reads arguments up to a subcommand, which is not looked for where a value is awaited. Without
one, all arguments are looked at. -/
def readUpTo (u : Usage) (subcommands : List String) :
    Reading → List String → Except Refusal (Reading × Option (String × List String))
  | r, [] => do return (← r.settle, none)
  | r, argument :: rest =>
    if argument ∈ subcommands then
      if r.onlyPlain then .error .unknownArgument
      else if r.isWaiting then do readUpTo u subcommands (← u.readOne r argument) rest
      else .ok (r, some (argument, rest))
    else
      match argument.toList with
      | '-' :: _ :: _ =>
        if r.onlyPlain then .error .invalidSubcommand
        else do readUpTo u subcommands (← u.readOne r argument) rest
      | _ =>
        if r.isWaiting && !r.onlyPlain then do readUpTo u subcommands (← u.readOne r argument) rest
        else .error .invalidSubcommand

end Usage
end SourceLikeness.Command
