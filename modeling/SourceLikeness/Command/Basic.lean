import SourceLikeness.Command.Arguments
import SourceLikeness.Config.Basic
import SourceLikeness.Detector

/-!
# Commands

What the program can be asked to do, and how its arguments ask for it.

* `Command` : compare two files, score many against one, or print a token stream;
* `Tuning` : what a run may set otherwise than the configuration;
* `Invocation.ofArguments` : the command that some arguments ask for.
-/

namespace SourceLikeness
namespace Command

/-- What a run may set otherwise than the configuration. -/
structure Tuning where
  minRun : Option Nat := none
  unit : Option TilingUnit := none
  width : Option Nat := none
  strictScalars : Bool := false
  truncateSequences : Bool := false
deriving Repr

def Tuning.apply (t : Tuning) (c : Config) : Config :=
  { c with
    minRun := t.minRun.getD c.minRun
    unit := t.unit.getD c.unit
    width := t.width.getD c.width
    tree :=
      { scalars := if t.strictScalars then .strict else c.tree.scalars
        sequences := if t.truncateSequences then .truncate else c.tree.sequences } }

end Command

/-- What the program can be asked to do. -/
inductive Command where
  | compare (candidate reference : String) (methods : List Method) (tuning : Command.Tuning)
    (failAbove : Option Float)
  | score (reference : String) (candidates : List String) (rounds : Nat) (tuning : Command.Tuning)
  | tokens (file : String) (explain : Bool)
deriving Repr

/-- A command with what holds for all commands. Without a command the program explains itself. -/
structure Invocation where
  command : Option Command
  config : Option String
  format : Option OutputFormat
deriving Repr

namespace Command

/-! ## What the commands take -/

def shared : List Parameter :=
  [{ name := "config", kind := .path }, { name := "verbose", short := some 'v' },
    { name := "help", short := some 'h', kind := .help }]

def formatParameter : Parameter :=
  { name := "format", kind := .choice ([OutputFormat.terminal, .json].map OutputFormat.name) }

def tuningParameters : List Parameter :=
  [{ name := "min-run", kind := .count },
    { name := "unit", kind := .choice ([TilingUnit.lines, .symbols].map TilingUnit.name) },
    { name := "width", kind := .count }, { name := "strict-scalars" },
    { name := "truncate-sequences" }]

def allMethods : String := "all"

/-- What may stand before a command. -/
def mainUsage : Usage where
  parameters := shared ++ [{ name := "version", short := some 'V', kind := .version }]

def compareUsage : Usage where
  parameters := shared ++ tuningParameters ++
    [{ name := "method", short := some 'm', kind := .choice (Method.all.map Method.label ++ [allMethods]) },
      formatParameter, { name := "fail-above", kind := .number }]
  places := 2

def matrixUsage : Usage where
  parameters := shared ++ tuningParameters ++ [{ name := "repeat", kind := .count }, formatParameter]
  places := 2
  lastTakesMany := true

def tokensUsage : Usage where
  parameters := shared ++ [{ name := "explain" }, formatParameter]
  places := 1

/-! ## From arguments to commands -/

def named? {α : Type} (alternatives : List α) (name : α → String) (r : Reading)
    (parameter : String) : Option α :=
  (r.value? parameter).bind fun s => alternatives.find? fun a => name a = s

def count? (r : Reading) (parameter : String) : Option Nat := (r.value? parameter).bind readCount?

/-- The output format that was asked for. -/
def format? (r : Reading) : Option OutputFormat :=
  named? [.terminal, .json] OutputFormat.name r "format"

def tuningOf (r : Reading) : Tuning where
  minRun := count? r "min-run"
  unit := named? [.lines, .symbols] TilingUnit.name r "unit"
  width := count? r "width"
  strictScalars := r.isSet "strict-scalars"
  truncateSequences := r.isSet "truncate-sequences"

def methodsOf (r : Reading) : List Method :=
  match named? Method.all Method.label r "method" with
  | some method => [method]
  | none => Method.all

def compareOf (r : Reading) : Option Command :=
  match r.plain with
  | [candidate, reference] => some (.compare candidate reference (methodsOf r) (tuningOf r)
      ((r.value? "fail-above").bind fun s => Decimal.readFloat? s.toList))
  | _ => none

def matrixOf (r : Reading) : Option Command :=
  match r.plain with
  | reference :: candidates =>
    some (.score reference candidates ((count? r "repeat").getD 1) (tuningOf r))
  | _ => none

def tokensOf (r : Reading) : Option Command :=
  match r.plain with
  | [file] => some (.tokens file (r.isSet "explain"))
  | _ => none

def all : List (String × Usage × (Reading → Option Command)) :=
  [("compare", compareUsage, compareOf), ("matrix", matrixUsage, matrixOf),
    ("tokens", tokensUsage, tokensOf)]

def helpName : String := "help"

/-- What asking for help on some commands comes to. Only `help` and the commands can be explained,
and they have no commands of their own. -/
def explain (names : List String) : Refusal :=
  match names with
  | [] => .displayHelp
  | [name] => if name ∈ helpName :: all.map (·.1) then .displayHelp else .invalidSubcommand
  | _ => .invalidSubcommand

end Command

namespace Invocation

/-- What some arguments ask for. An option behind the command's name wins over one before it. -/
def ofArguments (arguments : List String) : Except Command.Refusal Invocation := do
  let names := Command.helpName :: Command.all.map (·.1)
  let (before, rest) ← Command.mainUsage.readUpTo names .start arguments
  match rest with
  | none => return ⟨none, before.value? "config", none⟩
  | some (name, arguments) =>
    match Command.all.lookup name with
    | none => throw (Command.explain arguments)
    | some (usage, command) =>
      let r ← usage.read arguments
      let before ← before.settle
      return ⟨command r, r.value? "config" <|> before.value? "config", Command.format? r⟩

end Invocation
end SourceLikeness
