import SourceLikeness.Command.Basic
import SourceLikeness.Config.File
import SourceLikeness.Report.Data
import SourceLikeness.Report.Terminal
import SourceLikeness.Tokenizer.FunctionName

/-!
# Running a command

* `CommandFailure` : why a command stopped, with what it was about to do;
* `Outcome` : what a run prints and how it ends;
* `Invocation.run` : runs a command on the files of a store;
* `Invocation.paths` : the paths that a run looks at, besides what it finds in directories;
* `respond` : what comes of some arguments in the end, also where they are refused or a run stops.
-/

namespace SourceLikeness
open Report (Paint)

inductive CommandFailure where
  /-- Something failed while the command was about something, outermost first. -/
  | during (contexts : List String) (failure : Failure)
  /-- What was asked for makes no sense. -/
  | refused (reason : String)
deriving DecidableEq, Repr

namespace CommandFailure

def message : CommandFailure → String
  | during contexts failure => failure.chain contexts
  | refused reason => reason

def exit : CommandFailure → Exit
  | during _ failure => .ofFailure failure
  | refused _ => .failure

end CommandFailure

/-- What a run prints, on its output and beside it, and how it ends. -/
structure Outcome where
  output : String
  notes : String := ""
  exit : Exit := .success
deriving DecidableEq, Repr

namespace Command

def about {α : Type} (context : String) : Except Failure α → Except CommandFailure α
  | .ok x => .ok x
  | .error failure => .error (.during [context] failure)

def loadAs (role : String) (store : Store) (path : String) : Except CommandFailure SourceFile :=
  about ("Failed to load " ++ role ++ " " ++ path) (SourceFile.load store path)

def detector (c : Config) : Except CommandFailure Detector :=
  about "Failed to build tokenizers from config" (Detector.build c)

def printed (data : Json) : String := data.pretty ++ "\n"

/-! ## Comparing two files -/

/-- The note on a score that is above the threshold. -/
def thresholdNote (p : Paint) (threshold : Float) (v : Verdict) : String :=
  p.boldRed "threshold:" ++ " " ++ v.method.label ++ " score " ++ Decimal.fixed 2 v.score ++
    "% is above " ++ Decimal.plain.write threshold ++ "%\n"

/-- The outcome of a comparison: the first score above the threshold, if there is one, decides. -/
def judged (p : Paint) (threshold : Option Float) (verdicts : List Verdict) (output : String) :
    Outcome :=
  match threshold.bind fun t => (verdicts.find? (t < ·.score)).map fun v => (t, v) with
  | some (t, v) => ⟨output, thresholdNote p t v, .thresholdExceeded⟩
  | none => { output := output }

/-- Refuses a threshold that is no percentage. -/
def checkThreshold : Option Float → Except CommandFailure Unit
  | none => .ok ()
  | some t =>
    if 0 ≤ t && t ≤ 100 then .ok ()
    else .error (.refused ("--fail-above must be between 0 and 100, got " ++ Decimal.plain.write t))

def runCompare (p : Paint) (store : Store) (c : Config) (candidate reference : String)
    (methods : List Method) (threshold : Option Float) : Except CommandFailure Outcome := do
  checkThreshold threshold
  let d ← detector c
  let a ← loadAs "candidate" store candidate
  let b ← loadAs "reference" store reference
  let verdicts ← methods.mapM fun m => about (m.label ++ " comparison failed") (d.compare a b m)
  let output := match c.format with
    | .terminal => Report.comparison p a.path b.path verdicts
    | .json => printed (Report.comparisonData a.path b.path verdicts)
  return judged p threshold verdicts output

/-! ## Scoring many files -/

def runScore (p : Paint) (store : Store) (c : Config) (reference : String)
    (candidates : List String) (rounds : Nat) : Except CommandFailure Outcome := do
  let d ← detector c
  let b ← loadAs "reference" store reference
  let files := collect store candidates
  if files.isEmpty then throw (.refused "No candidate source files found")
  let table ← about "Failed to load candidate" (ScoreTable.build d store b files rounds)
  return {
    output := match c.format with
      | .terminal => Report.scoreTable p table
      | .json => printed (Report.scoreTableData table) }

/-! ## Printing a token stream -/

def traceOf (t : Tokenizer) (source : List Char) : Report.Trace :=
  (t.stages source).map fun s => (s.pass.name, t.write s.recorded)

/-- The line that lists the functions of a file, if it has any. -/
def functionsLine (p : Paint) (names : List String) : String :=
  if names.isEmpty then "" else "\n" ++ p.dimmed "functions:" ++ " " ++ ", ".intercalate names ++ "\n"

def runTokens (p : Paint) (store : Store) (c : Config) (file : String) (explain : Bool) :
    Except CommandFailure Outcome := do
  let d ← detector c
  let f ← loadAs "file" store file
  let t := d.tokenizer f.dialect
  let stream := t.tokenize f.text
  let functions := if explain then some (Tokenizer.FunctionName.names f.dialect f.text) else none
  return {
    output := match c.format with
      | .terminal =>
        let trace := if explain then some (traceOf t f.text) else none
        Report.tokens p f.path stream trace t.alphabet ++ functionsLine p (functions.getD [])
      | .json => printed (Report.tokensData f.path stream functions) }

/-! ## All commands -/

def configOf (c : Config) (tuning : Tuning) (format : Option OutputFormat) : Config :=
  { tuning.apply c with format := format.getD c.format }

def run (p : Paint) (store : Store) (c : Config) (format : Option OutputFormat) :
    Command → Except CommandFailure Outcome
  | .compare candidate reference methods tuning threshold =>
    runCompare p store (configOf c tuning format) candidate reference methods threshold
  | .score reference candidates rounds tuning =>
    runScore p store (configOf c tuning format) reference candidates rounds
  | .tokens file explain => runTokens p store (configOf c {} format) file explain

def help : String :=
  Report.unlines
    ["Measures how much one source file was derived from another",
      "",
      "Usage: sourcesleuth [OPTIONS] [COMMAND]",
      "",
      "Commands:",
      "  compare  Score a candidate file against a reference file",
      "  matrix   Score many candidates against one reference with every method",
      "  tokens   Print the symbol stream of a file",
      "  help     Print this message or the help of the given subcommand(s)",
      "",
      "Options:",
      "      --config <PATH>  Config file [default: ./sleuth.toml when present]",
      "  -v, --verbose        Debug logging on stderr (\x60RUST_LOG\x60 overrides)",
      "  -h, --help           Print help",
      "  -V, --version        Print version"]

end Command

/-- Runs what was asked for. The configuration is read only for a command. -/
def Invocation.run (i : Invocation) (p : Paint) (store : Store) : Except CommandFailure Outcome :=
  match i.command with
  | none => .ok { output := Command.help }
  | some command => do
    let config ← Command.about "Failed to load config" (Config.load store i.config)
    command.run p store config i.format

/-! ## From arguments to an outcome -/

/-- The paths that a command looks at. -/
def Command.paths : Command → List String
  | .compare candidate reference _ _ _ => [candidate, reference]
  | .score reference candidates _ _ => reference :: candidates
  | .tokens file _ => [file]

/-- The paths that a run looks at. -/
def Invocation.paths (i : Invocation) : List String :=
  match i.command with
  | none => []
  | some command => i.config.getD (Path.join "." Config.fileName) :: command.paths

def Command.version : String := "sourcesleuth 0.3.0"

def stopNote (p : Paint) (reason : String) : String := p.boldRed "error:" ++ " " ++ reason ++ "\n"

/-- What comes of arguments that no command is run for. -/
def Command.Refusal.outcome (p : Paint) : Refusal → Outcome
  | .displayHelp => { output := help }
  | .displayVersion => { output := version ++ "\n" }
  | refusal => ⟨"", stopNote p refusal.name, .invalidInput⟩

def CommandFailure.outcome (p : Paint) (f : CommandFailure) : Outcome :=
  ⟨"", stopNote p f.message, f.exit⟩

/-- What comes of some arguments. -/
def respond (p : Paint) (store : Store) (arguments : List String) : Outcome :=
  match Invocation.ofArguments arguments with
  | .error refusal => refusal.outcome p
  | .ok i =>
    match i.run p store with
    | .error failure => failure.outcome p
    | .ok outcome => outcome

end SourceLikeness
