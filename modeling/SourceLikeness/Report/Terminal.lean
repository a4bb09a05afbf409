import SourceLikeness.Decimal.Written
import SourceLikeness.ScoreTable

/-!
# Reports for a terminal

* `Paint` : writes a text in a colour or weight, or leaves it as it is where there are none;
* `comparison`, `scoreTable`, `tokens` : the three reports.
-/

namespace SourceLikeness.Report
open Decimal (fixed padStart padEnd)

/-! ## Colours -/

/-- Whether colours and weights are shown. -/
structure Paint where
  enabled : Bool

namespace Paint

def reset : String := "\x1b[0m"

/-- A text with `more` put behind every `mark` in it. A mark is expected not to overlap another. -/
def putBehind (mark more : List Char) : List Char → List Char
  | [] => []
  | c :: rest =>
    let done := putBehind mark more rest
    if mark.isPrefixOf (c :: rest) then
      c :: (done.take (mark.length - 1) ++ more ++ done.drop (mark.length - 1))
    else c :: done

/-- The text in a way that some codes of the terminal stand for. Where the text itself ends all
colours, the way begins again. -/
def style (p : Paint) (codes text : String) : String :=
  if p.enabled then
    let start := "\x1b[" ++ codes ++ "m"
    start ++ String.ofList (putBehind reset.toList start.toList text.toList) ++ reset
  else text

def bold (p : Paint) : String → String := p.style "1"
def dimmed (p : Paint) : String → String := p.style "2"
def red (p : Paint) : String → String := p.style "31"
def green (p : Paint) : String → String := p.style "32"
def yellow (p : Paint) : String → String := p.style "33"
def blue (p : Paint) : String → String := p.style "34"
def cyan (p : Paint) : String → String := p.style "36"
def boldRed (p : Paint) : String → String := p.style "1;31"

/-- A score in percent. From 70 on it is likely that a candidate was derived. -/
def score (p : Paint) (score : Float) : String :=
  let text := padStart 6 (fixed 2 score) ++ "%"
  if 70 ≤ score then p.boldRed text
  else if 40 ≤ score then p.yellow text
  else p.green text

end Paint

/-! ## Pieces -/

def plural (word : String) (count : Nat) : String := if count = 1 then word else word ++ "s"

def unlines (lines : List String) : String := String.join (lines.map (· ++ "\n"))

def describe : Detail → String
  | .tree c =>
    s!"{c.mismatches} of {c.visited} nodes differ" ++ (if c.identical then ", identical" else "")
  | .tiling unit minRun matched total runs =>
    s!"{matched}/{total} matched, {runs.length} " ++ plural "tile" runs.length ++
      s!", min run {minRun} " ++ unit.name
  | .ngram p => s!"{p.shared}/{p.union} shared {p.width}-grams ({p.candidate} vs {p.reference})"

def runLine (p : Paint) (r : SharedRun) : String :=
  "    " ++ p.blue "|" ++ s!" lines {r.candidate.first}-{r.candidate.last}" ++
    s!" ~ {r.reference.first}-{r.reference.last} ({r.length} units)"

def runsOf : Detail → List SharedRun
  | .tiling _ _ _ _ runs => runs
  | _ => []

/-! ## Reports -/

def comparison (p : Paint) (candidate reference : String) (verdicts : List Verdict) : String :=
  unlines <|
    [p.dimmed "candidate:" ++ " " ++ candidate, p.dimmed "reference:" ++ " " ++ reference] ++
      verdicts.flatMap fun v =>
        ("  " ++ p.bold (padEnd 7 v.method.label) ++ " " ++ p.score v.score ++ "  " ++
          p.dimmed (describe v.detail)) :: (runsOf v.detail).map (runLine p)

def scoreLine (p : Paint) (s : MethodScore) : String :=
  let label := "  " ++ padEnd 7 s.method.label ++ " "
  match s.score with
  | some score => label ++ p.score score ++ "  " ++ padStart 9 (fixed 3 s.meanTime) ++ " ms"
  | none => label ++ p.dimmed "    n/a" ++ "  " ++ p.red (s.error.getD "no score")

def scoreTable (p : Paint) (t : ScoreTable) : String :=
  unlines <|
    (p.dimmed "reference:" ++ " " ++ t.reference ++ s!" ({t.rounds} " ++ plural "run" t.rounds ++ ")") ::
      t.rows.flatMap fun row =>
        [p.bold row.candidate] ++ row.scores.map (scoreLine p) ++
          (row.average.map fun a => "  " ++ padEnd 7 "average" ++ " " ++ p.score a).toList

/-- The tokens that each pass recorded, under the names of the passes. -/
abbrev Trace := List (String × List (Token Char))

def symbolText (tokens : List (Token Char)) : String := String.ofList (Token.symbols tokens)

def tokenLine (p : Paint) (a : Alphabet) (t : Token Char) : String :=
  "    " ++ t.symbol.toString ++ " " ++ p.dimmed ((a.category? t.symbol).elim "?" Category.label) ++
    s!" {t.start}..{t.stop}"

/-- The token stream of a file, with what each pass recorded if that is asked for. -/
def tokens (p : Paint) (path : String) (stream : List (Token Char)) (trace : Option Trace)
    (a : Alphabet) : String :=
  unlines <|
    [p.dimmed "file:" ++ " " ++ path ++ s!" ({stream.length} " ++ plural "token" stream.length ++ ")",
      symbolText stream] ++
    match trace with
    | none => []
    | some trace => "" :: (trace.filter (!·.2.isEmpty)).flatMap fun (name, recorded) =>
      ("  " ++ p.cyan (padEnd 28 name) ++ " " ++ symbolText recorded) :: recorded.map (tokenLine p a)

end SourceLikeness.Report
