import SourceLikeness.Json
import SourceLikeness.ScoreTable

/-!
# Reports as JSON

The same reports as values with named entries.
-/

namespace SourceLikeness.Report

def rangeData (r : LineRange) : Json := .record [("first", .count r.first), ("last", .count r.last)]

def runData (r : SharedRun) : Json :=
  .record [("candidate", rangeData r.candidate), ("reference", rangeData r.reference),
    ("len", .count r.length)]

def detailData : Detail → Json
  | .tree c => .record [("kind", .text "tree"), ("identical", .bool c.identical),
      ("visited", .count c.visited), ("mismatches", .count c.mismatches)]
  | .tiling unit minRun matched total runs => .record [("kind", .text "tiling"),
      ("unit", .text unit.name), ("min_run", .count minRun), ("matched_weight", .count matched),
      ("total_weight", .count total), ("runs", .list (runs.map runData))]
  | .ngram p => .record [("kind", .text "ngram"), ("width", .count p.width),
      ("candidate", .count p.candidate), ("reference", .count p.reference),
      ("shared", .count p.shared), ("union", .count p.union)]

def verdictData (v : Verdict) : Json :=
  .record [("method", .text v.method.label), ("score", .number v.score),
    ("detail", detailData v.detail)]

def comparisonData (candidate reference : String) (verdicts : List Verdict) : Json :=
  .record [("candidate", .text candidate), ("reference", .text reference),
    ("verdicts", .list (verdicts.map verdictData))]

/-- What one method gave. An error is an entry only if there is one. -/
def scoreData (s : MethodScore) : Json :=
  .record <| [("method", .text s.method.label), ("score", .ofOption .number s.score),
    ("mean_ms", .number s.meanTime)] ++ (s.error.map fun e => ("error", .text e)).toList

def rowData (r : ScoreRow) : Json :=
  .record [("candidate", .text r.candidate), ("scores", .list (r.scores.map scoreData)),
    ("average", .ofOption .number r.average)]

def scoreTableData (t : ScoreTable) : Json :=
  .record [("reference", .text t.reference), ("repeat", .count t.rounds),
    ("rows", .list (t.rows.map rowData))]

def tokenData (t : Token Char) : Json :=
  .record [("symbol", .text t.symbol.toString), ("start", .count t.start), ("end", .count t.stop)]

/-- The token stream of a file, with the names of its functions if they are asked for. -/
def tokensData (path : String) (stream : List (Token Char)) (functions : Option (List String)) :
    Json :=
  .record <| [("file", .text path), ("symbols", .text (String.ofList (Token.symbols stream))),
    ("tokens", .list (stream.map tokenData))] ++
    (functions.map fun names => ("functions", .list (names.map .text))).toList

end SourceLikeness.Report
