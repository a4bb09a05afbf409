import SourceLikeness.Detector

/-!
# Score tables

One reference against many candidates with every method. A method that fails is noted in its row and
does not end the run; a candidate that cannot be loaded does.
-/

namespace SourceLikeness

structure MethodScore where
  method : Method
  score : Option Float
  /-- How long one run took, in milliseconds. -/
  meanTime : Float
  error : Option String
deriving Repr

structure ScoreRow where
  candidate : String
  scores : List MethodScore
  /-- The mean of the scores that there are. -/
  average : Option Float
deriving Repr

/-- The scores of all candidates, and how often each method ran. -/
structure ScoreTable where
  reference : String
  rounds : Nat
  rows : List ScoreRow
deriving Repr

namespace ScoreTable

/-- The score of one method. No time is taken. -/
def scoreOf (d : Detector) (candidate reference : SourceFile) (method : Method) : MethodScore :=
  match d.compare candidate reference method with
  | .ok verdict => ⟨method, some verdict.score, 0, none⟩
  | .error failure => ⟨method, none, 0, some failure.message⟩

/-- The mean of some numbers, if there are any. -/
def mean? (values : List Float) : Option Float :=
  if values.isEmpty then none else some (values.foldl (· + ·) 0 / values.length.toFloat)

def row (d : Detector) (reference candidate : SourceFile) : ScoreRow :=
  let scores := Method.all.map (scoreOf d candidate reference)
  ⟨candidate.path, scores, mean? (scores.filterMap (·.score))⟩

/-- The scores of some candidates in order. Each method runs at least once. -/
def build (d : Detector) (store : Store) (reference : SourceFile) (candidates : List String)
    (rounds : Nat) : Except Failure ScoreTable := do
  let rows ← candidates.mapM fun path => (row d reference) <$> SourceFile.load store path
  return ⟨reference.path, max 1 rounds, rows⟩

end ScoreTable
end SourceLikeness
