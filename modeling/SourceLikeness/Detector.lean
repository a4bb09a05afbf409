import SourceLikeness.Config.Basic
import SourceLikeness.Ngram
import SourceLikeness.SourceFile
import SourceLikeness.Tiling
import SourceLikeness.Tokenizer.Pipeline

/-!
# Comparing source files

Three methods score how much of a candidate is found in a reference.

* `Method` : the methods; `Verdict` : a score with the evidence for it;
* `Detector` : a configuration that can be used, with a tokenizer for each dialect;
* `Detector.compare` : the verdict of one method. Only the comparison of trees can fail;
* `SharedRun` : a tile, given by the lines of both files that it lies on.
-/

namespace SourceLikeness

inductive Method where
  | tree
  | tiling
  | ngram
deriving DecidableEq, Repr, Inhabited

namespace Method

def all : List Method := [tree, tiling, ngram]

def label : Method → String
  | tree => "tree"
  | tiling => "tiling"
  | ngram => "ngram"

end Method

/-! ## Evidence -/

/-- Lines from `first` to `last`, both included and counted from 1. -/
structure LineRange where
  first : Nat
  last : Nat
deriving DecidableEq, Repr

/-- A run that both files have: its lines in either, and its length in the units of the tiling. -/
structure SharedRun where
  candidate : LineRange
  reference : LineRange
  length : Nat
deriving DecidableEq, Repr

inductive Detail where
  | tree (comparison : Comparison)
  | tiling (unit : TilingUnit) (minRun matchedWeight totalWeight : Nat) (runs : List SharedRun)
  | ngram (profile : Ngram.Profile)
deriving DecidableEq, Repr

/-- The score of a method, from 0 to 100, with what it rests on. -/
structure Verdict where
  method : Method
  score : Float
  detail : Detail
deriving Repr

/-! ## Lines of runs -/

/-- The number of newlines in the first `n` bytes of a text. -/
def newlinesBefore (n : Nat) : List Char → Nat
  | [] => 0
  | c :: rest =>
    if n = 0 then 0 else (if c = '\n' then 1 else 0) + newlinesBefore (n - c.utf8Size) rest

/-- The line of a byte of a text, counted from 1. -/
def lineOf (text : List Char) (offset : Nat) : Nat := newlinesBefore offset text + 1

/-- The lines that `length` tokens from the one at `first` lie on. -/
def tokenLines? {α : Type} (text : List Char) (tokens : List (Token α)) (first length : Nat) :
    Option LineRange :=
  if first + length ≤ tokens.length then
    match (tokens.drop first).take length with
    | [] => none
    | t :: rest =>
      let stop := rest.foldl (fun n t => max n t.stop) t.stop
      some ⟨lineOf text t.start, lineOf text (max (stop - 1) t.start)⟩
  else none

def SharedRun.ofLines (t : Tile) : SharedRun :=
  ⟨⟨t.candidate + 1, t.candidate + t.length⟩, ⟨t.reference + 1, t.reference + t.length⟩, t.length⟩

def SharedRun.ofSymbols? {α : Type} (candidate reference : List Char × List (Token α)) (t : Tile) :
    Option SharedRun := do
  return ⟨← tokenLines? candidate.1 candidate.2 t.candidate t.length,
    ← tokenLines? reference.1 reference.2 t.reference t.length, t.length⟩

/-! ## The detector -/

/-- A configuration with the tokenizers that it gives. -/
structure Detector where
  config : Config
  cFamily : Tokenizer
  python : Tokenizer

namespace Detector

/-- The detector of a configuration. -/
def build (c : Config) : Except Failure Detector :=
  match Tokenizer.build (c.settings .cFamily), Tokenizer.build (c.settings .python) with
  | .ok cFamily, .ok python => .ok ⟨c, cFamily, python⟩
  | .error fault, _ => .error fault.toFailure
  | .ok _, .error fault => .error fault.toFailure

def tokenizer (d : Detector) : Dialect → Tokenizer
  | .cFamily => d.cFamily
  | .python => d.python

def tokenize (d : Detector) (f : SourceFile) : List (Token Char) :=
  (d.tokenizer f.dialect).tokenize f.text

def compareTrees (d : Detector) (candidate reference : SourceFile) : Except Failure Verdict :=
  match candidate.tree, reference.tree with
  | .ok a, .ok b =>
    let comparison := Comparison.ofTrees d.config.tree a b
    .ok ⟨.tree, comparison.similarity, .tree comparison⟩
  | .error failure, _ => .error failure
  | .ok _, .error failure => .error failure

def tilingVerdict (d : Detector) (t : Tiling) (runs : List SharedRun) : Verdict :=
  ⟨.tiling, t.score, .tiling d.config.unit d.config.minRun t.matchedWeight t.totalWeight runs⟩

def compareLines (d : Detector) (candidate reference : SourceFile) : Verdict :=
  let t := Tiling.tileLines candidate.text reference.text d.config.minRun
  d.tilingVerdict t (t.tiles.map SharedRun.ofLines)

def compareSymbols (d : Detector) (candidate reference : SourceFile) : Verdict :=
  let a := d.tokenize candidate
  let b := d.tokenize reference
  let t := Tiling.tileSymbols (Token.symbols a) (Token.symbols b) d.config.minRun
  d.tilingVerdict t (t.tiles.filterMap (SharedRun.ofSymbols? (candidate.text, a) (reference.text, b)))

def compareNgrams (d : Detector) (candidate reference : SourceFile) : Verdict :=
  let profile := Ngram.Profile.build (Token.symbols (d.tokenize candidate))
    (Token.symbols (d.tokenize reference)) d.config.width
  ⟨.ngram, profile.score, .ngram profile⟩

/-- The verdict of a method on two files. -/
def compare (d : Detector) (candidate reference : SourceFile) : Method → Except Failure Verdict
  | .tree => d.compareTrees candidate reference
  | .tiling => .ok <|
    match d.config.unit with
    | .lines => d.compareLines candidate reference
    | .symbols => d.compareSymbols candidate reference
  | .ngram => .ok (d.compareNgrams candidate reference)

def compareAll (d : Detector) (candidate reference : SourceFile) : Except Failure (List Verdict) :=
  Method.all.mapM (d.compare candidate reference)

end Detector
end SourceLikeness
