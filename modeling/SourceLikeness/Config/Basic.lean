import SourceLikeness.Failure
import SourceLikeness.Tokenizer.Settings
import SourceLikeness.Tree.Comparison

/-!
# Configuration

What a user may choose: how tiles, n-grams and trees are compared, how text is tokenized, and how
results are printed. Everything has a default.
-/

namespace SourceLikeness

inductive TilingUnit where
  | lines
  | symbols
deriving DecidableEq, Repr, Inhabited

def TilingUnit.name : TilingUnit → String
  | lines => "lines"
  | symbols => "symbols"

inductive OutputFormat where
  | terminal
  | json
deriving DecidableEq, Repr, Inhabited

def OutputFormat.name : OutputFormat → String
  | terminal => "terminal"
  | json => "json"

def ScalarPolicy.name : ScalarPolicy → String
  | loose => "loose"
  | strict => "strict"

def SequencePolicy.name : SequencePolicy → String
  | penalize => "penalize"
  | truncate => "truncate"

/-- What a user chose. Lists of type keywords that are not given are those of the dialect. -/
structure Config where
  minRun : Nat := 4
  unit : TilingUnit := .lines
  width : Nat := 4
  tree : CompareOptions := {}
  intTypes : Option (List String) := none
  charTypes : Option (List String) := none
  floatTypes : Option (List String) := none
  alphabet : Alphabet := .default
  format : OutputFormat := .terminal

namespace Config

def settings (c : Config) (dialect : Dialect) : Tokenizer.Settings :=
  let s := Tokenizer.Settings.ofDialect dialect
  { dialect := dialect
    alphabet := c.alphabet
    intTypes := c.intTypes.getD s.intTypes
    charTypes := c.charTypes.getD s.charTypes
    floatTypes := c.floatTypes.getD s.floatTypes }

/-- The first reason not to use a configuration: a fault of the settings for the C family. -/
def fault? (c : Config) : Option Tokenizer.Settings.Fault := (c.settings .cFamily).fault?

end Config

/-- The failure that a fault of tokenizer settings is. -/
def Tokenizer.Settings.Fault.toFailure (fault : Tokenizer.Settings.Fault) : Failure :=
  .alphabet fault.message

end SourceLikeness
