/-!
# Failures

Why something could not be done.

* `Failure.message` : the reason in words;
* `Failure.isInput` : whether what was given is to blame, and not what was asked of it;
* `Exit` : how a run ends, and `Exit.code` the number that stands for it.
-/

namespace SourceLikeness

inductive Failure where
  | io (reason path : String)
  /-- Nothing is there. -/
  | notFound (path : String)
  /-- A file is no UTF-8 text. -/
  | decode (path : String)
  /-- There are no syntax trees for files with an extension. -/
  | unsupportedLanguage (extension : String)
  /-- A file has no syntax tree. -/
  | parse (path reason : String)
  | alphabet (reason : String)
  | config (path reason : String)
deriving DecidableEq, Repr

namespace Failure

def unknownPath : String := "<unknown>"

def message : Failure → String
  | io reason path => "I/O error: " ++ reason ++ " (path: " ++ path ++ ")"
  | notFound path => "File not found: " ++ path
  | decode path => "File is not valid UTF-8: " ++ path
  | unsupportedLanguage extension => "Unsupported language: " ++ extension
  | parse path reason => "Failed to parse " ++ path ++ ": " ++ reason
  | alphabet reason => "Invalid symbol alphabet: " ++ reason
  | config path reason => "Invalid config " ++ path ++ ": " ++ reason

/-- What the system said, where a failure comes from it. -/
def systemReason? : Failure → Option String
  | io reason _ => some reason
  | _ => none

/-- Whether what was given is to blame. -/
def isInput : Failure → Bool
  | io _ _ => true
  | notFound _ => true
  | decode _ => true
  | unsupportedLanguage _ => true
  | parse _ _ => false
  | alphabet _ => false
  | config _ _ => false

/-- The failure behind what was being done, outermost first, with what the system said at the end. -/
def chain (contexts : List String) (f : Failure) : String :=
  ": ".intercalate (contexts ++ [f.message] ++ f.systemReason?.toList)

end Failure

inductive Exit where
  | success
  | failure
  /-- What was given could not be used. -/
  | invalidInput
  /-- A score is above the threshold. -/
  | thresholdExceeded
deriving DecidableEq, Repr

namespace Exit

def code : Exit → Nat
  | success => 0
  | failure => 1
  | invalidInput => 2
  | thresholdExceeded => 3

def ofFailure (f : Failure) : Exit := if f.isInput then invalidInput else failure

end Exit
end SourceLikeness
