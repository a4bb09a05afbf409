import SourceLikeness.Command.Run

/-!
# The program

The outer layer: it looks up what the arguments name, and prints what `respond` makes of it. No
parser is at hand here, so no file comes with a syntax tree.
-/

namespace SourceLikeness.Main
open Report (Paint)

/-- What the system says of a file that may not be read. -/
def permissionDenied : String := "Permission denied (os error 13)"

def reason : IO.Error → String
  | .inappropriateType .. => FileTree.notADirectory
  | .permissionDenied .. => permissionDenied
  | error => toString error

def missing : IO.Error → FileTree.Missing
  | .noFileOrDirectory .. => .absent
  | error => .unreadable (reason error)

/-- The shape of what is at a path: directories with their entries, and files without what they
hold. Of the entries of a directory, only directories and files count. -/
partial def outline (path : String) : IO FileTree := do
  let place ← IO.FS.realPath path
  match (← place.metadata).type with
  | .dir =>
    let mut entries := []
    for entry in ← place.readDir do
      let below := entry.path
      let kind := (← below.symlinkMetadata).type
      if kind matches .dir | .file then
        entries := entries ++ [(entry.fileName, ← outline below.toString)]
    return .directory entries
  | _ => return .file ⟨.empty, none⟩

def lookUp {α : Type} (find : String → IO α) (path : String) :
    IO (String × Except FileTree.Missing α) := do
  match ← (find path).toBaseIO with
  | .ok x => return (path, .ok x)
  | .error error => return (path, .error (missing error))

/-- The files and directories that some paths lead to. A file is read if it is named, or if it is a
source file of a directory. -/
def storeOf (paths : List String) : IO Store := do
  let outlines ← paths.mapM (lookUp outline)
  let shape : Store := fun path => (outlines.lookup path).getD (.error .absent)
  let files ← (paths ++ collect shape paths).mapM (lookUp fun path => IO.FS.readBinFile path)
  return fun path =>
    match shape path with
    | .ok (.directory entries) => .ok (.directory entries)
    | _ => ((files.lookup path).getD (.error .absent)).map fun bytes => .file ⟨bytes, none⟩

/-- Colours are shown on a terminal, unless the user wants none. -/
def paint : IO Paint := do
  return ⟨(← (← IO.getStdout).isTty) && (← IO.getEnv "NO_COLOR").isNone⟩

end SourceLikeness.Main

open SourceLikeness SourceLikeness.Main in
/-- Answers the arguments and ends with the number of the outcome. -/
def main (arguments : List String) : IO UInt32 := do
  let paths := match Invocation.ofArguments arguments with
    | .ok i => i.paths
    | .error _ => []
  let outcome := respond (← paint) (← storeOf paths) arguments
  IO.print outcome.output
  IO.eprint outcome.notes
  return UInt32.ofNat outcome.exit.code
