import SourceLikeness.Failure
import SourceLikeness.FileTree

/-!
# Reading files

`readFile` : what the file at a path holds, or why that cannot be had.
-/

namespace SourceLikeness

def isADirectory : String := "Is a directory (os error 21)"

def readFile (store : Store) (path : String) : Except Failure FileContent :=
  match store path with
  | .ok (.file content) => .ok content
  | .ok (.directory _) => .error (.io isADirectory path)
  | .error .absent => .error (.notFound path)
  | .error (.unreadable reason) => .error (.io reason path)

end SourceLikeness
