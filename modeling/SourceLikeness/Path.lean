import SourceLikeness.Text.Blank

/-!
# Paths

Paths are texts whose steps are separated by `/`.

* `steps` : the steps that lead somewhere, that is, all but the empty ones and `.`;
* `fileName?` : the last of them, unless it leads upwards;
* `extension?` : what stands behind the last dot of the file name. A dot at its very start begins no
  extension;
* `join` : a name below a path.
-/

namespace SourceLikeness.Path

/-- The steps of a path, without those that stay where they are. -/
def steps (path : String) : List String :=
  ((Text.pieces (· == '/') path.toList).map String.ofList).filter fun s => s ≠ "" && s ≠ "."

/-- The name of what a path leads to, if its last step is a name. -/
def fileName? (path : String) : Option String :=
  (steps path).getLast?.filter (· ≠ "..")

/-- What stands behind the last dot of a file name. -/
def extensionOfName? (name : String) : Option String :=
  let reversed := name.toList.reverse
  let behind := reversed.takeWhile (· ≠ '.')
  match reversed.dropWhile (· ≠ '.') with
  | [] => none
  | [_] => none
  | _ :: _ => some (String.ofList behind.reverse)

def extension? (path : String) : Option String := (fileName? path).bind extensionOfName?

/-- The path of a name in a directory. A slash is put between them if there is none. -/
def join (directory name : String) : String :=
  if directory.toList = [] || directory.toList.getLast? = some '/' then directory ++ name
  else directory ++ "/" ++ name

end SourceLikeness.Path
