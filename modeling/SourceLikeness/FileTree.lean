import SourceLikeness.Path
import SourceLikeness.Tree.Parsed

/-!
# File trees

The files and directories below the working directory, as a value.

* `FileTree.put` : the tree with a file or a directory in it;
* `FileTree.find` : what a path leads to, or why it leads nowhere;
* `FileTree.filesBelow` : the files of a directory and of those below it, in order of name;
* `Store` : what each path leads to, which is all that is asked of a file system.

Nothing is known of what lies outside: a path that leaves the tree comes to an empty directory.
-/

namespace SourceLikeness

/-- What a file holds: its bytes, and what a parser makes of them if a parser is at hand. -/
structure FileContent where
  bytes : ByteArray
  parsed : Option Parsed := none

/-- A file or a directory. -/
inductive FileTree where
  | file (content : FileContent)
  | directory (entries : List (String × FileTree))

namespace FileTree

/-- What the system says of a path that goes on behind a file. -/
def notADirectory : String := "Not a directory (os error 20)"

inductive Missing where
  /-- There is no entry of a name. -/
  | absent
  | unreadable (reason : String)
deriving DecidableEq, Repr

/-- The directory without entries. -/
def empty : FileTree := directory []

instance : Inhabited FileTree := ⟨empty⟩

/-- The entries of a directory. A file has none. -/
def entries : FileTree → List (String × FileTree)
  | file _ => []
  | directory entries => entries

/-- The entries with one of them replaced or added. -/
def putEntry (name : String) (t : FileTree) : List (String × FileTree) → List (String × FileTree)
  | [] => [(name, t)]
  | (other, u) :: rest => if other = name then (name, t) :: rest else (other, u) :: putEntry name t rest

/-- The tree with something at the end of a path. Directories on the way are made. A directory that
is there already is kept. -/
def putAt (t : FileTree) : List String → FileTree → FileTree
  | [], here =>
    match t, here with
    | directory [], directory entries => directory entries
    | _, _ => t
  | name :: path, here =>
    directory (putEntry name (putAt t path ((here.entries.lookup name).getD empty)) here.entries)

def put (root : FileTree) (path : String) (t : FileTree) : FileTree := putAt t (Path.steps path) root

/-- Follows the pieces of a path from an entry on, the directories above it being given. -/
def follow (above : List FileTree) (here : FileTree) : List String → Except Missing FileTree
  | [] => .ok here
  | piece :: rest =>
    match here with
    | file _ => .error (.unreadable notADirectory)
    | directory entries =>
      if piece = "" || piece = "." then follow above here rest
      else if piece = ".." then
        match above with
        | [] => follow [] empty rest
        | parent :: above => follow above parent rest
      else match entries.lookup piece with
        | some t => follow (here :: above) t rest
        | none => .error .absent

/-- What a path leads to. An empty path leads nowhere. -/
def find (root : FileTree) (path : String) : Except Missing FileTree :=
  match path.toList with
  | [] => .error .absent
  | '/' :: rest => follow [] empty ((Text.pieces (· == '/') rest).map String.ofList)
  | text => follow [] root ((Text.pieces (· == '/') text).map String.ofList)

def insertByName {α : Type} (entry : String × α) : List (String × α) → List (String × α)
  | [] => [entry]
  | other :: rest =>
    if entry.1 < other.1 then entry :: other :: rest else other :: insertByName entry rest

def sortByName {α : Type} (entries : List (String × α)) : List (String × α) :=
  entries.foldr insertByName []

mutual

/-- The paths of the files below an entry. The entries of a directory come in order of name, and so
do the files of each. -/
def filesBelow (path : String) : FileTree → List String
  | file _ => [path]
  | directory entries => ((sortByName (filesOfEntries path entries)).map (·.2)).flatten
termination_by structural t => t

/-- The paths of the files below some entries, each with the entry's name. -/
def filesOfEntries (path : String) : List (String × FileTree) → List (String × List String)
  | [] => []
  | entry :: rest => filesOfEntry path entry :: filesOfEntries path rest
termination_by structural entries => entries

/-- The paths of the files below an entry of a directory. -/
def filesOfEntry (path : String) : String × FileTree → String × List String
  | (name, t) => (name, filesBelow (Path.join path name) t)
termination_by structural entry => entry

end

end FileTree

/-- What each path leads to. -/
abbrev Store := String → Except FileTree.Missing FileTree

end SourceLikeness
