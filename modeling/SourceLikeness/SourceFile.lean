import SourceLikeness.Language
import SourceLikeness.Store

/-!
# Source files

* `SourceFile.load` : a source file with its text; `SourceFile.tree` : its syntax tree;
* `collect` : the source files that some paths stand for.
-/

namespace SourceLikeness

/-- A source file. Its path decides its language; what a parser made of its text comes with it. -/
structure SourceFile where
  path : String
  text : List Char
  parsed : Option Parsed := none

namespace SourceFile

def load (store : Store) (path : String) : Except Failure SourceFile :=
  match readFile store path with
  | .error failure => .error failure
  | .ok content =>
    match String.fromUTF8? content.bytes with
    | none => .error (.decode path)
    | some text => .ok ⟨path, text.toList, content.parsed⟩

def language? (f : SourceFile) : Option Language := Language.ofPath? f.path

def dialect (f : SourceFile) : Dialect := Dialect.ofPath f.path

def tree (f : SourceFile) : Except Failure Tree :=
  match f.language?, f.parsed with
  | none, _ => .error (.unsupportedLanguage ((Path.extension? f.path).getD "<none>"))
  | some _, none => .error (.parse f.path "parser produced no tree")
  | some _, some parsed => .ok (parsed.toTree f.text)

end SourceFile

/-! ## Collecting -/

/-- The extensions of the files that are taken from a directory. -/
def sourceExtensions : List String :=
  ["c", "h", "cc", "cpp", "hpp", "cs", "java", "go", "js", "jsx", "mjs", "ts", "tsx", "rs", "py"]

def isSource (path : String) : Bool := (Path.extension? path).any (· ∈ sourceExtensions)

/-- The files that some paths stand for: a directory stands for the source files below it, and any
other path for itself. -/
def collect (store : Store) (paths : List String) : List String :=
  paths.flatMap fun path =>
    match store path with
    | .ok (.directory entries) => ((FileTree.directory entries).filesBelow path).filter isSource
    | _ => [path]

end SourceLikeness
