import SourceLikeness.Config.Document
import SourceLikeness.Store

/-!
# Reading configurations

* `Config.ofFile` : the configuration of a file that is named;
* `Config.discover` : that of a directory, which may have none;
* `Config.load` : that of a file if one is named, and else that of the working directory.
-/

namespace SourceLikeness

/-- What is said of a configuration file that is no text. -/
def notUtf8 : String := "stream did not contain valid UTF-8"

namespace Config

def fileName : String := "sleuth.toml"

def ofFile (store : Store) (path : String) : Except Failure Config :=
  match readFile store path with
  | .error failure => .error failure
  | .ok content =>
    match String.fromUTF8? content.bytes with
    | none => .error (.io notUtf8 path)
    | some text => parse path text.toList

/-- The configuration of a directory. It is the default if the directory has none. -/
def discover (store : Store) (directory : String) : Except Failure Config :=
  let path := Path.join directory fileName
  match store path with
  | .error .absent => .ok {}
  | _ => ofFile store path

/-- The configuration of a file, or of the working directory if no file is named. -/
def load (store : Store) : Option String → Except Failure Config
  | some path => ofFile store path
  | none => discover store "."

end Config

end SourceLikeness
