import SourceLikeness.Path

/-!
# Languages and dialects

The language of a file decides whether its syntax tree can be had, the dialect decides how its text
is read. Both follow from the extension of its path.
-/

namespace SourceLikeness

/-- The languages whose syntax trees can be compared. -/
inductive Language where
  | rust | python | typescript
deriving DecidableEq, Repr

namespace Language

def name : Language → String
  | rust => "rust"
  | python => "python"
  | typescript => "typescript"

def ofExtension? (extension : String) : Option Language :=
  if extension = "rs" then some rust
  else if extension ∈ ["py", "pyw"] then some python
  else if extension ∈ ["ts", "tsx", "js", "jsx", "mjs", "cjs"] then some typescript
  else none

def ofPath? (path : String) : Option Language := (Path.extension? path).bind ofExtension?

end Language

/-- The two ways of reading a program's text. -/
inductive Dialect where
  | cFamily
  | python
deriving DecidableEq, Repr

namespace Dialect

def name : Dialect → String
  | cFamily => "c-family"
  | python => "python"

/-- The dialect of a file. All that is not Python reads like C. -/
def ofPath (path : String) : Dialect :=
  match Path.extension? path with
  | some extension => if extension ∈ ["py", "pyw"] then python else cFamily
  | none => cFamily

end Dialect
end SourceLikeness
