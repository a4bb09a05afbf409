import SourceLikeness.Decimal.Reader
import SourceLikeness.Tree.Basic

/-!
# Parsed trees

What a parser delivers for a text, and the syntax tree that is compared instead of it.

* `Parsed` : a node as a parser delivers it, with all its children and its place in the text;
* `Parsed.toTree` : the children of one field are put together under its name, comments and
  unnamed signs are left out, and a leaf gets its text as a value;
* `leafValue` : the value of a leaf, which its kind decides before its text.
-/

namespace SourceLikeness

/-- A node of a parser. An unnamed node is a sign or a keyword. Its place is given in bytes. -/
inductive Parsed where
  | node (kind : String) (named : Bool) (field : Option String) (start stop : Nat)
    (children : List Parsed)

instance : Inhabited Parsed := ⟨.node "" false none 0 0 []⟩

namespace Parsed

/-- The field that a child without one is put under. -/
def childrenField : String := "children"

def textField : String := "text"

/-! ## Slices by bytes -/

/-- The text behind its first `n` bytes, unless they end inside a character. -/
def dropBytes : Nat → List Char → Option (List Char)
  | 0, text => some text
  | _ + 1, [] => none
  | n + 1, c :: rest => if c.utf8Size ≤ n + 1 then dropBytes (n + 1 - c.utf8Size) rest else none

/-- The first `n` bytes of a text, unless they end inside a character. -/
def takeBytes : Nat → List Char → Option (List Char)
  | 0, _ => some []
  | _ + 1, [] => none
  | n + 1, c :: rest =>
    if c.utf8Size ≤ n + 1 then (takeBytes (n + 1 - c.utf8Size) rest).map (c :: ·) else none

/-- The text between two places that are given in bytes. Between a place and itself there is the
empty text, even inside a character. -/
def sliceBytes (start stop : Nat) (text : List Char) : Option (List Char) :=
  if start = stop then some [] else (dropBytes start text).bind (takeBytes (stop - start))

/-! ## Leaves -/

def occursIn (part : List Char) : List Char → Bool
  | [] => part = []
  | c :: rest => part.isPrefixOf (c :: rest) || occursIn part rest

def isNumeric (kind : String) : Bool :=
  occursIn "integer".toList kind.toList || occursIn "float".toList kind.toList || kind = "number"

/-- The number that a text stands for. Underscores in it are passed over. -/
def numberOf? (text : List Char) : Option Scalar :=
  let digits := text.filter (· ≠ '_')
  match Decimal.readInt? digits with
  | some n => some (.int n)
  | none => (Decimal.readFloat? digits).map .float

/-- The value of a leaf that is no number. -/
def wordValue (kind : String) (text : List Char) : Scalar :=
  if kind = "true" then .bool true
  else if kind = "false" then .bool false
  else if kind ∈ ["none", "null", "undefined"] then .none
  else if kind = "boolean_literal" then .bool (text = "true".toList)
  else .text (String.ofList text)

def leafValue (kind : String) (text : List Char) : Scalar :=
  match if isNumeric kind then numberOf? text else none with
  | some number => number
  | none => wordValue kind text

/-! ## Conversion -/

def isComment (kind : String) : Bool := "comment".toList.isSuffixOf kind.toList

/-- Puts a node behind the others of its name. A new name comes last. -/
def addToGroup (name : String) (t : Tree) : List (String × List Tree) → List (String × List Tree)
  | [] => [(name, [t])]
  | (other, nodes) :: rest =>
    if other = name then (other, nodes ++ [t]) :: rest
    else (other, nodes) :: addToGroup name t rest

def group (nodes : List (String × Tree)) : List (String × List Tree) :=
  nodes.foldl (fun groups node => addToGroup node.1 node.2 groups) []

/-- What the nodes of one name are held as. A single node stands alone if it has a field. -/
def groupField (name : String) (nodes : List Tree) : Field :=
  match nodes with
  | [only] => if name = childrenField then .children [only] else .child only
  | _ => .children nodes

mutual

/-- The syntax tree of a node of a parser. -/
def toTree (text : List Char) : Parsed → Tree
  | node kind named _ start stop children =>
    let groups := group (keptChildren text children)
    let t := groups.foldl (fun t g => t.set g.1 (groupField g.1 g.2)) (Tree.node kind [])
    if named && children.isEmpty then
      match sliceBytes start stop text with
      | some leaf => t.set textField (.scalar (leafValue kind leaf))
      | none => t
    else t
termination_by structural node => node

/-- The children that are kept, each with the name it is held under. An unnamed child is kept for the
sake of its field, and without what is below it. -/
def keptChildren (text : List Char) : List Parsed → List (String × Tree)
  | [] => []
  | child :: rest =>
    let following := keptChildren text rest
    match child with
    | node kind named field _ _ _ =>
      if isComment kind then following
      else if named then (field.getD childrenField, toTree text child) :: following
      else match field with
        | some name => (name, Tree.node kind []) :: following
        | none => following
termination_by structural children => children

end

end Parsed
end SourceLikeness
