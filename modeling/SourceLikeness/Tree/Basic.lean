/-!
# Syntax trees

A node has a kind and named fields. A field holds a value, one node or a list of nodes.

* `Scalar` : the values; `Scalar.kind`, `Scalar.sameValue`;
* `Tree`, `Field` : nodes and what their fields hold;
* `Tree.set`, `Tree.field?` : writing and reading a field by its name;
* `Tree.size` : the number of nodes.
-/

namespace SourceLikeness

/-! ## Values -/

/-- The value of a leaf. -/
inductive Scalar where
  | text (value : String)
  | int (value : Int)
  | float (value : Float)
  | bool (value : Bool)
  | none
deriving Repr, Inhabited

/-- The kinds of values. Whole numbers and others are of one kind. -/
inductive ScalarKind where
  | text | number | bool | none
deriving DecidableEq, Repr

def ScalarKind.name : ScalarKind → String
  | text => "text"
  | number => "number"
  | bool => "bool"
  | none => "none"

namespace Scalar

def kind : Scalar → ScalarKind
  | text _ => .text
  | int _ => .number
  | float _ => .number
  | bool _ => .bool
  | none => .none

/-- Whether two values are equal. A whole number equals another number if that is the number next to
it; a number that is not a number equals nothing. -/
def sameValue : Scalar → Scalar → Bool
  | text a, text b => a == b
  | int a, int b => a == b
  | float a, float b => a == b
  | bool a, bool b => a == b
  | none, none => true
  | int a, float b => Float.ofInt a == b
  | float a, int b => Float.ofInt b == a
  | _, _ => false

end Scalar

/-! ## Trees -/

mutual

/-- A node with its kind and its fields in order. -/
inductive Tree where
  | node (kind : String) (fields : List (String × Field))

/-- What a field of a node holds. -/
inductive Field where
  | scalar (value : Scalar)
  | child (node : Tree)
  | children (nodes : List Tree)

end

instance : Inhabited Tree := ⟨.node "" []⟩
instance : Inhabited Field := ⟨.scalar .none⟩

/-- The value that stands under a name in a list of named values. -/
def fieldNamed? {α : Type} (name : String) : List (String × α) → Option α
  | [] => none
  | (other, value) :: rest => if other = name then some value else fieldNamed? name rest

/-- A list of named values in which a value stands under a name. An earlier value gives way to it,
and a new name comes last. -/
def setNamed {α : Type} (name : String) (value : α) : List (String × α) → List (String × α)
  | [] => [(name, value)]
  | (other, earlier) :: rest =>
    if other = name then (name, value) :: rest else (other, earlier) :: setNamed name value rest

namespace Tree

def kind : Tree → String
  | node kind _ => kind

def fields : Tree → List (String × Field)
  | node _ fields => fields

def field? (t : Tree) (name : String) : Option Field := fieldNamed? name t.fields

def set (t : Tree) (name : String) (value : Field) : Tree :=
  node t.kind (setNamed name value t.fields)

end Tree

/-! ## Size -/

mutual

def Tree.size : Tree → Nat
  | .node _ fields => Tree.sizeOfFields fields + 1
termination_by structural t => t

def Tree.sizeOfFields : List (String × Field) → Nat
  | [] => 0
  | field :: rest => Tree.sizeOfNamed field + Tree.sizeOfFields rest
termination_by structural fields => fields

def Tree.sizeOfNamed : String × Field → Nat
  | (_, field) => field.size
termination_by structural field => field

def Field.size : Field → Nat
  | .scalar _ => 0
  | .child node => node.size
  | .children nodes => Tree.sizeOfNodes nodes
termination_by structural field => field

def Tree.sizeOfNodes : List Tree → Nat
  | [] => 0
  | node :: rest => node.size + Tree.sizeOfNodes rest
termination_by structural nodes => nodes

end

end SourceLikeness
