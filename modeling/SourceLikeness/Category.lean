/-!
# Categories

What a token can stand for.

* `Category.all` : the categories in their fixed order;
* `Category.label` : their names in settings and reports.
-/

namespace SourceLikeness

/-- The kinds of construct that are told apart in a program. -/
inductive Category where
  | int | double | char | pointer | call | assign | function | cast | math | return | conditional
  | loop | compare | logic | shift | control | struct | openBrace | closeBrace
deriving DecidableEq, Repr, Inhabited

namespace Category

/-- Every category, in the order in which they are checked and listed. -/
def all : List Category :=
  [int, double, char, pointer, call, assign, function, cast, math, .return, conditional, loop,
    compare, logic, shift, control, struct, openBrace, closeBrace]

def label : Category → String
  | int => "int"
  | double => "double"
  | char => "char"
  | pointer => "pointer"
  | call => "call"
  | assign => "assign"
  | function => "function"
  | cast => "cast"
  | math => "math"
  | .return => "return"
  | conditional => "conditional"
  | loop => "loop"
  | compare => "compare"
  | logic => "logic"
  | shift => "shift"
  | control => "control"
  | struct => "struct"
  | openBrace => "open_brace"
  | closeBrace => "close_brace"

end Category
end SourceLikeness
