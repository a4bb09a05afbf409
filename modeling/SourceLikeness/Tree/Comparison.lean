import SourceLikeness.Tree.Basic

/-!
# Comparing trees

Two trees are gone through together, and what is visited and what differs is counted.

* A pair of nodes is one visit. If their kinds differ it is one mismatch and nothing below is
  visited.
* Otherwise the fields of one name are compared, and a field without a partner is a mismatch. Nodes
  are compared as a pair, lists of nodes pairwise from the left; a node counts as a list of one
  beside a list, and anything else beside a field of another shape is a mismatch.
* `ScalarPolicy` and `SequencePolicy` say what is asked of values and of lists of unequal length.

The pairs still to be visited are kept in a list (`turn`, `walk`), so that deep trees need no deep
stack. Each visit takes a node of the first tree for good (`pendingSize_turn`), so there are no more
visits than that tree has nodes.
-/

namespace SourceLikeness

inductive ScalarPolicy where
  /-- They are of one kind. Only a mismatch counts as a visit. -/
  | loose
  | strict
deriving DecidableEq, Repr, Inhabited

inductive SequencePolicy where
  /-- Each node without a partner is a mismatch. -/
  | penalize
  /-- Nodes without a partner are passed over. -/
  | truncate
deriving DecidableEq, Repr, Inhabited

/-- How trees are compared. -/
structure CompareOptions where
  scalars : ScalarPolicy := .loose
  sequences : SequencePolicy := .penalize
deriving DecidableEq, Repr, Inhabited

/-- How much was visited and how much of it differs. -/
structure Tally where
  visited : Nat
  mismatches : Nat
deriving DecidableEq, Repr, Inhabited

namespace Tally

/-- Nothing was visited. -/
def zero : Tally := ⟨0, 0⟩

/-- Visits without a mismatch. -/
def visits (n : Nat) : Tally := ⟨n, 0⟩

def misses (n : Nat) : Tally := ⟨n, n⟩

def add (s t : Tally) : Tally := ⟨s.visited + t.visited, s.mismatches + t.mismatches⟩

instance : Add Tally := ⟨add⟩

end Tally

/-- The outcome of a comparison. -/
structure Comparison where
  /-- Something was visited and nothing differs. -/
  identical : Bool
  visited : Nat
  mismatches : Nat
deriving DecidableEq, Repr, Inhabited

namespace Comparison

/-- What is counted at once, and the pairs of nodes that are left to visit. -/
abbrev Step := Tally × List (Tree × Tree)

def both (s t : Step) : Step := (s.1 + t.1, s.2 ++ t.2)

def scalars (o : CompareOptions) (x y : Scalar) : Tally :=
  match o.scalars with
  | .loose => if x.kind = y.kind then .zero else .misses 1
  | .strict => if x.sameValue y then .visits 1 else .misses 1

def sequences (o : CompareOptions) (xs ys : List Tree) : Step :=
  let unpaired := max xs.length ys.length - min xs.length ys.length
  (if o.sequences = .penalize then .misses unpaired else .zero, xs.zip ys)

def fields (o : CompareOptions) : Field → Field → Step
  | .scalar x, .scalar y => (scalars o x y, [])
  | .child x, .child y => (.zero, [(x, y)])
  | .children xs, .children ys => sequences o xs ys
  | .child x, .children ys => sequences o [x] ys
  | .children xs, .child y => sequences o xs [y]
  | _, _ => (.misses 1, [])

def namedFields (o : CompareOptions) (b : Tree) : List (String × Field) → Step
  | [] => (.zero, [])
  | (name, x) :: rest =>
    let here := match b.field? name with
      | some y => fields o x y
      | none => (.misses 1, [])
    both here (namedFields o b rest)

/-- The number of fields of `b` whose names `a` does not have. -/
def unmatched (a b : Tree) : Nat := (b.fields.filter fun f => (a.field? f.1).isNone).length

def visit (o : CompareOptions) (a b : Tree) : Step :=
  if a.kind ≠ b.kind then (.misses 1, [])
  else both (.visits 1 + .misses (unmatched a b), []) (namedFields o b a.fields)

/-- Visits the next of the pairs that are left. Those that come up go before the others, the last one first. -/
def turn (o : CompareOptions) : Step → Option Step
  | (_, []) => none
  | (tally, (a, b) :: pending) =>
    let (counted, more) := visit o a b
    some (tally + counted, more.reverse ++ pending)

/-! ## The pairs that are left -/

/-- The number of nodes on the first side of some pairs. -/
def pendingSize : List (Tree × Tree) → Nat
  | [] => 0
  | (a, _) :: rest => a.size + pendingSize rest

theorem pendingSize_append (ps qs : List (Tree × Tree)) :
    pendingSize (ps ++ qs) = pendingSize ps + pendingSize qs := by
  induction ps with
  | nil => exact (Nat.zero_add _).symm
  | cons p ps ih => rw [List.cons_append, pendingSize, pendingSize, ih, Nat.add_assoc]

theorem pendingSize_reverse (ps : List (Tree × Tree)) : pendingSize ps.reverse = pendingSize ps := by
  induction ps with
  | nil => rfl
  | cons p ps ih =>
    rw [List.reverse_cons, pendingSize_append, ih, pendingSize, pendingSize, pendingSize, Nat.add_zero, Nat.add_comm]

theorem pendingSize_zip (xs ys : List Tree) : pendingSize (xs.zip ys) ≤ Tree.sizeOfNodes xs := by
  induction xs generalizing ys with
  | nil => exact Nat.le_refl 0
  | cons x xs ih =>
    cases ys with
    | nil => exact Nat.zero_le _
    | cons y ys => exact Nat.add_le_add_left (ih ys) x.size

theorem pendingSize_fields (o : CompareOptions) (x y : Field) : pendingSize (fields o x y).2 ≤ x.size := by
  cases x with
  | scalar x => cases y <;> exact Nat.zero_le _
  | child x =>
    cases y with
    | scalar y => exact Nat.zero_le _
    | child y => exact Nat.le_refl _
    | children ys => exact pendingSize_zip [x] ys
  | children xs =>
    cases y with
    | scalar y => exact Nat.zero_le _
    | child y => exact pendingSize_zip xs [y]
    | children ys => exact pendingSize_zip xs ys

theorem pendingSize_namedFields (o : CompareOptions) (b : Tree) (fs : List (String × Field)) :
    pendingSize (namedFields o b fs).2 ≤ Tree.sizeOfFields fs := by
  induction fs with
  | nil => exact Nat.le_refl 0
  | cons f fs ih =>
    obtain ⟨name, x⟩ := f
    rw [namedFields, both, pendingSize_append]
    refine Nat.add_le_add ?_ ih
    cases b.field? name with
    | none => exact Nat.zero_le _
    | some y => exact pendingSize_fields o x y

theorem pendingSize_visit (o : CompareOptions) (a b : Tree) : pendingSize (visit o a b).2 < a.size := by
  obtain ⟨kind, fs⟩ := a
  rw [visit]
  split
  · exact Nat.succ_pos _
  · exact Nat.lt_succ_of_le (pendingSize_namedFields o b fs)

/-- A turn takes a node away from those that are left. -/
theorem pendingSize_turn {o : CompareOptions} {s s' : Step} (h : turn o s = some s') :
    pendingSize s'.2 < pendingSize s.2 := by
  obtain ⟨tally, _ | ⟨⟨a, b⟩, pending⟩⟩ := s
  · cases h
  · cases h
    rw [pendingSize_append, pendingSize_reverse, pendingSize]
    exact Nat.add_lt_add_right (pendingSize_visit o a b) _

/-- Takes turns until no pair is left. -/
def walk (o : CompareOptions) (s : Step) : Tally :=
  match _h : turn o s with
  | none => s.1
  | some s' => walk o s'
termination_by pendingSize s.2
decreasing_by exact pendingSize_turn _h

/-- Compares two trees. -/
def ofTrees (o : CompareOptions) (a b : Tree) : Comparison :=
  let tally := walk o (.zero, [(a, b)])
  { identical := 0 < tally.visited && tally.mismatches == 0
    visited := tally.visited
    mismatches := tally.mismatches }

/-- What does not differ, in percent of what was visited. It is 0 if nothing was visited. -/
def similarity (c : Comparison) : Float :=
  if c.visited = 0 then 0 else (1 - c.mismatches.toFloat / c.visited.toFloat) * 100

end Comparison
end SourceLikeness
