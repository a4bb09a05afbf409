import SourceLikeness.Tree.Basic
import Mathlib.Data.List.Basic

/-!
# What holds of every node

* `Field.nodes`, `Tree.induction` : the nodes that a field holds, and induction along them;
* `Tree.Each` : a property of a tree and of all nodes below it;
* `Tree.WellNamed`, `Tree.NanFree` : no node has two fields of one name, or a value that is not a number;
* `fieldNamed?_eq_some_iff` : what is found under a name, if no name occurs twice;
* `Scalar.sameValue_comm`, `Scalar.sameValue_self`, `Scalar.kind_eq_of_sameValue` : equality of values.
-/

namespace SourceLikeness

/-! ## Nodes -/

/-- The nodes that a field holds. -/
def Field.nodes : Field → List Tree
  | .scalar _ => []
  | .child t => [t]
  | .children ts => ts

/-- The nodes that a field holds, unless it holds a value. A single node counts as a list of one. -/
def Field.nodes? : Field → Option (List Tree)
  | .scalar _ => none
  | .child t => some [t]
  | .children ts => some ts

@[simp] theorem Field.nodes_scalar (x : Scalar) : (Field.scalar x).nodes = [] := rfl

@[simp] theorem Field.nodes_child (t : Tree) : (Field.child t).nodes = [t] := rfl

@[simp] theorem Field.nodes_children (ts : List Tree) : (Field.children ts).nodes = ts := rfl

theorem Field.nodes_of_nodes? {f : Field} {ts : List Tree} (h : f.nodes? = some ts) : f.nodes = ts := by
  cases f with
  | scalar _ => cases h
  | child _ => exact Option.some.inj h
  | children _ => exact Option.some.inj h

theorem Field.eq_scalar_of_nodes? {f : Field} (h : f.nodes? = none) : ∃ x, f = .scalar x := by
  cases f with
  | scalar x => exact ⟨x, rfl⟩
  | child _ => cases h
  | children _ => cases h

namespace Tree

/-- Induction over trees, along the nodes that their fields hold. -/
theorem induction {motive : Tree → Prop}
    (node : ∀ kind fields, (∀ f ∈ fields, ∀ t ∈ f.2.nodes, motive t) → motive (.node kind fields)) (t : Tree) :
    motive t :=
  Tree.rec (motive_1 := motive) (motive_2 := fun f => ∀ t ∈ f.nodes, motive t)
    (motive_3 := fun fields => ∀ f ∈ fields, ∀ t ∈ f.2.nodes, motive t)
    (motive_4 := fun ts => ∀ t ∈ ts, motive t) (motive_5 := fun f => ∀ t ∈ f.2.nodes, motive t)
    node (fun _ => List.forall_mem_nil _) (fun _ ht => List.forall_mem_singleton.2 ht) (fun _ hts => hts)
    (List.forall_mem_nil _) (fun _ _ hf hfs => List.forall_mem_cons.2 ⟨hf, hfs⟩)
    (List.forall_mem_nil _) (fun _ _ ht hts => List.forall_mem_cons.2 ⟨ht, hts⟩) (fun _ _ hf => hf) t

/-- A tree and all nodes below it have a property. -/
inductive Each (p : Tree → Prop) : Tree → Prop
  | intro {t : Tree} : p t → (∀ f ∈ t.fields, ∀ u ∈ f.2.nodes, Each p u) → Each p t

/-- The names of the fields, in order. -/
def names (t : Tree) : List String := t.fields.map Prod.fst

/-- No node has two fields of one name. -/
def WellNamed (t : Tree) : Prop := t.Each fun u => u.names.Nodup

/-- No field holds a value that is not a number. -/
def NanFree (t : Tree) : Prop := t.Each fun u => ∀ name x, (name, Field.scalar (.float x)) ∈ u.fields → x.isNaN = false

theorem Each.here {p : Tree → Prop} {t : Tree} (h : t.Each p) : p t := by
  obtain ⟨here, -⟩ := h
  exact here

theorem Each.beneath {p : Tree → Prop} {t u : Tree} {f : String × Field} (h : t.Each p) (hf : f ∈ t.fields)
    (hu : u ∈ f.2.nodes) : u.Each p := by
  obtain ⟨-, beneath⟩ := h
  exact beneath f hf u hu

@[simp] theorem wellNamed_node (kind : String) (fields : List (String × Field)) :
    (node kind fields).WellNamed ↔
      (fields.map Prod.fst).Nodup ∧ ∀ f ∈ fields, ∀ u ∈ f.2.nodes, u.WellNamed :=
  ⟨fun h => ⟨h.here, fun _ hf _ hu => h.beneath hf hu⟩, fun h => .intro h.1 h.2⟩

@[simp] theorem nanFree_node (kind : String) (fields : List (String × Field)) :
    (node kind fields).NanFree ↔ (∀ name x, (name, Field.scalar (.float x)) ∈ fields → x.isNaN = false) ∧
      ∀ f ∈ fields, ∀ u ∈ f.2.nodes, u.NanFree :=
  ⟨fun h => ⟨h.here, fun _ hf _ hu => h.beneath hf hu⟩, fun h => .intro h.1 h.2⟩

end Tree

/-! ## Fields of a name -/

section Named
variable {α : Type} {name : String} {fs : List (String × α)}

theorem fieldNamed?_eq_none_iff : fieldNamed? name fs = none ↔ name ∉ fs.map Prod.fst := by
  induction fs with
  | nil => simp [fieldNamed?]
  | cons f fs ih =>
    rw [fieldNamed?, List.map_cons, List.mem_cons, not_or]
    split_ifs with heq
    · simp [heq]
    · rw [ih, and_iff_right (Ne.symm heq)]

/-- What stands under a name, if no name occurs twice. -/
theorem fieldNamed?_eq_some_iff (h : (fs.map Prod.fst).Nodup) {x : α} :
    fieldNamed? name fs = some x ↔ (name, x) ∈ fs := by
  induction fs with
  | nil => simp [fieldNamed?]
  | cons f fs ih =>
    obtain ⟨other, y⟩ := f
    rw [List.map_cons, List.nodup_cons] at h
    rw [fieldNamed?, List.mem_cons, Prod.mk.injEq]
    split_ifs with heq
    · subst heq
      have hrest : (other, x) ∉ fs := fun hx => h.1 (List.mem_map.2 ⟨_, hx, rfl⟩)
      simp only [Option.some.injEq, true_and, hrest, or_false, eq_comm]
    · rw [ih h.2]
      simp only [Ne.symm heq, false_and, false_or]

end Named

/-! ## Values -/

namespace Scalar
open Float.Model (UnpackedFloat)

theorem then_compare_eq_iff {e d : Int} {m n : Nat} : (compare e d).then (compare m n) = .eq ↔ e = d ∧ m = n := by
  rw [Ordering.then_eq_eq]
  constructor
  · exact fun h => ⟨Std.LawfulEqCmp.eq_of_compare h.1, Std.LawfulEqCmp.eq_of_compare h.2⟩
  · rintro ⟨rfl, rfl⟩
    exact ⟨Std.ReflCmp.compare_self, Std.ReflCmp.compare_self⟩

/-- If a number equals another, then also the other way round. -/
theorem compare_eq_of_compare_eq {x y : UnpackedFloat} (h : x.compare y = some .eq) : y.compare x = some .eq := by
  cases x with
  | notANumber => cases h
  | infinity s =>
    cases y with
    | infinity t => cases s <;> cases t <;> first | rfl | cases h
    | _ => cases s <;> cases h
  | zero s =>
    cases y with
    | zero t => rfl
    | infinity t => cases t <;> cases h
    | finite t m e hm => cases t <;> cases h
    | notANumber => cases h
  | finite s m e hm =>
    cases y with
    | finite t n d hn =>
      cases s <;> cases t
      · have heq := then_compare_eq_iff.1 (Ordering.swap_eq_eq.1 (Option.some.inj h))
        exact congrArg (fun c => some c.swap) (then_compare_eq_iff.2 ⟨heq.1.symm, heq.2.symm⟩)
      · cases h
      · cases h
      · have heq := then_compare_eq_iff.1 (Option.some.inj h)
        exact congrArg some (then_compare_eq_iff.2 ⟨heq.1.symm, heq.2.symm⟩)
    | infinity t => cases s <;> cases t <;> cases h
    | zero t => cases s <;> cases h
    | notANumber => cases s <;> cases h

theorem compare_of_isNaN_eq_false {x : UnpackedFloat} (h : x.isNaN = false) : x.compare x = some .eq := by
  cases x with
  | notANumber => cases h
  | infinity s => cases s <;> rfl
  | zero s => rfl
  | finite s m e hm =>
    have heq : (compare e e).then (compare m m) = .eq := then_compare_eq_iff.2 ⟨rfl, rfl⟩
    cases s
    · exact congrArg (fun c => some c.swap) heq
    · exact congrArg some heq

theorem float_beq_iff (x y : Float) : (x == y) = true ↔ x.toModel.unpack.compare y.toModel.unpack = some .eq := by
  change (x.toModel.unpack.compare y.toModel.unpack == some .eq) = true ↔ _
  exact beq_iff_eq

theorem float_beq_comm (x y : Float) : (x == y) = (y == x) := by
  rw [Bool.eq_iff_iff, float_beq_iff, float_beq_iff]
  exact ⟨compare_eq_of_compare_eq, compare_eq_of_compare_eq⟩

theorem float_beq_self {x : Float} (h : x.isNaN = false) : (x == x) = true :=
  (float_beq_iff x x).2 (compare_of_isNaN_eq_false h)

theorem sameValue_comm (x y : Scalar) : x.sameValue y = y.sameValue x := by
  cases x with
  | text a =>
    cases y with
    | text b => exact Bool.beq_comm
    | _ => rfl
  | int a =>
    cases y with
    | int b => exact Bool.beq_comm
    | _ => rfl
  | float a =>
    cases y with
    | float b => exact float_beq_comm a b
    | _ => rfl
  | bool a =>
    cases y with
    | bool b => exact Bool.beq_comm
    | _ => rfl
  | none => cases y <;> rfl

theorem sameValue_self {x : Scalar} (h : ∀ y, x = .float y → y.isNaN = false) : x.sameValue x = true := by
  cases x with
  | text value => exact beq_self_eq_true value
  | int value => exact beq_self_eq_true value
  | float value => exact float_beq_self (h value rfl)
  | bool value => exact beq_self_eq_true value
  | none => rfl

/-- Values of different kinds are not equal. -/
theorem kind_eq_of_sameValue {x y : Scalar} (h : x.sameValue y = true) : x.kind = y.kind := by
  cases x with
  | text a =>
    cases y with
    | text b => rfl
    | _ => cases h
  | int a =>
    cases y with
    | int b => rfl
    | float b => rfl
    | _ => cases h
  | float a =>
    cases y with
    | int b => rfl
    | float b => rfl
    | _ => cases h
  | bool a =>
    cases y with
    | bool b => rfl
    | _ => cases h
  | none =>
    cases y with
    | none => rfl
    | _ => cases h

end Scalar
end SourceLikeness
