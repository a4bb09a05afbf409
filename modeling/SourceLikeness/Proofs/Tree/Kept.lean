import SourceLikeness.Proofs.Distinct
import SourceLikeness.Proofs.Tree.Conversion

/-!
# What is kept of a parsed tree

Converting a parsed tree puts the children of a node together under their names. Nothing gets lost by that, and nothing
comes twice.

* `Kept` : the nodes that are kept, each with the place at which it stands in the parsed tree;
* `toTree_cases` : what a node is made of;
* `nodesUnder_toTree`, `names_toTree` : what a node holds under a name, and in which order the names come;
* `size_toTree` : there is one node for each place that is kept;
* `toTree_keeps` : these together.
-/

namespace SourceLikeness

/-- The nodes that a node holds under a name, in order. -/
def Tree.nodesUnder (t : Tree) (name : String) : List Tree := ((t.field? name).map Field.nodes).getD []

namespace Parsed

def children : Parsed → List Parsed
  | node _ _ _ _ _ children => children

/-! ## Kept nodes -/

/-- A child that is kept: it is no comment, and it is named or has a field. -/
def isKept (c : Parsed) : Bool := !isComment c.kind && (c.isNamed || c.field?.isSome)

/-- The name that a child is held under. -/
def heldName (c : Parsed) : String := c.field?.getD childrenField

/-- What becomes of a child that is kept. An unnamed one stands alone. -/
def converted (text : List Char) (c : Parsed) : Tree := if c.isNamed then toTree text c else .node c.kind []

/-- The nodes that are kept of a tree, with their places: the numbers of the children on the way to them. The root is
kept, and so is a child that `isKept` of a node that is kept, unless that node is itself an unnamed child. -/
inductive Kept (root : Parsed) : List Nat → Parsed → Prop
  | root : Kept root [] root
  | child {place : List Nat} {parent c : Parsed} {i : Nat} : Kept root place parent →
      place = [] ∨ parent.isNamed = true → parent.children[i]? = some c → c.isKept = true → Kept root (place ++ [i]) c

variable {text : List Char} {p q c : Parsed} {place : List Nat} {i : Nat}

theorem kept?_eq (text : List Char) (c : Parsed) :
    kept? text c = if c.isKept then some (c.heldName, converted text c) else none := by
  rw [kept?, isConverted, isKept, heldName, converted]
  cases isComment c.kind with
  | true => rw [Bool.not_true, Bool.and_false, Bool.false_and, if_neg Bool.false_ne_true, if_pos rfl]; rfl
  | false =>
    cases c.isNamed with
    | true => rfl
    | false => cases c.field? <;> rfl

/-- What is kept of some children, each under its name. -/
theorem filterMap_kept? (text : List Char) (cs : List Parsed) :
    cs.filterMap (kept? text) = (cs.filter isKept).map fun c => (c.heldName, converted text c) := by
  induction cs with
  | nil => rfl
  | cons c cs ih =>
    rw [kept_cons, kept?_eq, ih, List.filter_cons]
    cases c.isKept <;> rfl

/-! ## What is held under a name -/

section Groups
variable {name : String} {nodes : List (String × Tree)}

theorem fieldNamed?_map {α β : Type} (f : String → α → β) (name : String) (gs : List (String × α)) :
    fieldNamed? name (gs.map fun g => (g.1, f g.1 g.2)) = (fieldNamed? name gs).map (f name) := by
  induction gs with
  | nil => rfl
  | cons g gs ih =>
    rw [List.map_cons, fieldNamed?, fieldNamed?, ih]
    split_ifs with h
    · rw [h]; rfl
    · rfl

theorem fieldNamed?_addToGroup (name other : String) (t : Tree) (gs : List (String × List Tree)) :
    (fieldNamed? name (addToGroup other t gs)).getD [] =
      (fieldNamed? name gs).getD [] ++ if other = name then [t] else [] := by
  induction gs with
  | nil =>
    change (if other = name then some [t] else none).getD [] = _
    split_ifs <;> rfl
  | cons g gs ih =>
    rw [addToGroup]
    by_cases hother : g.1 = other
    · rw [if_pos hother, fieldNamed?, fieldNamed?, hother]
      split_ifs
      · rfl
      · exact (List.append_nil _).symm
    · rw [if_neg hother, fieldNamed?, fieldNamed?]
      by_cases hname : g.1 = name
      · rw [if_pos hname, if_pos hname, if_neg fun h => hother (hname.trans h.symm), List.append_nil]
      · rw [if_neg hname, if_neg hname, ih]

/-- A group holds the nodes of its name in order. -/
theorem fieldNamed?_group (name : String) (nodes : List (String × Tree)) :
    (fieldNamed? name (group nodes)).getD [] = (nodes.filter (·.1 = name)).map Prod.snd := by
  induction nodes using List.reverseRecOn with
  | nil => rfl
  | append_singleton nodes node ih =>
    rw [group_append, fieldNamed?_addToGroup, ih, List.filter_append, List.map_append, List.filter_singleton]
    by_cases h : node.1 = name
    · rw [if_pos h, decide_eq_true h]
      rfl
    · rw [if_neg h, decide_eq_false h]
      rfl

/-- The groups come in the order of their first nodes. -/
theorem names_group (nodes : List (String × Tree)) : (group nodes).map Prod.fst = (nodes.map Prod.fst).eraseDups := by
  induction nodes using List.reverseRecOn with
  | nil => rfl
  | append_singleton nodes node ih =>
    rw [group_append, names_addToGroup, ih, List.map_append, List.map_singleton, eraseDups_append_singleton]
    simp only [List.mem_eraseDups]

theorem nodesUnder_grouped (kind : String) (nodes : List (String × Tree)) (name : String) :
    (Tree.node kind (grouped nodes)).nodesUnder name = (nodes.filter (·.1 = name)).map Prod.snd := by
  rw [← fieldNamed?_group, Tree.nodesUnder, Tree.field?, Tree.fields, grouped, fieldNamed?_map, Option.map_map]
  cases fieldNamed? name (group nodes) with
  | none => rfl
  | some ts => exact Field.nodes_of_nodes? (nodes?_groupField name ts)

end Groups

/-- A node is made of its children that are kept, put together by name, or it has none and a text instead. -/
theorem toTree_cases (text : List Char) (p : Parsed) :
    toTree text p = .node p.kind (grouped ((p.children.filter isKept).map fun c => (c.heldName, converted text c))) ∨
      p.children = [] ∧ ∃ leaf, toTree text p = .node p.kind [(textField, .scalar leaf)] := by
  obtain ⟨kind, named, field, start, stop, cs⟩ := p
  rw [children, Parsed.kind]
  by_cases hcs : cs = []
  · subst hcs
    rw [toTree_leaf]
    cases named with
    | false => exact Or.inl rfl
    | true =>
      rw [if_pos rfl]
      cases sliceBytes start stop text with
      | none => exact Or.inl rfl
      | some leaf => exact Or.inr ⟨rfl, _, rfl⟩
  · rw [toTree_inner _ _ _ _ _ _ hcs, filterMap_kept?]
    exact Or.inl rfl

/-- A node holds under each name the children of that name that are kept, in their order. -/
theorem nodesUnder_toTree (text : List Char) (p : Parsed) (name : String) :
    (toTree text p).nodesUnder name = ((p.children.filter isKept).filter (·.heldName = name)).map (converted text) := by
  rcases toTree_cases text p with h | ⟨hcs, leaf, h⟩
  · rw [h, nodesUnder_grouped, List.filter_map, List.map_map]
    rfl
  · rw [h, hcs]
    change (Option.map Field.nodes (if textField = name then _ else none)).getD [] = []
    split_ifs <;> rfl

/-- The fields that hold nodes come in the order of the first children that are kept in them. -/
theorem names_toTree (text : List Char) (p : Parsed) :
    ((toTree text p).fields.filter fun f => f.2.nodes?.isSome).map Prod.fst =
      ((p.children.filter isKept).map heldName).eraseDups := by
  have hall : ∀ nodes, ∀ f ∈ grouped nodes, f.2.nodes?.isSome = true := by
    intro nodes f hf
    obtain ⟨g, -, rfl⟩ := List.mem_map.1 hf
    rw [nodes?_groupField]
    rfl
  rcases toTree_cases text p with h | ⟨hcs, leaf, h⟩
  · rw [h, Tree.fields, List.filter_eq_self.2 (hall _), names_grouped, names_group, List.map_map]
    rfl
  · rw [h, hcs]
    rfl

/-! ## How many nodes there are -/

theorem sizeOfNodes_append (ts us : List Tree) :
    Tree.sizeOfNodes (ts ++ us) = Tree.sizeOfNodes ts + Tree.sizeOfNodes us := by
  induction ts with
  | nil => exact (Nat.zero_add _).symm
  | cons t ts ih => rw [List.cons_append, Tree.sizeOfNodes, Tree.sizeOfNodes, ih, Nat.add_assoc]

theorem size_groupField (name : String) (ts : List Tree) : (groupField name ts).size = Tree.sizeOfNodes ts := by
  unfold groupField
  split
  · split_ifs <;> rfl
  · rfl

/-- The fields that are made of some groups. -/
theorem sizeOfFields_addToGroup (name : String) (t : Tree) (gs : List (String × List Tree)) :
    Tree.sizeOfFields ((addToGroup name t gs).map fun g => (g.1, groupField g.1 g.2)) =
      Tree.sizeOfFields (gs.map fun g => (g.1, groupField g.1 g.2)) + t.size := by
  induction gs with
  | nil =>
    change (groupField name [t]).size + 0 = 0 + t.size
    rw [size_groupField, Tree.sizeOfNodes, Tree.sizeOfNodes]
    omega
  | cons g gs ih =>
    rw [addToGroup]
    split_ifs
    · rw [List.map_cons, List.map_cons, Tree.sizeOfFields, Tree.sizeOfFields, Tree.sizeOfNamed, Tree.sizeOfNamed,
        size_groupField, size_groupField, sizeOfNodes_append, Tree.sizeOfNodes, Tree.sizeOfNodes]
      omega
    · rw [List.map_cons, List.map_cons, Tree.sizeOfFields, Tree.sizeOfFields, ih, Nat.add_assoc]

theorem sizeOfFields_grouped (nodes : List (String × Tree)) :
    Tree.sizeOfFields (grouped nodes) = Tree.sizeOfNodes (nodes.map Prod.snd) := by
  induction nodes using List.reverseRecOn with
  | nil => rfl
  | append_singleton nodes node ih =>
    rw [grouped, group_append, sizeOfFields_addToGroup, ← grouped, ih, List.map_append, sizeOfNodes_append]
    rfl

/-- A node is one, and so is each node below it. -/
theorem size_toTree_eq (text : List Char) (p : Parsed) :
    (toTree text p).size = Tree.sizeOfNodes ((p.children.filter isKept).map (converted text)) + 1 := by
  rcases toTree_cases text p with h | ⟨hcs, leaf, h⟩
  · rw [h, Tree.size, sizeOfFields_grouped, List.map_map]
    rfl
  · rw [h, hcs]
    rfl

/-! ## The places that are kept -/

mutual

/-- The places of a tree at which a node is kept, in order. -/
def keptPlaces : Parsed → List (List Nat)
  | node _ _ _ _ _ children => [] :: keptPlacesFrom 0 children
termination_by structural p => p

/-- The same below a node, for its children from a number on. -/
def keptPlacesFrom (first : Nat) : List Parsed → List (List Nat)
  | [] => []
  | c :: rest =>
    (if c.isKept then (if c.isNamed then keptPlaces c else [[]]).map (first :: ·) else []) ++
      keptPlacesFrom (first + 1) rest
termination_by structural cs => cs

end

/-- The places that are kept of a child that is kept, seen from that child. -/
def ownPlaces (c : Parsed) : List (List Nat) := if c.isNamed then keptPlaces c else [[]]

theorem keptPlaces_eq (p : Parsed) : keptPlaces p = [] :: keptPlacesFrom 0 p.children := by
  cases p
  rfl

theorem keptPlacesFrom_cons (first : Nat) (c : Parsed) (cs : List Parsed) : keptPlacesFrom first (c :: cs) =
    (if c.isKept then (ownPlaces c).map (first :: ·) else []) ++ keptPlacesFrom (first + 1) cs := rfl

theorem mem_keptPlacesFrom {first : Nat} {cs : List Parsed} : place ∈ keptPlacesFrom first cs ↔
    ∃ i c rest, cs[i]? = some c ∧ c.isKept = true ∧ rest ∈ ownPlaces c ∧ place = (first + i) :: rest := by
  induction cs generalizing first with
  | nil => simp [keptPlacesFrom]
  | cons d cs ih =>
    rw [keptPlacesFrom_cons, List.mem_append, ih]
    constructor
    · rintro (h | ⟨i, c, rest, hc, hkept, hrest, rfl⟩)
      · split_ifs at h with hd
        · obtain ⟨rest, hrest, rfl⟩ := List.mem_map.1 h
          exact ⟨0, d, rest, rfl, hd, hrest, rfl⟩
        · exact absurd h List.not_mem_nil
      · exact ⟨i + 1, c, rest, hc, hkept, hrest, by rw [Nat.add_assoc, Nat.add_comm 1 i]⟩
    · rintro ⟨_ | i, c, rest, hc, hkept, hrest, rfl⟩
      · obtain rfl : d = c := Option.some.inj hc
        rw [if_pos hkept]
        exact Or.inl (List.mem_map_of_mem hrest)
      · exact Or.inr ⟨i, c, rest, hc, hkept, hrest, by rw [Nat.add_assoc, Nat.add_comm 1 i]⟩

theorem nodup_keptPlacesFrom {first : Nat} {cs : List Parsed} (h : ∀ c ∈ cs, (keptPlaces c).Nodup) :
    (keptPlacesFrom first cs).Nodup := by
  induction cs generalizing first with
  | nil => exact List.nodup_nil
  | cons c cs ih =>
    obtain ⟨hc, hcs⟩ := List.forall_mem_cons.1 h
    have hown : (ownPlaces c).Nodup := by
      rw [ownPlaces]
      split_ifs
      · exact hc
      · exact List.nodup_singleton _
    rw [keptPlacesFrom_cons]
    refine List.Nodup.append ?_ (ih hcs) fun place hplace hrest => ?_
    · split_ifs
      · exact hown.map (List.cons_injective)
      · exact List.nodup_nil
    -- The places of this child start with its number, those of the others with a greater one.
    · obtain ⟨i, -, rest, -, -, -, rfl⟩ := mem_keptPlacesFrom.1 hrest
      split_ifs at hplace
      · obtain ⟨rest', -, heq⟩ := List.mem_map.1 hplace
        have := (List.cons.inj heq).1
        omega
      · exact List.not_mem_nil hplace

theorem nodup_keptPlaces (p : Parsed) : (keptPlaces p).Nodup := by
  induction p using Parsed.induction with
  | node kind named field start stop cs ih =>
    rw [keptPlaces_eq, List.nodup_cons]
    refine ⟨fun h => ?_, nodup_keptPlacesFrom ih⟩
    obtain ⟨_, _, _, -, -, -, heq⟩ := mem_keptPlacesFrom.1 h
    exact List.cons_ne_nil _ _ heq.symm

theorem length_keptPlacesFrom {first : Nat} {cs : List Parsed}
    (h : ∀ c ∈ cs, (keptPlaces c).length = (toTree text c).size) :
    (keptPlacesFrom first cs).length = Tree.sizeOfNodes ((cs.filter isKept).map (converted text)) := by
  induction cs generalizing first with
  | nil => rfl
  | cons c cs ih =>
    obtain ⟨hc, hcs⟩ := List.forall_mem_cons.1 h
    have hown : (ownPlaces c).length = (converted text c).size := by
      rw [ownPlaces, converted]
      split_ifs
      · exact hc
      · rfl
    rw [keptPlacesFrom_cons, List.length_append, ih hcs, List.filter_cons]
    split_ifs
    · rw [List.length_map, hown, List.map_cons, Tree.sizeOfNodes]
    · exact Nat.zero_add _

/-- There is one node for each place that is kept. -/
theorem length_keptPlaces (text : List Char) (p : Parsed) : (keptPlaces p).length = (toTree text p).size := by
  induction p using Parsed.induction with
  | node kind named field start stop cs ih =>
    rw [keptPlaces_eq, List.length_cons, size_toTree_eq, children, length_keptPlacesFrom ih]

/-! ## Places from the root down -/

theorem kept_nil_iff : Kept p [] q ↔ q = p := by
  refine ⟨fun h => ?_, fun h => h ▸ .root⟩
  generalize hplace : ([] : List Nat) = place at h
  cases h with
  | root => rfl
  | child => exact absurd hplace.symm (List.append_ne_nil_of_right_ne_nil _ (List.cons_ne_nil _ _))

/-- What is kept below a child is kept below its parent. -/
theorem Kept.beneath (hi : p.children[i]? = some c) (hc : c.isKept = true) (hnamed : c.isNamed = true)
    (h : Kept c place q) : Kept p (i :: place) q := by
  have hroot : Kept p [i] c := .child .root (Or.inl rfl) hi hc
  induction h with
  | root => exact hroot
  | @child place parent d j hparent hnext hj hd ih =>
    refine .child ih (Or.inr ?_) hj hd
    rcases hnext with rfl | hnext
    · rw [kept_nil_iff.1 hparent]
      exact hnamed
    · exact hnext

/-- A place below a node leads through one of its children. -/
theorem Kept.exists_child (h : Kept p place q) : place = [] ∨ ∃ i rest c, place = i :: rest ∧
    p.children[i]? = some c ∧ c.isKept = true ∧ (rest = [] ∧ q = c ∨ c.isNamed = true ∧ Kept c rest q) := by
  induction h with
  | root => exact Or.inl rfl
  | @child place parent d j hparent hnext hj hd ih =>
    refine Or.inr ?_
    rcases ih with rfl | ⟨i, rest, c, rfl, hi, hc, hrest⟩
    · rw [kept_nil_iff.1 hparent] at hj
      exact ⟨j, [], d, rfl, hj, hd, Or.inl ⟨rfl, rfl⟩⟩
    · have hnamed : parent.isNamed = true := hnext.resolve_left (List.cons_ne_nil i rest)
      refine ⟨i, rest ++ [j], c, rfl, hi, hc, Or.inr ?_⟩
      rcases hrest with ⟨rfl, rfl⟩ | ⟨hcnamed, hkept⟩
      · exact ⟨hnamed, .child .root (Or.inl rfl) hj hd⟩
      · exact ⟨hcnamed, .child hkept (Or.inr hnamed) hj hd⟩

theorem mem_keptPlaces : place ∈ keptPlaces p ↔ ∃ q, Kept p place q := by
  induction p using Parsed.induction generalizing place with
  | node kind named field start stop cs ih =>
    rw [keptPlaces_eq, List.mem_cons, mem_keptPlacesFrom]
    constructor
    · rintro (rfl | ⟨i, c, rest, hi, hc, hrest, rfl⟩)
      · exact ⟨_, .root⟩
      · rw [Nat.zero_add]
        rw [ownPlaces] at hrest
        split_ifs at hrest with hnamed
        · obtain ⟨q, hq⟩ := (ih c (List.mem_of_getElem? hi)).1 hrest
          exact ⟨q, hq.beneath hi hc hnamed⟩
        · rw [List.mem_singleton.1 hrest]
          exact ⟨c, .child .root (Or.inl rfl) hi hc⟩
    · rintro ⟨q, hq⟩
      rcases hq.exists_child with rfl | ⟨i, rest, c, rfl, hi, hc, hrest⟩
      · exact Or.inl rfl
      · refine Or.inr ⟨i, c, rest, hi, hc, ?_, by rw [Nat.zero_add]⟩
        rw [ownPlaces]
        split_ifs with hnamed
        · rcases hrest with ⟨rfl, -⟩ | ⟨-, hkept⟩
          · exact (ih c (List.mem_of_getElem? hi)).2 ⟨c, .root⟩
          · exact (ih c (List.mem_of_getElem? hi)).2 ⟨q, hkept⟩
        · rcases hrest with ⟨rfl, -⟩ | ⟨hcnamed, -⟩
          · exact List.mem_singleton_self _
          · exact absurd hcnamed hnamed

theorem size_toTree (text : List Char) (p : Parsed) :
    (toTree text p).size = {place | ∃ q, Kept p place q}.ncard := by
  rw [← length_keptPlaces]
  exact (ncard_eq_length (nodup_keptPlaces p) fun place => mem_keptPlaces.symm).symm

/-- **Nothing of what is kept gets lost or comes twice.** The tree that is made of a parsed one has as many nodes as are
kept. Under each name a node holds the children of that name that are kept, in their order; its names come in the order
of the first child that is kept under them, and no node has two fields of one name. -/
theorem toTree_keeps (text : List Char) (p : Parsed) :
    (toTree text p).size = {place | ∃ q, Kept p place q}.ncard ∧
      (∀ name, (toTree text p).nodesUnder name =
        ((p.children.filter isKept).filter (·.heldName = name)).map (converted text)) ∧
      ((toTree text p).fields.filter fun f => f.2.nodes?.isSome).map Prod.fst =
        ((p.children.filter isKept).map heldName).eraseDups ∧
      (toTree text p).WellNamed :=
  ⟨size_toTree text p, nodesUnder_toTree text p, names_toTree text p, wellNamed_toTree text p⟩

/-- A field whose name is that of the children without one is put together with them. -/
example : toTree [] (node "call" true none 0 0 [node "name" true none 0 0 [], node "(" false none 0 0 [],
    node "+" false (some "operator") 0 0 [node "sign" true none 0 0 []], node "block_comment" true none 0 0 [],
    node "list" true (some "children") 0 0 []]) =
    .node "call" [("children", .children [.node "name" [("text", .scalar (.text ""))],
      .node "list" [("text", .scalar (.text ""))]]), ("operator", .child (.node "+" []))] := rfl

end Parsed
end SourceLikeness
