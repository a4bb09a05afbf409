import SourceLikeness.Proofs.Tree.Basic
import SourceLikeness.Tree.Parsed
import Mathlib.Data.List.Induction
import Mathlib.Data.List.Nodup

/-!
# From parsed trees to trees

The fields of the tree that is made of a parsed one, said without the steps in which they are set.

* `Parsed.induction` : induction along the children of a parsed node;
* `isConverted`, `kept?`, `keptChildren_eq` : what becomes of one child; `SameHead` : on what that depends;
* `grouped` : kept children put together under their names; `grouped_inj` : nothing gets lost by that;
  `names_induction` : induction along two lists of them under the same names;
* `toTree_leaf`, `toTree_inner` : the tree of a node without children, and of any other;
* `wellNamed_toTree` : no node of it has two fields of one name.
-/

namespace SourceLikeness.Parsed

/-- Induction over parsed trees, along the children. -/
theorem induction {motive : Parsed → Prop}
    (node : ∀ kind named field start stop children, (∀ c ∈ children, motive c) →
      motive (.node kind named field start stop children)) (t : Parsed) : motive t :=
  Parsed.rec (motive_1 := motive) (motive_2 := fun children => ∀ c ∈ children, motive c)
    node (List.forall_mem_nil _) (fun _ _ hc hcs => List.forall_mem_cons.2 ⟨hc, hcs⟩) t

def kind : Parsed → String
  | node kind _ _ _ _ _ => kind

def isNamed : Parsed → Bool
  | node _ named _ _ _ _ => named

def field? : Parsed → Option String
  | node _ _ field _ _ _ => field

variable {text : List Char}

/-! ## Kept children -/

/-- A child that is converted with all that is below it: it has a name and is no comment. -/
def isConverted (c : Parsed) : Bool := c.isNamed && !isComment c.kind

/-- What becomes of a child: nothing, or a tree with the name that it is held under. -/
def kept? (text : List Char) (c : Parsed) : Option (String × Tree) :=
  if c.isConverted then some (c.field?.getD childrenField, toTree text c)
  else if isComment c.kind then none
  else c.field?.map fun name => (name, .node c.kind [])

theorem kept?_of_isComment {c : Parsed} (h : isComment c.kind = true) : kept? text c = none := by
  rw [kept?, isConverted, h, Bool.not_true, Bool.and_false, if_neg Bool.false_ne_true, if_pos rfl]

theorem kept?_of_isConverted {c : Parsed} (h : c.isConverted = true) :
    kept? text c = some (c.field?.getD childrenField, toTree text c) := if_pos h

/-- Two nodes of which the same becomes, but for what is below them. -/
structure SameHead (c c' : Parsed) : Prop where
  kind_eq : c.kind = c'.kind
  isNamed_eq : c.isNamed = c'.isNamed
  field?_eq : c.field? = c'.field?

namespace SameHead
variable {c c' : Parsed} {text' : List Char}

theorem isConverted_eq (h : SameHead c c') : c.isConverted = c'.isConverted := by
  rw [isConverted, isConverted, h.kind_eq, h.isNamed_eq]

/-- A child that is not converted is kept or left out whatever is below it. -/
theorem kept?_eq (h : SameHead c c') (hc : c.isConverted = false) : kept? text c = kept? text' c' := by
  rw [kept?, kept?, ← h.isConverted_eq, hc, h.kind_eq, h.field?_eq]
  rfl

theorem name_kept (h : SameHead c c') : (kept? text c).map Prod.fst = (kept? text' c').map Prod.fst := by
  cases hc : c.isConverted with
  | true =>
    rw [kept?_of_isConverted hc, kept?_of_isConverted (h.isConverted_eq.symm.trans hc), h.field?_eq]
    rfl
  | false => rw [h.kept?_eq hc]

end SameHead

theorem kept_cons (text : List Char) (c : Parsed) (children : List Parsed) :
    (c :: children).filterMap (kept? text) = (kept? text c).toList ++ children.filterMap (kept? text) := by
  rw [List.filterMap_cons]
  cases kept? text c <;> rfl

theorem keptChildren_eq (text : List Char) (children : List Parsed) :
    keptChildren text children = children.filterMap (kept? text) := by
  induction children with
  | nil => rfl
  | cons c children ih =>
    obtain ⟨kind, named, field, start, stop, below⟩ := c
    rw [kept_cons, ← ih, kept?, isConverted, keptChildren.eq_def]
    dsimp only [Parsed.kind, isNamed, field?]
    rcases Bool.eq_false_or_eq_true (isComment kind) with hcomment | hcomment
    · simp only [hcomment, Bool.not_true, Bool.and_false, Bool.false_eq_true, if_false, if_true]
      rfl
    · cases named with
      | true =>
        simp only [hcomment, Bool.not_false, Bool.and_true, Bool.false_eq_true, if_false, if_true]
        rfl
      | false =>
        simp only [hcomment, Bool.false_and, Bool.false_eq_true, if_false]
        cases field <;> rfl

/-! ## Groups -/

section Groups
variable {name : String} {t u : Tree} {groups groups' : List (String × List Tree)} {nodes nodes' : List (String × Tree)}

theorem group_append (nodes : List (String × Tree)) (node : String × Tree) :
    group (nodes ++ [node]) = addToGroup node.1 node.2 (group nodes) := by
  rw [group, List.foldl_append]
  rfl

theorem names_addToGroup (name : String) (t : Tree) (groups : List (String × List Tree)) :
    (addToGroup name t groups).map Prod.fst =
      if name ∈ groups.map Prod.fst then groups.map Prod.fst else groups.map Prod.fst ++ [name] := by
  induction groups with
  | nil => rfl
  | cons g groups ih =>
    rw [addToGroup]
    by_cases hname : g.1 = name
    · rw [if_pos hname, if_pos (hname ▸ List.mem_cons_self)]
      rfl
    · rw [if_neg hname, List.map_cons, List.map_cons, ih]
      simp only [List.mem_cons, Ne.symm hname, false_or]
      split_ifs
      · rfl
      · rw [List.cons_append]

/-- No name has two groups. -/
theorem nodup_names_group (nodes : List (String × Tree)) : ((group nodes).map Prod.fst).Nodup := by
  induction nodes using List.reverseRecOn with
  | nil => exact List.nodup_nil
  | append_singleton nodes node ih =>
    rw [group_append, names_addToGroup]
    split_ifs with hmem
    · exact ih
    · exact ih.append (List.nodup_singleton _) fun name hname hlast => hmem (List.mem_singleton.1 hlast ▸ hname)

/-- Induction along two lists of children that are kept under the same names, from the end. -/
theorem names_induction {motive : List (String × Tree) → List (String × Tree) → Prop} (nil : motive [] [])
    (append_singleton : ∀ nodes nodes' name t u, nodes.map Prod.fst = nodes'.map Prod.fst → motive nodes nodes' →
      motive (nodes ++ [(name, t)]) (nodes' ++ [(name, u)])) (h : nodes.map Prod.fst = nodes'.map Prod.fst) :
    motive nodes nodes' := by
  induction nodes using List.reverseRecOn generalizing nodes' with
  | nil =>
    rw [List.map_eq_nil_iff.1 h.symm]
    exact nil
  | append_singleton nodes node ih =>
    rw [List.map_append] at h
    obtain ⟨nodes', last, rfl, hinit, hlast⟩ := List.map_eq_append_iff.1 h.symm
    obtain ⟨node', rest, rfl, hname, hrest⟩ := List.map_eq_cons_iff.1 hlast
    obtain ⟨name, u⟩ := node'
    obtain rfl : name = node.1 := hname
    rw [List.map_eq_nil_iff.1 hrest]
    exact append_singleton nodes nodes' node.1 node.2 u hinit.symm (ih hinit.symm)

/-- Which groups there are depends on the names only. -/
theorem names_group_congr (h : nodes.map Prod.fst = nodes'.map Prod.fst) :
    (group nodes).map Prod.fst = (group nodes').map Prod.fst := by
  refine names_induction (motive := fun nodes nodes' => (group nodes).map Prod.fst = (group nodes').map Prod.fst) rfl
    (fun nodes nodes' name t u _ ih => ?_) h
  rw [group_append, group_append, names_addToGroup, names_addToGroup, ih]

/-- What was put into a group last is found there. -/
theorem addToGroup_inj (hnames : groups.map Prod.fst = groups'.map Prod.fst)
    (h : addToGroup name t groups = addToGroup name u groups') : groups = groups' ∧ t = u := by
  induction groups generalizing groups' with
  | nil =>
    obtain rfl := List.map_eq_nil_iff.1 hnames.symm
    obtain ⟨-, htree⟩ := Prod.mk.inj (List.cons.inj h).1
    exact ⟨rfl, (List.cons.inj htree).1⟩
  | cons g groups ih =>
    obtain ⟨g', groups', rfl, hname, hnames⟩ := List.map_eq_cons_iff.1 hnames.symm
    rw [addToGroup, addToGroup, hname] at h
    split_ifs at h
    · obtain ⟨hhead, hrest⟩ := List.cons.inj h
      obtain ⟨-, hnodes⟩ := Prod.mk.inj hhead
      obtain ⟨hinit, hlast⟩ := List.append_inj' hnodes rfl
      exact ⟨congrArg₂ List.cons (Prod.ext hname.symm hinit) hrest, (List.cons.inj hlast).1⟩
    · obtain ⟨hhead, hrest⟩ := List.cons.inj h
      obtain ⟨rfl, htree⟩ := ih hnames.symm hrest
      exact ⟨congrArg (· :: groups) (Prod.ext hname.symm (Prod.mk.inj hhead).2), htree⟩

theorem nodes?_groupField (name : String) (ts : List Tree) : (groupField name ts).nodes? = some ts := by
  unfold groupField
  split
  · split_ifs <;> rfl
  · rfl

/-- Kept children put together under their names. -/
def grouped (nodes : List (String × Tree)) : List (String × Field) :=
  (group nodes).map fun g => (g.1, groupField g.1 g.2)

theorem names_grouped (nodes : List (String × Tree)) : (grouped nodes).map Prod.fst = (group nodes).map Prod.fst := by
  rw [grouped, List.map_map]
  rfl

/-- Of children under the same names, none gets lost. -/
theorem grouped_inj (hnames : nodes.map Prod.fst = nodes'.map Prod.fst) :
    grouped nodes = grouped nodes' ↔ nodes = nodes' := by
  refine ⟨fun h => ?_, congrArg grouped⟩
  have hfield : Function.Injective fun g : String × List Tree => (g.1, groupField g.1 g.2) := by
    intro g g' heq
    obtain ⟨hname, hfields⟩ := Prod.mk.inj heq
    have hnodes := congrArg Field.nodes? hfields
    rw [nodes?_groupField, nodes?_groupField] at hnodes
    exact Prod.ext hname (Option.some.inj hnodes)
  refine names_induction (motive := fun nodes nodes' => group nodes = group nodes' → nodes = nodes') (fun _ => rfl)
    (fun nodes nodes' name t u hnames ih hgroup => ?_) hnames (List.map_injective_iff.2 hfield h)
  rw [group_append, group_append] at hgroup
  obtain ⟨hbefore, rfl⟩ : group nodes = group nodes' ∧ t = u := addToGroup_inj (names_group_congr hnames) hgroup
  rw [ih hbefore]

end Groups

/-! ## The tree of a node -/

theorem setNamed_of_not_mem {α : Type} {name : String} {fs : List (String × α)} (x : α) (h : name ∉ fs.map Prod.fst) :
    setNamed name x fs = fs ++ [(name, x)] := by
  induction fs with
  | nil => rfl
  | cons f fs ih =>
    rw [List.map_cons, List.mem_cons, not_or] at h
    rw [setNamed, if_neg (Ne.symm h.1), ih h.2, List.cons_append]

/-- Fields of new names come behind the others. -/
theorem foldl_set (kind : String) (fs : List (String × Field)) (groups : List (String × List Tree))
    (h : (fs.map Prod.fst ++ groups.map Prod.fst).Nodup) :
    groups.foldl (fun t g => t.set g.1 (groupField g.1 g.2)) (Tree.node kind fs) =
      Tree.node kind (fs ++ groups.map fun g => (g.1, groupField g.1 g.2)) := by
  induction groups generalizing fs with
  | nil => rw [List.map_nil, List.append_nil]; rfl
  | cons g groups ih =>
    have hnew : g.1 ∉ fs.map Prod.fst := fun hmem =>
      (List.nodup_append.1 h).2.2 _ hmem _ List.mem_cons_self rfl
    have hset : (Tree.node kind fs).set g.1 (groupField g.1 g.2) = Tree.node kind (fs ++ [(g.1, groupField g.1 g.2)]) :=
      congrArg (Tree.node kind) (setNamed_of_not_mem _ hnew)
    rw [List.foldl_cons, hset, ih]
    · rw [List.append_assoc, List.map_cons]
      rfl
    · rw [List.map_append, List.append_assoc]
      exact h

/-- A named node without children holds its text as a value, if its place is a piece of the text. -/
theorem toTree_leaf (text : List Char) (kind : String) (named : Bool) (field : Option String) (start stop : Nat) :
    toTree text (node kind named field start stop []) = Tree.node kind (if named then
      (sliceBytes start stop text).toList.map fun leaf => (textField, .scalar (leafValue kind leaf)) else []) := by
  cases named with
  | false => rfl
  | true =>
    rw [toTree.eq_def]
    dsimp only
    cases sliceBytes start stop text <;> rfl

/-- Any other node holds what it keeps of its children. -/
theorem toTree_inner (text : List Char) (kind : String) (named : Bool) (field : Option String) (start stop : Nat)
    {children : List Parsed} (h : children ≠ []) : toTree text (node kind named field start stop children) =
      Tree.node kind (grouped (children.filterMap (kept? text))) := by
  have hleaf : (named && children.isEmpty) = false := by
    rw [List.isEmpty_eq_false_iff.2 h, Bool.and_false]
  rw [toTree.eq_def]
  dsimp only
  rw [hleaf, if_neg Bool.false_ne_true, foldl_set, keptChildren_eq, List.nil_append, grouped]
  exact nodup_names_group _

theorem mem_addToGroup {name : String} {t u : Tree} {groups : List (String × List Tree)} {g : String × List Tree}
    (hg : g ∈ addToGroup name t groups) (hu : u ∈ g.2) : u = t ∨ ∃ g' ∈ groups, u ∈ g'.2 := by
  induction groups with
  | nil =>
    obtain rfl := List.mem_singleton.1 hg
    exact Or.inl (List.mem_singleton.1 hu)
  | cons g' groups ih =>
    rw [addToGroup] at hg
    split_ifs at hg
    · rcases List.mem_cons.1 hg with rfl | hg
      · rcases List.mem_append.1 hu with hu | hu
        · exact Or.inr ⟨g', List.mem_cons_self, hu⟩
        · exact Or.inl (List.mem_singleton.1 hu)
      · exact Or.inr ⟨g, List.mem_cons_of_mem _ hg, hu⟩
    · rcases List.mem_cons.1 hg with rfl | hg
      · exact Or.inr ⟨g', List.mem_cons_self, hu⟩
      · exact (ih hg).imp_right fun ⟨g'', hmem, hu⟩ => ⟨g'', List.mem_cons_of_mem _ hmem, hu⟩

/-- What a group holds was kept. -/
theorem mem_of_mem_group {nodes : List (String × Tree)} {g : String × List Tree} {u : Tree} (hg : g ∈ group nodes)
    (hu : u ∈ g.2) : ∃ node ∈ nodes, node.2 = u := by
  induction nodes using List.reverseRecOn generalizing g with
  | nil => exact absurd hg List.not_mem_nil
  | append_singleton nodes node ih =>
    rw [group_append] at hg
    rcases mem_addToGroup hg hu with rfl | ⟨g', hg', hu⟩
    · exact ⟨node, List.mem_append_right _ (List.mem_singleton_self _), rfl⟩
    · obtain ⟨node', hmem, heq⟩ := ih hg' hu
      exact ⟨node', List.mem_append_left _ hmem, heq⟩

/-- No node of a tree that was parsed has two fields of one name. -/
theorem wellNamed_toTree (text : List Char) (p : Parsed) : (toTree text p).WellNamed := by
  induction p using Parsed.induction with
  | node kind named field start stop children ih =>
    by_cases hchildren : children = []
    · subst hchildren
      rw [toTree_leaf, Tree.wellNamed_node]
      cases named with
      | false => exact ⟨List.nodup_nil, List.forall_mem_nil _⟩
      | true =>
        cases sliceBytes start stop text with
        | none => exact ⟨List.nodup_nil, List.forall_mem_nil _⟩
        | some leaf => exact ⟨List.nodup_singleton _, List.forall_mem_singleton.2 (List.forall_mem_nil _)⟩
    · rw [toTree_inner text kind named field start stop hchildren, Tree.wellNamed_node, names_grouped]
      refine ⟨nodup_names_group _, fun f hf u hu => ?_⟩
      obtain ⟨g, hg, rfl⟩ := List.mem_map.1 hf
      rw [Field.nodes_of_nodes? (nodes?_groupField g.1 g.2)] at hu
      obtain ⟨node, hnode, rfl⟩ := mem_of_mem_group hg hu
      obtain ⟨c, hc, hkept⟩ := List.mem_filterMap.1 hnode
      rw [kept?] at hkept
      split_ifs at hkept
      · obtain rfl := Option.some.inj hkept
        exact ih c hc
      · obtain ⟨name, -, rfl⟩ := Option.map_eq_some_iff.1 hkept
        exact (Tree.wellNamed_node _ _).2 ⟨List.nodup_nil, List.forall_mem_nil _⟩

end SourceLikeness.Parsed
