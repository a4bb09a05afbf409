import SourceLikeness.Proofs.Tree.Conversion
import SourceLikeness.Proofs.Tree.Related
import SourceLikeness.Proofs.WorkingCopy.Source

/-!
# Trees that differ in the text of their leaves

* `SameShape`, `Placed` : parsed trees that differ in the places of their nodes only, and places that are pieces of a
  text;
* `leaves` : the leaves that get a value, each with its kind and text; `unlike` : two of them of which one is read as a
  number and the other is not;
* `kind_leafValue_eq_iff` : only these get values of different kinds;
* `cost_grouped` : children that are kept under the same names are compared one by one;
* `SameShape.agrees`, `mismatches_of_sameShape` : so a loose comparison counts the pairs of leaves that are unlike, and
  nothing else.
-/

namespace SourceLikeness.Parsed
open Comparison

/-- Two parsed trees that differ in the places of their nodes only. -/
inductive SameShape : Parsed → Parsed → Prop
  | node {kind : String} {named : Bool} {field : Option String} {start stop start' stop' : Nat} {cs cs' : List Parsed} :
      List.Forall₂ SameShape cs cs' →
        SameShape (node kind named field start stop cs) (node kind named field start' stop' cs')

/-- The place of each node is a piece of the text, from one character to another. -/
inductive Placed (text : List Char) : Parsed → Prop
  | node {kind : String} {named : Bool} {field : Option String} {start stop : Nat} {cs : List Parsed} (u v w : List Char) :
      text = u ++ (v ++ w) → start = (utf8 u).length → stop = start + (utf8 v).length → (∀ c ∈ cs, Placed text c) →
        Placed text (node kind named field start stop cs)

mutual

/-- The leaves that get a value, each with its kind and its text, in order. -/
def leaves (text : List Char) : Parsed → List (String × List Char)
  | node kind named _ start stop children =>
    if children.isEmpty then if named then (sliceBytes start stop text).toList.map (kind, ·) else []
    else leavesBelow text children
termination_by structural node => node

def leavesBelow (text : List Char) : List Parsed → List (String × List Char)
  | [] => []
  | c :: rest => (if c.isConverted then leaves text c else []) ++ leavesBelow text rest
termination_by structural children => children

end

/-- One of two leaves is read as a number, and the other one is not. -/
def unlike (l l' : String × List Char) : Bool := isNumeric l.1 && ((numberOf? l.2).isSome != (numberOf? l'.2).isSome)

/-- The number of leaves in one list that are unlike their partner in another. -/
def unlikes (ls ls' : List (String × List Char)) : Nat := (ls.zip ls').countP fun p => unlike p.1 p.2

variable {text text' : List Char} {a b : Parsed}

/-! ## Places -/

theorem dropBytes_append (u v : List Char) : dropBytes (utf8 u).length (u ++ v) = some v := by
  induction u with
  | nil => exact dropBytes.eq_1 v
  | cons c u ih =>
    have hpos := c.utf8Size_pos
    obtain ⟨n, hn⟩ := Nat.exists_eq_add_of_lt (show 0 < c.utf8Size + (utf8 u).length by omega)
    rw [length_utf8_cons, hn, Nat.zero_add, List.cons_append, dropBytes, if_pos (by omega),
      show n + 1 - c.utf8Size = (utf8 u).length by omega, ih]

theorem takeBytes_append (v w : List Char) : takeBytes (utf8 v).length (v ++ w) = some v := by
  induction v with
  | nil => exact takeBytes.eq_1 w
  | cons c v ih =>
    have hpos := c.utf8Size_pos
    obtain ⟨n, hn⟩ := Nat.exists_eq_add_of_lt (show 0 < c.utf8Size + (utf8 v).length by omega)
    rw [length_utf8_cons, hn, Nat.zero_add, List.cons_append, takeBytes, if_pos (by omega),
      show n + 1 - c.utf8Size = (utf8 v).length by omega, ih]
    rfl

/-- The piece of the text at a place between two characters. -/
theorem sliceBytes_append (u v w : List Char) :
    sliceBytes (utf8 u).length ((utf8 u).length + (utf8 v).length) (u ++ (v ++ w)) = some v := by
  rw [sliceBytes]
  split_ifs with heq
  · rw [length_utf8_eq_zero_iff.1 (show (utf8 v).length = 0 by omega)]
  · rw [dropBytes_append, Option.bind_some, Nat.add_sub_cancel_left, takeBytes_append]

/-! ## Values -/

/-- A number in digits is of the kind of numbers. -/
theorem kind_of_numberOf? {v : List Char} {x : Scalar} (h : numberOf? v = some x) : x.kind = .number := by
  rw [numberOf?] at h
  split at h
  · obtain rfl := Option.some.inj h
    rfl
  · obtain ⟨y, -, rfl⟩ := Option.map_eq_some_iff.1 h
    rfl

theorem kind_wordValue_congr (kind : String) (v v' : List Char) : (wordValue kind v).kind = (wordValue kind v').kind := by
  rw [wordValue, wordValue]
  split_ifs <;> rfl

/-- A leaf of a numeric kind that is not read as a number is a text. -/
theorem kind_wordValue_of_isNumeric {kind : String} (h : isNumeric kind = true) (v : List Char) :
    (wordValue kind v).kind = .text := by
  have hnone : ∀ word ∈ ["true", "false", "none", "null", "undefined", "boolean_literal"], isNumeric word = false := by
    decide
  have hwords : ∀ word ∈ ["true", "false", "none", "null", "undefined", "boolean_literal"], kind ≠ word := by
    intro word hword heq
    rw [heq, hnone word hword] at h
    exact Bool.false_ne_true h
  rw [wordValue, if_neg (hwords "true" (by decide)), if_neg (hwords "false" (by decide)), if_neg,
    if_neg (hwords "boolean_literal" (by decide))]
  · rfl
  · have hthree : ∀ word ∈ ["none", "null", "undefined"],
        word ∈ ["true", "false", "none", "null", "undefined", "boolean_literal"] := by decide
    exact fun hmem => hwords kind (hthree kind hmem) rfl

/-- Two leaves of one kind get values of one kind, unless only one of them is read as a number. -/
theorem kind_leafValue_eq_iff (kind : String) (v v' : List Char) :
    (leafValue kind v).kind = (leafValue kind v').kind ↔ unlike (kind, v) (kind, v') = false := by
  rw [leafValue, leafValue, unlike]
  cases hkind : isNumeric kind with
  | false => exact iff_of_true (kind_wordValue_congr kind v v') rfl
  | true =>
    have hword := kind_wordValue_of_isNumeric hkind
    cases hv : numberOf? v with
    | none =>
      cases hv' : numberOf? v' with
      | none => exact iff_of_true (kind_wordValue_congr kind v v') rfl
      | some x =>
        refine iff_of_false (fun heq => ?_) Bool.false_ne_true.symm
        exact absurd ((hword v).symm.trans (heq.trans (kind_of_numberOf? hv'))) (by decide)
    | some x =>
      cases hv' : numberOf? v' with
      | none =>
        refine iff_of_false (fun heq => ?_) Bool.false_ne_true.symm
        exact absurd ((hword v').symm.trans (heq.symm.trans (kind_of_numberOf? hv))) (by decide)
      | some x' => exact iff_of_true ((kind_of_numberOf? hv).trans (kind_of_numberOf? hv').symm) rfl

/-! ## Kept children side by side -/

section Grouped
variable {o : CompareOptions}

/-- Fields of the same names, none of them twice, are compared one by one. -/
theorem sharedCost_eq_zip (o : CompareOptions) {fs gs : List (String × Field)} (hnames : fs.map Prod.fst = gs.map Prod.fst)
    (hnodup : (fs.map Prod.fst).Nodup) :
    sharedCost o fs gs = ((fs.zip gs).map fun p => fieldCost o p.1.2 p.2.2).sum := by
  induction fs generalizing gs with
  | nil => rfl
  | cons f fs ih =>
    obtain ⟨g, gs, rfl, hname, hnames'⟩ := List.map_eq_cons_iff.1 hnames.symm
    have hgs : ((g :: gs).map Prod.fst).Nodup := hnames ▸ hnodup
    rw [List.map_cons, List.nodup_cons] at hnodup
    have hfirst : namedCost o f (g :: gs) = fieldCost o f.2 g.2 := by
      rw [namedCost_eq o f hgs, fieldNamed?, if_pos hname]
      rfl
    have hrest : sharedCost o fs (g :: gs) = sharedCost o fs gs := by
      rw [sharedCost_eq_sum, sharedCost_eq_sum]
      refine congrArg List.sum (List.map_congr_left fun f' hf' => ?_)
      have hne : g.1 ≠ f'.1 := fun heq => hnodup.1 (hname ▸ heq ▸ List.mem_map_of_mem hf')
      rw [namedCost_eq_sum, namedCost_eq_sum, List.map_cons, List.sum_cons, if_neg hne, zero_add]
    rw [sharedCost, hfirst, hrest, ih hnames'.symm hnodup.2, List.zip_cons_cons, List.map_cons, List.sum_cons]

/-- Two nodes of one kind with such fields: a visit, and the fields one by one. -/
theorem cost_eq_zip (o : CompareOptions) (kind : String) {fs gs : List (String × Field)}
    (hnames : fs.map Prod.fst = gs.map Prod.fst) (hnodup : (fs.map Prod.fst).Nodup) :
    cost o (.node kind fs) (.node kind gs) =
      .visits 1 + ((fs.zip gs).map fun p => fieldCost o p.1.2 p.2.2).sum := by
  have halone : alone (fs.map Prod.fst) (fs.map Prod.fst) = 0 := (alone_eq_zero_iff _ _).2 fun _ h => h
  rw [cost, Tree.kind, if_pos rfl, Tree.names, Tree.fields, sharedCost_eq_zip o hnames hnodup, ← hnames, halone]
  exact add_zero _

theorem nodesCost_append {xs ys : List Tree} (hlen : xs.length = ys.length) (x y : Tree) :
    nodesCost o (xs ++ [x]) (ys ++ [y]) = nodesCost o xs ys + cost o x y := by
  rw [nodesCost_eq_sum, nodesCost_eq_sum, List.zip_append hlen, List.map_append, List.sum_append, List.zip_cons_cons,
    List.map_cons, List.sum_cons]
  exact congrArg (_ + ·) (add_zero _)

theorem fieldCost_groupField (name name' : String) {xs ys : List Tree} (hlen : xs.length = ys.length) :
    fieldCost o (groupField name xs) (groupField name' ys) = nodesCost o xs ys := by
  rw [fieldCost_of_nodes? o (nodes?_groupField name xs) (nodes?_groupField name' ys), hlen, lengthCost_self, add_zero,
    nodesCost_eq_sum]

/-- Two groups of one name and one size. -/
def SameSize (g g' : String × List Tree) : Prop := g.1 = g'.1 ∧ g.2.length = g'.2.length

/-- What the nodes of two lists of groups count, from the left. -/
def groupsCost (o : CompareOptions) (gs gs' : List (String × List Tree)) : Tally :=
  ((gs.zip gs').map fun p => nodesCost o p.1.2 p.2.2).sum

theorem groupsCost_cons (g g' : String × List Tree) (gs gs' : List (String × List Tree)) :
    groupsCost o (g :: gs) (g' :: gs') = nodesCost o g.2 g'.2 + groupsCost o gs gs' := by
  rw [groupsCost, List.zip_cons_cons, List.map_cons, List.sum_cons, groupsCost]

theorem groupsCost_addToGroup {gs gs' : List (String × List Tree)} (h : List.Forall₂ SameSize gs gs') (name : String)
    (t u : Tree) : List.Forall₂ SameSize (addToGroup name t gs) (addToGroup name u gs') ∧
      groupsCost o (addToGroup name t gs) (addToGroup name u gs') = groupsCost o gs gs' + cost o t u := by
  induction h with
  | nil =>
    refine ⟨.cons ⟨rfl, rfl⟩ .nil, ?_⟩
    change nodesCost o [t] [u] + 0 = 0 + cost o t u
    rw [add_zero, zero_add]
    exact add_zero _
  | @cons g g' gs gs' hg hgs ih =>
    obtain ⟨hname, hlen⟩ := hg
    rw [addToGroup, addToGroup, ← hname]
    split_ifs
    · refine ⟨.cons ⟨rfl, ?_⟩ hgs, ?_⟩
      · rw [List.length_append, List.length_append, hlen]
        rfl
      · rw [groupsCost_cons, groupsCost_cons, nodesCost_append hlen, add_right_comm]
    · refine ⟨.cons ⟨rfl, hlen⟩ ih.1, ?_⟩
      rw [groupsCost_cons, groupsCost_cons, ih.2, add_assoc]

/-- Groups of children under the same names are compared child by child. -/
theorem groupsCost_group {nodes nodes' : List (String × Tree)} (h : nodes.map Prod.fst = nodes'.map Prod.fst) :
    List.Forall₂ SameSize (group nodes) (group nodes') ∧
      groupsCost o (group nodes) (group nodes') = nodesCost o (nodes.map Prod.snd) (nodes'.map Prod.snd) := by
  refine names_induction (motive := fun nodes nodes' => List.Forall₂ SameSize (group nodes) (group nodes') ∧
    groupsCost o (group nodes) (group nodes') = nodesCost o (nodes.map Prod.snd) (nodes'.map Prod.snd)) ⟨.nil, rfl⟩
    (fun nodes nodes' name t u hnames ih => ?_) h
  obtain ⟨hsizes, hcost⟩ := ih
  have hlen : (nodes.map Prod.snd).length = (nodes'.map Prod.snd).length := by
    rw [List.length_map, ← List.length_map Prod.fst, hnames, List.length_map, List.length_map]
  rw [group_append, group_append, List.map_append, List.map_append, List.map_singleton, List.map_singleton,
    nodesCost_append hlen, ← hcost]
  exact groupsCost_addToGroup hsizes name t u

/-- Two nodes that hold kept children under the same names: a visit, and the children one by one. -/
theorem cost_grouped (kind : String) {nodes nodes' : List (String × Tree)} (h : nodes.map Prod.fst = nodes'.map Prod.fst) :
    cost o (.node kind (grouped nodes)) (.node kind (grouped nodes')) =
      .visits 1 + nodesCost o (nodes.map Prod.snd) (nodes'.map Prod.snd) := by
  obtain ⟨hsizes, hcost⟩ := groupsCost_group (o := o) h
  have hnames : (grouped nodes).map Prod.fst = (grouped nodes').map Prod.fst := by
    rw [names_grouped, names_grouped, names_group_congr h]
  rw [cost_eq_zip o kind hnames (by rw [names_grouped]; exact nodup_names_group nodes), ← hcost, groupsCost, grouped, grouped,
    List.zip_map, List.map_map]
  refine congrArg (_ + List.sum ·) (List.map_congr_left fun p hp => ?_)
  exact fieldCost_groupField p.1.1 p.2.1 ((List.forall₂_iff_zip.1 hsizes).2 hp).2

theorem cost_value (kind name : String) (x y : Scalar) :
    cost o (.node kind [(name, .scalar x)]) (.node kind [(name, .scalar y)]) = .visits 1 + scalarCost o x y := by
  have hnames : [(name, Field.scalar x)].map Prod.fst = [(name, Field.scalar y)].map Prod.fst := rfl
  rw [cost_eq_zip o kind hnames (List.nodup_singleton name)]
  exact congrArg (_ + ·) (add_zero _)

theorem cost_bare (kind : String) : cost o (.node kind []) (.node kind []) = .visits 1 :=
  cost_eq_zip o kind rfl List.nodup_nil

end Grouped

/-! ## Trees of one shape -/

theorem SameShape.head (h : SameShape a b) : SameHead a b := by
  cases h
  exact ⟨rfl, rfl, rfl⟩

/-- What is kept of trees of one shape has the same names. -/
theorem names_kept_of_forall₂ {cs cs' : List Parsed} (h : List.Forall₂ SameShape cs cs') :
    (cs.filterMap (kept? text)).map Prod.fst = (cs'.filterMap (kept? text')).map Prod.fst := by
  induction h with
  | nil => rfl
  | cons hc _ ih =>
    rw [kept_cons, kept_cons, List.map_append, List.map_append, ih, ← Option.toList_map, ← Option.toList_map,
      hc.head.name_kept]

theorem leaves_leaf (text : List Char) (kind : String) (named : Bool) (field : Option String) (start stop : Nat) :
    leaves text (node kind named field start stop []) =
      if named then (sliceBytes start stop text).toList.map (kind, ·) else [] := rfl

theorem unlikes_append {ls ls' ms ms' : List (String × List Char)} (h : ls.map Prod.fst = ls'.map Prod.fst) :
    unlikes (ls ++ ms) (ls' ++ ms') = unlikes ls ls' + unlikes ms ms' := by
  have hlen : ls.length = ls'.length := by
    rw [← List.length_map Prod.fst, h, List.length_map]
  rw [unlikes, List.zip_append hlen, List.countP_append, unlikes, unlikes]

/-- The leaves of two trees are of the same kinds, and a loose comparison of what is made of the trees counts those that
are unlike. -/
def Agrees (q : SequencePolicy) (text text' : List Char) (c c' : Parsed) : Prop :=
  (leaves text c).map Prod.fst = (leaves text' c').map Prod.fst ∧
    (cost ⟨.loose, q⟩ (toTree text c) (toTree text' c')).mismatches = unlikes (leaves text c) (leaves text' c')

variable {q : SequencePolicy}

/-- What is kept of two lists of nodes agrees if each of the nodes does. -/
theorem agrees_below {cs cs' : List Parsed} (h : List.Forall₂ SameShape cs cs')
    (ih : ∀ c ∈ cs, ∀ c' ∈ cs', SameShape c c' → Agrees q text text' c c') :
    (leavesBelow text cs).map Prod.fst = (leavesBelow text' cs').map Prod.fst ∧
      (nodesCost ⟨.loose, q⟩ ((cs.filterMap (kept? text)).map Prod.snd)
        ((cs'.filterMap (kept? text')).map Prod.snd)).mismatches =
          unlikes (leavesBelow text cs) (leavesBelow text' cs') := by
  induction h with
  | nil => exact ⟨rfl, rfl⟩
  | @cons c c' cs cs' hc hcs ihs =>
    obtain ⟨hkinds, hcost⟩ := ihs fun d hd d' hd' =>
      ih d (List.mem_cons_of_mem _ hd) d' (List.mem_cons_of_mem _ hd')
    rw [kept_cons, kept_cons, leavesBelow, leavesBelow, ← hc.head.isConverted_eq]
    split_ifs with hconverted
    · obtain ⟨hkind, hfirst⟩ := ih c List.mem_cons_self c' List.mem_cons_self hc
      rw [kept?_of_isConverted hconverted, kept?_of_isConverted (hc.head.isConverted_eq ▸ hconverted)]
      refine ⟨?_, ?_⟩
      · rw [List.map_append, List.map_append, hkind, hkinds]
      · rw [unlikes_append hkind, ← hfirst, ← hcost]
        rfl
    · have hkept : kept? text' c' = kept? text c := (hc.head.kept?_eq (Bool.eq_false_iff.2 hconverted)).symm
      rw [hkept, kept?, if_neg hconverted]
      refine ⟨hkinds, ?_⟩
      split_ifs
      · exact hcost
      · cases c.field? with
        | none => exact hcost
        | some name =>
          change (cost _ (Tree.node c.kind []) (Tree.node c.kind []) + nodesCost _ _ _).mismatches = _
          rw [cost_bare, Tally.mismatches_add, Tally.mismatches_visits, Nat.zero_add]
          exact hcost

/-- Two leaves of one kind are a mismatch if they are unlike. -/
theorem mismatches_leaf (kind : String) (v v' : List Char) :
    (cost ⟨.loose, q⟩ (.node kind [(textField, .scalar (leafValue kind v))])
      (.node kind [(textField, .scalar (leafValue kind v'))])).mismatches = unlikes [(kind, v)] [(kind, v')] := by
  have hscalar : scalarCost ⟨.loose, q⟩ (leafValue kind v) (leafValue kind v') =
      if (leafValue kind v).kind = (leafValue kind v').kind then 0 else .misses 1 :=
    (scalars_eq ⟨.loose, q⟩ _ _).symm
  rw [cost_value, hscalar, if_congr (kind_leafValue_eq_iff kind v v') rfl rfl]
  change _ = List.countP _ [((kind, v), (kind, v'))]
  rw [List.countP_singleton]
  cases unlike (kind, v) (kind, v') <;> rfl

/-- Two trees of one shape agree, from their leaves up. -/
theorem SameShape.agrees (h : SameShape a b) (ha : Placed text a) (hb : Placed text' b) : Agrees q text text' a b := by
  induction a using Parsed.induction generalizing b with
  | node kind named field start stop cs ih =>
    obtain @⟨_, _, _, _, _, start', stop', _, cs', hcs⟩ := h
    obtain @⟨_, _, _, _, _, _, u, v, w, htext, rfl, rfl, hplaced⟩ := ha
    obtain @⟨_, _, _, _, _, _, u', v', w', htext', rfl, rfl, hplaced'⟩ := hb
    cases hcs with
    | nil =>
      have hslice := htext ▸ sliceBytes_append u v w
      have hslice' := htext' ▸ sliceBytes_append u' v' w'
      rw [Agrees, toTree_leaf, toTree_leaf, leaves_leaf, leaves_leaf, hslice, hslice']
      cases named with
      | false => exact ⟨rfl, congrArg Tally.mismatches (cost_bare kind)⟩
      | true => exact ⟨rfl, mismatches_leaf kind v v'⟩
    | @cons c c' cs cs' hc hcs =>
      obtain ⟨hkinds, hcost⟩ := agrees_below (.cons hc hcs) fun d hd d' hd' hshape =>
        ih d hd hshape (hplaced d hd) (hplaced' d' hd')
      rw [Agrees, toTree_inner _ _ _ _ _ _ (List.cons_ne_nil c cs), toTree_inner _ _ _ _ _ _ (List.cons_ne_nil c' cs'),
        cost_grouped kind (names_kept_of_forall₂ (.cons hc hcs)), Tally.mismatches_add, Tally.mismatches_visits, Nat.zero_add]
      exact ⟨hkinds, hcost⟩

/-- What a loose comparison of two trees of one shape counts. -/
theorem SameShape.mismatches_eq (h : SameShape a b) (ha : Placed text a) (hb : Placed text' b) :
    (ofTrees ⟨.loose, q⟩ (toTree text a) (toTree text' b)).mismatches = unlikes (leaves text a) (leaves text' b) := by
  rw [ofTrees_eq _ _ (wellNamed_toTree text' b)]
  exact (h.agrees ha hb).2

/-- **A loose comparison looks past the text of leaves, unless a number is written such that it is not read as one.**
For two parsed trees of one shape the mismatches are the numeric leaves of which only one of two is read as a number. So
there is none exactly if of each two numeric leaves both are read as numbers, or neither is. -/
theorem mismatches_of_sameShape (q : SequencePolicy) (h : SameShape a b) (ha : Placed text a) (hb : Placed text' b) :
    (leaves text a).map Prod.fst = (leaves text' b).map Prod.fst ∧
      (ofTrees ⟨.loose, q⟩ (toTree text a) (toTree text' b)).mismatches = unlikes (leaves text a) (leaves text' b) ∧
      ((ofTrees ⟨.loose, q⟩ (toTree text a) (toTree text' b)).mismatches = 0 ↔
        ∀ p ∈ (leaves text a).zip (leaves text' b), isNumeric p.1.1 = true →
          (numberOf? p.1.2).isSome = (numberOf? p.2.2).isSome) := by
  refine ⟨(h.agrees (q := q) ha hb).1, h.mismatches_eq ha hb, ?_⟩
  rw [h.mismatches_eq ha hb, unlikes, List.countP_eq_zero]
  refine forall₂_congr fun p _ => ?_
  rw [unlike, Bool.and_eq_true, bne_iff_ne, not_and, not_ne_iff]

/-- The tree of `x = n`, for a number whose digits end at an offset. -/
def assignment (stop : Nat) : Parsed :=
  node "module" true none 0 (stop + 1) [node "expression_statement" true none 0 stop
    [node "assignment" true none 0 stop [node "identifier" true (some "left") 0 1 [], node "=" false none 2 3 [],
      node "integer" true (some "right") 4 stop []]]]

theorem sameShape_assignment (stop stop' : Nat) : SameShape (assignment stop) (assignment stop') :=
  have leaf (kind : String) (named : Bool) (field : Option String) (start stop start' stop' : Nat) :
      SameShape (node kind named field start stop []) (node kind named field start' stop' []) := .node .nil
  .node (.cons (.node (.cons (.node (.cons (leaf ..) (.cons (leaf ..) (.cons (leaf ..) .nil)))) .nil)) .nil)

theorem placed_assignment (digits : List Char) :
    Placed ("x = ".toList ++ (digits ++ "\n".toList)) (assignment (4 + (utf8 digits).length)) := by
  have hstart : (utf8 "x = ".toList).length = 4 := by decide +kernel
  have hstop : (utf8 ("x = ".toList ++ digits)).length = 4 + (utf8 digits).length := by rw [length_utf8_append, hstart]
  have hline : "x = ".toList ++ (digits ++ "\n".toList) = [] ++ (("x = ".toList ++ digits) ++ "\n".toList) :=
    (List.append_assoc _ _ _).symm
  have hleaves : ∀ c ∈ [node "identifier" true (some "left") 0 1 [], node "=" false none 2 3 [],
      node "integer" true (some "right") 4 (4 + (utf8 digits).length) []],
      Placed ("x = ".toList ++ (digits ++ "\n".toList)) c := by
    refine List.forall_mem_cons.2 ⟨?_, List.forall_mem_cons.2 ⟨?_, List.forall_mem_singleton.2 ?_⟩⟩
    · exact .node [] ['x'] (" = ".toList ++ (digits ++ "\n".toList)) rfl rfl (by decide +kernel) (List.forall_mem_nil _)
    · exact .node "x ".toList ['='] (" ".toList ++ (digits ++ "\n".toList)) rfl (by decide +kernel) (by decide +kernel)
        (List.forall_mem_nil _)
    · exact .node "x = ".toList digits "\n".toList rfl hstart.symm rfl (List.forall_mem_nil _)
  refine .node [] ("x = ".toList ++ (digits ++ "\n".toList)) [] (List.append_nil _).symm rfl ?_
    (List.forall_mem_singleton.2 ?_)
  · have hend : (utf8 "\n".toList).length = 1 := by decide +kernel
    rw [length_utf8_append, length_utf8_append, hstart, hend]
    omega
  · refine .node [] ("x = ".toList ++ digits) "\n".toList hline rfl (hstop.symm.trans (Nat.zero_add _).symm)
      (List.forall_mem_singleton.2 ?_)
    exact .node [] ("x = ".toList ++ digits) "\n".toList hline rfl (hstop.symm.trans (Nat.zero_add _).symm) hleaves

/-- Two numbers, one of them grouped. -/
theorem mismatches_of_sameShape_grouped :
    SameShape (assignment 6) (assignment 9) ∧ Placed "x = 31\n".toList (assignment 6) ∧
      Placed "x = 1_000\n".toList (assignment 9) ∧
      (ofTrees ⟨.loose, .penalize⟩ (toTree "x = 31\n".toList (assignment 6))
        (toTree "x = 1_000\n".toList (assignment 9))).mismatches = 0 := by
  have hshape := sameShape_assignment 6 9
  have ha := placed_assignment "31".toList
  have hb := placed_assignment "1_000".toList
  exact ⟨hshape, ha, hb, (mismatches_of_sameShape .penalize hshape ha hb).2.1.trans (by decide +kernel)⟩

/-- A number with a sign for its base is not read as one, so it differs from a number without. -/
theorem mismatches_hexadecimal :
    SameShape (assignment 6) (assignment 8) ∧ Placed "x = 31\n".toList (assignment 6) ∧
      Placed "x = 0x1F\n".toList (assignment 8) ∧
      (ofTrees ⟨.loose, .penalize⟩ (toTree "x = 31\n".toList (assignment 6))
        (toTree "x = 0x1F\n".toList (assignment 8))).mismatches = 1 := by
  have hshape := sameShape_assignment 6 8
  have ha := placed_assignment "31".toList
  have hb := placed_assignment "0x1F".toList
  exact ⟨hshape, ha, hb, (hshape.mismatches_eq ha hb).trans (by decide +kernel)⟩

end SourceLikeness.Parsed
