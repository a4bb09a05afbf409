import SourceLikeness.Proofs.Tree.Basic
import SourceLikeness.Tree.Comparison
import Mathlib.Algebra.BigOperators.Group.List.Basic
import Mathlib.Logic.Function.Iterate

/-!
# The cost of a comparison

What a comparison counts, said by recursion along the two trees and without an order of visits.

* `agree` : the values that a policy does not tell apart;
* `cost`, `fieldCost` : what a pair of nodes and a pair of fields count;
* `total` : what a comparison under way will have counted; no turn changes it (`total_turn`);
* `walk_eq_total`, `exists_turns` : so that is what is counted in the end, and there is an end;
* `ofTrees_counts_cost` : a comparison counts the cost of its trees.
-/

namespace SourceLikeness

namespace Tally

instance : Zero Tally := ⟨zero⟩

instance : AddCommMonoid Tally where
  add := add
  zero := zero
  add_assoc r s t := congrArg₂ mk (Nat.add_assoc _ _ _) (Nat.add_assoc _ _ _)
  zero_add t := congrArg₂ mk (Nat.zero_add _) (Nat.zero_add _)
  add_zero _ := rfl
  add_comm s t := congrArg₂ mk (Nat.add_comm _ _) (Nat.add_comm _ _)
  nsmul := nsmulRec

@[simp] theorem zero_eq : zero = 0 := rfl

@[simp] theorem visited_zero : (0 : Tally).visited = 0 := rfl

@[simp] theorem mismatches_zero : (0 : Tally).mismatches = 0 := rfl

@[simp] theorem visited_add (s t : Tally) : (s + t).visited = s.visited + t.visited := rfl

@[simp] theorem mismatches_add (s t : Tally) : (s + t).mismatches = s.mismatches + t.mismatches := rfl

@[simp] theorem visited_visits (n : Nat) : (visits n).visited = n := rfl

@[simp] theorem mismatches_visits (n : Nat) : (visits n).mismatches = 0 := rfl

@[simp] theorem visited_misses (n : Nat) : (misses n).visited = n := rfl

@[simp] theorem mismatches_misses (n : Nat) : (misses n).mismatches = n := rfl

theorem misses_add (m n : Nat) : misses (m + n) = misses m + misses n := rfl

end Tally

namespace Comparison

/-! ## The cost -/

/-- The values that a policy does not tell apart. -/
def agree (o : CompareOptions) (x y : Scalar) : Bool :=
  match o.scalars with
  | .loose => x.kind = y.kind
  | .strict => x.sameValue y

/-- Values that agree count as a visit only if their equality was asked for. -/
def scalarCost (o : CompareOptions) (x y : Scalar) : Tally :=
  if agree o x y then (if o.scalars = .strict then .visits 1 else 0) else .misses 1

/-- What the lengths of two lists count that are compared pairwise. -/
def lengthCost (o : CompareOptions) (m n : Nat) : Tally :=
  if o.sequences = .penalize then .misses (m - n + (n - m)) else 0

/-- The number of names that are not among others. -/
def alone (names others : List String) : Nat := names.countP (· ∉ others)

mutual

/-- What a pair of nodes counts. -/
def cost (o : CompareOptions) : Tree → Tree → Tally
  | .node kind fs, b =>
    if kind = b.kind then
      .visits 1 + sharedCost o fs b.fields + .misses (alone (fs.map Prod.fst) b.names + alone b.names (fs.map Prod.fst))
    else .misses 1
termination_by structural a => a

/-- What the fields of two nodes count, each beside the one of its name. -/
def sharedCost (o : CompareOptions) : List (String × Field) → List (String × Field) → Tally
  | [], _ => 0
  | f :: fs, gs => namedCost o f gs + sharedCost o fs gs
termination_by structural fs => fs

def namedCost (o : CompareOptions) : String × Field → List (String × Field) → Tally
  | (name, x), gs => (gs.map fun g => if g.1 = name then fieldCost o x g.2 else 0).sum
termination_by structural f => f

/-- What a pair of fields counts. A node beside a list is a list of one. -/
def fieldCost (o : CompareOptions) : Field → Field → Tally
  | .scalar x, .scalar y => scalarCost o x y
  | .child x, .child y => cost o x y
  | .child x, .children ys => (ys.head?.map (cost o x)).getD 0 + lengthCost o 1 ys.length
  | .children xs, .child y => nodesCost o xs [y] + lengthCost o xs.length 1
  | .children xs, .children ys => nodesCost o xs ys + lengthCost o xs.length ys.length
  | _, _ => .misses 1
termination_by structural x => x

/-- What the pairs of two lists count, from the left. -/
def nodesCost (o : CompareOptions) : List Tree → List Tree → Tally
  | x :: xs, y :: ys => cost o x y + nodesCost o xs ys
  | _, _ => 0
termination_by structural xs => xs

end

theorem namedCost_eq_sum (o : CompareOptions) (f : String × Field) (gs : List (String × Field)) :
    namedCost o f gs = (gs.map fun g => if g.1 = f.1 then fieldCost o f.2 g.2 else 0).sum := by
  obtain ⟨name, x⟩ := f
  rfl

theorem sharedCost_eq_sum (o : CompareOptions) (fs gs : List (String × Field)) :
    sharedCost o fs gs = (fs.map fun f => namedCost o f gs).sum := by
  induction fs with
  | nil => rfl
  | cons f fs ih => rw [sharedCost, ih, List.map_cons, List.sum_cons]

theorem nodesCost_eq_sum (o : CompareOptions) (xs ys : List Tree) :
    nodesCost o xs ys = ((xs.zip ys).map fun p => cost o p.1 p.2).sum := by
  induction xs generalizing ys with
  | nil => rfl
  | cons x xs ih =>
    cases ys with
    | nil => rfl
    | cons y ys => rw [nodesCost, ih, List.zip_cons_cons, List.map_cons, List.sum_cons]

theorem lengthCost_self (o : CompareOptions) (n : Nat) : lengthCost o n n = 0 := by
  rw [lengthCost, Nat.sub_self]
  exact ite_self 0

/-- Two lists of nodes count pair by pair, and by their lengths. -/
theorem fieldCost_of_nodes? (o : CompareOptions) {f g : Field} {xs ys : List Tree} (hf : f.nodes? = some xs)
    (hg : g.nodes? = some ys) :
    fieldCost o f g = ((xs.zip ys).map fun p => cost o p.1 p.2).sum + lengthCost o xs.length ys.length := by
  rw [← nodesCost_eq_sum]
  cases f with
  | scalar x => cases hf
  | child x =>
    obtain rfl := Option.some.inj hf
    cases g with
    | scalar y => cases hg
    | child y =>
      obtain rfl := Option.some.inj hg
      have hpair : nodesCost o [x] [y] = cost o x y := add_zero _
      rw [hpair, List.length_singleton, List.length_singleton, lengthCost_self, add_zero, fieldCost]
    | children ys =>
      obtain rfl := Option.some.inj hg
      cases ys with
      | nil => rfl
      | cons y ys => exact congrArg (· + _) (add_zero (cost o x y)).symm
  | children xs =>
    obtain rfl := Option.some.inj hf
    cases g with
    | scalar y => cases hg
    | child y =>
      obtain rfl := Option.some.inj hg
      rfl
    | children ys =>
      obtain rfl := Option.some.inj hg
      rfl

/-- Fields of different shapes are a mismatch. -/
theorem fieldCost_of_ne (o : CompareOptions) {f g : Field} (h : f.nodes?.isSome ≠ g.nodes?.isSome) :
    fieldCost o f g = .misses 1 := by
  cases f with
  | scalar x =>
    cases g with
    | scalar y => exact absurd rfl h
    | _ => rfl
  | child x =>
    cases g with
    | scalar y => rfl
    | _ => exact absurd rfl h
  | children xs =>
    cases g with
    | scalar y => rfl
    | _ => exact absurd rfl h

/-- Two fields hold values, or both hold nodes, or they are of different shapes. -/
theorem fieldCost_cases (o : CompareOptions) (f g : Field) :
    (∃ x y, f = .scalar x ∧ g = .scalar y ∧ fieldCost o f g = scalarCost o x y) ∨
      (∃ xs ys, f.nodes? = some xs ∧ g.nodes? = some ys ∧
        fieldCost o f g = ((xs.zip ys).map fun p => cost o p.1 p.2).sum + lengthCost o xs.length ys.length) ∨
      f.nodes?.isSome ≠ g.nodes?.isSome ∧ fieldCost o f g = .misses 1 := by
  cases hf : f.nodes? with
  | some xs =>
    cases hg : g.nodes? with
    | some ys => exact Or.inr (Or.inl ⟨xs, ys, rfl, rfl, fieldCost_of_nodes? o hf hg⟩)
    | none => exact Or.inr (Or.inr ⟨Bool.false_ne_true.symm, fieldCost_of_ne o (by rw [hf, hg]; exact Bool.false_ne_true.symm)⟩)
  | none =>
    cases hg : g.nodes? with
    | some ys => exact Or.inr (Or.inr ⟨Bool.false_ne_true, fieldCost_of_ne o (by rw [hf, hg]; exact Bool.false_ne_true)⟩)
    | none =>
      obtain ⟨x, rfl⟩ := Field.eq_scalar_of_nodes? hf
      obtain ⟨y, rfl⟩ := Field.eq_scalar_of_nodes? hg
      exact Or.inl ⟨x, y, rfl, rfl, by rw [fieldCost]⟩

/-! ## Mismatches are visits -/


theorem mismatches_sum_le {ts : List Tally} (h : ∀ t ∈ ts, t.mismatches ≤ t.visited) :
    ts.sum.mismatches ≤ ts.sum.visited := by
  induction ts with
  | nil => exact Nat.le_refl 0
  | cons t ts ih =>
    obtain ⟨ht, hts⟩ := List.forall_mem_cons.1 h
    rw [List.sum_cons]
    exact Nat.add_le_add ht (ih hts)

theorem mismatches_scalarCost_le (o : CompareOptions) (x y : Scalar) :
    (scalarCost o x y).mismatches ≤ (scalarCost o x y).visited := by
  rw [scalarCost]
  split_ifs
  · exact Nat.zero_le _
  · exact Nat.zero_le _
  · exact Nat.le_refl _

theorem mismatches_lengthCost (o : CompareOptions) (m n : Nat) :
    (lengthCost o m n).mismatches = (lengthCost o m n).visited := by
  rw [lengthCost]
  split_ifs <;> rfl

/-- Every mismatch is visited. -/
theorem mismatches_cost_le (o : CompareOptions) (a b : Tree) : (cost o a b).mismatches ≤ (cost o a b).visited := by
  induction a using Tree.induction generalizing b with
  | node kind fs ih =>
    have hfield : ∀ f ∈ fs, ∀ g, (fieldCost o f.2 g).mismatches ≤ (fieldCost o f.2 g).visited := by
      intro f hf g
      rcases fieldCost_cases o f.2 g with ⟨x, y, -, -, heq⟩ | ⟨xs, ys, hxs, -, heq⟩ | ⟨-, heq⟩
      · rw [heq]
        exact mismatches_scalarCost_le o x y
      · rw [heq]
        refine Nat.add_le_add (mismatches_sum_le ?_) (Nat.le_of_eq (mismatches_lengthCost o _ _))
        intro t ht
        obtain ⟨p, hp, rfl⟩ := List.mem_map.1 ht
        exact ih f hf p.1 (by rw [Field.nodes_of_nodes? hxs]; exact (List.of_mem_zip hp).1) p.2
      · rw [heq]
        exact Nat.le_refl 1
    have hshared : (sharedCost o fs b.fields).mismatches ≤ (sharedCost o fs b.fields).visited := by
      rw [sharedCost_eq_sum]
      refine mismatches_sum_le fun t ht => ?_
      obtain ⟨f, hf, rfl⟩ := List.mem_map.1 ht
      rw [namedCost_eq_sum]
      refine mismatches_sum_le fun t ht => ?_
      obtain ⟨g, -, rfl⟩ := List.mem_map.1 ht
      split_ifs
      · exact hfield f hf g.2
      · exact Nat.le_refl 0
    rw [cost]
    split_ifs
    · exact Nat.add_le_add (Nat.add_le_add (Nat.zero_le 1) hshared) (Nat.le_refl _)
    · exact Nat.le_refl 1

/-- A pair of nodes is a visit. -/
theorem one_le_visited_cost (o : CompareOptions) (a b : Tree) : 1 ≤ (cost o a b).visited := by
  obtain ⟨kind, fs⟩ := a
  rw [cost]
  split_ifs
  · rw [Tally.visited_add, Tally.visited_add, Tally.visited_visits]
    omega
  · exact Nat.le_refl 1

/-! ## What is counted in the end -/

/-- What a comparison under way will have counted. -/
def total (o : CompareOptions) (s : Step) : Tally := s.1 + (s.2.map fun p => cost o p.1 p.2).sum

theorem total_both (o : CompareOptions) (s t : Step) : total o (both s t) = total o s + total o t := by
  rw [total, both, List.map_append, List.sum_append, total, total]
  exact add_add_add_comm _ _ _ _

theorem scalars_eq (o : CompareOptions) (x y : Scalar) : scalars o x y = scalarCost o x y := by
  obtain ⟨_ | _, _⟩ := o
  · exact (if_congr (decide_eq_true_iff).symm rfl rfl)
  · rfl

theorem total_sequences (o : CompareOptions) {f g : Field} {xs ys : List Tree} (hf : f.nodes? = some xs)
    (hg : g.nodes? = some ys) : total o (sequences o xs ys) = fieldCost o f g := by
  have hlength : max xs.length ys.length - min xs.length ys.length =
      xs.length - ys.length + (ys.length - xs.length) := by omega
  rw [fieldCost_of_nodes? o hf hg, total, sequences, add_comm, hlength]
  rfl

/-- What two fields have counted at once and what they leave to be visited is the cost of the two. -/
theorem total_fields (o : CompareOptions) (f g : Field) : total o (fields o f g) = fieldCost o f g := by
  cases f with
  | scalar x =>
    cases g with
    | scalar y => rw [fieldCost, ← scalars_eq]; exact add_zero _
    | child y => rfl
    | children ys => rfl
  | child x =>
    cases g with
    | scalar y => rfl
    | child y => rw [fieldCost]; exact (zero_add _).trans (add_zero _)
    | children ys => exact total_sequences o rfl rfl
  | children xs =>
    cases g with
    | scalar y => rfl
    | child y => exact total_sequences o rfl rfl
    | children ys => exact total_sequences o rfl rfl

/-- A field costs what it does beside the one field that is found under its name. -/
theorem namedCost_eq (o : CompareOptions) (f : String × Field) {gs : List (String × Field)}
    (hgs : (gs.map Prod.fst).Nodup) :
    namedCost o f gs = ((fieldNamed? f.1 gs).map (fieldCost o f.2)).getD 0 := by
  induction gs with
  | nil => rw [namedCost_eq_sum]; rfl
  | cons g gs ih =>
    rw [List.map_cons, List.nodup_cons] at hgs
    rw [namedCost_eq_sum, List.map_cons, List.sum_cons, ← namedCost_eq_sum, ih hgs.2, fieldNamed?]
    split_ifs with hname
    · rw [← hname, fieldNamed?_eq_none_iff.2 hgs.1]
      exact add_zero _
    · exact zero_add _

theorem alone_cons (name : String) (names others : List String) :
    alone (name :: names) others = (if name ∈ others then 0 else 1) + alone names others := by
  rw [alone, alone, List.countP_cons, Nat.add_comm]
  simp only [decide_eq_true_iff, ite_not]

theorem total_namedFields (o : CompareOptions) {b : Tree} (hb : b.names.Nodup) (fs : List (String × Field)) :
    total o (namedFields o b fs) = sharedCost o fs b.fields + .misses (alone (fs.map Prod.fst) b.names) := by
  induction fs with
  | nil => rfl
  | cons f fs ih =>
    obtain ⟨name, x⟩ := f
    have hnames : ((name, x) :: fs).map Prod.fst = name :: fs.map Prod.fst := rfl
    rw [namedFields, total_both, ih, sharedCost, namedCost_eq o _ hb, hnames, alone_cons, Tally.misses_add,
      add_add_add_comm (Option.getD _ _), Tree.field?]
    congr 1
    cases hfound : fieldNamed? name b.fields with
    | none =>
      have hname : name ∉ b.names := fieldNamed?_eq_none_iff.1 hfound
      rw [if_neg hname]
      rfl
    | some y =>
      have hname : name ∈ b.names := by
        by_contra hname
        exact Option.some_ne_none y (hfound.symm.trans (fieldNamed?_eq_none_iff.2 hname))
      rw [if_pos hname]
      exact (total_fields o x y).trans (add_zero _).symm

theorem unmatched_eq (a b : Tree) : unmatched a b = alone b.names a.names := by
  rw [unmatched, alone, Tree.names, Tree.names, List.countP_map, List.countP_eq_length_filter]
  congr 2
  funext f
  rw [Bool.eq_iff_iff, Option.isNone_iff_eq_none, Function.comp_apply, decide_eq_true_iff]
  exact fieldNamed?_eq_none_iff

/-- A visit and what it leaves to be visited count the cost of the pair. -/
theorem total_visit (o : CompareOptions) (a : Tree) {b : Tree} (hb : b.names.Nodup) :
    total o (visit o a b) = cost o a b := by
  obtain ⟨kind, fs⟩ := a
  rw [visit, cost, Tree.kind]
  by_cases hkind : kind = b.kind
  · rw [if_neg (not_not_intro hkind), if_pos hkind, total_both, unmatched_eq, Tally.misses_add]
    have hfields := total_namedFields o hb fs
    calc _ = .visits 1 + .misses (alone b.names (fs.map Prod.fst)) + total o (namedFields o b fs) := rfl
      _ = _ := by rw [hfields]; ac_rfl
  · rw [if_pos hkind, if_neg hkind]
    exact add_zero _

/-- The names of the second trees are told apart. -/
def Sane (s : Step) : Prop := ∀ p ∈ s.2, p.2.WellNamed

theorem sane_both {s t : Step} (hs : Sane s) (ht : Sane t) : Sane (both s t) := List.forall_mem_append.2 ⟨hs, ht⟩

theorem sane_of_nodes {xs ys : List Tree} (h : ∀ y ∈ ys, y.WellNamed) (tally : Tally) : Sane (tally, xs.zip ys) :=
  fun _ hp => h _ (List.of_mem_zip hp).2

theorem sane_fields (o : CompareOptions) (f : Field) {g : Field} (hg : ∀ t ∈ g.nodes, t.WellNamed) :
    Sane (fields o f g) := by
  cases f with
  | scalar x => cases g <;> exact List.forall_mem_nil _
  | child x =>
    cases g with
    | scalar y => exact List.forall_mem_nil _
    | child y => exact List.forall_mem_singleton.2 (hg y (List.mem_singleton_self y))
    | children ys => exact sane_of_nodes hg _
  | children xs =>
    cases g with
    | scalar y => exact List.forall_mem_nil _
    | child y => exact sane_of_nodes hg _
    | children ys => exact sane_of_nodes hg _

theorem sane_visit (o : CompareOptions) (a : Tree) {b : Tree} (hb : b.WellNamed) : Sane (visit o a b) := by
  have hnamed : ∀ fs, Sane (namedFields o b fs) := by
    intro fs
    induction fs with
    | nil => exact List.forall_mem_nil _
    | cons f fs ih =>
      rw [namedFields]
      refine sane_both ?_ ih
      cases hfound : b.field? f.1 with
      | none => exact List.forall_mem_nil _
      | some g => exact sane_fields o f.2 fun t ht => hb.beneath ((fieldNamed?_eq_some_iff hb.here).1 hfound) ht
  rw [visit]
  split_ifs
  · exact List.forall_mem_nil _
  · exact sane_both (List.forall_mem_nil _) (hnamed _)

theorem turn_cons (o : CompareOptions) (tally : Tally) (a b : Tree) (pending : List (Tree × Tree)) :
    turn o (tally, (a, b) :: pending) =
      some (tally + (visit o a b).1, (visit o a b).2.reverse ++ pending) := rfl

/-- A turn changes nothing of what will have been counted. -/
theorem total_turn {o : CompareOptions} {s s' : Step} (h : turn o s = some s') (hs : Sane s) :
    total o s' = total o s ∧ Sane s' := by
  obtain ⟨tally, _ | ⟨⟨a, b⟩, pending⟩⟩ := s
  · cases h
  · rw [turn_cons] at h
    obtain rfl := Option.some.inj h
    obtain ⟨hb, hpending⟩ := List.forall_mem_cons.1 hs
    refine ⟨?_, List.forall_mem_append.2 ⟨fun p hp => sane_visit o a hb p (List.mem_reverse.1 hp), hpending⟩⟩
    have hvisit : (visit o a b).1 + ((visit o a b).2.map fun p => cost o p.1 p.2).sum = cost o a b :=
      total_visit o a hb.here
    rw [total, total, List.map_append, List.sum_append, List.map_reverse, List.sum_reverse, add_assoc, ← add_assoc _ _ (List.sum _),
      hvisit, List.map_cons, List.sum_cons]

theorem eq_nil_of_turn {o : CompareOptions} {s : Step} (h : turn o s = none) : s.2 = [] := by
  obtain ⟨tally, _ | ⟨p, pending⟩⟩ := s
  · rfl
  · cases h

/-- **What is counted in the end** is what was counted at any time before, and the cost of the pairs left then. -/
theorem walk_eq_total (o : CompareOptions) {s : Step} (hs : Sane s) : walk o s = total o s := by
  fun_induction walk o s with
  | case1 s h => rw [total, eq_nil_of_turn h]; exact (add_zero _).symm
  | case2 s s' h ih =>
    obtain ⟨htotal, hs'⟩ := total_turn h hs
    rw [ih hs', htotal]

/-- There is an end after as many turns as there are nodes, or before. -/
theorem exists_turns (o : CompareOptions) (s : Step) :
    ∃ n ≤ pendingSize s.2, (fun s => s.bind (turn o))^[n] (some s) = some (walk o s, []) := by
  fun_induction walk o s with
  | case1 s h => exact ⟨0, Nat.zero_le _, by rw [← eq_nil_of_turn h]; rfl⟩
  | case2 s s' h ih =>
    obtain ⟨n, hn, hrun⟩ := ih
    exact ⟨n + 1, Nat.succ_le_of_lt (Nat.lt_of_le_of_lt hn (pendingSize_turn h)), by
      rw [Function.iterate_succ_apply, Option.bind_some, h, hrun]⟩

/-! ## Comparisons -/

theorem walk_start (o : CompareOptions) (a : Tree) {b : Tree} (hb : b.WellNamed) :
    walk o (.zero, [(a, b)]) = cost o a b := by
  rw [walk_eq_total o fun p hp => by rw [List.mem_singleton.1 hp]; exact hb]
  exact (zero_add _).trans (add_zero _)

/-- The outcome of a comparison is read off the cost. -/
theorem ofTrees_eq (o : CompareOptions) (a : Tree) {b : Tree} (hb : b.WellNamed) :
    ofTrees o a b = ⟨(cost o a b).mismatches == 0, (cost o a b).visited, (cost o a b).mismatches⟩ := by
  have hvisited : 0 < (cost o a b).visited := one_le_visited_cost o a b
  rw [ofTrees, walk_start o a hb, decide_eq_true hvisited, Bool.true_and]

/-- **A comparison counts the cost of its trees.** No node of the second tree having two fields of one name, it ends
after at most as many turns as the first tree has nodes; then the cost has been counted, which is at least one visit,
and no more mismatches than visits. -/
theorem ofTrees_counts_cost (o : CompareOptions) (a : Tree) {b : Tree} (hb : b.WellNamed) :
    (∃ n ≤ a.size, (fun s => s.bind (turn o))^[n] (some (.zero, [(a, b)])) = some (cost o a b, [])) ∧
      (ofTrees o a b).visited = (cost o a b).visited ∧ (ofTrees o a b).mismatches = (cost o a b).mismatches ∧
      1 ≤ (ofTrees o a b).visited ∧ (ofTrees o a b).mismatches ≤ (ofTrees o a b).visited := by
  obtain ⟨n, hn, hrun⟩ := exists_turns o (.zero, [(a, b)])
  rw [walk_start o a hb] at hrun
  rw [ofTrees_eq o a hb]
  exact ⟨⟨n, hn, hrun⟩, rfl, rfl, one_le_visited_cost o a b, mismatches_cost_le o a b⟩

/-- A node beside a list of two, and a field that only the second tree has. -/
theorem ofTrees_counts_cost_call :
    (ofTrees {} (.node "call" [("of", .child (.node "name" []))])
      (.node "call" [("in", .scalar .none), ("of", .children [.node "name" [], .node "name" []])])).visited = 4 := by
  rw [(ofTrees_counts_cost {} _ (by simp)).2.1]
  decide

end Comparison
end SourceLikeness
