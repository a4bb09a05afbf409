import SourceLikeness.Proofs.Tree.Cost
import Mathlib.Algebra.BigOperators.Group.Multiset.Basic
import Mathlib.Data.List.Zip

/-!
# The order of trees and of fields

* `cost_comm` : which of two trees comes first does not matter;
* `SameField`, `Rearranged` : trees that differ in the order of the fields of some nodes;
* `cost_eq_of_rearranged` : neither does that order;
* `ofTrees_comm_and_eq_of_rearranged` : so nothing of this matters to a comparison.
-/

namespace SourceLikeness.Comparison

/-! ## The order of trees -/

theorem agree_comm (o : CompareOptions) (x y : Scalar) : agree o x y = agree o y x := by
  rw [agree, agree]
  cases o.scalars with
  | loose => exact decide_eq_decide.2 eq_comm
  | strict => exact Scalar.sameValue_comm x y

theorem scalarCost_comm (o : CompareOptions) (x y : Scalar) : scalarCost o x y = scalarCost o y x := by
  rw [scalarCost, scalarCost, agree_comm]

theorem lengthCost_comm (o : CompareOptions) (m n : Nat) : lengthCost o m n = lengthCost o n m := by
  rw [lengthCost, lengthCost, Nat.add_comm]

/-- If the order of the nodes that a field holds does not matter, then that of the fields does not either. -/
theorem fieldCost_comm (o : CompareOptions) {f : Field} (g : Field)
    (ih : ∀ t ∈ f.nodes, ∀ u, cost o t u = cost o u t) : fieldCost o f g = fieldCost o g f := by
  rcases fieldCost_cases o f g with ⟨x, y, rfl, rfl, heq⟩ | ⟨xs, ys, hxs, hys, heq⟩ | ⟨hshape, heq⟩
  · rw [heq, scalarCost_comm, fieldCost]
  · have hpairs : (xs.zip ys).map (fun p => cost o p.1 p.2) = (ys.zip xs).map fun p => cost o p.1 p.2 := by
      rw [← List.zip_swap ys xs, List.map_map]
      refine List.map_congr_left fun p hp => (ih p.2 ?_ p.1)
      rw [Field.nodes_of_nodes? hxs]
      exact (List.of_mem_zip hp).2
    rw [heq, fieldCost_of_nodes? o hys hxs, hpairs, lengthCost_comm]
  · rw [heq, fieldCost_of_ne o hshape.symm]

theorem sum_sum_comm {α β : Type} (xs : List α) (ys : List β) (c : α → β → Tally) :
    (xs.map fun x => (ys.map fun y => c x y).sum).sum = (ys.map fun y => (xs.map fun x => c x y).sum).sum := by
  simpa only [Multiset.map_coe, Multiset.sum_coe] using Multiset.sum_map_sum_map (xs : Multiset α) (ys : Multiset β)

/-- Which of two trees comes first does not matter. -/
theorem cost_comm (o : CompareOptions) (a b : Tree) : cost o a b = cost o b a := by
  induction a using Tree.induction generalizing b with
  | node kind fs ih =>
    obtain ⟨kind', gs⟩ := b
    have hshared : sharedCost o fs gs = sharedCost o gs fs := by
      simp only [sharedCost_eq_sum, namedCost_eq_sum]
      rw [sum_sum_comm]
      refine congrArg List.sum (List.map_congr_left fun g _ => congrArg List.sum (List.map_congr_left fun f hf => ?_))
      rw [fieldCost_comm o g.2 (ih f hf)]
      exact if_congr eq_comm rfl rfl
    rw [cost, cost, Tree.kind, Tree.kind, Tree.fields, Tree.fields, hshared, Nat.add_comm]
    exact if_congr eq_comm rfl rfl

/-! ## The order of fields -/

/-- Two fields of one name that hold the same value, or nodes that are related one by one. -/
inductive SameField (r : Tree → Tree → Prop) : String × Field → String × Field → Prop
  | scalar (name : String) (x : Scalar) : SameField r (name, .scalar x) (name, .scalar x)
  | child {name : String} {t u : Tree} : r t u → SameField r (name, .child t) (name, .child u)
  | children {name : String} {ts us : List Tree} : List.Forall₂ r ts us →
      SameField r (name, .children ts) (name, .children us)

/-- Two trees that differ in the order of the fields of some of their nodes. -/
inductive Rearranged : Tree → Tree → Prop
  | node {kind : String} {fs gs hs : List (String × Field)} : List.Forall₂ (SameField Rearranged) fs gs → gs.Perm hs →
      Rearranged (.node kind fs) (.node kind hs)

section SameField
variable {r : Tree → Tree → Prop} {f g : String × Field} {fs gs hs : List (String × Field)}

theorem SameField.name_eq (h : SameField r f g) : f.1 = g.1 := by
  cases h <;> rfl

/-- What the fields hold is a value in both, or nodes in both. -/
theorem SameField.cases_nodes (h : SameField r f g) :
    f.2 = g.2 ∨ ∃ ts us, f.2.nodes? = some ts ∧ g.2.nodes? = some us ∧ List.Forall₂ r ts us := by
  cases h with
  | scalar name x => exact Or.inl rfl
  | child htu => exact Or.inr ⟨_, _, rfl, rfl, .cons htu .nil⟩
  | children hts => exact Or.inr ⟨_, _, rfl, rfl, hts⟩

theorem forall₂_imp_mem {α β : Type} {p q : α → β → Prop} {xs : List α} {ys : List β} (h : List.Forall₂ p xs ys)
    (himp : ∀ x ∈ xs, ∀ y, p x y → q x y) : List.Forall₂ q xs ys := by
  rw [List.forall₂_iff_zip] at h ⊢
  exact ⟨h.1, fun hxy => himp _ (List.of_mem_zip hxy).1 _ (h.2 hxy)⟩

theorem forall₂_exists_left {α β : Type} {p : α → β → Prop} {xs : List α} {ys : List β} (h : List.Forall₂ p xs ys)
    {y : β} (hy : y ∈ ys) : ∃ x ∈ xs, p x y := by
  induction h with
  | nil => exact absurd hy List.not_mem_nil
  | cons hxy _ ih =>
    rcases List.mem_cons.1 hy with rfl | hy
    · exact ⟨_, List.mem_cons_self, hxy⟩
    · obtain ⟨x, hx, hxy⟩ := ih hy
      exact ⟨x, List.mem_cons_of_mem _ hx, hxy⟩

/-- A node of the second field has its partner in the first. -/
theorem SameField.exists_node (h : SameField r f g) {u : Tree} (hu : u ∈ g.2.nodes) : ∃ t ∈ f.2.nodes, r t u := by
  cases h with
  | scalar name x => exact absurd hu List.not_mem_nil
  | child htu =>
    obtain rfl := List.mem_singleton.1 hu
    exact ⟨_, List.mem_singleton_self _, htu⟩
  | children hts => exact forall₂_exists_left hts hu

/-- What the nodes of a field are related by can be exchanged. -/
theorem SameField.imp {r' : Tree → Tree → Prop} (h : SameField r f g)
    (himp : ∀ t ∈ f.2.nodes, ∀ u, r t u → r' t u) : SameField r' f g := by
  cases h with
  | scalar name x => exact .scalar name x
  | child htu => exact .child (himp _ (List.mem_singleton_self _) _ htu)
  | children hts => exact .children (forall₂_imp_mem hts himp)

theorem names_of_forall₂ (h : List.Forall₂ (SameField r) fs gs) : fs.map Prod.fst = gs.map Prod.fst := by
  induction h with
  | nil => rfl
  | cons hfg _ ih => rw [List.map_cons, List.map_cons, hfg.name_eq, ih]

/-- The names of a rearranged node are the same, in another order. -/
theorem names_perm (h : List.Forall₂ (SameField r) fs gs) (hperm : gs.Perm hs) :
    (fs.map Prod.fst).Perm (hs.map Prod.fst) := by
  rw [names_of_forall₂ h]
  exact hperm.map _

end SameField

theorem sum_zip_congr {c : Tree → Tree → Tally} {ts us : List Tree}
    (h : List.Forall₂ (fun t u => ∀ y, c t y = c u y) ts us) (ys : List Tree) :
    ((ts.zip ys).map fun p => c p.1 p.2) = (us.zip ys).map fun p => c p.1 p.2 := by
  induction h generalizing ys with
  | nil => rfl
  | cons htu _ ih =>
    cases ys with
    | nil => rfl
    | cons y ys => rw [List.zip_cons_cons, List.zip_cons_cons, List.map_cons, List.map_cons, ih, htu y]

theorem fieldCost_congr (o : CompareOptions) {f g : String × Field}
    (h : SameField (fun t u => ∀ y, cost o t y = cost o u y) f g) (y : Field) :
    fieldCost o f.2 y = fieldCost o g.2 y := by
  rcases h.cases_nodes with heq | ⟨ts, us, hts, hus, hall⟩
  · rw [heq]
  · cases hy : y.nodes? with
    | some ys => rw [fieldCost_of_nodes? o hts hy, fieldCost_of_nodes? o hus hy, sum_zip_congr hall ys, hall.length_eq]
    | none =>
      rw [fieldCost_of_ne o (by rw [hts, hy]; exact Bool.false_ne_true.symm),
        fieldCost_of_ne o (by rw [hus, hy]; exact Bool.false_ne_true.symm)]

theorem alone_congr {names names' others others' : List String} (h : names.Perm names') (h' : others.Perm others') :
    alone names others = alone names' others' := by
  rw [alone, alone, h.countP_eq]
  simp only [h'.mem_iff]

/-- The order of fields does not matter. -/
theorem cost_eq_of_rearranged (o : CompareOptions) {a a' : Tree} (h : Rearranged a a') (b : Tree) :
    cost o a b = cost o a' b := by
  induction a using Tree.induction generalizing a' b with
  | node kind fs ih =>
    obtain @⟨_, _, gs, hs, hsame, hperm⟩ := h
    have hnamed : fs.map (namedCost o · b.fields) = gs.map (namedCost o · b.fields) := by
      have hequal : List.Forall₂ (SameField fun t u => ∀ y, cost o t y = cost o u y) fs gs :=
        forall₂_imp_mem hsame fun f hf g hfg => hfg.imp fun t ht u htu y => ih f hf t ht htu y
      clear hsame hperm ih
      induction hequal with
      | nil => rfl
      | cons hfg _ ih =>
        rw [List.map_cons, List.map_cons, ih, namedCost_eq_sum, namedCost_eq_sum, hfg.name_eq]
        simp only [fieldCost_congr o hfg]
    have hshared : sharedCost o fs b.fields = sharedCost o hs b.fields := by
      rw [sharedCost_eq_sum, sharedCost_eq_sum, hnamed]
      exact (hperm.map _).sum_eq
    have hnames := names_perm hsame hperm
    rw [cost, cost, hshared, alone_congr hnames (.refl b.names), alone_congr (.refl b.names) hnames]

theorem Rearranged.wellNamed {a a' : Tree} (h : Rearranged a a') (ha : a.WellNamed) : a'.WellNamed := by
  induction a using Tree.induction generalizing a' with
  | node kind fs ih =>
    obtain @⟨_, _, gs, hs, hsame, hperm⟩ := h
    refine (Tree.wellNamed_node _ _).2 ⟨(names_perm hsame hperm).nodup_iff.1 ha.here, fun g hg u hu => ?_⟩
    obtain ⟨f, hf, hfg⟩ := forall₂_exists_left hsame (hperm.mem_iff.2 hg)
    obtain ⟨t, ht, htu⟩ := hfg.exists_node hu
    exact ih f hf t ht htu (ha.beneath hf ht)

/-! ## Comparisons -/

/-- **Neither the order of the trees nor that of their fields matters** to a comparison, if no node has two fields of
one name. -/
theorem ofTrees_comm_and_eq_of_rearranged (o : CompareOptions) {a b : Tree} (ha : a.WellNamed) (hb : b.WellNamed) :
    ofTrees o a b = ofTrees o b a ∧
      ∀ a' b', Rearranged a a' → Rearranged b b' → ofTrees o a' b' = ofTrees o a b := by
  refine ⟨?_, fun a' b' haa' hbb' => ?_⟩
  · rw [ofTrees_eq o a hb, ofTrees_eq o b ha, cost_comm]
  · rw [ofTrees_eq o a' (hbb'.wellNamed hb), ofTrees_eq o a hb, ← cost_eq_of_rearranged o haa', cost_comm,
      ← cost_eq_of_rearranged o hbb', cost_comm]

/-- The fields of a call and those of the call in one of them stand the other way round. -/
theorem ofTrees_comm_and_eq_of_rearranged_call :
    ofTrees {} (.node "call" [("in", .children [.node "call" [("of", .scalar .none), ("in", .scalar .none)]]),
        ("of", .scalar .none)]) (.node "call" [("of", .scalar .none)]) =
      ofTrees {} (.node "call" [("of", .scalar .none),
        ("in", .children [.node "call" [("in", .scalar .none), ("of", .scalar .none)]])])
        (.node "call" [("of", .scalar .none)]) := by
  have hinner : Rearranged (.node "call" [("in", .scalar .none), ("of", .scalar .none)])
      (.node "call" [("of", .scalar .none), ("in", .scalar .none)]) :=
    .node (.cons (.scalar _ _) (.cons (.scalar _ _) .nil)) (.swap _ _ _)
  have hcall : Rearranged (.node "call" [("of", .scalar .none)]) (.node "call" [("of", .scalar .none)]) :=
    .node (.cons (.scalar _ _) .nil) (.refl _)
  exact (ofTrees_comm_and_eq_of_rearranged {} (by simp) (by simp)).2 _ _
    (.node (.cons (.scalar _ _) (.cons (.children (.cons hinner .nil)) .nil)) (.swap _ _ _)) hcall

end SourceLikeness.Comparison
