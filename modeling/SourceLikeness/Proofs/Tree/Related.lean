import SourceLikeness.Proofs.Tree.Cost

/-!
# Trees that a comparison finds identical

* `Related`, `RelatedField` : the trees that the options do not tell apart, said without counting;
* `mismatches_cost_eq_zero_iff` : they are those whose cost has no mismatch;
* `related_self` : a tree is related to itself, unless equality of its values is asked for and it holds one that is
  no number;
* `identical_iff_related` : a comparison finds related trees identical, and no others.
-/

namespace SourceLikeness.Comparison

mutual

/-- The trees that the options do not tell apart: they are of one kind, have the same names, and what stands under one
name is related. -/
inductive Related (o : CompareOptions) : Tree → Tree → Prop
  | node {a b : Tree} : a.kind = b.kind → (∀ name, name ∈ a.names ↔ name ∈ b.names) →
      (∀ name f g, (name, f) ∈ a.fields → (name, g) ∈ b.fields → RelatedField o f g) → Related o a b

/-- Two values that the policy does not tell apart, or two lists of nodes that are related from the left, as far as both
go; they are as long as each other if nodes without a partner are counted. -/
inductive RelatedField (o : CompareOptions) : Field → Field → Prop
  | scalars {x y : Scalar} : agree o x y = true → RelatedField o (.scalar x) (.scalar y)
  | nodes {f g : Field} {xs ys : List Tree} : f.nodes? = some xs → g.nodes? = some ys →
      (∀ p ∈ xs.zip ys, Related o p.1 p.2) → (o.sequences = .penalize → xs.length = ys.length) → RelatedField o f g

end

/-! ## Costs without a mismatch -/

theorem mismatches_sum_eq_zero_iff {ts : List Tally} : ts.sum.mismatches = 0 ↔ ∀ t ∈ ts, t.mismatches = 0 := by
  induction ts with
  | nil => exact iff_of_true rfl (List.forall_mem_nil _)
  | cons t ts ih => rw [List.sum_cons, Tally.mismatches_add, Nat.add_eq_zero_iff, ih, List.forall_mem_cons]

theorem mismatches_scalarCost_eq_zero_iff (o : CompareOptions) (x y : Scalar) :
    (scalarCost o x y).mismatches = 0 ↔ agree o x y = true := by
  rw [scalarCost]
  split_ifs with hagree hstrict
  · exact iff_of_true rfl hagree
  · exact iff_of_true rfl hagree
  · exact iff_of_false Nat.one_ne_zero hagree

theorem mismatches_lengthCost_eq_zero_iff (o : CompareOptions) (m n : Nat) :
    (lengthCost o m n).mismatches = 0 ↔ (o.sequences = .penalize → m = n) := by
  rw [lengthCost]
  split_ifs with hpenalize
  · rw [forall_prop_of_true hpenalize, Tally.mismatches_misses]
    omega
  · exact iff_of_true rfl fun h => absurd h hpenalize

theorem alone_eq_zero_iff (names others : List String) : alone names others = 0 ↔ ∀ name ∈ names, name ∈ others := by
  rw [alone, List.countP_eq_zero]
  simp only [decide_eq_true_iff, not_not]

theorem mismatches_sharedCost_eq_zero_iff (o : CompareOptions) (fs gs : List (String × Field)) :
    (sharedCost o fs gs).mismatches = 0 ↔
      ∀ name f g, (name, f) ∈ fs → (name, g) ∈ gs → (fieldCost o f g).mismatches = 0 := by
  simp only [sharedCost_eq_sum, namedCost_eq_sum, mismatches_sum_eq_zero_iff, List.forall_mem_map]
  constructor
  · intro h name f g hf hg
    have hpair := h _ hf _ hg
    rwa [if_pos rfl] at hpair
  · rintro h ⟨name, f⟩ hf ⟨other, g⟩ hg
    split_ifs with heq
    · obtain rfl : other = name := heq
      exact h other f g hf hg
    · rfl

theorem mismatches_fieldCost_eq_zero_iff (o : CompareOptions) {f : Field} (g : Field)
    (ih : ∀ t ∈ f.nodes, ∀ u, (cost o t u).mismatches = 0 ↔ Related o t u) :
    (fieldCost o f g).mismatches = 0 ↔ RelatedField o f g := by
  rcases fieldCost_cases o f g with ⟨x, y, rfl, rfl, heq⟩ | ⟨xs, ys, hxs, hys, heq⟩ | ⟨hshape, heq⟩
  · rw [heq, mismatches_scalarCost_eq_zero_iff]
    refine ⟨.scalars, fun h => ?_⟩
    cases h with
    | scalars hagree => exact hagree
    | nodes hxs => cases hxs
  · rw [heq, Tally.mismatches_add, Nat.add_eq_zero_iff, mismatches_sum_eq_zero_iff, mismatches_lengthCost_eq_zero_iff,
      List.forall_mem_map]
    have hpairs : (∀ p ∈ xs.zip ys, (cost o p.1 p.2).mismatches = 0) ↔ ∀ p ∈ xs.zip ys, Related o p.1 p.2 := by
      refine forall₂_congr fun p hp => ih p.1 ?_ p.2
      rw [Field.nodes_of_nodes? hxs]
      exact (List.of_mem_zip hp).1
    rw [hpairs]
    refine ⟨fun h => .nodes hxs hys h.1 h.2, fun h => ?_⟩
    cases h with
    | scalars _ => cases hxs
    | nodes hxs' hys' hrelated hlength =>
      obtain rfl := Option.some.inj (hxs.symm.trans hxs')
      obtain rfl := Option.some.inj (hys.symm.trans hys')
      exact ⟨hrelated, hlength⟩
  · rw [heq]
    refine iff_of_false Nat.one_ne_zero fun h => hshape ?_
    cases h with
    | scalars _ => rfl
    | nodes hxs hys => rw [hxs, hys]; rfl

/-- The trees whose cost has no mismatch are those that the options do not tell apart. -/
theorem mismatches_cost_eq_zero_iff (o : CompareOptions) (a b : Tree) :
    (cost o a b).mismatches = 0 ↔ Related o a b := by
  induction a using Tree.induction generalizing b with
  | node kind fs ih =>
    have hfields : (∀ name f g, (name, f) ∈ fs → (name, g) ∈ b.fields → (fieldCost o f g).mismatches = 0) ↔
        ∀ name f g, (name, f) ∈ fs → (name, g) ∈ b.fields → RelatedField o f g :=
      forall₃_congr fun name f g => imp_congr_right fun hf => imp_congr_right fun _ =>
        mismatches_fieldCost_eq_zero_iff o g (ih (name, f) hf)
    have hnames : alone (fs.map Prod.fst) b.names + alone b.names (fs.map Prod.fst) = 0 ↔
        ∀ name, name ∈ fs.map Prod.fst ↔ name ∈ b.names := by
      rw [Nat.add_eq_zero_iff, alone_eq_zero_iff, alone_eq_zero_iff]
      exact ⟨fun h name => ⟨h.1 name, h.2 name⟩, fun h => ⟨fun name => (h name).1, fun name => (h name).2⟩⟩
    rw [cost]
    split_ifs with hkind
    · rw [Tally.mismatches_add, Tally.mismatches_add, Tally.mismatches_visits, Tally.mismatches_misses, Nat.zero_add,
        Nat.add_eq_zero_iff, mismatches_sharedCost_eq_zero_iff, hfields, hnames]
      refine ⟨fun h => .node hkind h.2 h.1, fun h => ?_⟩
      cases h with
      | node _ hsame hrelated => exact ⟨hrelated, hsame⟩
    · refine iff_of_false Nat.one_ne_zero fun h => hkind ?_
      cases h with
      | node hsame _ _ => exact hsame

/-! ## A tree beside itself -/

theorem agree_self {o : CompareOptions} {x : Scalar} (h : o.scalars = .loose ∨ ∀ y, x = .float y → y.isNaN = false) :
    agree o x x = true := by
  rw [agree]
  cases hpolicy : o.scalars with
  | loose => exact decide_eq_true rfl
  | strict =>
    rw [hpolicy] at h
    exact Scalar.sameValue_self (h.resolve_left nofun)

/-- A tree is related to itself. A value that is no number is not equal to itself. -/
theorem related_self {o : CompareOptions} {a : Tree} (ha : a.WellNamed) (h : o.scalars = .loose ∨ a.NanFree) :
    Related o a a := by
  induction a using Tree.induction with
  | node kind fs ih =>
    refine .node rfl (fun _ => Iff.rfl) fun name f g hf hg => ?_
    have heq := ((fieldNamed?_eq_some_iff ha.here).2 hf).symm.trans ((fieldNamed?_eq_some_iff ha.here).2 hg)
    obtain rfl := Option.some.inj heq
    have hnodes : ∀ ts, f.nodes? = some ts → RelatedField o f f := by
      intro ts hts
      refine .nodes hts hts (fun p hp => ?_) fun _ => rfl
      rw [List.zip_eq_zipWith, List.zipWith_self] at hp
      obtain ⟨t, ht, rfl⟩ := List.mem_map.1 hp
      rw [← Field.nodes_of_nodes? hts] at ht
      exact ih (name, f) hf t ht (ha.beneath hf ht) (h.imp_right fun h => h.beneath hf ht)
    cases f with
    | scalar x => exact .scalars (agree_self (h.imp_right fun h y hy => h.here name y (by rw [← hy]; exact hf)))
    | child t => exact hnodes _ rfl
    | children ts => exact hnodes _ rfl

/-! ## Comparisons -/

/-- **A comparison finds identical what its options do not tell apart.** Of two trees of which no node has two fields of
one name it finds exactly the related ones identical. So it finds no mismatch between a tree and itself, unless equality
of values is asked for and the tree holds one that is no number. -/
theorem identical_iff_related (o : CompareOptions) {a b : Tree} (ha : a.WellNamed) (hb : b.WellNamed) :
    ((ofTrees o a b).identical = true ↔ Related o a b) ∧
      (o.scalars = .loose ∨ a.NanFree →
        (ofTrees o a a).mismatches = 0 ∧ (ofTrees o a a).identical = true) := by
  constructor
  · rw [ofTrees_eq o a hb, beq_iff_eq]
    exact mismatches_cost_eq_zero_iff o a b
  · intro h
    have hzero := (mismatches_cost_eq_zero_iff o a a).2 (related_self ha h)
    rw [ofTrees_eq o a ha, hzero]
    exact ⟨rfl, rfl⟩

/-- A whole number and the other number that it is equal to, below a node and below a list of one. -/
theorem identical_iff_related_two :
    (ofTrees ⟨.strict, .penalize⟩ (.node "sum" [("left", .child (.node "number" [("value", .scalar (.int 2))]))])
      (.node "sum" [("left", .children [.node "number" [("value", .scalar (.float 2))]])])).identical = true := by
  refine (identical_iff_related _ (by simp) (by simp)).1.2 ?_
  have hnumber : Related ⟨.strict, .penalize⟩ (.node "number" [("value", .scalar (.int 2))])
      (.node "number" [("value", .scalar (.float 2))]) := by
    refine .node rfl (fun _ => Iff.rfl) fun name f g hf hg => ?_
    obtain ⟨rfl, rfl⟩ := Prod.mk.inj (List.mem_singleton.1 hf)
    obtain ⟨-, rfl⟩ := Prod.mk.inj (List.mem_singleton.1 hg)
    exact .scalars (by decide)
  refine .node rfl (fun _ => Iff.rfl) fun name f g hf hg => ?_
  obtain ⟨rfl, rfl⟩ := Prod.mk.inj (List.mem_singleton.1 hf)
  obtain ⟨-, rfl⟩ := Prod.mk.inj (List.mem_singleton.1 hg)
  exact .nodes rfl rfl (List.forall_mem_singleton.2 hnumber) fun _ => rfl

end SourceLikeness.Comparison
