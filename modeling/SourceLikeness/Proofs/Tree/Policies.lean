import SourceLikeness.Proofs.Tree.Cost
import Mathlib.Algebra.Group.Submonoid.Defs

/-!
# One comparison under other options

Options change what a pair of nodes counts, and never which pairs are visited.

* `pairsLeft`, `pairsLeft_eq` : the pairs that are left after each turn are those of any other options;
* `Exceeds` : a tally is another one and something more, of which it is said what it may be;
* `Above` : the options under which no value and no length counts less; `Above.walk` : no walk does then;
* `above_penalize`, `above_strict` : nodes without a partner add mismatches only, values that are asked for add
  visits of which some are mismatches;
* `ofTrees_options` : so the counts of two comparisons differ in one direction.
-/

namespace SourceLikeness.Comparison
variable {o o' : CompareOptions}

/-! ## The pairs that are left -/

theorem snd_fields (o o' : CompareOptions) (f g : Field) : (fields o f g).2 = (fields o' f g).2 := by
  cases f <;> cases g <;> rfl

theorem snd_namedFields (o o' : CompareOptions) (b : Tree) (fs : List (String × Field)) :
    (namedFields o b fs).2 = (namedFields o' b fs).2 := by
  induction fs with
  | nil => rfl
  | cons f fs ih =>
    rw [namedFields, namedFields, both, both, ih]
    cases b.field? f.1 with
    | none => rfl
    | some g => exact congrArg (· ++ _) (snd_fields o o' f.2 g)

/-- What a visit leaves to be visited does not depend on the options. -/
theorem snd_visit (o o' : CompareOptions) (a b : Tree) : (visit o a b).2 = (visit o' a b).2 := by
  rw [visit, visit]
  split_ifs
  · rfl
  · rw [both, both, snd_namedFields o o']

/-- A turn leaves the same pairs under any options. -/
theorem map_snd_turn {s s' : Step} (h : s.2 = s'.2) : (turn o s).map Prod.snd = (turn o' s').map Prod.snd := by
  obtain ⟨tally, pending⟩ := s
  obtain ⟨tally', pending'⟩ := s'
  obtain rfl : pending = pending' := h
  cases pending with
  | nil => rfl
  | cons p pending =>
    rw [turn_cons, turn_cons, Option.map_some, Option.map_some, snd_visit o o']

/-- The pairs that are left after some turns of a comparison, none if it has ended before. -/
def pairsLeft (o : CompareOptions) (a b : Tree) (n : Nat) : Option (List (Tree × Tree)) :=
  ((fun s => s.bind (turn o))^[n] (some (.zero, [(a, b)]))).map Prod.snd

/-- **Which nodes are paired does not depend on the options**, nor when they are. -/
theorem pairsLeft_eq (o o' : CompareOptions) (a b : Tree) (n : Nat) : pairsLeft o a b n = pairsLeft o' a b n := by
  have hturns : ∀ s s' : Option Step, s.map Prod.snd = s'.map Prod.snd →
      ((fun s => s.bind (turn o))^[n] s).map Prod.snd = ((fun s => s.bind (turn o'))^[n] s').map Prod.snd := by
    induction n with
    | zero => exact fun s s' h => h
    | succ n ih =>
      intro s s' h
      rw [Function.iterate_succ_apply, Function.iterate_succ_apply]
      refine ih _ _ ?_
      cases s with
      | none =>
        cases s' with
        | none => rfl
        | some s' => cases h
      | some s =>
        cases s' with
        | none => cases h
        | some s' => exact map_snd_turn (Option.some.inj h)
  exact hturns _ _ rfl

/-! ## Counting more -/

/-- A tally is another one and something more. -/
def Exceeds (M : AddSubmonoid Tally) (t s : Tally) : Prop := ∃ u ∈ M, t = s + u

variable {M : AddSubmonoid Tally} {s t s' t' : Tally}

theorem Exceeds.refl (t : Tally) : Exceeds M t t := ⟨0, M.zero_mem, (add_zero t).symm⟩

theorem Exceeds.add (h : Exceeds M t s) (h' : Exceeds M t' s') : Exceeds M (t + t') (s + s') := by
  obtain ⟨u, hu, rfl⟩ := h
  obtain ⟨u', hu', rfl⟩ := h'
  exact ⟨u + u', M.add_mem hu hu', add_add_add_comm _ _ _ _⟩

/-- No value and no length counts less under the first options than under the second. -/
structure Above (M : AddSubmonoid Tally) (o o' : CompareOptions) : Prop where
  scalars : ∀ x y, Exceeds M (scalars o x y) (scalars o' x y)
  sequences : ∀ xs ys, Exceeds M (sequences o xs ys).1 (sequences o' xs ys).1

namespace Above

theorem fields (h : Above M o o') (f g : Field) : Exceeds M (fields o f g).1 (fields o' f g).1 := by
  cases f with
  | scalar x =>
    cases g with
    | scalar y => exact h.scalars x y
    | child y => exact .refl _
    | children ys => exact .refl _
  | child x =>
    cases g with
    | scalar y => exact .refl _
    | child y => exact .refl _
    | children ys => exact h.sequences [x] ys
  | children xs =>
    cases g with
    | scalar y => exact .refl _
    | child y => exact h.sequences xs [y]
    | children ys => exact h.sequences xs ys

theorem namedFields (h : Above M o o') (b : Tree) (fs : List (String × Field)) :
    Exceeds M (namedFields o b fs).1 (namedFields o' b fs).1 := by
  induction fs with
  | nil => exact .refl _
  | cons f fs ih =>
    rw [Comparison.namedFields, Comparison.namedFields]
    refine Exceeds.add ?_ ih
    cases b.field? f.1 with
    | none => exact .refl _
    | some g => exact h.fields f.2 g

theorem visit (h : Above M o o') (a b : Tree) : Exceeds M (visit o a b).1 (visit o' a b).1 := by
  rw [Comparison.visit, Comparison.visit]
  split_ifs
  · exact .refl _
  · exact (Exceeds.refl _).add (h.namedFields b a.fields)

end Above

theorem walk_nil (o : CompareOptions) (t : Tally) : walk o (t, []) = t := by
  rw [walk]
  rfl

theorem walk_cons (o : CompareOptions) (t : Tally) (a b : Tree) (pending : List (Tree × Tree)) :
    walk o (t, (a, b) :: pending) = walk o (t + (visit o a b).1, (visit o a b).2.reverse ++ pending) := by
  rw [walk]
  rfl

/-- Two walks over the same pairs: the one whose visits count more counts more in the end. -/
theorem Above.walk (h : Above M o o') {w w' : Step} (hpending : w.2 = w'.2) (htally : Exceeds M w.1 w'.1) :
    Exceeds M (walk o w) (walk o' w') := by
  fun_induction Comparison.walk o w generalizing w' with
  | case1 w hturn =>
    obtain ⟨t', pending'⟩ := w'
    obtain rfl : [] = pending' := (eq_nil_of_turn hturn).symm.trans hpending
    rwa [walk_nil]
  | case2 w v hturn ih =>
    obtain ⟨t, _ | ⟨⟨a, b⟩, pending⟩⟩ := w
    · cases hturn
    · obtain ⟨t', pending'⟩ := w'
      obtain rfl : (a, b) :: pending = pending' := hpending
      rw [turn_cons] at hturn
      obtain rfl := Option.some.inj hturn
      rw [walk_cons o' t']
      exact ih (congrArg (·.reverse ++ pending) (snd_visit o o' a b)) (htally.add (h.visit a b))

/-! ## What the options add -/

/-- Mismatches, and no visits beside them. -/
def mismatchesOnly : AddSubmonoid Tally where
  carrier := {t | t.visited = t.mismatches}
  zero_mem' := rfl
  add_mem' h h' := congrArg₂ (· + ·) h h'

/-- Visits, of which some are mismatches. -/
def visitsOnly : AddSubmonoid Tally where
  carrier := {t | t.mismatches ≤ t.visited}
  zero_mem' := Nat.le_refl 0
  add_mem' h h' := Nat.add_le_add h h'

/-- Nodes without a partner add mismatches. -/
theorem above_penalize (x : ScalarPolicy) : Above mismatchesOnly ⟨x, .penalize⟩ ⟨x, .truncate⟩ where
  scalars _ _ := .refl _
  sequences xs ys := ⟨.misses (max xs.length ys.length - min xs.length ys.length), rfl, (zero_add _).symm⟩

/-- Values that are asked for add visits. -/
theorem above_strict (q : SequencePolicy) : Above visitsOnly ⟨.strict, q⟩ ⟨.loose, q⟩ where
  scalars x y := by
    rw [scalars, scalars]
    dsimp only
    split_ifs with hsame hkind hkind
    · exact ⟨.visits 1, Nat.zero_le 1, (zero_add _).symm⟩
    · exact absurd (Scalar.kind_eq_of_sameValue hsame) hkind
    · exact ⟨.misses 1, Nat.le_refl 1, (zero_add _).symm⟩
    · exact .refl _
  sequences _ _ := .refl _

/-! ## Comparisons -/

theorem visited_le_walk (o : CompareOptions) (w : Step) : w.1.visited ≤ (walk o w).visited := by
  fun_induction walk o w with
  | case1 w hturn => exact Nat.le_refl _
  | case2 w v hturn ih =>
    obtain ⟨t, _ | ⟨⟨a, b⟩, pending⟩⟩ := w
    · cases hturn
    · obtain rfl := Option.some.inj hturn
      exact Nat.le_trans (Nat.le_add_right _ _) ih

/-- The two trees themselves are visited. -/
theorem one_le_visited (o : CompareOptions) (a b : Tree) : 1 ≤ (ofTrees o a b).visited := by
  have hvisit : 1 ≤ (visit o a b).1.visited := by
    rw [visit]
    split_ifs
    · exact Nat.le_refl 1
    · rw [both, Tally.visited_add, Tally.visited_add, Tally.visited_visits]
      omega
  change 1 ≤ (walk o (.zero, [(a, b)])).visited
  rw [walk_cons]
  refine Nat.le_trans hvisit (Nat.le_trans (Nat.le_of_eq ?_) (visited_le_walk o _))
  exact (Nat.zero_add _).symm

theorem identical_iff (o : CompareOptions) (a b : Tree) :
    (ofTrees o a b).identical = true ↔ (ofTrees o a b).mismatches = 0 := by
  have hvisited : 0 < (walk o (.zero, [(a, b)])).visited := one_le_visited o a b
  rw [ofTrees, decide_eq_true hvisited, Bool.true_and, beq_iff_eq]

theorem Above.exists_more (h : Above M o o') (a b : Tree) : ∃ u ∈ M,
    (ofTrees o a b).visited = (ofTrees o' a b).visited + u.visited ∧
      (ofTrees o a b).mismatches = (ofTrees o' a b).mismatches + u.mismatches := by
  obtain ⟨u, hu, hwalk⟩ := h.walk (w := (.zero, [(a, b)])) rfl (.refl .zero)
  exact ⟨u, hu, congrArg Tally.visited hwalk, congrArg Tally.mismatches hwalk⟩

/-- **Options move the counts in one direction** and leave the pairs of nodes as they are. Counting the nodes without a
partner adds as many visits as mismatches. Asking for equal values adds visits and mismatches, and no more of these than
of those. What is identical under the stricter option is so under the other. -/
theorem ofTrees_options (a b : Tree) :
    (∀ o o' n, pairsLeft o a b n = pairsLeft o' a b n) ∧
      (∀ x, (ofTrees ⟨x, .truncate⟩ a b).visited ≤ (ofTrees ⟨x, .penalize⟩ a b).visited ∧
        (ofTrees ⟨x, .truncate⟩ a b).mismatches ≤ (ofTrees ⟨x, .penalize⟩ a b).mismatches ∧
        (ofTrees ⟨x, .penalize⟩ a b).visited - (ofTrees ⟨x, .truncate⟩ a b).visited =
          (ofTrees ⟨x, .penalize⟩ a b).mismatches - (ofTrees ⟨x, .truncate⟩ a b).mismatches ∧
        ((ofTrees ⟨x, .penalize⟩ a b).identical = true → (ofTrees ⟨x, .truncate⟩ a b).identical = true)) ∧
      ∀ q, (ofTrees ⟨.loose, q⟩ a b).visited ≤ (ofTrees ⟨.strict, q⟩ a b).visited ∧
        (ofTrees ⟨.loose, q⟩ a b).mismatches ≤ (ofTrees ⟨.strict, q⟩ a b).mismatches ∧
        (ofTrees ⟨.strict, q⟩ a b).mismatches - (ofTrees ⟨.loose, q⟩ a b).mismatches ≤
          (ofTrees ⟨.strict, q⟩ a b).visited - (ofTrees ⟨.loose, q⟩ a b).visited ∧
        ((ofTrees ⟨.strict, q⟩ a b).identical = true → (ofTrees ⟨.loose, q⟩ a b).identical = true) := by
  refine ⟨fun o o' n => pairsLeft_eq o o' a b n, fun x => ?_, fun q => ?_⟩
  · obtain ⟨u, hu, hvisited, hmismatches⟩ := (above_penalize x).exists_more a b
    have heq : u.visited = u.mismatches := hu
    simp only [identical_iff]
    omega
  · obtain ⟨u, hu, hvisited, hmismatches⟩ := (above_strict q).exists_more a b
    have hle : u.mismatches ≤ u.visited := hu
    simp only [identical_iff]
    omega

end SourceLikeness.Comparison
