import Mathlib.Data.List.Basic

/-!
# Nested brackets

* `Nested` : no prefix of a list closes more than it opens, and the whole closes as many as it opens;
* `depth` : how many brackets are open behind a list, if none was closed that was not open;
* `nested_iff_depth` : a list is nested if and only if it leads from depth 0 to depth 0;
* `depth_add` : what stands open around a list does not matter to it; so nested lists can be put together
  (`Nested.append`), and brackets of two kinds can be nested each on its own (`Nested.of_split`).
-/

namespace SourceLikeness

/-- What an element of a list is if it is a bracket. -/
inductive Bracket where
  | opening
  | closing
deriving DecidableEq, Repr

variable {α β : Type}

/-- No prefix closes more brackets than it opens, and the whole list closes as many as it opens. -/
structure Nested (side : α → Option Bracket) (l : List α) : Prop where
  prefixes : ∀ p, p <+: l → p.countP (side · = some .closing) ≤ p.countP (side · = some .opening)
  total : l.countP (side · = some .closing) = l.countP (side · = some .opening)

namespace Bracket

/-- How many brackets are open behind an element if there are `d` before it. -/
def turn : Option Bracket → Nat → Option Nat
  | none, d => some d
  | some .opening, d => some (d + 1)
  | some .closing, 0 => none
  | some .closing, d + 1 => some d

/-- How many brackets are open behind a list if there are `d` before it. -/
def depth (side : α → Option Bracket) : Nat → List α → Option Nat
  | d, [] => some d
  | d, x :: xs => (turn (side x) d).bind fun e => depth side e xs

variable {side side' : α → Option Bracket} {d e : Nat} {x : α} {l m : List α}

theorem depth_cons_of_none (h : side x = none) : depth side d (x :: l) = depth side d l := by
  rw [depth, h]
  rfl

theorem depth_cons_of_opening (h : side x = some .opening) : depth side d (x :: l) = depth side (d + 1) l := by
  rw [depth, h]
  rfl

theorem depth_cons_of_closing (h : side x = some .closing) : depth side (d + 1) (x :: l) = depth side d l := by
  rw [depth, h]
  rfl

theorem depth_append (side : α → Option Bracket) (d : Nat) (l m : List α) :
    depth side d (l ++ m) = (depth side d l).bind fun e => depth side e m := by
  induction l generalizing d with
  | nil => rfl
  | cons x l ih =>
    rw [List.cons_append, depth, depth, Option.bind_assoc]
    exact congrArg _ (funext ih)

theorem depth_map (side : β → Option Bracket) (f : α → β) (d : Nat) (l : List α) :
    depth side d (l.map f) = depth (side ∘ f) d l := by
  induction l generalizing d with
  | nil => rfl
  | cons x l ih => exact congrArg _ (funext ih)

theorem depth_congr (h : ∀ x ∈ l, side x = side' x) (d : Nat) : depth side d l = depth side' d l := by
  induction l generalizing d with
  | nil => rfl
  | cons x l ih =>
    obtain ⟨hx, hl⟩ := List.forall_mem_cons.1 h
    rw [depth, depth, hx]
    exact congrArg _ (funext fun e => ih hl e)

/-- Elements that are no brackets do not count. -/
theorem depth_filter {q : α → Bool} (h : ∀ x ∈ l, q x = false → side x = none) (d : Nat) :
    depth side d (l.filter q) = depth side d l := by
  induction l generalizing d with
  | nil => rfl
  | cons x l ih =>
    obtain ⟨hx, hl⟩ := List.forall_mem_cons.1 h
    cases hq : q x with
    | true =>
      rw [List.filter_cons_of_pos hq, depth, depth]
      exact congrArg _ (funext fun e => ih hl e)
    | false =>
      rw [List.filter_cons_of_neg (by rw [hq]; exact Bool.false_ne_true), depth_cons_of_none (hx hq), ih hl]

theorem turn_add {b : Option Bracket} (h : turn b d = some e) (n : Nat) : turn b (d + n) = some (e + n) := by
  match b, d with
  | none, d => exact congrArg (fun e => some (e + n)) (Option.some.inj h)
  | some .opening, d =>
    obtain rfl := Option.some.inj h
    exact congrArg some (Nat.add_right_comm d n 1)
  | some .closing, d + 1 =>
    obtain rfl := Option.some.inj h
    rw [Nat.add_right_comm]
    rfl

/-- Brackets that stand open around a list stay open. -/
theorem depth_add (h : depth side d l = some e) (n : Nat) : depth side (d + n) l = some (e + n) := by
  induction l generalizing d with
  | nil =>
    obtain rfl := Option.some.inj h
    rfl
  | cons x l ih =>
    obtain ⟨m, hm, hl⟩ := Option.bind_eq_some_iff.1 h
    rw [depth, turn_add hm n]
    exact ih hl

/-- The brackets among some elements only. -/
def only (q : α → Bool) (side : α → Option Bracket) (x : α) : Option Bracket := if q x then side x else none

/-- Brackets of two kinds open and close on their own. -/
theorem depth_split {q : α → Bool} {d' e' : Nat} (h : depth (only q side) d l = some e)
    (h' : depth (only (!q ·) side) d' l = some e') : depth side (d + d') l = some (e + e') := by
  induction l generalizing d d' with
  | nil =>
    obtain rfl := Option.some.inj h
    obtain rfl := Option.some.inj h'
    rfl
  | cons x l ih =>
    obtain ⟨m, hm, hl⟩ := Option.bind_eq_some_iff.1 h
    obtain ⟨m', hm', hl'⟩ := Option.bind_eq_some_iff.1 h'
    have hturn : turn (side x) (d + d') = some (m + m') := by
      cases hq : q x with
      | true =>
        simp only [only, hq, Bool.not_true, if_true, Bool.false_eq_true, if_false] at hm hm'
        obtain rfl := Option.some.inj hm'
        exact turn_add hm d'
      | false =>
        simp only [only, hq, Bool.not_false, if_true, Bool.false_eq_true, if_false] at hm hm'
        obtain rfl := Option.some.inj hm
        rw [Nat.add_comm, Nat.add_comm d]
        exact turn_add hm' d
    rw [depth, hturn]
    exact ih hl hl'

/-! ## Counting -/

theorem forall_prefix_cons_iff {P : List α → Prop} : (∀ p, p <+: x :: l → P p) ↔ P [] ∧ ∀ p, p <+: l → P (x :: p) := by
  constructor
  · exact fun h => ⟨h [] List.nil_prefix, fun p hp => h (x :: p) (List.cons_prefix_cons.2 ⟨rfl, hp⟩)⟩
  · rintro ⟨hnil, hcons⟩ p hp
    rcases List.prefix_cons_iff.1 hp with rfl | ⟨t, rfl, ht⟩
    · exact hnil
    · exact hcons t ht

/-- The depth, by counting. -/
theorem depth_eq_some_iff : depth side d l = some e ↔
    (∀ p, p <+: l → p.countP (side · = some .closing) ≤ d + p.countP (side · = some .opening)) ∧
      e + l.countP (side · = some .closing) = d + l.countP (side · = some .opening) := by
  induction l generalizing d with
  | nil => simp [depth, eq_comm]
  | cons x l ih =>
    rw [forall_prefix_cons_iff]
    cases hx : side x with
    | none =>
      rw [depth_cons_of_none hx, ih]
      simp [hx]
    | some b =>
      cases b with
      | opening =>
        rw [depth_cons_of_opening hx, ih]
        simp [hx, Nat.add_assoc, Nat.add_comm 1]
      | closing =>
        cases d with
        | zero =>
          rw [depth, hx]
          simp only [turn, Option.bind_none, reduceCtorEq, false_iff]
          rintro ⟨⟨-, h⟩, -⟩
          have hone := h [] List.nil_prefix
          simp [hx] at hone
        | succ d =>
          have hle : ∀ m n, m + 1 ≤ d + 1 + n ↔ m ≤ d + n := by omega
          have heq : ∀ m n, e + (m + 1) = d + 1 + n ↔ e + m = d + n := by omega
          rw [depth_cons_of_closing hx, ih]
          simp [hx, hle, heq]

end Bracket

section Nested
open Bracket
variable {side : α → Option Bracket} {l m : List α}

theorem nested_iff_depth : Nested side l ↔ depth side 0 l = some 0 := by
  simp only [depth_eq_some_iff, Nat.zero_add]
  exact ⟨fun h => ⟨h.prefixes, h.total⟩, fun h => ⟨h.1, h.2⟩⟩

theorem Nested.depth_eq (h : Nested side l) (d : Nat) : depth side d l = some d := by
  have hd := depth_add (nested_iff_depth.1 h) d
  rwa [Nat.zero_add] at hd

theorem Nested.append (h : Nested side l) (h' : Nested side m) : Nested side (l ++ m) := by
  rw [nested_iff_depth, depth_append, h.depth_eq]
  exact h'.depth_eq 0

theorem Nested.of_split (q : α → Bool) (h : Nested (only q side) l) (h' : Nested (only (!q ·) side) l) : Nested side l :=
  nested_iff_depth.2 (depth_split (nested_iff_depth.1 h) (nested_iff_depth.1 h'))

end Nested
end SourceLikeness
