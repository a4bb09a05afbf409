import SourceLikeness.Proofs.Comment.Reading
import SourceLikeness.Proofs.Expression.Statement
import SourceLikeness.Proofs.Choice.Signs

/-!
# Operators between operands

What the searches for operators find at a blank and at a sign of an operator that has a blank on both sides.

* `Pattern.run_any_text`, `hitOf_any_text` : the first of some texts that stands is read;
* `Binary.hitOf_finder` : behind an operand, an operator is found with the blank before it;
* `Binary.hitOf_finder_eq_none` : but not an operator on bits in front of a sign other than `~`;
* `Binary.hitOf_eq_none_of_compare` : and no comparison is taken for a shift.
-/

namespace SourceLikeness
open Text (isAsciiWord isBlank)

namespace Pattern
variable {β : Type} {c : Cursor} {k : Cursor → Option β} {y : β} {ts : List String} {t : String}

/-- The first of some texts that stands is read. -/
theorem run_any_text (ts : List String) (hfind : ts.find? (·.toList.isPrefixOf c.rest) = some t)
    (hk : k (c.past t.toList (c.rest.drop t.toList.length)) = some y) : (any (ts.map text)).run c k = some y := by
  induction ts with
  | nil => cases hfind
  | cons u ts ih =>
    rw [List.find?_cons] at hfind
    cases hu : u.toList.isPrefixOf c.rest with
    | true =>
      rw [hu] at hfind
      obtain rfl := Option.some.inj hfind
      obtain ⟨v, hv⟩ := List.isPrefixOf_iff_prefix.1 hu
      rw [← hv, List.drop_left] at hk
      have htext : (text u).run c k = some y := (run_text hv.symm).trans hk
      cases ts with
      | nil => exact htext
      | cons t ts => exact run_any_of_some htext
    | false =>
      rw [hu] at hfind
      have hnone : (text u).run c k = none :=
        run_text_of_not_prefix fun h => Bool.noConfusion (hu.symm.trans (List.isPrefixOf_iff_prefix.2 h))
      cases ts with
      | nil => cases hfind
      | cons t ts => exact (run_any_of_none hnone).trans (ih hfind)

end Pattern

namespace Tokenizer
open Pattern
open Finder (start)
open CompoundAssignment (bitOperators)
variable {c d : Cursor} {s w v : List Char} {o : Nat} {f : Finder} {ts : List String} {t : String} {b : Char}

/-! ## Searches for texts -/

theorem hitOf_any_text (hf : f.pattern = any (ts.map text)) (hbarred : f.barred = [])
    (hbefore : f.before (Text.charBefore s o) = true) (hfind : ts.find? (·.toList.isPrefixOf (s.drop o)) = some t)
    (hafter : f.after ((s.drop o).drop t.toList.length).head? = true) :
    ∃ h : Hit, f.hitOf (fun _ => true) s o = some h ∧ h.token = ⟨o, o + t.toList.length⟩ := by
  have hread : f.pattern.read (start s o) = some ((start s o).past t.toList ((s.drop o).drop t.toList.length)) := by
    rw [hf]
    exact run_any_text ts hfind rfl
  exact ⟨_, Finder.hitOf_of_read hbefore hafter hbarred hread rfl, rfl⟩

theorem hitOf_eq_none_of_texts (ts : List String) (hf : f.pattern = any (ts.map text))
    (hnone : ts.find? (·.toList.isPrefixOf (s.drop o)) = none) : f.hitOf (fun _ => true) s o = none := by
  refine hitOf_eq_none_of_reads fun d h => ?_
  rw [hf] at h
  obtain ⟨t, ht, hrest⟩ := reads_any_text h
  have hprefix : t.toList <+: s.drop o := ⟨d.rest, hrest.symm⟩
  exact List.find?_eq_none.1 hnone t ht (List.isPrefixOf_iff_prefix.2 hprefix)

/-- Nothing is found if what comes behind the reading is not wanted. -/
theorem hitOf_eq_none_of_after (hread : f.pattern.read (start s o) = some d) (hafter : f.after d.rest.head? = false) :
    f.hitOf (fun _ => true) s o = none := by
  unfold start at hread
  rw [Finder.hitOf, Finder.hitAt, hread]
  dsimp only
  rw [hafter, Bool.false_and, Bool.false_and, if_neg Bool.false_ne_true, ite_self]

/-! ## Operators with a blank on both sides -/

/-- An operator is read behind a blank. -/
theorem Operator.run_spaced {β : Type} {k : Cursor → Option β} {y : β} {p : Pattern} (hrest : c.rest = ' ' :: w)
    (hw : w.head?.any isBlank = false) (hk : p.run (c.past [' '] w) (fun e => k ((c.past [' '] w).note .token e)) = some y) :
    (spaced p).run c k = some y := by
  refine run_many (u := [' ']) hrest (by decide) ?_ hk
  cases w with
  | nil => rfl
  | cons a w => rwa [List.head?_cons, Option.any_some, holds_blank]

namespace Binary
variable {op : Binary} {m : Unary}

/-- The operator in front of a blank is read with the blank before it. That it is one on bits, with the blank behind it. -/
theorem run_finder (hop : op.unary? = some m) (hrest : c.rest = ' ' :: (op.text.toList ++ ' ' :: b :: v))
    (hb : isBlank b = false) :
    ∃ e, m.finder.pattern.run c some = some e ∧ e.rest.head? = some (if m = .ampersand then b else ' ') ∧
      e.parts = (.token, ⟨c.offset + 1, c.offset + 1 + op.text.toList.length⟩) :: c.parts := by
  have hbits : (op.text.toList ++ ' ' :: b :: v).head?.any isBlank = false →
      bitOperators.find? (·.toList.isPrefixOf (op.text.toList ++ ' ' :: b :: v)) = some op.text →
      ∃ e, Operator.bitwise.pattern.run c some = some e ∧ e.rest.head? = some b ∧
        e.parts = (.token, ⟨c.offset + 1, c.offset + 1 + op.text.toList.length⟩) :: c.parts := by
    intro hhead hfind
    have hblanks : ∀ {e : Cursor}, e.rest = ' ' :: b :: v → blanks.run e some = some (e.past [' '] (b :: v)) :=
      fun he => run_many (u := [' ']) he (by decide) (by rw [List.head?_cons, Option.any_some, holds_blank, hb]) rfl
    exact ⟨_, Operator.run_spaced hrest hhead (run_any_text bitOperators hfind (hblanks List.drop_left)), rfl, rfl⟩
  cases op with
  | times | plus | minus | divide | remainder =>
    obtain rfl := Option.some.inj hop
    obtain ⟨o, x, rest, parts⟩ := c
    obtain rfl : rest = _ := hrest
    exact ⟨_, rfl, rfl, rfl⟩
  | bitAnd | bitOr | bitXor | shiftLeft | shiftRight =>
    obtain rfl := Option.some.inj hop
    exact hbits rfl rfl
  | _ => cases hop

/-- Behind an operand, an operator is found with the blank before it. One on bits has to have an operand behind it. -/
theorem hitOf_finder (hop : op.unary? = some m) (hs : s.drop o = ' ' :: (op.text.toList ++ ' ' :: b :: v))
    (hb : isBlank b = false) (hbefore : Operator.isOperand (Text.charBefore s o) = true)
    (hafter : m = .ampersand → Operator.startsOperand (some b) = true) :
    ∃ h : Hit, m.finder.hitOf (fun _ => true) s o = some h ∧ h.token = ⟨o + 1, o + 1 + op.text.toList.length⟩ := by
  obtain ⟨e, hrun, hhead, hparts⟩ := run_finder (c := start s o) hop hs hb
  have hbarred : m.finder.barred = [] := by cases m <;> rfl
  have hbefore : m.finder.before (Text.charBefore s o) = true := by rw [Unary.before_finder, hbefore]
  have hafter : m.finder.after e.rest.head? = true := by
    rw [hhead]
    cases m with
    | minus | star => rfl
    | ampersand => exact hafter rfl
  refine ⟨_, Finder.hitOf_of_read hbefore hafter hbarred hrun rfl, ?_⟩
  rw [Hit.token, Hit.part?, hparts]
  rfl

/-- An operator on bits is not found in front of something else than an operand. -/
theorem hitOf_finder_eq_none (hop : op.unary? = some .ampersand) (hs : s.drop o = ' ' :: (op.text.toList ++ ' ' :: b :: v))
    (hb : isBlank b = false) (hafter : Operator.startsOperand (some b) = false) :
    Operator.bitwise.hitOf (fun _ => true) s o = none := by
  obtain ⟨e, hrun, hhead, -⟩ := run_finder (c := start s o) hop hs hb
  refine hitOf_eq_none_of_after (f := Operator.bitwise) hrun ?_
  rw [hhead]
  exact hafter

/-- A comparison is not taken for a shift. -/
theorem hitOf_eq_none_of_compare (hop : op.category = .compare) (hs : s.drop o = ' ' :: (op.text.toList ++ ' ' :: v)) :
    Operator.bitwise.hitOf (fun _ => true) s o = none := by
  have hread : ∀ {c : Cursor}, c.rest = ' ' :: (op.text.toList ++ ' ' :: v) → Operator.bitwise.pattern.read c = none := by
    rintro ⟨o, x, rest, parts⟩ hrest
    obtain rfl : rest = _ := hrest
    cases op <;> first | rfl | cases hop
  rw [Option.eq_none_iff_forall_ne_some]
  intro hit hhit
  obtain ⟨d, hd, -⟩ := Finder.read_of_hitOf hhit
  cases (hread hs).symm.trans hd

end Binary
end Tokenizer
end SourceLikeness
