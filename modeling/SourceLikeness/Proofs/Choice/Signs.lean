import SourceLikeness.Proofs.Choice.Segments

/-!
# Signs that join operands

What the searches for products, for sums and for operators on bits find at a blank and at a sign.

* `Text.charBefore_of_drop` : the character before the last part of a text;
* `Unary.finder`, `Unary.leads` : the search that takes a sign for an operator, and where it looks;
* `Unary.hitOf_sign` : behind an operand, the sign of the next one is found with the blank before it;
* `hitOf_eq_none_of_before`, `Unary.hitOf_eq_none_of_next` : nothing is found where no operand comes before, and at a
  blank that something else follows.
-/

namespace SourceLikeness

/-- The character before the last part of a text. -/
theorem Text.charBefore_of_drop {s u w : List Char} {o : Nat} (hs : s = u ++ w) (hdrop : s.drop o = w) (hne : w ≠ []) :
    charBefore s o = u.getLast? := by
  have hpos := List.length_pos_of_ne_nil hne
  have hlength := congrArg List.length hdrop
  rw [hs, List.length_drop, List.length_append] at hlength
  obtain rfl : o = u.length := by omega
  rw [hs, charBefore_append]

namespace Tokenizer
open Pattern
open Text (isAsciiWord isBlank)
open Finder (start)
variable {c d : Cursor} {s w : List Char} {o : Nat}

theorem hitOf_eq_none_of_before {f : Finder} {accept : Hit → Bool} (h : f.before (Text.charBefore s o) = false) :
    f.hitOf accept s o = none := if_neg (by rw [h]; exact Bool.false_ne_true)

/-- An operator is read behind blanks. -/
theorem Operator.reads_spaced {p : Pattern} (h : (spaced p).Reads c d) :
    ∃ g, ∃ e : Cursor, c.rest = g ++ e.rest ∧ (∀ a ∈ g, isBlank a = true) ∧ ∃ e', p.Reads e e' := by
  obtain ⟨e, he, e', he', -⟩ := h
  obtain ⟨g, hg, hblank⟩ := reads_many he
  simp only [holds_blank] at hblank
  exact ⟨g, e, hg, hblank, e', he'⟩

namespace Unary

/-- The search that takes the sign for one that joins two operands. -/
def finder : Unary → Finder
  | minus => Operator.arithmetic
  | star => Operator.multiplication
  | ampersand => Operator.bitwise

/-- The signs that the search looks for. -/
def signs : Unary → List Char
  | minus => "/+-%".toList
  | star => ['*']
  | ampersand => "<>&^|".toList

/-- Where the search looks: at its signs and at blanks. -/
def leads (m : Unary) : Leads := ⟨[], [], m.signs, [], true⟩

theorem before_finder (m : Unary) : m.finder.before = Operator.isOperand := by cases m <;> rfl

/-- A reading has one of the signs behind its blanks. -/
theorem reads_finder {m : Unary} (h : m.finder.pattern.Reads c d) :
    ∃ g b v, c.rest = g ++ b :: v ∧ (∀ a ∈ g, isBlank a = true) ∧ b ∈ m.signs := by
  have htext : ∀ (ts : List String) {e e' : Cursor}, (∀ t ∈ ts, t.toList.head?.any m.signs.contains = true) →
      (any (ts.map text)).Reads e e' → ∃ b v, e.rest = b :: v ∧ b ∈ m.signs := by
    intro ts e e' hts h
    obtain ⟨t, ht, hrest⟩ := reads_any_text h
    obtain ⟨b, hb, hmem⟩ := (Option.any_eq_true _ _).1 (hts t ht)
    obtain ⟨u, hu⟩ := List.head?_eq_some_iff.1 hb
    exact ⟨b, u ++ e'.rest, by rw [hrest, hu]; rfl, List.contains_iff_mem.1 hmem⟩
  have hone : ∀ {cs : String} {e e' : Cursor}, (∀ b ∈ cs.toList, b ∈ m.signs) → (oneOf cs).Reads e e' →
      ∃ b v, e.rest = b :: v ∧ b ∈ m.signs := by
    rintro cs e e' hcs ⟨b, v, hrest, hb, -⟩
    obtain ⟨entry, hentry, hholds⟩ := List.any_eq_true.1 hb
    obtain ⟨a, ha, rfl⟩ := List.mem_map.1 hentry
    obtain rfl := beq_iff_eq.1 hholds
    exact ⟨_, v, hrest, hcs _ ha⟩
  have hsign : ∃ g, ∃ e : Cursor, c.rest = g ++ e.rest ∧ (∀ a ∈ g, isBlank a = true) ∧ ∃ b v, e.rest = b :: v ∧ b ∈ m.signs := by
    cases m with
    | minus =>
      obtain ⟨g, e, hg, hblank, e', h⟩ := Operator.reads_spaced h
      refine ⟨g, e, hg, hblank, ?_⟩
      rcases h with h | h
      · exact htext ["//"] (by decide) h
      · exact hone (by decide) h
    | star =>
      obtain ⟨g, e, hg, hblank, e', e'', h, -⟩ := Operator.reads_spaced h
      exact ⟨g, e, hg, hblank, htext ["*"] (by decide) h⟩
    | ampersand =>
      obtain ⟨_, h, -⟩ := h
      obtain ⟨g, e, hg, hblank, e', h⟩ := Operator.reads_spaced h
      exact ⟨g, e, hg, hblank, htext ["<<", ">>", "&", "^", "|"] (by decide) h⟩
  obtain ⟨g, e, hg, hblank, b, v, hb, hmem⟩ := hsign
  exact ⟨g, b, v, by rw [hg, hb], hblank, hmem⟩

/-- Nothing is found at a blank that something else than a blank or a sign follows. -/
theorem hitOf_eq_none_of_next {m : Unary} (hs : s.drop o = ' ' :: w)
    (hw : w.head?.any (fun a => isBlank a || m.signs.contains a) = false) : m.finder.hitOf (fun _ => true) s o = none := by
  refine hitOf_eq_none_of_reads fun d h => ?_
  obtain ⟨g, b, v, hrest, hblank, hb⟩ := reads_finder h
  have hstart : (start s o).rest = ' ' :: w := hs
  have hspace : ' ' ∉ m.signs := by cases m <;> decide
  rw [hstart] at hrest
  cases g with
  | nil =>
    obtain ⟨rfl, -⟩ := List.cons.inj hrest
    exact hspace hb
  | cons a g =>
    obtain ⟨-, hw'⟩ := List.cons.inj hrest
    rw [hw'] at hw
    cases g with
    | nil =>
      have hw : (isBlank b || m.signs.contains b) = false := hw
      rw [List.contains_iff_mem.2 hb, Bool.or_true] at hw
      exact Bool.noConfusion hw
    | cons a' g =>
      have hw : (isBlank a' || m.signs.contains a') = false := hw
      rw [hblank a' (by simp), Bool.true_or] at hw
      exact Bool.noConfusion hw

/-- The sign in front of a word is read with the blank before it. -/
theorem run_finder {m : Unary} {b : Char} {v : List Char} (hrest : c.rest = ' ' :: m.char :: b :: v) (hb : isAsciiWord b = true) :
    m.finder.pattern.run c some =
      some ((c.past [' '] (m.char :: b :: v)).note .token (c.past [' ', m.char] (b :: v))) := by
  have hnot : ∀ a, isAsciiWord a = false → b ≠ a := by
    rintro a ha rfl
    exact Bool.noConfusion (hb.symm.trans ha)
  have htext : ∀ {t : String} {a a' : Char} {u w : List Char} {c : Cursor} {k : Cursor → Option Cursor}, t.toList = a :: u →
      c.rest = a' :: w → a' ≠ a → (text t).run c k = none := by
    intro t a a' u w c k ht hc hne
    refine run_text_eq_none ht fun hhead => hne ?_
    rw [hc] at hhead
    exact Option.some.inj hhead
  cases m with
  | minus =>
    refine run_many (u := [' ']) hrest (by decide) rfl ?_
    rw [all, run_part, run_any_of_none (htext (t := "//") rfl rfl (by decide)), any, oneOf, run_one rfl (by decide),
      Cursor.past_past]
    rfl
  | star =>
    refine run_many (u := [' ']) hrest (by decide) rfl ?_
    rw [all, run_part, run_all_cons, run_text (t := "*") rfl, all,
      run_opt_of_none (htext (t := "*") rfl rfl (hnot _ (by decide))), Cursor.past_past]
    rfl
  | ampersand =>
    change (all [Operator.spaced _, blanks]).run c some = _
    rw [run_all_cons]
    refine run_many (u := [' ']) hrest (by decide) rfl ?_
    rw [all, run_part, run_any_of_none (htext (t := "<<") rfl rfl (by decide)),
      run_any_of_none (htext (t := ">>") rfl rfl (by decide))]
    refine run_any_of_some ?_
    rw [run_text (t := "&") rfl, all]
    refine run_many (u := []) rfl (List.forall_mem_nil _) ?_ rfl
    rw [List.head?_cons, Option.any_some, holds_blank, Text.isBlank_eq_false_of_isAsciiWord hb]

/-- A word may stand behind the sign. -/
theorem after_finder (m : Unary) {b : Char} (hb : isAsciiWord b = true) : m.finder.after (some b) = true := by
  cases m with
  | minus =>
    have hsigns : ∀ a ∈ ['>', '+', '-', '='], isAsciiWord a = false := by decide
    change (!decide (b ∈ ['>', '+', '-', '='])) = true
    rw [Bool.not_eq_true', decide_eq_false_iff_not]
    exact fun hmem => Bool.noConfusion (hb.symm.trans (hsigns b hmem))
  | star => rfl
  | ampersand =>
    have hb : (b.isAlphanum || b == '_') = true := hb
    rw [Bool.or_eq_true, beq_iff_eq] at hb
    refine Bool.or_eq_true_iff.2 (Or.inl ?_)
    rw [Operator.isOperand, Option.any_some, Bool.or_eq_true, decide_eq_true_eq]
    exact hb.imp_right fun h => by rw [h]; exact List.mem_cons_self

/-- Behind an operand, the sign in front of a word is found with the blank before it. -/
theorem hitOf_sign {m : Unary} (hs : s.drop o = ' ' :: m.char :: w) (hw : w.head?.any isAsciiWord = true)
    (hbefore : Operator.isOperand (Text.charBefore s o) = true) :
    ∃ h : Hit, m.finder.hitOf (fun _ => true) s o = some h ∧ h.token = ⟨o + 1, o + 2⟩ := by
  obtain ⟨b, hhead, hb⟩ := (Option.any_eq_true _ _).1 hw
  obtain ⟨v, rfl⟩ := List.head?_eq_some_iff.1 hhead
  have hbarred : m.finder.barred = [] := by cases m <;> rfl
  have hbefore : m.finder.before (Text.charBefore s o) = true := by rw [before_finder, hbefore]
  refine ⟨_, Finder.hitOf_of_read hbefore ?_ hbarred (run_finder hs hb) rfl, rfl⟩
  exact m.after_finder hb

end Unary
end Tokenizer
end SourceLikeness
