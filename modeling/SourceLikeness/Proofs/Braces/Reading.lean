import SourceLikeness.Proofs.Pattern.Evaluation
import SourceLikeness.Proofs.Pattern.Spots
import SourceLikeness.Tokenizer.BareBody
import SourceLikeness.Tokenizer.Header

/-!
# Conditions and statements in a text

What the patterns for headers and for bodies without braces share.

* `Plain` : characters that are neither a semicolon nor a brace, as all patterns for headers want them;
* `run_bracketed`, `run_statement` : a condition in parentheses is read up to the first that closes, a statement up to the
  first semicolon;
* `reads_bracketed`, `reads_statement` : and what is read as one is such a text.
-/

namespace SourceLikeness.Tokenizer
open Pattern
open Text (isAsciiWord isBlank)
open Finder (start)
variable {β : Type} {c d : Cursor} {k : Cursor → Option β} {t u v w g : List Char} {y : β} {a b : Char} {s : List Char} {o : Nat}

/-! ## Plain characters -/

abbrev plain : CharSet := .except (";\x7b\x7d".toList.map .char)

/-- Neither a semicolon nor a brace is among the characters. -/
def Plain (u : List Char) : Prop := ∀ a ∈ u, plain.holds a = true

instance (u : List Char) : Decidable (Plain u) := inferInstanceAs (Decidable (∀ a ∈ u, plain.holds a = true))

theorem plain_of_not_mem (h : a ∉ ";\x7b\x7d".toList) : plain.holds a = true := by
  rw [holds_noneOf, Bool.not_eq_true', ← Bool.not_eq_true, List.contains_iff_mem]
  exact h

theorem plain_of_isAsciiWord (h : isAsciiWord a = true) : plain.holds a = true := by
  have hall : ∀ b ∈ ";\x7b\x7d".toList, isAsciiWord b = false := by decide
  exact plain_of_not_mem fun hmem => Bool.noConfusion (h.symm.trans (hall a hmem))

theorem plain_of_isBlank (h : isBlank a = true) : plain.holds a = true := by
  have hall : ∀ b ∈ ";\x7b\x7d".toList, isBlank b = false := by decide
  exact plain_of_not_mem fun hmem => Bool.noConfusion (h.symm.trans (hall a hmem))

theorem Plain.append (hu : Plain u) (hv : Plain v) : Plain (u ++ v) := List.forall_mem_append.2 ⟨hu, hv⟩

theorem Plain.cons (ha : plain.holds a = true) (hu : Plain u) : Plain (a :: u) := List.forall_mem_cons.2 ⟨ha, hu⟩

/-- Where the plain characters stop, they stop for all. -/
theorem Plain.append_inj (hu : Plain u) (hv : Plain v) (ha : plain.holds a = false) (hb : plain.holds b = false)
    (h : u ++ a :: w = v ++ b :: g) : u = v ∧ a = b := by
  have htake : ∀ {u w : List Char} {a : Char}, Plain u → plain.holds a = false →
      (u ++ a :: w).takeWhile plain.holds = u := by
    intro u w a hu ha
    rw [List.takeWhile_append_of_pos hu, List.takeWhile_cons_of_neg (by rw [ha]; exact Bool.false_ne_true), List.append_nil]
  have heq : u = v := by rw [← htake hu ha, h, htake hv hb]
  subst heq
  exact ⟨rfl, (List.cons.inj (List.append_cancel_left h)).1⟩

/-- Where the last parenthesis closes directly before a semicolon, nothing plain stands between them. -/
theorem eq_semicolon_of_closes (hu : ')' ∉ u) (ht : Plain t) (hg : Plain g)
    (h : u ++ ')' :: ';' :: w = t ++ ')' :: (g ++ b :: v)) : b = ';' := by
  have hleft : u ++ ')' :: ';' :: w = (u ++ [')']) ++ ';' :: w := by rw [List.append_assoc]; rfl
  have hright : t ++ ')' :: (g ++ b :: v) = (t ++ ')' :: g) ++ b :: v := by rw [List.append_assoc]; rfl
  have hsemicolon : ';' ∉ t ++ ')' :: g := fun hmem =>
    absurd (ht.append (Plain.cons (by decide) hg) ';' hmem) (by decide)
  rw [hleft, hright] at h
  rcases List.append_eq_append_iff.1 h with ⟨x, hx, hrest⟩ | ⟨x, hx, hrest⟩
  · cases x with
    | nil => exact (List.cons.inj hrest).1.symm
    | cons e x =>
      obtain ⟨rfl, -⟩ := List.cons.inj hrest
      rw [hx] at hsemicolon
      exact absurd (List.mem_append_right _ List.mem_cons_self) hsemicolon
  · cases x with
    | nil => exact (List.cons.inj hrest).1
    | cons e x =>
      -- a parenthesis that does not close last
      have hbody := congrArg List.dropLast hx
      rw [List.dropLast_concat, List.append_assoc, List.dropLast_append_of_ne_nil (by simp), List.cons_append,
        List.dropLast_cons_of_ne_nil (by simp)] at hbody
      rw [hbody] at hu
      exact absurd (List.mem_append_right _ List.mem_cons_self) hu

/-! ## Conditions and statements -/

theorem run_bracketed (hrest : c.rest = " (".toList ++ u ++ ')' :: (g ++ w)) (hne : u ≠ []) (hu : Plain u) (hu' : ')' ∉ u)
    (hg : ∀ a ∈ g, isBlank a = true) (hw : w.head?.any isBlank = false)
    (hk : k (c.past (" (".toList ++ u ++ ')' :: g) w) = some y) :
    (all [blanks, text "(", plusFew (noneOf ";\x7b\x7d"), text ")", blanks]).run c k = some y := by
  obtain ⟨a, u, rfl⟩ := List.exists_cons_of_ne_nil hne
  obtain ⟨ha, hu⟩ := List.forall_mem_cons.1 hu
  simp only [all, plusFew, run_seq]
  refine run_many (u := [' ']) (v := '(' :: (a :: u ++ ')' :: (g ++ w))) (by rw [hrest]; simp) (by decide) rfl ?_
  rw [run_text (v := a :: u ++ ')' :: (g ++ w)) rfl, noneOf, run_one (v := u ++ ')' :: (g ++ w)) rfl ha]
  refine run_few (u := u) (v := ')' :: (g ++ w)) rfl hu (fun u₁ u₂ hsplit hne => ?_) ?_
  · -- no parenthesis closes earlier
    refine run_text_eq_none (t := ")") rfl fun hhead => hu' ?_
    rw [Cursor.rest_past, List.head?_append_of_ne_nil _ hne] at hhead
    rw [← hsplit]
    exact List.mem_cons_of_mem _ (List.mem_append_right _ (List.mem_of_mem_head? hhead))
  · rw [run_text (v := g ++ w) rfl]
    refine run_many rfl (fun a ha => holds_blank.trans (hg a ha)) (by simpa only [holds_blank] using hw) ?_
    simpa [Cursor.past_past] using hk

theorem reads_bracketed (h : (all [blanks, text "(", plusFew (noneOf ";\x7b\x7d"), text ")", blanks]).Reads c d) :
    ∃ t g, Plain t ∧ (∀ a ∈ g, isBlank a = true) ∧ c.rest = t ++ ')' :: (g ++ d.rest) := by
  obtain ⟨c₁, h₁, c₂, h₂, c₃, ⟨c₄, ⟨a, rest, ha, hplain, rfl⟩, h₄⟩, c₅, h₅, h₆⟩ := h
  obtain ⟨g₁, hrest, hg₁⟩ := reads_many h₁
  obtain ⟨u, hu, huplain⟩ := reads_few h₄
  obtain ⟨g, hg, hgblank⟩ := reads_many h₆
  simp only [holds_blank] at hg₁ hgblank
  refine ⟨g₁ ++ '(' :: a :: u, g, Plain.append (fun b hb => plain_of_isBlank (hg₁ b hb)) ?_, hgblank, ?_⟩
  · exact Plain.cons (by decide) (Plain.cons hplain huplain)
  · have hopen : c₁.rest = '(' :: c₂.rest := reads_chars h₂
    have hclose : c₃.rest = ')' :: c₅.rest := reads_chars h₅
    have hu : rest = u ++ c₃.rest := hu
    rw [hrest, hopen, ha, hu, hclose, hg]
    simp

theorem run_statement (hrest : c.rest = u ++ ';' :: v) (hne : u ≠ []) (hu : Plain u)
    (hk : k (c.note .token (c.past (u ++ [';']) v)) = some y) : BareBody.statement.run c k = some y := by
  obtain ⟨a, u, rfl⟩ := List.exists_cons_of_ne_nil hne
  obtain ⟨ha, hu⟩ := List.forall_mem_cons.1 hu
  simp only [BareBody.statement, run_part, all, plus, run_seq]
  rw [noneOf, run_one hrest ha]
  refine run_many (v := ';' :: v) rfl hu rfl ?_
  rw [run_text (v := v) rfl, Cursor.past_past, Cursor.past_past]
  exact hk

theorem reads_statement (h : BareBody.statement.Reads c d) : ∃ u, u ≠ [] ∧ Plain u ∧ c.rest = u ++ ';' :: d.rest := by
  obtain ⟨m, ⟨c₁, ⟨c₂, ⟨a, rest, ha, hplain, rfl⟩, h₂⟩, h₁⟩, rfl⟩ := h
  obtain ⟨u, hu, huplain⟩ := reads_many h₂
  have hsemicolon : c₁.rest = ';' :: m.rest := reads_chars h₁
  have hu : rest = u ++ c₁.rest := hu
  refine ⟨a :: u, List.cons_ne_nil _ _, Plain.cons hplain huplain, ?_⟩
  rw [ha, hu, hsemicolon]
  rfl

/-- A statement behind a blank. -/
theorem run_blank_statement (hrest : c.rest = ' ' :: (u ++ ';' :: v)) (hne : u ≠ []) (hu : Plain u)
    (hblank : u.head?.any isBlank = false)
    (hk : k ((c.past [' '] (u ++ ';' :: v)).note .token (c.past (' ' :: u ++ [';']) v)) = some y) :
    (all [blanks, BareBody.statement]).run c k = some y := by
  simp only [all, run_seq]
  have hhead : (u ++ ';' :: v).head?.any (CharSet.only [.blank]).holds = false := by
    rw [List.head?_append_of_ne_nil _ hne]
    simpa only [holds_blank] using hblank
  refine run_many (u := [' ']) hrest (by decide) hhead (run_statement rfl hne hu ?_)
  rw [Cursor.past_past]
  exact hk

theorem reads_blanks_statement (h : (all [blanks, BareBody.statement]).Reads c d) :
    ∃ u, Plain u ∧ c.rest = u ++ ';' :: d.rest := by
  obtain ⟨c₁, h₁, h₂⟩ := h
  obtain ⟨g, hg, hgblank⟩ := reads_many h₁
  obtain ⟨u, -, hu, hrest⟩ := reads_statement h₂
  simp only [holds_blank] at hgblank
  refine ⟨g ++ u, Plain.append (fun b hb => plain_of_isBlank (hgblank b hb)) hu, ?_⟩
  rw [hg, hrest, List.append_assoc]

end SourceLikeness.Tokenizer
