import Mathlib.Data.Char
import Mathlib.Data.List.Lex
import Mathlib.Data.List.Sort
import Mathlib.Data.Prod.Lex
import SourceLikeness.Proofs.Text.Words
import SourceLikeness.Tokenizer.Statement

/-!
# The order of type keywords

Keywords are ordered by their spellings as regular expressions. No two keywords share a spelling, so that this is a total
order and a list of keywords has one canonical form.

* `plain`, `words_plain_spelling` : a keyword is read back from its spelling;
* `rank`, `comesBefore_iff`, `rank_injective` : the place of a keyword in the order;
* `mem_keywords`, `pairwise_keywords` : what is in a canonical list, and that it is in order;
* `keywords_congr` : the canonical list depends on the set of keywords alone;
* `comesBefore_of_extends` : a keyword with further words comes before the one without them.
-/

namespace SourceLikeness.Tokenizer.Statement
open Text (words AreWords)
variable {j k : Keyword} {ks : List Keyword} {types types' : List String}

/-! ## Spellings -/

theorem spelling_cons (w : List Char) (hk : k ≠ []) :
    spelling (w :: k) = w.flatMap escape ++ "\\s+".toList ++ spelling k := by
  rw [spelling, List.map_cons, List.intercalate_cons_of_ne_nil (by simpa using hk), spelling]

theorem spelling_append (hj : j ≠ []) (hk : k ≠ []) :
    spelling (j ++ k) = spelling j ++ "\\s+".toList ++ spelling k := by
  induction j with
  | nil => exact absurd rfl hj
  | cons w j ih =>
    cases j with
    | nil =>
      rw [List.singleton_append, spelling_cons w hk]
      simp [spelling]
    | cons v j =>
      rw [List.cons_append, spelling_cons w (List.append_ne_nil_of_right_ne_nil _ hk), ih (List.cons_ne_nil v j),
        spelling_cons w (List.cons_ne_nil v j)]
      simp only [List.append_assoc]

/-- What a spelling stands for. A space stands for the blanks between two words. -/
def plain : List Char → List Char
  | [] => []
  | '\\' :: 's' :: '+' :: rest => ' ' :: plain rest
  | '\\' :: c :: rest => c :: plain rest
  | c :: rest => c :: plain rest

theorem plain_escape (c : Char) (rest : List Char) : plain (escape c ++ rest) = c :: plain rest := by
  unfold escape
  split
  case isTrue h =>
    -- No letter has a meaning of its own, so that the backslash is not that of `\s+`.
    have hc : c ≠ 's' := by
      rintro rfl
      revert h
      decide
    rw [List.cons_append, List.singleton_append, plain]
    exact fun _ heq => absurd heq hc
  case isFalse h =>
    have hc : c ≠ '\\' := by
      rintro rfl
      exact h (by decide)
    rw [List.singleton_append, plain]
    · exact fun _ heq => absurd heq hc
    · exact fun _ _ heq => absurd heq hc

theorem plain_flatMap_escape (w rest : List Char) : plain (w.flatMap escape ++ rest) = w ++ plain rest := by
  induction w with
  | nil => rfl
  | cons c w ih => rw [List.flatMap_cons, List.append_assoc, plain_escape, ih, List.cons_append]

theorem plain_spelling (k : Keyword) : plain (spelling k) = [' '].intercalate k := by
  induction k with
  | nil => rfl
  | cons w k ih =>
    cases k with
    | nil =>
      have hword : spelling [w] = w.flatMap escape ++ [] := by simp [spelling]
      rw [hword, plain_flatMap_escape, List.intercalate_singleton]
      exact List.append_nil w
    | cons v k =>
      rw [spelling_cons w (List.cons_ne_nil v k), List.append_assoc, plain_flatMap_escape, List.intercalate_cons_cons, ← ih,
        List.append_assoc]
      rfl

/-- A keyword is read back from its spelling. -/
theorem words_plain_spelling (hk : AreWords k) : words (plain (spelling k)) = k := by
  rw [plain_spelling, Text.words_join hk]

/-! ## The order -/

/-- The place of a keyword in the order: by the length of its spelling, long ones first, and then by the spelling. -/
def rank (k : Keyword) : ℕᵒᵈ ×ₗ List Char := toLex (OrderDual.toDual (byteLength (spelling k)), spelling k)

theorem comesBefore_iff : comesBefore j k = true ↔ rank j < rank k := by
  rw [rank, rank, Prod.Lex.toLex_lt_toLex, comesBefore]
  simp

theorem rank_injective (hj : AreWords j) (hk : AreWords k) (h : rank j = rank k) : j = k := by
  have hspelling : spelling j = spelling k := congrArg (fun r => (ofLex r).2) h
  rw [← words_plain_spelling hj, ← words_plain_spelling hk, hspelling]

theorem byteLength_append (u v : List Char) : byteLength (u ++ v) = byteLength u + byteLength v := by
  induction u with
  | nil => exact (Nat.zero_add _).symm
  | cons c u ih => rw [List.cons_append, byteLength, byteLength, ih, Nat.add_assoc]

theorem byteLength_pos {u : List Char} (h : u ≠ []) : 0 < byteLength u := by
  cases u with
  | nil => exact absurd rfl h
  | cons c u => exact Nat.add_pos_left c.utf8Size_pos _

theorem spelling_ne_nil (hk : AreWords k) (hne : k ≠ []) : spelling k ≠ [] := by
  intro h
  rw [← words_plain_spelling hk, h] at hne
  exact hne rfl

/-- A keyword with further words comes before the one without them. -/
theorem comesBefore_of_extends {more : Keyword} (hmore : AreWords more) (hne : more ≠ []) :
    comesBefore (j ++ more) j = true := by
  have hlonger : byteLength (spelling j) < byteLength (spelling (j ++ more)) := by
    have hpos := byteLength_pos (spelling_ne_nil hmore hne)
    by_cases hj : j = []
    · subst hj
      exact hpos
    · rw [spelling_append hj hne, byteLength_append, byteLength_append]
      omega
  rw [comesBefore, decide_eq_true hlonger, Bool.true_or]

/-! ## Canonical lists -/

theorem mem_insertKeyword : j ∈ insertKeyword k ks ↔ j = k ∨ j ∈ ks := by
  fun_induction insertKeyword k ks with
  | case1 => simp
  | case2 => simp
  | case3 i rest h hbefore => simp
  | case4 i rest h hbefore ih => simp [ih, or_left_comm]

theorem mem_keywords : k ∈ keywords types ↔ ∃ t ∈ types, words t.toList = k := by
  unfold keywords
  induction types with
  | nil => simp
  | cons t types ih => rw [List.map_cons, List.foldr_cons, mem_insertKeyword, ih, List.exists_mem_cons_iff, eq_comm]

theorem areWords_of_mem_keywords (h : k ∈ keywords types) : AreWords k := by
  obtain ⟨t, -, rfl⟩ := mem_keywords.1 h
  exact Text.areWords_words t.toList

theorem pairwise_insertKeyword (hk : AreWords k) (hks : ∀ j ∈ ks, AreWords j) (h : ks.Pairwise (rank · < rank ·)) :
    (insertKeyword k ks).Pairwise (rank · < rank ·) := by
  fun_induction insertKeyword k ks with
  | case1 => exact List.pairwise_singleton _ _
  | case2 => exact h
  | case3 j rest hne hbefore =>
    have hlt := comesBefore_iff.1 hbefore
    have hrest := (List.pairwise_cons.1 h).1
    exact List.pairwise_cons.2 ⟨List.forall_mem_cons.2 ⟨hlt, fun i hi => hlt.trans (hrest i hi)⟩, h⟩
  | case4 j rest hne hbefore ih =>
    obtain ⟨hj, hrest⟩ := List.forall_mem_cons.1 hks
    obtain ⟨hfirst, htail⟩ := List.pairwise_cons.1 h
    -- Two keywords of one rank are one, so that the one that does not come before the other comes after it.
    have hlt : rank j < rank k :=
      lt_of_le_of_ne (not_lt.1 (mt comesBefore_iff.2 hbefore)) fun heq => hne (rank_injective hj hk heq).symm
    refine List.pairwise_cons.2 ⟨fun i hi => ?_, ih hrest htail⟩
    obtain rfl | hi := mem_insertKeyword.1 hi
    · exact hlt
    · exact hfirst i hi

theorem pairwise_keywords (types : List String) : (keywords types).Pairwise (rank · < rank ·) := by
  induction types with
  | nil => exact List.Pairwise.nil
  | cons t types ih =>
    exact pairwise_insertKeyword (Text.areWords_words t.toList) (fun _ => areWords_of_mem_keywords) ih

/-- **The canonical list depends on the set of keywords alone.** -/
theorem keywords_congr (h : ∀ k, k ∈ keywords types ↔ k ∈ keywords types') : keywords types = keywords types' := by
  have : Std.Irrefl fun j k : Keyword => rank j < rank k := ⟨fun k => lt_irrefl (rank k)⟩
  have : Std.Antisymm fun j k : Keyword => rank j < rank k := ⟨fun _ _ hjk hkj => absurd hjk hkj.asymm⟩
  exact (pairwise_keywords types).eq_of_mem_iff (pairwise_keywords types') h

end SourceLikeness.Tokenizer.Statement
