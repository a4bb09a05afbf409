import SourceLikeness.Proofs.Pattern.Spots

/-!
# Words of texts that are put together

* `inside_append`, `StandsAt.append_cases` : where two texts meet at an edge, every word belongs to one of them;
* `StandsAt.append_left` : a word of a text behind an edge;
* `standsAt_word_append` : the words of a text that starts with one;
* `Without ws` : none of some words stands in a text; `Without.append` : nor in two such texts that meet at an edge.
-/

namespace SourceLikeness.Text
open Leads (IsWord)
variable {s u v w k g : List Char} {c : Char} {i j : Nat} {ws : List String}

/-! ## Edges between two texts -/

theorem wordAt_append_left (h : i < u.length) (v : List Char) : wordAt (u ++ v) i = wordAt u i := by
  rw [wordAt, wordAt, List.getElem?_append_left h]

theorem wordAt_append_right (u v : List Char) (j : Nat) : wordAt (u ++ v) (u.length + j) = wordAt v j := by
  rw [wordAt, wordAt, List.getElem?_append_right (Nat.le_add_right _ _), Nat.add_sub_cancel_left]

/-- The seam of two texts is an edge if no word character stands on one of its sides. -/
theorem inside_append (h : u.getLast?.any isAsciiWord = false ∨ v.head?.any isAsciiWord = false) :
    inside (u ++ v) u.length = false := by
  refine inside_eq_false_iff.2 (h.imp (fun h => ?_) fun h => ?_)
  · rw [wordBefore, charBefore_append, h]
  · have hat := wordAt_append_right u v 0
    rw [Nat.add_zero] at hat
    rw [hat, wordAt, ← List.head?_eq_getElem?, h]

/-- Where two texts meet at an edge, every word belongs to one of them. -/
theorem StandsAt.append_cases (hw : IsWord w) (hedge : inside (u ++ v) u.length = false) (h : StandsAt w (u ++ v) i) :
    StandsAt w u i ∨ ∃ j, i = u.length + j ∧ StandsAt w v j := by
  rcases Nat.lt_or_ge i u.length with hlt | hge
  · refine Or.inl ?_
    have hle : i + w.length ≤ u.length := by
      by_contra hlong
      have hlast := wordAt_of_reads hw.2 h.reads (j := u.length - 1 - i) (by omega)
      have hnext := wordAt_of_reads hw.2 h.reads (j := u.length - i) (by omega)
      rw [show i + (u.length - 1 - i) = u.length - 1 by omega, ← wordBefore_of_pos (by omega)] at hlast
      rw [show i + (u.length - i) = u.length by omega] at hnext
      rw [inside, hlast, hnext] at hedge
      exact Bool.noConfusion hedge
    refine ⟨?_, ?_, ?_⟩
    · refine prefix_drop_iff.2 fun j hj => ?_
      rw [← prefix_drop_iff.1 h.reads j hj, List.getElem?_append_left (by omega)]
    · have hbefore := h.before
      cases i with
      | zero => rfl
      | succ i => rwa [wordBefore_succ, wordAt_append_left (by omega)] at hbefore
    · rcases Nat.lt_or_ge (i + w.length) u.length with hin | hend
      · rw [← wordAt_append_left hin v, h.after]
      · exact wordAt_of_length_le hend
  · obtain ⟨j, rfl⟩ := Nat.exists_eq_add_of_le hge
    refine Or.inr ⟨j, rfl, ?_, ?_, ?_⟩
    · have hreads := h.reads
      rwa [← List.drop_drop, List.drop_left] at hreads
    · have hbefore := h.before
      cases j with
      | zero => rfl
      | succ j => rwa [← Nat.add_assoc, wordBefore_succ, wordAt_append_right] at hbefore
    · rw [← wordAt_append_right u v, ← Nat.add_assoc, h.after]

/-- A word of a text behind an edge. -/
theorem StandsAt.append_left (hu : u.getLast?.any isAsciiWord = false) (h : StandsAt w v j) :
    StandsAt w (u ++ v) (u.length + j) where
  reads := by
    rw [← List.drop_drop, List.drop_left]
    exact h.reads
  before := by
    have hbefore := h.before
    cases j with
    | zero => rw [Nat.add_zero, wordBefore, charBefore_append, hu]
    | succ j => rwa [← Nat.add_assoc, wordBefore_succ, wordAt_append_right]
  after := by rw [Nat.add_assoc, wordAt_append_right, h.after]

/-- A text with a word in front: it stands there, and the other words stand behind it. -/
theorem standsAt_word_append (hk : IsWord k) (hw : IsWord w) (hv : v.head?.any isAsciiWord = false)
    (h : StandsAt w (k ++ v) i) : i = 0 ∧ w = k ∨ ∃ j, i = k.length + j ∧ StandsAt w v j := by
  refine (h.append_cases hw (inside_append (Or.inr hv))).imp_left fun hstands => ?_
  have hzero : i = 0 := by
    have hlt := hstands.startsAt.lt_length hw.1
    by_contra hne
    have hword := wordAt_of_reads hk.2 (List.prefix_refl (k.drop 0)) (j := i - 1) (by omega)
    have hbefore := hstands.before
    rw [wordBefore_of_pos (Nat.pos_of_ne_zero hne), ← Nat.zero_add (i - 1), hword] at hbefore
    exact Bool.noConfusion hbefore
  subst hzero
  refine ⟨rfl, Stands.eq_of_standsAt hw hk hstands ⟨List.prefix_refl _, rfl, wordAt_of_length_le ?_⟩⟩
  rw [Nat.zero_add]

/-! ## Texts without some words -/

/-- None of the words stands in the text. -/
def Without (ws : List String) (u : List Char) : Prop := ∀ w ∈ ws, ∀ i, ¬ StandsAt w.toList u i

theorem without_iff (hws : ∀ w ∈ ws, w.toList ≠ []) : Without ws u ↔ ∀ w ∈ ws, ∀ i < u.length, ¬ StandsAt w.toList u i :=
  forall₂_congr fun w hw => ⟨fun h i _ => h i, fun h i hi => h i (hi.startsAt.lt_length (hws w hw)) hi⟩

section Without
variable (hws : ∀ w ∈ ws, IsWord w.toList)
include hws

theorem Without.append (hu : Without ws u) (hv : Without ws v)
    (hedge : u.getLast?.any isAsciiWord = false ∨ v.head?.any isAsciiWord = false) : Without ws (u ++ v) := by
  intro w hw i h
  rcases h.append_cases (hws w hw) (inside_append hedge) with h | ⟨_, -, h⟩
  · exact hu w hw i h
  · exact hv w hw _ h

/-- Characters that belong to no word. -/
theorem without_of_wordless (hg : ∀ c ∈ g, isAsciiWord c = false) : Without ws g := by
  intro w hw i h
  have hat := wordAt_of_reads (hws w hw).2 h.reads (List.length_pos_of_ne_nil (hws w hw).1)
  obtain ⟨c, hc, hword⟩ := wordAt_eq_true_iff.1 hat
  rw [hg c (List.mem_of_getElem? hc)] at hword
  exact Bool.noConfusion hword

theorem without_nil : Without ws [] := without_of_wordless hws (List.forall_mem_nil _)

theorem Without.append_of_wordless (hg : ∀ c ∈ g, isAsciiWord c = false) (hv : Without ws v) : Without ws (g ++ v) := by
  refine Without.append hws (without_of_wordless hws hg) hv (Or.inl ?_)
  rw [← Bool.not_eq_true]
  intro hany
  obtain ⟨c, hc, hword⟩ := (Option.any_eq_true _ _).1 hany
  rw [hg c (List.mem_of_getLast? hc)] at hword
  exact Bool.noConfusion hword

theorem Without.cons (hc : isAsciiWord c = false) (hv : Without ws v) : Without ws (c :: v) :=
  Without.append_of_wordless hws (g := [c]) (List.forall_mem_singleton.2 hc) hv

theorem Without.append_cons (hu : Without ws u) (hc : isAsciiWord c = false) (hv : Without ws v) : Without ws (u ++ c :: v) :=
  hu.append hws (hv.cons hws hc) (Or.inr hc)

end Without

/-- What comes behind an edge of a text has no word that the text has not. -/
theorem Without.of_append (hu : u.getLast?.any isAsciiWord = false) (h : Without ws (u ++ v)) : Without ws v :=
  fun w hw _ hstands => h w hw _ (hstands.append_left hu)

end SourceLikeness.Text
