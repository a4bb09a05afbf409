import SourceLikeness.Token.Basic
import Mathlib.Data.List.Basic

/-!
# Token streams

A stream holds the tokens that it is made of (`stream_perm`), in order of place (`pairwise_stream`), those of one place
in the order in which they were recorded (`filter_stream`). Nothing else is such a list (`stream_eq`).
-/

namespace SourceLikeness.Token
variable {α : Type}

theorem precedes_iff {s t : Token α} :
    s.precedes t = true ↔ s.start < t.start ∨ s.start = t.start ∧ s.stop ≤ t.stop := by
  simp only [precedes, Bool.or_eq_true, Bool.and_eq_true, decide_eq_true_eq, beq_iff_eq]

theorem precedes_of_not_precedes {s t : Token α} (h : ¬ s.precedes t = true) : t.precedes s = true := by
  rw [precedes_iff] at *
  omega

theorem precedes_trans {s t u : Token α} (h : s.precedes t = true) (h' : t.precedes u = true) :
    s.precedes u = true := by
  rw [precedes_iff] at *
  omega

theorem insert_perm (t : Token α) (tokens : List (Token α)) : (insert t tokens).Perm (t :: tokens) := by
  fun_induction insert t tokens with
  | case1 => exact .refl _
  | case2 s rest h => exact .refl _
  | case3 s rest h ih => exact (ih.cons s).trans (.swap t s rest)

theorem stream_perm (tokens : List (Token α)) : (stream tokens).Perm tokens := by
  induction tokens with
  | nil => exact .refl _
  | cons t tokens ih => exact (insert_perm t (stream tokens)).trans (ih.cons t)

theorem pairwise_insert (t : Token α) {tokens : List (Token α)}
    (h : tokens.Pairwise fun s u => s.precedes u = true) :
    (insert t tokens).Pairwise fun s u => s.precedes u = true := by
  fun_induction insert t tokens with
  | case1 => exact List.pairwise_singleton _ t
  | case2 s rest hts =>
    refine h.cons ?_
    intro u hu
    rcases List.mem_cons.1 hu with rfl | hu
    · exact hts
    · exact precedes_trans hts ((List.pairwise_cons.1 h).1 u hu)
  | case3 s rest hts ih =>
    obtain ⟨hs, hrest⟩ := List.pairwise_cons.1 h
    refine (ih hrest).cons ?_
    intro u hu
    rcases List.mem_cons.1 ((insert_perm t rest).mem_iff.1 hu) with rfl | hu
    · exact precedes_of_not_precedes hts
    · exact hs u hu

/-- The tokens of a stream stand in order of place. -/
theorem pairwise_stream (tokens : List (Token α)) :
    (stream tokens).Pairwise fun s t => s.precedes t = true := by
  induction tokens with
  | nil => exact List.Pairwise.nil
  | cons t tokens ih => exact pairwise_insert t ih

/-! ## Tokens of one place -/

theorem filter_insert (t : Token α) (tokens : List (Token α)) (place : Span) :
    (insert t tokens).filter (·.span == place) = (t :: tokens).filter (·.span == place) := by
  fun_induction insert t tokens with
  | case1 => rfl
  | case2 s rest h => rfl
  | case3 s rest h ih =>
    rw [List.filter_cons, ih, List.filter_cons, List.filter_cons, List.filter_cons]
    by_cases hs : (s.span == place) = true
    · -- the token goes behind one of another place only
      have ht : ¬ (t.span == place) = true := by
        intro ht
        have heq : t.span = s.span := (beq_iff_eq.1 ht).trans (beq_iff_eq.1 hs).symm
        have hstart : t.start = s.start := congrArg Span.start heq
        have hstop : t.stop = s.stop := congrArg Span.stop heq
        exact h (precedes_iff.2 (Or.inr ⟨hstart, Nat.le_of_eq hstop⟩))
      rw [if_neg ht, if_neg ht]
    · rw [if_neg hs, if_neg hs]

/-- The tokens of one place keep the order in which they were recorded. -/
theorem filter_stream (tokens : List (Token α)) (place : Span) :
    (stream tokens).filter (·.span == place) = tokens.filter (·.span == place) := by
  induction tokens with
  | nil => rfl
  | cons t tokens ih =>
    rw [stream, List.foldr_cons, filter_insert, ← stream, List.filter_cons, List.filter_cons, ih]

theorem mem_of_filter_eq {l m : List (Token α)}
    (h : ∀ place : Span, l.filter (·.span == place) = m.filter (·.span == place)) {t : Token α} (ht : t ∈ l) : t ∈ m := by
  have hfilter : t ∈ l.filter (·.span == t.span) := List.mem_filter.2 ⟨ht, beq_self_eq_true _⟩
  rw [h] at hfilter
  exact (List.mem_filter.1 hfilter).1

theorem precedes_of_mem {a b : Token α} {l : List (Token α)} (hl : (a :: l).Pairwise fun s t => s.precedes t = true)
    (hb : b ∈ a :: l) : a.precedes b = true := by
  rcases List.mem_cons.1 hb with rfl | hb
  · exact precedes_iff.2 (Or.inr ⟨rfl, Nat.le_refl _⟩)
  · exact (List.pairwise_cons.1 hl).1 b hb

/-- Ordered tokens are known from those of each place. -/
theorem eq_of_filter_eq {l m : List (Token α)} (hl : l.Pairwise fun s t => s.precedes t = true)
    (hm : m.Pairwise fun s t => s.precedes t = true)
    (h : ∀ place : Span, l.filter (·.span == place) = m.filter (·.span == place)) : l = m := by
  induction l generalizing m with
  | nil => exact (List.eq_nil_iff_forall_not_mem.2 fun t ht => List.not_mem_nil (mem_of_filter_eq (fun p => (h p).symm) ht)).symm
  | cons a l ih =>
    cases m with
    | nil => exact absurd (mem_of_filter_eq h List.mem_cons_self) List.not_mem_nil
    | cons b m =>
      have hab := precedes_of_mem hl (mem_of_filter_eq (fun p => (h p).symm) List.mem_cons_self)
      have hba := precedes_of_mem hm (mem_of_filter_eq h List.mem_cons_self)
      rw [precedes_iff] at hab hba
      have hspan : b.span = a.span := by
        rw [span, span, Span.mk.injEq]
        omega
      have hheads := h a.span
      rw [List.filter_cons, if_pos (beq_self_eq_true _), List.filter_cons, if_pos (beq_iff_eq.2 hspan)] at hheads
      obtain ⟨rfl, -⟩ := List.cons.inj hheads
      refine congrArg (a :: ·) (ih (List.pairwise_cons.1 hl).2 (List.pairwise_cons.1 hm).2 fun place => ?_)
      have hrest := h place
      rw [List.filter_cons, List.filter_cons] at hrest
      split_ifs at hrest
      · exact (List.cons.inj hrest).2
      · exact hrest

/-- **Streams.** Ordered tokens are the stream of any tokens that they are an arrangement of, if those of each place
are all the same or stand in the order in which they were recorded. -/
theorem stream_eq {tokens l : List (Token α)} (hperm : tokens.Perm l) (hl : l.Pairwise fun s t => s.precedes t = true)
    (hties : ∀ place : Span, (∀ s ∈ l, ∀ t ∈ l, s.span = place → t.span = place → s = t) ∨
      tokens.filter (·.span == place) = l.filter (·.span == place)) : stream tokens = l := by
  refine eq_of_filter_eq (pairwise_stream tokens) hl fun place => ?_
  rw [filter_stream]
  rcases hties place with hsame | heq
  · have hall : ∀ s ∈ l.filter (·.span == place), ∀ t ∈ l.filter (·.span == place), s = t := by
      intro s hs t ht
      rw [List.mem_filter, beq_iff_eq] at hs ht
      exact hsame s hs.1 t ht.1 hs.2 ht.2
    have hfilter := hperm.filter (·.span == place)
    have hany : ∀ l : List (Token α), l.Pairwise fun _ _ => True := fun l => List.pairwise_of_forall fun _ _ => trivial
    exact hfilter.eq_of_pairwise (fun s t hs ht _ _ => hall s (hfilter.mem_iff.1 hs) t ht) (hany _) (hany _)
  · exact heq

end SourceLikeness.Token
