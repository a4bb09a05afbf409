import SourceLikeness.Proofs.Nesting.Basic
import SourceLikeness.Proofs.Token.Stream

/-!
# Nested brackets in token streams

* `Token.stream_filter` : the stream of some of the tokens is what the stream has of them;
* `Token.depth_insert_pair` : a pair of brackets that is put into a stream, the opening one no later than the
  closing one, leaves the depth behind the stream as it is;
* `Token.nested_stream` : so the stream of such pairs is nested, wherever they stand and however they cross.
-/

namespace SourceLikeness.Token
open Bracket
variable {α : Type} {side : Token α → Option Bracket} {o c t : Token α} {l : List (Token α)} {d e : Nat}

/-! ## Some of the tokens -/

theorem insert_eq_cons (h : ∀ s ∈ l, t.precedes s = true) : insert t l = t :: l := by
  cases l with
  | nil => rfl
  | cons s l => exact if_pos (h s List.mem_cons_self)

theorem filter_insert_eq (q : Token α → Bool) (h : l.Pairwise fun s u => s.precedes u = true) :
    (insert t l).filter q = if q t then insert t (l.filter q) else l.filter q := by
  induction l with
  | nil =>
    rw [insert, List.filter_cons]
    rfl
  | cons s l ih =>
    obtain ⟨hs, hl⟩ := List.pairwise_cons.1 h
    rw [insert]
    split_ifs with hts hq hq
    · -- all of the list stays behind the token, and so do those of its tokens that are kept
      have hall : ∀ u ∈ (s :: l).filter q, t.precedes u = true := by
        intro u hu
        rcases List.mem_cons.1 (List.mem_filter.1 hu).1 with rfl | hu
        · exact hts
        · exact precedes_trans hts (hs u hu)
      rw [List.filter_cons_of_pos hq, insert_eq_cons hall]
    · rw [List.filter_cons_of_neg hq]
    · rw [List.filter_cons, List.filter_cons, ih hl, if_pos hq]
      split_ifs
      · rw [insert, if_neg hts]
      · rfl
    · rw [List.filter_cons, List.filter_cons, ih hl, if_neg hq]

theorem stream_filter (q : Token α → Bool) (tokens : List (Token α)) :
    (stream tokens).filter q = stream (tokens.filter q) := by
  induction tokens with
  | nil => rfl
  | cons t tokens ih =>
    have hstream : ∀ (t : Token α) tokens, stream (t :: tokens) = insert t (stream tokens) := fun _ _ => rfl
    rw [hstream, filter_insert_eq q (pairwise_stream tokens), ih, List.filter_cons]
    split_ifs <;> rfl

/-! ## Pairs of brackets -/

/-- A closing bracket anywhere in a list closes one that stood open before the list. -/
theorem depth_insert_closing (hc : side c = some .closing) (h : depth side d l = some e) :
    depth side (d + 1) (insert c l) = some e := by
  induction l generalizing d with
  | nil => exact (depth_cons_of_closing hc).trans h
  | cons s l ih =>
    rw [insert]
    split_ifs
    · rw [depth_cons_of_closing hc, h]
    · obtain ⟨m, hm, hl⟩ := Option.bind_eq_some_iff.1 h
      rw [depth, turn_add hm 1]
      exact ih hl

theorem depth_insert_pair (ho : side o = some .opening) (hc : side c = some .closing) (hle : o.precedes c = true)
    (h : depth side d l = some e) : depth side d (insert o (insert c l)) = some e := by
  induction l generalizing d with
  | nil =>
    rw [insert, insert, if_pos hle, depth_cons_of_opening ho, depth_cons_of_closing hc]
    exact h
  | cons s l ih =>
    by_cases hcs : c.precedes s = true
    · rw [insert, if_pos hcs, insert, if_pos hle, depth_cons_of_opening ho, depth_cons_of_closing hc]
      exact h
    · have hinsert : insert c (s :: l) = s :: insert c l := if_neg hcs
      rw [hinsert, insert]
      split_ifs with hos
      · rw [← hinsert, depth_cons_of_opening ho]
        exact depth_insert_closing hc h
      · obtain ⟨m, hm, hl⟩ := Option.bind_eq_some_iff.1 h
        rw [depth, hm]
        exact ih hl

/-- **Pairs of brackets in a stream.** Brackets that are recorded in pairs, the opening one first and no later in the
text, are nested in the stream. -/
theorem nested_stream {ι : Type} {opening closing : ι → Token α} {pairs : List ι}
    (hopening : ∀ i, side (opening i) = some .opening) (hclosing : ∀ i, side (closing i) = some .closing)
    (hle : ∀ i ∈ pairs, (opening i).precedes (closing i) = true) :
    Nested side (stream (pairs.flatMap fun i => [opening i, closing i])) := by
  rw [nested_iff_depth]
  induction pairs with
  | nil => rfl
  | cons i pairs ih =>
    obtain ⟨hi, hpairs⟩ := List.forall_mem_cons.1 hle
    exact depth_insert_pair (hopening i) (hclosing i) hi (ih hpairs)

end SourceLikeness.Token
