import SourceLikeness.Text.Blank
import SourceLikeness.Text.Word
import SourceLikeness.Proofs.WorkingCopy.Edit

/-!
# Words of a text

A word is a maximal run of ASCII word characters. Everything is said by offsets into the text.

* `wordAt`, `wordBefore` : whether a word character stands at an offset, and before it;
* `inside` : an offset with a word character on both sides; an offset that is not inside is an edge;
* `StandsAt`, `StartsAt` : a list of characters stands at an offset as a whole word, or as its start;
* `NumeralAt` : an offset where a word starts with so many digits;
* `IsRun` : a maximal run between two offsets.
-/

namespace SourceLikeness.Text

-- The search for an instance may end at one that decides a statement by running over all characters there are.
/-- What is said of all characters of a list is decided along the list. -/
instance (priority := 2000) decidableForallMem {p : Char → Prop} [DecidablePred p] (s : List Char) :
    Decidable (∀ a ∈ s, p a) := List.decidableBAll p s

instance (priority := 2000) decidableExistsMem {p : Char → Prop} [DecidablePred p] (s : List Char) :
    Decidable (∃ a ∈ s, p a) := List.decidableBEx p s

/-- The character before an offset, if there is one. -/
def charBefore (s : List Char) : Nat → Option Char
  | 0 => none
  | n + 1 => s[n]?

def wordAt (s : List Char) (i : Nat) : Bool := s[i]?.any isAsciiWord

def wordBefore (s : List Char) (i : Nat) : Bool := (charBefore s i).any isAsciiWord

/-- Whether an offset has a word character on both sides. -/
def inside (s : List Char) (i : Nat) : Bool := wordBefore s i && wordAt s i

@[simp] theorem wordBefore_zero (s : List Char) : wordBefore s 0 = false := rfl

@[simp] theorem wordBefore_succ (s : List Char) (i : Nat) : wordBefore s (i + 1) = wordAt s i := rfl

theorem wordBefore_of_pos {s : List Char} {i : Nat} (h : 0 < i) : wordBefore s i = wordAt s (i - 1) := by
  obtain ⟨j, rfl⟩ := Nat.exists_eq_succ_of_ne_zero (Nat.ne_of_gt h)
  rfl

theorem inside_eq_false_iff {s : List Char} {i : Nat} :
    inside s i = false ↔ wordBefore s i = false ∨ wordAt s i = false := by
  rw [inside, Bool.and_eq_false_iff]

theorem wordAt_of_getElem? {s : List Char} {i : Nat} {c : Char} (h : s[i]? = some c) :
    wordAt s i = isAsciiWord c := by
  rw [wordAt, h, Option.any_some]

theorem wordAt_eq_true_iff {s : List Char} {i : Nat} :
    wordAt s i = true ↔ ∃ c, s[i]? = some c ∧ isAsciiWord c = true := by
  rw [wordAt, Option.any_eq_true]

theorem lt_length_of_wordAt {s : List Char} {i : Nat} (h : wordAt s i = true) : i < s.length := by
  obtain ⟨c, hc, -⟩ := wordAt_eq_true_iff.1 h
  exact (List.getElem?_eq_some_iff.1 hc).1

theorem wordAt_of_length_le {s : List Char} {i : Nat} (h : s.length ≤ i) : wordAt s i = false := by
  rw [wordAt, List.getElem?_eq_none h, Option.any_none]

theorem charBefore_append (u v : List Char) : charBefore (u ++ v) u.length = u.getLast? := by
  rcases List.eq_nil_or_concat u with rfl | ⟨u, c, rfl⟩
  · rfl
  · rw [List.concat_eq_append, List.getLast?_concat, List.length_append]
    change ((u ++ [c]) ++ v)[u.length]? = some c
    rw [List.append_assoc, List.getElem?_append_right (Nat.le_refl _), Nat.sub_self]
    rfl

theorem wordAt_drop (s : List Char) (n i : Nat) : wordAt (s.drop n) i = wordAt s (n + i) := by
  rw [wordAt, wordAt, List.getElem?_drop]

/-! ## Characters of ASCII -/

theorem isWord_eq_isAsciiWord {c : Char} (h : IsAscii c) : isWord c = isAsciiWord c := if_pos h

theorem isAlpha_eq (c : Char) :
    c.isAlpha = (decide (c.val ≥ 'A'.val ∧ c.val ≤ 'Z'.val) || (decide (c.val ≥ 'a'.val) && decide (c.val ≤ 'z'.val))) := rfl

theorem bounds_of_isAsciiWord {c : Char} (h : isAsciiWord c = true) : 48 ≤ c.toNat ∧ c.toNat < 128 := by
  simp only [isAsciiWord, Char.isAlphanum, isAlpha_eq, Char.isDigit,
    Bool.or_eq_true, Bool.and_eq_true, decide_eq_true_eq, beq_iff_eq, UInt32.le_iff_toNat_le] at h
  rcases h with ((h | h) | h) | rfl
  · exact ⟨Nat.le_trans (by decide) h.1, Nat.lt_of_le_of_lt h.2 (by decide)⟩
  · exact ⟨Nat.le_trans (by decide) h.1, Nat.lt_of_le_of_lt h.2 (by decide)⟩
  · exact ⟨Nat.le_trans (by decide) h.1, Nat.lt_of_le_of_lt h.2 (by decide)⟩
  · decide

theorem isAscii_of_isAsciiWord {c : Char} (h : isAsciiWord c = true) : IsAscii c := (bounds_of_isAsciiWord h).2

theorem isBlank_eq_false_of_isAsciiWord {c : Char} (h : isAsciiWord c = true) : isBlank c = false := by
  obtain ⟨hlow, hhigh⟩ := bounds_of_isAsciiWord h
  simp only [isBlank, Bool.or_eq_false_iff, Bool.and_eq_false_iff, decide_eq_false_iff_not, beq_eq_false_iff_ne]
  omega

theorem isAsciiWord_of_isDigit {c : Char} (h : c.isDigit = true) : isAsciiWord c = true := by
  simp [isAsciiWord, Char.isAlphanum, h]

/-! ## Words at an offset -/

/-- The characters `w` stand at an offset and are a whole word of the text. -/
structure StandsAt (w s : List Char) (i : Nat) : Prop where
  reads : w <+: s.drop i
  before : wordBefore s i = false
  after : wordAt s (i + w.length) = false

instance (w s : List Char) (i : Nat) : Decidable (StandsAt w s i) :=
  decidable_of_iff (w <+: s.drop i ∧ wordBefore s i = false ∧ wordAt s (i + w.length) = false)
    ⟨fun ⟨hreads, hbefore, hafter⟩ => ⟨hreads, hbefore, hafter⟩, fun h => ⟨h.reads, h.before, h.after⟩⟩

/-- The characters `w` stand at an offset where a word may start. -/
structure StartsAt (w s : List Char) (i : Nat) : Prop where
  reads : w <+: s.drop i
  before : wordBefore s i = false

instance (w s : List Char) (i : Nat) : Decidable (StartsAt w s i) :=
  decidable_of_iff (w <+: s.drop i ∧ wordBefore s i = false)
    ⟨fun ⟨hreads, hbefore⟩ => ⟨hreads, hbefore⟩, fun h => ⟨h.reads, h.before⟩⟩

/-- A word may start at the offset and has `n` digits there. -/
structure NumeralAt (n : Nat) (s : List Char) (i : Nat) : Prop where
  digits : ∀ j < n, s[i + j]?.any Char.isDigit = true
  before : wordBefore s i = false

/-- A maximal run of word characters, from `i` up to, but not including, `j`. -/
structure IsRun (s : List Char) (i j : Nat) : Prop where
  lt : i < j
  word : ∀ k, i ≤ k → k < j → wordAt s k = true
  before : wordBefore s i = false
  after : wordAt s j = false

/-- A list is a prefix of a text from an offset on if it agrees with the text there. -/
theorem prefix_drop_iff {w s : List Char} {i : Nat} :
    w <+: s.drop i ↔ ∀ j < w.length, s[i + j]? = w[j]? := by
  rw [List.prefix_iff_getElem?]
  refine forall₂_congr fun j hj => ?_
  rw [List.getElem?_drop, List.getElem?_eq_getElem hj]

theorem append_prefix_drop_iff {v w s : List Char} {i : Nat} :
    v ++ w <+: s.drop i ↔ v <+: s.drop i ∧ w <+: s.drop (i + v.length) := by
  rw [← List.drop_drop]
  constructor
  · rintro ⟨r, hr⟩
    rw [← hr, List.append_assoc, List.drop_left]
    exact ⟨List.prefix_append _ _, List.prefix_append _ _⟩
  · rintro ⟨⟨r, hr⟩, hw⟩
    rw [← hr, List.drop_left] at hw
    rw [← hr]
    exact (List.prefix_append_right_inj v).2 hw

theorem wordAt_of_reads {w s : List Char} {i j : Nat} (hw : ∀ c ∈ w, isAsciiWord c = true)
    (h : w <+: s.drop i) (hj : j < w.length) : wordAt s (i + j) = true := by
  have hc : s[i + j]? = some w[j] := by rw [prefix_drop_iff.1 h j hj, List.getElem?_eq_getElem hj]
  rw [wordAt_of_getElem? hc]
  exact hw _ (List.getElem_mem hj)

theorem wordAt_of_digit {s : List Char} {i : Nat} (h : s[i]?.any Char.isDigit = true) : wordAt s i = true := by
  obtain ⟨c, hc, hdigit⟩ := (Option.any_eq_true _ _).1 h
  rw [wordAt_of_getElem? hc, isAsciiWord_of_isDigit hdigit]

theorem StandsAt.startsAt {w s : List Char} {i : Nat} (h : StandsAt w s i) : StartsAt w s i := ⟨h.reads, h.before⟩

theorem StartsAt.lt_length {w s : List Char} {i : Nat} (hne : w ≠ []) (h : StartsAt w s i) : i < s.length := by
  by_contra hge
  have hreads := h.reads
  rw [List.drop_eq_nil_of_le (Nat.le_of_not_lt hge), List.prefix_nil] at hreads
  exact hne hreads

end SourceLikeness.Text
