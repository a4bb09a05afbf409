import SourceLikeness.Proofs.Text.Twin

/-!
# Cutting twins at a test

A test that makes no difference between word characters cuts two twins at the same edges. So their trimmed texts and
their lines are twins.

* `Uniform q` : a test that makes no difference between word characters;
* `Alike.length_takeWhile`, `inside_length_takeWhile` : it cuts two texts at the same offset, which is an edge;
* `Twin.trim` : trimmed twins;
* `pieces_drop`, `lineLength_eq`, `edged_line` : the lines of a text and of its twin.
-/

namespace SourceLikeness.Text
variable {s t : List Char} {q : Char → Bool} {x : Lexicon} {n : Nat}

/-- The test makes no difference between word characters. -/
def Uniform (q : Char → Bool) : Prop := ∀ c d, isAsciiWord c = true → isAsciiWord d = true → q c = q d

theorem uniform_of_eq_false (hq : ∀ c, isAsciiWord c = true → q c = false) : Uniform q :=
  fun c d hc hd => by rw [hq c hc, hq d hd]

theorem uniform_isBlank : Uniform isBlank := uniform_of_eq_false fun _ => isBlank_eq_false_of_isAsciiWord

theorem ne_newline_of_isAsciiWord {c : Char} (hc : isAsciiWord c = true) : c ≠ '\n' := by
  rintro rfl
  exact absurd hc (by decide)

theorem uniform_ne_newline : Uniform fun c => !(c == '\n') := by
  intro c d hc hd
  simp [ne_newline_of_isAsciiWord hc, ne_newline_of_isAsciiWord hd]

/-! ## Cutting at a test -/

theorem takeWhile_eq_take (q : Char → Bool) (s : List Char) : s.takeWhile q = s.take (s.takeWhile q).length :=
  List.prefix_iff_eq_take.1 (List.takeWhile_prefix q)

theorem dropWhile_eq_drop (q : Char → Bool) (s : List Char) : s.dropWhile q = s.drop (s.takeWhile q).length := by
  have h : s.drop (s.takeWhile q).length = (s.takeWhile q ++ s.dropWhile q).drop (s.takeWhile q).length := by
    rw [List.takeWhile_append_dropWhile]
  rw [h, List.drop_left]

/-- The test holds of what is taken. -/
theorem exists_of_lt_takeWhile (h : n < (s.takeWhile q).length) : ∃ c, s[n]? = some c ∧ q c = true := by
  refine ⟨(s.takeWhile q)[n], ?_, List.all_eq_true.1 List.all_takeWhile _ (List.getElem_mem h)⟩
  rw [(List.takeWhile_prefix q).getElem h, List.getElem?_eq_getElem]

/-- The test fails where the taking stops. -/
theorem eq_false_of_takeWhile {c : Char} (h : s[(s.takeWhile q).length]? = some c) : q c = false := by
  have hhead : (s.dropWhile q).head? = some c := by rw [dropWhile_eq_drop, List.head?_drop, h]
  have hnot := List.head?_dropWhile_not q s
  rw [hhead] at hnot
  exact hnot

theorem Alike.length_takeWhile (h : Alike s t) (hq : Uniform q) :
    (s.takeWhile q).length = (t.takeWhile q).length := by
  induction s generalizing t with
  | nil => rw [List.eq_nil_of_length_eq_zero h.length.symm]
  | cons c s ih =>
    obtain ⟨d, t, rfl⟩ := List.exists_cons_of_length_eq_add_one h.length.symm
    have hhead : q c = q d := by
      rcases h.char 0 c d rfl rfl with rfl | ⟨hc, hd⟩
      · rfl
      · exact hq c d hc hd
    rw [List.takeWhile_cons, List.takeWhile_cons, hhead]
    split_ifs
    · rw [List.length_cons, List.length_cons, ih (h.drop 1), List.drop_succ_cons, List.drop_zero]
    · rfl

/-- The first offset where such a test fails is an edge. -/
theorem inside_length_takeWhile (hq : Uniform q) (s : List Char) : inside s (s.takeWhile q).length = false := by
  rw [← Bool.not_eq_true]
  intro h
  obtain ⟨hbefore, hat⟩ := Bool.and_eq_true_iff.1 h
  have hpos : 0 < (s.takeWhile q).length := by
    rw [Nat.pos_iff_ne_zero]
    intro hzero
    rw [hzero] at hbefore
    exact Bool.noConfusion hbefore
  rw [wordBefore_of_pos hpos] at hbefore
  obtain ⟨c, hc, hcw⟩ := wordAt_eq_true_iff.1 hbefore
  obtain ⟨d, hd, hdw⟩ := wordAt_eq_true_iff.1 hat
  have hqc : q c = true := by
    rw [← List.getElem?_take_of_lt (Nat.sub_lt hpos Nat.one_pos), ← takeWhile_eq_take] at hc
    exact List.all_eq_true.1 List.all_takeWhile c (List.mem_of_getElem? hc)
  have hqd : q d = false := by
    have hhead := List.head?_dropWhile_not q s
    rw [dropWhile_eq_drop, List.head?_drop, hd] at hhead
    exact hhead
  rw [hq c d hcw hdw, hqd] at hqc
  exact Bool.noConfusion hqc

theorem Twin.dropWhile (hx : x.WellFormed) (h : Twin x s t) (hq : Uniform q) :
    Twin x (s.dropWhile q) (t.dropWhile q) := by
  rw [dropWhile_eq_drop q s, dropWhile_eq_drop q t, ← h.length_takeWhile hq]
  exact h.drop hx (inside_length_takeWhile hq s)

/-! ## Trimming -/

theorem Alike.reverse (h : Alike s t) : Alike s.reverse t.reverse where
  length := by rw [List.length_reverse, List.length_reverse, h.length]
  left c hc := h.left c (List.mem_reverse.1 hc)
  right c hc := h.right c (List.mem_reverse.1 hc)
  char i c d hc hd := by
    have hs : i < s.length := by
      rw [← List.length_reverse]
      exact (List.getElem?_eq_some_iff.1 hc).1
    rw [List.getElem?_reverse hs] at hc
    rw [List.getElem?_reverse (h.length ▸ hs), ← h.length] at hd
    exact h.char _ c d hc hd

/-- How long a text is without the blanks at its end. -/
def trimmed (s : List Char) : Nat := s.length - (s.reverse.takeWhile isBlank).length

theorem trimEnd_eq_take (s : List Char) : trimEnd s = s.take (trimmed s) := by
  rw [trimEnd, trimStart, dropWhile_eq_drop, List.reverse_drop, List.reverse_reverse, List.length_reverse, trimmed]

theorem Alike.trimmed_eq (h : Alike s t) : trimmed s = trimmed t := by
  rw [trimmed, trimmed, h.length, h.reverse.length_takeWhile uniform_isBlank]

theorem trimmed_le (s : List Char) : trimmed s ≤ s.length := Nat.sub_le _ _

/-- No word goes on where the blanks at the end of a text start. -/
theorem wordAt_trimmed (s : List Char) : wordAt s (trimmed s) = false := by
  rw [← Bool.not_eq_true]
  intro h
  obtain ⟨c, hc, hword⟩ := wordAt_eq_true_iff.1 h
  have hlt := lt_length_of_wordAt h
  have hle : (s.reverse.takeWhile isBlank).length ≤ s.length := by
    rw [← show s.reverse.length = s.length from List.length_reverse]
    exact (List.takeWhile_prefix _).length_le
  have hpos : 0 < (s.reverse.takeWhile isBlank).length := by
    unfold trimmed at hlt
    omega
  have hblank : s.reverse[(s.reverse.takeWhile isBlank).length - 1]? = some c := by
    rw [List.getElem?_reverse (by omega), show s.length - 1 - ((s.reverse.takeWhile isBlank).length - 1) = trimmed s by
      unfold trimmed; omega, hc]
  rw [← List.getElem?_take_of_lt (Nat.sub_lt hpos Nat.one_pos), ← takeWhile_eq_take] at hblank
  have hc' := List.all_eq_true.1 List.all_takeWhile c (List.mem_of_getElem? hblank)
  rw [isBlank_eq_false_of_isAsciiWord hword] at hc'
  exact Bool.noConfusion hc'

theorem inside_trimmed (s : List Char) : inside s (trimmed s) = false := by
  rw [inside, wordAt_trimmed, Bool.and_false]

theorem Twin.trim (hx : x.WellFormed) (h : Twin x s t) : Twin x (trim s) (trim t) := by
  have hstart : Twin x (trimStart s) (trimStart t) := h.dropWhile hx uniform_isBlank
  rw [Text.trim, Text.trim, trimEnd_eq_take, trimEnd_eq_take, ← hstart.toAlike.trimmed_eq]
  exact hstart.take hx (inside_trimmed _)

/-! ## Lines -/

theorem pieces_eq (separates : Char → Bool) (s : List Char) :
    pieces separates s = s.takeWhile (fun c => !separates c) ::
      match s.dropWhile (fun c => !separates c) with
      | [] => []
      | _ :: rest => pieces separates rest := by
  induction s with
  | nil => rfl
  | cons c s ih =>
    rw [pieces]
    by_cases hc : separates c = true
    · rw [if_pos hc, List.takeWhile_cons_of_neg (by simp [hc]), List.dropWhile_cons_of_neg (by simp [hc])]
    · rw [if_neg hc, ih, List.takeWhile_cons_of_pos (by simp [hc]), List.dropWhile_cons_of_pos (by simp [hc])]
      rfl

/-- The length of the line that starts at an offset. -/
def lineLength (s : List Char) (o : Nat) : Nat := ((s.drop o).takeWhile fun c => !(c == '\n')).length

theorem pieces_drop (s : List Char) (o : Nat) :
    pieces (· == '\n') (s.drop o) = (s.drop o).take (lineLength s o) ::
      if o + lineLength s o < s.length then pieces (· == '\n') (s.drop (o + lineLength s o + 1)) else [] := by
  rw [pieces_eq, takeWhile_eq_take, dropWhile_eq_drop, List.drop_drop, ← lineLength]
  congr 1
  split_ifs with h
  · rw [List.drop_eq_getElem_cons h]
  · rw [List.drop_eq_nil_of_le (Nat.le_of_not_lt h)]

theorem lineLength_eq (h : Alike s t) (o : Nat) : lineLength s o = lineLength t o :=
  (h.drop o).length_takeWhile uniform_ne_newline

theorem lineLength_le (s : List Char) (o : Nat) : lineLength s o ≤ s.length - o := by
  rw [← List.length_drop]
  exact (List.takeWhile_prefix _).length_le

/-- No word goes on at the end of a line. -/
theorem wordAt_line_end (s : List Char) (o : Nat) : wordAt s (o + lineLength s o) = false := by
  rw [← Bool.not_eq_true]
  intro h
  obtain ⟨c, hc, hword⟩ := wordAt_eq_true_iff.1 h
  have hhead := List.head?_dropWhile_not (fun c => !(c == '\n')) (s.drop o)
  rw [dropWhile_eq_drop, List.head?_drop, List.getElem?_drop, ← lineLength, hc] at hhead
  simp [ne_newline_of_isAsciiWord hword] at hhead

/-- A line is what stands between two edges. -/
theorem edged_line {o : Nat} (ho : wordBefore s o = false) (hle : o ≤ s.length) : Edged s ⟨o, o + lineLength s o⟩ where
  start := by rw [inside, ho, Bool.false_and]
  stop := by rw [inside, wordAt_line_end, Bool.and_false]
  start_le := hle
  stop_le := by
    have := lineLength_le s o
    dsimp only
    omega

end SourceLikeness.Text
