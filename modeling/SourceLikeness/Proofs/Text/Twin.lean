import SourceLikeness.Proofs.Text.Word

/-!
# Texts that differ in their names only

Two texts of one length may differ in the characters of their words. How much of the words has to be the same
in both is said by a lexicon.

* `Alike` : two texts that show word characters at the same offsets and are equal elsewhere;
* `Lexicon`, `Keeps` : the words of a lexicon that one text has at an offset, the other has there too;
* `Twin` : texts that are alike and keep each other's words;
* `Filled` : a text some of whose characters went through a function;
* `Twin.fill`, `Twin.fill_ones` : filling the same offsets of both texts, with characters that belong to no
  word and with the digit that stands for literals;
* `Twin.drop`, `Twin.take`, `Twin.slice` : the parts of two texts behind and in front of an edge, and between two.
-/

namespace SourceLikeness.Text
variable {s t s' t' w : List Char} {a b i n : Nat} {g : Char → Char}

/-! ## Alike texts -/

/-- Texts of ASCII that differ, if at all, in word characters. -/
structure Alike (s t : List Char) : Prop where
  length : s.length = t.length
  left : ∀ c ∈ s, IsAscii c
  right : ∀ c ∈ t, IsAscii c
  char : ∀ (i : Nat) (c d : Char), s[i]? = some c → t[i]? = some d →
    c = d ∨ isAsciiWord c = true ∧ isAsciiWord d = true

namespace Alike

theorem symm (h : Alike s t) : Alike t s where
  length := h.length.symm
  left := h.right
  right := h.left
  char i c d hc hd := (h.char i d c hd hc).imp Eq.symm And.symm

theorem exists_getElem? (h : Alike s t) {c : Char} (hc : s[i]? = some c) :
    ∃ d, t[i]? = some d ∧ (c = d ∨ isAsciiWord c = true ∧ isAsciiWord d = true) := by
  have hlt : i < t.length := by
    rw [← h.length]
    exact (List.getElem?_eq_some_iff.1 hc).1
  exact ⟨t[i], List.getElem?_eq_getElem hlt, h.char i c _ hc (List.getElem?_eq_getElem hlt)⟩

theorem getElem?_eq_none_iff (h : Alike s t) : s[i]? = none ↔ t[i]? = none := by
  rw [List.getElem?_eq_none_iff, List.getElem?_eq_none_iff, h.length]

theorem wordAt_eq (h : Alike s t) (i : Nat) : wordAt s i = wordAt t i := by
  cases hc : s[i]? with
  | none => rw [wordAt, wordAt, hc, h.getElem?_eq_none_iff.1 hc]
  | some c =>
    obtain ⟨d, hd, rfl | ⟨hwc, hwd⟩⟩ := h.exists_getElem? hc
    · rw [wordAt_of_getElem? hc, wordAt_of_getElem? hd]
    · rw [wordAt_of_getElem? hc, wordAt_of_getElem? hd, hwc, hwd]

theorem wordBefore_eq (h : Alike s t) (i : Nat) : wordBefore s i = wordBefore t i := by
  cases i with
  | zero => rfl
  | succ i => exact h.wordAt_eq i

theorem inside_eq (h : Alike s t) (i : Nat) : inside s i = inside t i := by
  rw [inside, inside, h.wordBefore_eq, h.wordAt_eq]

/-- A character that belongs to no word is the same in both texts. -/
theorem getElem?_eq (h : Alike s t) (hi : wordAt s i = false) : s[i]? = t[i]? := by
  cases hc : s[i]? with
  | none => rw [h.getElem?_eq_none_iff.1 hc]
  | some c =>
    obtain ⟨d, hd, rfl | ⟨hwc, -⟩⟩ := h.exists_getElem? hc
    · rw [hd]
    · rw [wordAt_of_getElem? hc, hwc] at hi
      exact Bool.noConfusion hi

/-- A test that makes no difference between word characters has the same result in both texts. -/
theorem test_eq {α : Type} (h : Alike s t) {f : Option Char → α}
    (hf : ∀ c d, isAsciiWord c = true → isAsciiWord d = true → f (some c) = f (some d)) (i : Nat) :
    f s[i]? = f t[i]? := by
  cases hc : s[i]? with
  | none => rw [h.getElem?_eq_none_iff.1 hc]
  | some c =>
    obtain ⟨d, hd, rfl | ⟨hwc, hwd⟩⟩ := h.exists_getElem? hc
    · rw [hd]
    · rw [hd, hf c d hwc hwd]

theorem test_charBefore_eq {α : Type} (h : Alike s t) {f : Option Char → α}
    (hf : ∀ c d, isAsciiWord c = true → isAsciiWord d = true → f (some c) = f (some d)) (i : Nat) :
    f (charBefore s i) = f (charBefore t i) := by
  cases i with
  | zero => rfl
  | succ i => exact h.test_eq hf i

theorem drop (h : Alike s t) (n : Nat) : Alike (s.drop n) (t.drop n) where
  length := by rw [List.length_drop, List.length_drop, h.length]
  left c hc := h.left c (List.mem_of_mem_drop hc)
  right c hc := h.right c (List.mem_of_mem_drop hc)
  char i c d hc hd := by
    rw [List.getElem?_drop] at hc hd
    exact h.char _ c d hc hd

theorem take (h : Alike s t) (n : Nat) : Alike (s.take n) (t.take n) where
  length := by rw [List.length_take, List.length_take, h.length]
  left c hc := h.left c (List.mem_of_mem_take hc)
  right c hc := h.right c (List.mem_of_mem_take hc)
  char i c d hc hd := by
    rw [List.getElem?_take] at hc hd
    split_ifs at hc hd
    exact h.char i c d hc hd

end Alike

/-! ## Lexicons -/

/-- What has to be the same in two texts. -/
structure Lexicon where
  /-- Words that stand at the same offsets in both texts. -/
  words : List (List Char)
  /-- Lists of characters that words begin with at the same offsets in both texts. -/
  openings : List (List Char)
  /-- Characters that neither text has. -/
  absent : List Char
  /-- Whether the digits that words begin with are the same in both texts. -/
  numerals : Bool
deriving DecidableEq

/-- The lexicon that tells nothing apart. -/
def Lexicon.plain : Lexicon := ⟨[], [], [], false⟩

/-- A lexicon whose words are long enough not to be left over from a longer word, and have no `1`, which
stands for literals. -/
structure Lexicon.WellFormed (x : Lexicon) : Prop where
  two_le : ∀ w ∈ x.words, 2 ≤ w.length
  word : ∀ w ∈ x.words, ∀ c ∈ w, isAsciiWord c = true ∧ c ≠ '1'
  ne_nil : ∀ w ∈ x.openings, w ≠ []
  opening : ∀ w ∈ x.openings, ∀ c ∈ w, isAsciiWord c = true ∧ c ≠ '1'
  absent : '1' ∉ x.absent

/-- The characters can be those of a word, and none is the `1` that stands for literals. -/
def spells (w : List Char) : Bool := w.all fun c => isAsciiWord c && c != '1'

theorem of_spells (h : spells w = true) : ∀ c ∈ w, isAsciiWord c = true ∧ c ≠ '1' := by
  intro c hc
  have hboth := List.all_eq_true.1 h c hc
  rwa [Bool.and_eq_true, bne_iff_ne] at hboth

theorem Lexicon.wellFormed_of_all {x : Lexicon} (hwords : x.words.all (fun w => decide (2 ≤ w.length) && spells w) = true)
    (hopenings : x.openings.all (fun w => !w.isEmpty && spells w) = true) (habsent : x.absent.contains '1' = false) :
    x.WellFormed where
  two_le w hw := of_decide_eq_true (Bool.and_eq_true_iff.1 (List.all_eq_true.1 hwords w hw)).1
  word w hw := of_spells (Bool.and_eq_true_iff.1 (List.all_eq_true.1 hwords w hw)).2
  ne_nil w hw := by
    rintro rfl
    exact Bool.noConfusion (Bool.and_eq_true_iff.1 (List.all_eq_true.1 hopenings [] hw)).1
  opening w hw := of_spells (Bool.and_eq_true_iff.1 (List.all_eq_true.1 hopenings w hw)).2
  absent h := by
    rw [List.contains_iff_mem.2 h] at habsent
    exact Bool.noConfusion habsent

/-- What a lexicon tells of the first text holds of the second. -/
structure Keeps (x : Lexicon) (s t : List Char) : Prop where
  word : ∀ w ∈ x.words, ∀ i, StandsAt w s i → StandsAt w t i
  opening : ∀ w ∈ x.openings, ∀ i, StartsAt w s i → StartsAt w t i
  absent : ∀ c ∈ x.absent, c ∉ s
  numeral : x.numerals = true → ∀ n i, NumeralAt n s i → ∀ j < n, s[i + j]? = t[i + j]?

/-- Texts that are alike and that a lexicon does not tell apart. -/
structure Twin (x : Lexicon) (s t : List Char) : Prop extends Alike s t where
  forward : Keeps x s t
  backward : Keeps x t s

variable {x : Lexicon}

theorem Twin.symm (h : Twin x s t) : Twin x t s := ⟨h.toAlike.symm, h.backward, h.forward⟩

theorem Alike.refl (h : ∀ c ∈ s, IsAscii c) : Alike s s where
  length := rfl
  left := h
  right := h
  char _ _ _ hc hd := Or.inl (Option.some.inj (hc.symm.trans hd))

/-- A text that has a twin is its own twin. -/
theorem Twin.refl_left (h : Twin x s t) : Twin x s s := by
  have hkeeps : Keeps x s s := ⟨fun _ _ _ hw => hw, fun _ _ _ hw => hw, h.forward.absent, fun _ _ _ _ _ _ => rfl⟩
  exact ⟨.refl h.left, hkeeps, hkeeps⟩

theorem keeps_plain (s t : List Char) : Keeps .plain s t :=
  ⟨List.forall_mem_nil _, List.forall_mem_nil _, List.forall_mem_nil _, nofun⟩

theorem Alike.twin (h : Alike s t) : Twin .plain s t := ⟨h, keeps_plain s t, keeps_plain t s⟩

theorem Twin.standsAt_iff (h : Twin x s t) (hw : w ∈ x.words) : StandsAt w s i ↔ StandsAt w t i :=
  ⟨h.forward.word w hw i, h.backward.word w hw i⟩

theorem Twin.startsAt_iff (h : Twin x s t) (hw : w ∈ x.openings) : StartsAt w s i ↔ StartsAt w t i :=
  ⟨h.forward.opening w hw i, h.backward.opening w hw i⟩

/-! ## Filling -/

/-- The characters from `a` up to, but not including, `b` went through a function. -/
def Filled (g : Char → Char) (a b : Nat) (s s' : List Char) : Prop :=
  ∀ i, s'[i]? = if a ≤ i ∧ i < b then s[i]?.map g else s[i]?

/-- A function on characters that makes no difference between word characters. -/
structure IsFill (g : Char → Char) : Prop where
  ascii : ∀ c, IsAscii c → IsAscii (g c)
  congr : ∀ c d, isAsciiWord c = true → isAsciiWord d = true → g c = g d

namespace Filled

theorem of_not (h : Filled g a b s s') (hi : ¬ (a ≤ i ∧ i < b)) : s'[i]? = s[i]? := by
  rw [h i, if_neg hi]

theorem of_mem (h : Filled g a b s s') (hi : a ≤ i ∧ i < b) : s'[i]? = s[i]?.map g := by
  rw [h i, if_pos hi]

theorem wordAt_of_not (h : Filled g a b s s') (hi : ¬ (a ≤ i ∧ i < b)) : wordAt s' i = wordAt s i := by
  rw [wordAt, wordAt, h.of_not hi]

theorem getElem?_eq_none_iff (h : Filled g a b s s') : s'[i]? = none ↔ s[i]? = none := by
  rw [h i]
  split_ifs
  · exact Option.map_eq_none_iff
  · exact Iff.rfl

theorem length_eq (h : Filled g a b s s') : s'.length = s.length := by
  have hle : ∀ n, s'.length ≤ n ↔ s.length ≤ n := by
    intro n
    rw [← List.getElem?_eq_none_iff, ← List.getElem?_eq_none_iff]
    exact h.getElem?_eq_none_iff
  exact Nat.le_antisymm ((hle _).2 (Nat.le_refl _)) ((hle _).1 (Nat.le_refl _))

theorem eq_of_le (h : Filled g a b s s') (hab : b ≤ a) : s' = s :=
  List.ext_getElem? fun i => h.of_not (by omega)

theorem mem (h : Filled g a b s s') {c : Char} (hc : c ∈ s') : c ∈ s ∨ ∃ d ∈ s, g d = c := by
  obtain ⟨i, hi⟩ := List.getElem?_of_mem hc
  rw [h i] at hi
  split_ifs at hi
  · obtain ⟨d, hd, rfl⟩ := Option.map_eq_some_iff.1 hi
    exact Or.inr ⟨d, List.mem_of_getElem? hd, rfl⟩
  · exact Or.inl (List.mem_of_getElem? hi)

end Filled

theorem Alike.fill (h : Alike s t) (hg : IsFill g) (hs : Filled g a b s s') (ht : Filled g a b t t') :
    Alike s' t' where
  length := by rw [hs.length_eq, ht.length_eq, h.length]
  left c hc := by
    rcases hs.mem hc with hc | ⟨d, hd, rfl⟩
    · exact h.left c hc
    · exact hg.ascii d (h.left d hd)
  right c hc := by
    rcases ht.mem hc with hc | ⟨d, hd, rfl⟩
    · exact h.right c hc
    · exact hg.ascii d (h.right d hd)
  char i c d hc hd := by
    rw [hs i] at hc
    rw [ht i] at hd
    by_cases hmem : a ≤ i ∧ i < b
    · rw [if_pos hmem] at hc hd
      obtain ⟨c', hc', rfl⟩ := Option.map_eq_some_iff.1 hc
      obtain ⟨d', hd', rfl⟩ := Option.map_eq_some_iff.1 hd
      rcases h.char i c' d' hc' hd' with rfl | ⟨hwc, hwd⟩
      · exact Or.inl rfl
      · exact Or.inl (hg.congr c' d' hwc hwd)
    · rw [if_neg hmem] at hc hd
      exact h.char i c d hc hd

/-- A word at an offset of one filled text is one of the other, if it was a word of the other text and is not
filled. -/
theorem Alike.startsAt_filled (h : Alike s' t') (ht : Filled g a b t t')
    (hnot : ∀ j < w.length, ¬ (a ≤ i + j ∧ i + j < b)) (hr : StartsAt w s' i) (hrt : StartsAt w t i) :
    StartsAt w t' i where
  reads := by
    rw [prefix_drop_iff]
    intro j hj
    rw [ht.of_not (hnot j hj)]
    exact prefix_drop_iff.1 hrt.reads j hj
  before := by rw [← h.wordBefore_eq, hr.before]

theorem Alike.standsAt_filled (h : Alike s' t') (ht : Filled g a b t t')
    (hnot : ∀ j < w.length, ¬ (a ≤ i + j ∧ i + j < b)) (hr : StandsAt w s' i) (hrt : StandsAt w t i) :
    StandsAt w t' i where
  reads := (h.startsAt_filled ht hnot hr.startsAt hrt.startsAt).reads
  before := by rw [← h.wordBefore_eq, hr.before]
  after := by rw [← h.wordAt_eq, hr.after]

/-- A character written over by another. Newlines stay. -/
def inked (fill c : Char) : Char := if c = '\n' then c else fill

theorem isFill_inked {fill : Char} (hfill : IsAscii fill) : IsFill (inked fill) where
  ascii c hc := by
    unfold inked
    split_ifs
    · exact hc
    · exact hfill
  congr c d hc hd := by
    have hne : ∀ e, isAsciiWord e = true → e ≠ '\n' := by
      rintro e he rfl
      exact absurd he (by decide)
    rw [inked, inked, if_neg (hne c hc), if_neg (hne d hd)]

theorem isAsciiWord_inked {fill : Char} (hfill : isAsciiWord fill = false) (c : Char) :
    isAsciiWord (inked fill c) = false := by
  unfold inked
  split_ifs with hc
  · rw [hc]
    decide
  · exact hfill

theorem inked_notMem {fill : Char} {absent : List Char} (hfill : fill ∉ absent) {c : Char} (hc : c ∉ absent) :
    inked fill c ∉ absent := by
  unfold inked
  split_ifs
  · exact hc
  · exact hfill

/-! ### Filling with characters that belong to no word -/

/-- Where a span may start that is filled: at an edge, or behind the first character of a word. -/
def LooseAt (s : List Char) (a : Nat) : Prop := inside s a = false ∨ ∀ j, j + 2 = a → wordAt s j = false

theorem Alike.looseAt (h : Alike s t) (ha : LooseAt s a) : LooseAt t a := by
  rcases ha with ha | ha
  · exact Or.inl (by rw [← h.inside_eq, ha])
  · exact Or.inr fun j hj => by rw [← h.wordAt_eq, ha j hj]

section Wipe
variable (hword : ∀ c, isAsciiWord (g c) = false) (hs : Filled g a b s s')
include hword hs

/-- A word character of the filled text was not filled. -/
theorem Filled.not_mem_of_wordAt (hi : wordAt s' i = true) : ¬ (a ≤ i ∧ i < b) := by
  intro hmem
  rw [wordAt, hs.of_mem hmem, Option.any_map, Option.any_eq_true] at hi
  obtain ⟨c, -, hc⟩ := hi
  rw [hword] at hc
  exact Bool.noConfusion hc

/-- A word of the filled text starts where a word started before. -/
theorem Filled.wordBefore_of_wordAt (hb : inside s b = false) (hi : wordAt s' i = true)
    (hbefore : wordBefore s' i = false) : wordBefore s i = false := by
  have hnot := hs.not_mem_of_wordAt hword hi
  cases i with
  | zero => rfl
  | succ i =>
    rw [wordBefore_succ] at *
    by_cases hmem : a ≤ i ∧ i < b
    · have hib : i + 1 = b := by omega
      rw [hs.wordAt_of_not hnot] at hi
      subst hib
      rw [inside, hi, Bool.and_true] at hb
      exact hb
    · rwa [hs.wordAt_of_not hmem] at hbefore

theorem Filled.startsAt (hb : inside s b = false) (hw : ∀ c ∈ w, isAsciiWord c = true) (hne : w ≠ [])
    (hr : StartsAt w s' i) : StartsAt w s i where
  reads := by
    rw [prefix_drop_iff]
    intro j hj
    rw [← hs.of_not (hs.not_mem_of_wordAt hword (wordAt_of_reads hw hr.reads hj))]
    exact prefix_drop_iff.1 hr.reads j hj
  before := hs.wordBefore_of_wordAt hword hb
    (wordAt_of_reads hw hr.reads (List.length_pos_of_ne_nil hne)) hr.before

theorem Filled.standsAt (ha : LooseAt s a) (hb : inside s b = false) (hw : ∀ c ∈ w, isAsciiWord c = true)
    (htwo : 2 ≤ w.length) (hr : StandsAt w s' i) : StandsAt w s i := by
  have hstarts := hs.startsAt hword hb hw (List.ne_nil_of_length_pos (by omega)) hr.startsAt
  refine ⟨hstarts.reads, hstarts.before, ?_⟩
  by_cases hmem : a ≤ i + w.length ∧ i + w.length < b
  · -- the last character of the word is not filled, so the filled span starts right behind it
    have hlast := hs.not_mem_of_wordAt hword (wordAt_of_reads hw hr.reads (Nat.sub_one_lt_of_lt htwo))
    have hia : i + w.length = a := by omega
    rw [hia]
    rcases ha with ha | ha
    · have hbefore : wordBefore s a = true := by
        rw [wordBefore_of_pos (by omega), show a - 1 = i + (w.length - 1) by omega]
        exact wordAt_of_reads hw hstarts.reads (by omega)
      rw [inside, hbefore, Bool.true_and] at ha
      exact ha
    · have hfalse := ha (i + (w.length - 2)) (by omega)
      rw [wordAt_of_reads hw hstarts.reads (by omega)] at hfalse
      exact Bool.noConfusion hfalse
  · rw [← hs.wordAt_of_not hmem]
    exact hr.after

theorem Keeps.fill (hx : x.WellFormed) (h : Keeps x s t) (halike : Alike s' t') (ht : Filled g a b t t')
    (habsent : ∀ c, c ∉ x.absent → g c ∉ x.absent) (ha : LooseAt s a) (hb : inside s b = false) :
    Keeps x s' t' where
  word w hw i hr := by
    have hwc : ∀ c ∈ w, isAsciiWord c = true := fun c hc => (hx.word w hw c hc).1
    have hnot : ∀ j < w.length, ¬ (a ≤ i + j ∧ i + j < b) := fun j hj =>
      hs.not_mem_of_wordAt hword (wordAt_of_reads hwc hr.reads hj)
    exact halike.standsAt_filled ht hnot hr (h.word w hw i (hs.standsAt hword ha hb hwc (hx.two_le w hw) hr))
  opening w hw i hr := by
    have hwc : ∀ c ∈ w, isAsciiWord c = true := fun c hc => (hx.opening w hw c hc).1
    have hnot : ∀ j < w.length, ¬ (a ≤ i + j ∧ i + j < b) := fun j hj =>
      hs.not_mem_of_wordAt hword (wordAt_of_reads hwc hr.reads hj)
    exact halike.startsAt_filled ht hnot hr (h.opening w hw i (hs.startsAt hword hb hwc (hx.ne_nil w hw) hr))
  absent c hc hmem := by
    rcases hs.mem hmem with hmem | ⟨d, hd, rfl⟩
    · exact h.absent c hc hmem
    · exact habsent d (fun hd' => h.absent d hd' hd) hc
  numeral hx n i hn j hj := by
    have hdigit : ∀ k < n, wordAt s' (i + k) = true := fun k hk => wordAt_of_digit (hn.digits k hk)
    have hnot : ∀ k < n, ¬ (a ≤ i + k ∧ i + k < b) := fun k hk => hs.not_mem_of_wordAt hword (hdigit k hk)
    have hbefore := hs.wordBefore_of_wordAt hword hb (hdigit 0 (Nat.zero_lt_of_lt hj)) hn.before
    rw [hs.of_not (hnot j hj), ht.of_not (hnot j hj)]
    refine h.numeral hx n i ⟨fun k hk => ?_, hbefore⟩ j hj
    rw [← hs.of_not (hnot k hk)]
    exact hn.digits k hk

end Wipe

/-- Filling both texts with characters that belong to no word, from a place where no word of the lexicon can
be left over up to an edge. -/
theorem Twin.fill (hx : x.WellFormed) (h : Twin x s t) (hg : IsFill g) (hword : ∀ c, isAsciiWord (g c) = false)
    (habsent : ∀ c, c ∉ x.absent → g c ∉ x.absent) (ha : LooseAt s a) (hb : inside s b = false)
    (hs : Filled g a b s s') (ht : Filled g a b t t') : Twin x s' t' := by
  have halike := h.toAlike.fill hg hs ht
  have hb' : inside t b = false := by rw [← h.inside_eq, hb]
  exact ⟨halike, h.forward.fill hword hs hx halike ht habsent ha hb,
    h.backward.fill hword ht hx halike.symm hs habsent (h.looseAt ha) hb'⟩

/-! ### Filling with ones -/

/-- The digit that literals are written over by. -/
abbrev one : Char → Char := inked '1'

theorem one_eq_one_of_isAsciiWord {c : Char} (h : isAsciiWord (one c) = true) : one c = '1' := by
  unfold one inked at *
  split_ifs at h ⊢ with hc
  · rw [hc] at h
    exact absurd h (by decide)
  · rfl

section Ones
variable (hs : Filled one a b s s')
include hs

/-- A filled word character is a one. -/
theorem Filled.eq_one (hmem : a ≤ i ∧ i < b) {c : Char} (hc : s'[i]? = some c) (hw : isAsciiWord c = true) :
    c = '1' := by
  rw [hs.of_mem hmem] at hc
  obtain ⟨d, -, rfl⟩ := Option.map_eq_some_iff.1 hc
  exact one_eq_one_of_isAsciiWord hw

theorem Filled.not_mem_of_reads (hw : ∀ c ∈ w, isAsciiWord c = true ∧ c ≠ '1') (hr : w <+: s'.drop i) {j : Nat}
    (hj : j < w.length) : ¬ (a ≤ i + j ∧ i + j < b) := by
  intro hmem
  have hc : s'[i + j]? = some w[j] := by rw [prefix_drop_iff.1 hr j hj, List.getElem?_eq_getElem hj]
  obtain ⟨hword, hne⟩ := hw _ (List.getElem_mem hj)
  exact hne (hs.eq_one hmem hc hword)

/-- No word ends where ones were filled in. -/
theorem Filled.wordAt_of_ones (hi : wordAt s' i = false) : wordAt s i = false := by
  by_cases hmem : a ≤ i ∧ i < b
  · rw [← Bool.not_eq_true] at hi ⊢
    intro hword
    obtain ⟨c, hc, hcw⟩ := wordAt_eq_true_iff.1 hword
    have hone : one c = '1' := if_neg fun h => absurd hcw (by rw [h]; decide)
    refine hi (wordAt_eq_true_iff.2 ⟨'1', ?_, by decide⟩)
    rw [hs.of_mem hmem, hc, Option.map_some, hone]
  · rwa [← hs.wordAt_of_not hmem]

theorem Filled.wordBefore_of_ones (hi : wordBefore s' i = false) : wordBefore s i = false := by
  cases i with
  | zero => rfl
  | succ i => exact hs.wordAt_of_ones hi

theorem Filled.startsAt_of_ones (hw : ∀ c ∈ w, isAsciiWord c = true ∧ c ≠ '1') (hr : StartsAt w s' i) :
    StartsAt w s i where
  reads := by
    rw [prefix_drop_iff]
    intro j hj
    rw [← hs.of_not (hs.not_mem_of_reads hw hr.reads hj)]
    exact prefix_drop_iff.1 hr.reads j hj
  before := hs.wordBefore_of_ones hr.before

theorem Filled.standsAt_of_ones (hw : ∀ c ∈ w, isAsciiWord c = true ∧ c ≠ '1') (hr : StandsAt w s' i) :
    StandsAt w s i where
  reads := (hs.startsAt_of_ones hw hr.startsAt).reads
  before := hs.wordBefore_of_ones hr.before
  after := hs.wordAt_of_ones hr.after

theorem Keeps.fill_ones (hx : x.WellFormed) (h : Keeps x s t) (halike : Alike s' t') (ht : Filled one a b t t')
    (hb : inside s b = false) : Keeps x s' t' where
  word w hw i hr := halike.standsAt_filled ht (fun _ hj => hs.not_mem_of_reads (hx.word w hw) hr.reads hj) hr
    (h.word w hw i (hs.standsAt_of_ones (hx.word w hw) hr))
  opening w hw i hr := halike.startsAt_filled ht
    (fun _ hj => hs.not_mem_of_reads (hx.opening w hw) hr.reads hj) hr
    (h.opening w hw i (hs.startsAt_of_ones (hx.opening w hw) hr))
  absent c hc hmem := by
    rcases hs.mem hmem with hmem | ⟨d, hd, rfl⟩
    · exact h.absent c hc hmem
    · unfold one inked at hc
      split_ifs at hc with hd'
      · exact h.absent d hc hd
      · exact hx.absent hc
  numeral hnum n i hn j hj := by
    have hword := wordAt_of_digit (hn.digits j hj)
    by_cases hmem : a ≤ i + j ∧ i + j < b
    · obtain ⟨c, hc, hcw⟩ := wordAt_eq_true_iff.1 hword
      obtain ⟨d, hd, hdw⟩ := wordAt_eq_true_iff.1 (halike.wordAt_eq (i + j) ▸ hword)
      rw [hc, hd, hs.eq_one hmem hc hcw, ht.eq_one hmem hd hdw]
    · rw [hs.of_not hmem, ht.of_not hmem]
      have hdigits : ∀ m k, (∀ l < k, ¬ (a ≤ i + m + l ∧ i + m + l < b)) → m + k ≤ n →
          ∀ l < k, s[i + m + l]?.any Char.isDigit = true := by
        intro m k hnot hk l hl
        rw [← hs.of_not (hnot l hl), Nat.add_assoc]
        exact hn.digits _ (by omega)
      by_cases hbehind : i < b ∧ b ≤ i + j
      · -- the digits from the end of the ones on are digits that a word began with before
        have hnot : ∀ l < i + j - b + 1, ¬ (a ≤ i + (b - i) + l ∧ i + (b - i) + l < b) := by omega
        have hd := hdigits (b - i) (i + j - b + 1) hnot (by omega)
        rw [show i + (b - i) = b by omega] at hd
        have hat : wordAt s b = true := wordAt_of_digit (hd 0 (by omega))
        rw [inside, hat, Bool.and_true] at hb
        have := h.numeral hnum _ b ⟨hd, hb⟩ (i + j - b) (by omega)
        rwa [show b + (i + j - b) = i + j by omega] at this
      · have hd := hdigits 0 (j + 1) (by omega) (by omega)
        exact h.numeral hnum (j + 1) i ⟨hd, hs.wordBefore_of_ones hn.before⟩ j (by omega)

end Ones

/-- Filling both texts with ones, up to an edge. -/
theorem Twin.fill_ones (hx : x.WellFormed) (h : Twin x s t) (hb : inside s b = false)
    (hs : Filled one a b s s') (ht : Filled one a b t t') : Twin x s' t' := by
  have halike := h.toAlike.fill (isFill_inked (by decide)) hs ht
  have hb' : inside t b = false := by rw [← h.inside_eq, hb]
  exact ⟨halike, h.forward.fill_ones hs hx halike ht hb, h.backward.fill_ones ht hx halike.symm hs hb'⟩

/-! ## Parts of texts -/

/-- What begins at an offset behind an edge begins there in the whole text. -/
theorem StartsAt.of_drop (he : inside s n = false) (hword : wordAt (s.drop n) i = true)
    (h : StartsAt w (s.drop n) i) : StartsAt w s (n + i) where
  reads := by
    rw [← List.drop_drop]
    exact h.reads
  before := by
    cases i with
    | zero =>
      rw [wordAt_drop, Nat.add_zero] at hword
      rw [inside, hword, Bool.and_true] at he
      exact he
    | succ i =>
      have hbefore := h.before
      rwa [wordBefore_succ, wordAt_drop] at hbefore

theorem StartsAt.drop (h : StartsAt w s (n + i)) : StartsAt w (s.drop n) i where
  reads := by
    rw [List.drop_drop]
    exact h.reads
  before := by
    cases i with
    | zero => rfl
    | succ i =>
      rw [wordBefore_succ, wordAt_drop]
      exact h.before

theorem wordAt_of_startsAt (hw : ∀ c ∈ w, isAsciiWord c = true) (hne : w ≠ []) (h : StartsAt w s i) :
    wordAt s i = true := wordAt_of_reads hw h.reads (List.length_pos_of_ne_nil hne)

theorem Keeps.drop (hx : x.WellFormed) (h : Keeps x s t) (he : inside s n = false) :
    Keeps x (s.drop n) (t.drop n) where
  word w hw i hr := by
    have hwc : ∀ c ∈ w, isAsciiWord c = true := fun c hc => (hx.word w hw c hc).1
    have hne : w ≠ [] := List.ne_nil_of_length_pos (Nat.lt_of_lt_of_le Nat.zero_lt_two (hx.two_le w hw))
    have hstarts := hr.startsAt.of_drop he (wordAt_of_startsAt hwc hne hr.startsAt)
    have hafter := hr.after
    rw [wordAt_drop, ← Nat.add_assoc] at hafter
    have htwin := h.word w hw (n + i) ⟨hstarts.reads, hstarts.before, hafter⟩
    refine ⟨htwin.startsAt.drop.reads, htwin.startsAt.drop.before, ?_⟩
    rw [wordAt_drop, ← Nat.add_assoc]
    exact htwin.after
  opening w hw i hr := by
    have hwc : ∀ c ∈ w, isAsciiWord c = true := fun c hc => (hx.opening w hw c hc).1
    exact (h.opening w hw (n + i) (hr.of_drop he (wordAt_of_startsAt hwc (hx.ne_nil w hw) hr))).drop
  absent c hc hmem := h.absent c hc (List.mem_of_mem_drop hmem)
  numeral hnum m i hm j hj := by
    have hd : ∀ k < m, s[n + i + k]?.any Char.isDigit = true := by
      intro k hk
      rw [Nat.add_assoc, ← List.getElem?_drop]
      exact hm.digits k hk
    have hat : wordAt (s.drop n) i = true := by
      rw [wordAt_drop]
      exact wordAt_of_digit (hd 0 (Nat.zero_lt_of_lt hj))
    have hstarts : StartsAt [] s (n + i) := StartsAt.of_drop he hat ⟨List.nil_prefix, hm.before⟩
    rw [List.getElem?_drop, List.getElem?_drop, ← Nat.add_assoc]
    exact h.numeral hnum m (n + i) ⟨hd, hstarts.before⟩ j hj

/-- What stands behind an edge of two twins. -/
theorem Twin.drop (hx : x.WellFormed) (h : Twin x s t) (he : inside s n = false) :
    Twin x (s.drop n) (t.drop n) where
  toAlike := h.toAlike.drop n
  forward := h.forward.drop hx he
  backward := h.backward.drop hx (by rw [← h.inside_eq, he])

theorem wordAt_take_of_lt (h : i < n) : wordAt (s.take n) i = wordAt s i := by
  rw [wordAt, wordAt, List.getElem?_take_of_lt h]

theorem wordBefore_take_of_le (h : i ≤ n) : wordBefore (s.take n) i = wordBefore s i := by
  cases i with
  | zero => rfl
  | succ i => exact wordAt_take_of_lt h

theorem reads_take_iff : w <+: (s.take n).drop i ↔ w <+: s.drop i ∧ ∀ j < w.length, i + j < n := by
  rw [prefix_drop_iff, prefix_drop_iff]
  constructor
  · intro h
    have hlt : ∀ j < w.length, i + j < n := by
      intro j hj
      by_contra hge
      have hnone := h j hj
      rw [List.getElem?_take, if_neg hge, List.getElem?_eq_getElem hj] at hnone
      exact absurd hnone (by simp)
    exact ⟨fun j hj => by rw [← h j hj, List.getElem?_take_of_lt (hlt j hj)], hlt⟩
  · rintro ⟨h, hlt⟩ j hj
    rw [List.getElem?_take_of_lt (hlt j hj), h j hj]

theorem startsAt_take_iff (hne : w ≠ []) :
    StartsAt w (s.take n) i ↔ StartsAt w s i ∧ ∀ j < w.length, i + j < n := by
  constructor
  · rintro ⟨hr, hb⟩
    obtain ⟨hr, hlt⟩ := reads_take_iff.1 hr
    have hi := hlt 0 (List.length_pos_of_ne_nil hne)
    rw [wordBefore_take_of_le (by omega)] at hb
    exact ⟨⟨hr, hb⟩, hlt⟩
  · rintro ⟨⟨hr, hb⟩, hlt⟩
    have hi := hlt 0 (List.length_pos_of_ne_nil hne)
    refine ⟨reads_take_iff.2 ⟨hr, hlt⟩, ?_⟩
    rw [wordBefore_take_of_le (by omega)]
    exact hb

theorem standsAt_take_iff (hw : ∀ c ∈ w, isAsciiWord c = true) (hne : w ≠ []) (he : inside s n = false) :
    StandsAt w (s.take n) i ↔ StandsAt w s i ∧ ∀ j < w.length, i + j < n := by
  constructor
  · intro h
    obtain ⟨hstarts, hlt⟩ := (startsAt_take_iff hne).1 h.startsAt
    refine ⟨⟨hstarts.reads, hstarts.before, ?_⟩, hlt⟩
    have hpos := List.length_pos_of_ne_nil hne
    have hlast := hlt (w.length - 1) (by omega)
    rcases Nat.lt_or_ge (i + w.length) n with hin | hout
    · rw [← wordAt_take_of_lt hin]
      exact h.after
    · have hn : i + w.length = n := by omega
      have hbefore : wordBefore s n = true := by
        rw [wordBefore_of_pos (by omega), show n - 1 = i + (w.length - 1) by omega]
        exact wordAt_of_reads hw hstarts.reads (by omega)
      rw [inside, hbefore, Bool.true_and] at he
      rw [hn]
      exact he
  · rintro ⟨h, hlt⟩
    have hstarts := (startsAt_take_iff hne).2 ⟨h.startsAt, hlt⟩
    refine ⟨hstarts.reads, hstarts.before, ?_⟩
    rcases Nat.lt_or_ge (i + w.length) n with hin | hout
    · rw [wordAt_take_of_lt hin]
      exact h.after
    · exact wordAt_of_length_le (Nat.le_trans (List.length_take_le n s) hout)

theorem Keeps.take (hx : x.WellFormed) (h : Keeps x s t) (he : inside s n = false) (he' : inside t n = false) :
    Keeps x (s.take n) (t.take n) where
  word w hw i hr := by
    have hwc : ∀ c ∈ w, isAsciiWord c = true := fun c hc => (hx.word w hw c hc).1
    have hne : w ≠ [] := List.ne_nil_of_length_pos (Nat.lt_of_lt_of_le Nat.zero_lt_two (hx.two_le w hw))
    obtain ⟨hr, hlt⟩ := (standsAt_take_iff hwc hne he).1 hr
    exact (standsAt_take_iff hwc hne he').2 ⟨h.word w hw i hr, hlt⟩
  opening w hw i hr := by
    obtain ⟨hr, hlt⟩ := (startsAt_take_iff (hx.ne_nil w hw)).1 hr
    exact (startsAt_take_iff (hx.ne_nil w hw)).2 ⟨h.opening w hw i hr, hlt⟩
  absent c hc hmem := h.absent c hc (List.mem_of_mem_take hmem)
  numeral hnum m i hm j hj := by
    have hd : ∀ k < m, i + k < n ∧ s[i + k]?.any Char.isDigit = true := by
      intro k hk
      have hdigit := hm.digits k hk
      rw [List.getElem?_take] at hdigit
      split_ifs at hdigit with hlt
      · exact ⟨hlt, hdigit⟩
      · exact absurd hdigit (by simp)
    have hbefore := hm.before
    rw [wordBefore_take_of_le (by have := (hd j hj).1; omega)] at hbefore
    rw [List.getElem?_take_of_lt (hd j hj).1, List.getElem?_take_of_lt (hd j hj).1]
    exact h.numeral hnum m i ⟨fun k hk => (hd k hk).2, hbefore⟩ j hj

/-- What stands in front of an edge of two twins. -/
theorem Twin.take (hx : x.WellFormed) (h : Twin x s t) (he : inside s n = false) :
    Twin x (s.take n) (t.take n) := by
  have he' : inside t n = false := by rw [← h.inside_eq, he]
  exact ⟨h.toAlike.take n, h.forward.take hx he he', h.backward.take hx he' he⟩

theorem inside_drop_eq_false (h : inside s (n + i) = false) : inside (s.drop n) i = false := by
  cases i with
  | zero => rfl
  | succ i =>
    rw [inside, wordBefore_succ, wordAt_drop, wordAt_drop]
    exact h

theorem inside_of_drop (hn : inside s n = false) (h : inside (s.drop n) i = false) : inside s (n + i) = false := by
  cases i with
  | zero => exact hn
  | succ i =>
    rw [inside, wordBefore_succ, wordAt_drop, wordAt_drop] at h
    exact h

theorem inside_of_take (hn : inside s n = false) (hi : i ≤ n) (h : inside (s.take n) i = false) : inside s i = false := by
  rcases Nat.lt_or_eq_of_le hi with hlt | rfl
  · rwa [inside, wordBefore_take_of_le hi, wordAt_take_of_lt hlt] at h
  · exact hn

/-- The length of a span is an edge of what stands behind its start, if the span stops at an edge. -/
theorem inside_drop_length {p : Span} (hb : inside s p.stop = false) :
    inside (s.drop p.start) (p.stop - p.start) = false := by
  rcases Nat.lt_or_ge p.start p.stop with hlt | hge
  · refine inside_drop_eq_false ?_
    rwa [Nat.add_sub_cancel' (Nat.le_of_lt hlt)]
  · rw [Nat.sub_eq_zero_of_le hge]
    rfl

/-- A span of the text between two edges. -/
structure Edged (s : List Char) (p : Span) : Prop where
  start : inside s p.start = false
  stop : inside s p.stop = false
  start_le : p.start ≤ s.length
  stop_le : p.stop ≤ s.length

theorem length_slice_le (p : Span) (s : List Char) : (p.slice s).length ≤ p.stop - p.start := List.length_take_le _ _

/-- An edge of what stands between two edges is one of the whole text. -/
theorem Edged.inside_of_slice {p : Span} (hp : Edged s p) (hi : i ≤ (p.slice s).length)
    (h : inside (p.slice s) i = false) : inside s (p.start + i) = false := by
  have hle := length_slice_le p s
  exact inside_of_drop hp.start (inside_of_take (inside_drop_length hp.stop) (by omega) h)

theorem Edged.of_slice {p q : Span} (hp : Edged s p) (hq : Edged (p.slice s) q) : Edged s (q.shift p.start) := by
  have hlength : (p.slice s).length + p.start ≤ s.length := by
    have hstart := hp.start_le
    rw [Span.slice, List.length_take, List.length_drop]
    omega
  have hstart := hq.start_le
  have hstop := hq.stop_le
  refine ⟨?_, ?_, ?_, ?_⟩
  · change inside s (q.start + p.start) = false
    rw [Nat.add_comm]
    exact hp.inside_of_slice hstart hq.start
  · change inside s (q.stop + p.start) = false
    rw [Nat.add_comm]
    exact hp.inside_of_slice hstop hq.stop
  · change q.start + p.start ≤ s.length
    omega
  · change q.stop + p.start ≤ s.length
    omega

/-- What stands between two edges of two twins. -/
theorem Twin.slice (hx : x.WellFormed) (h : Twin x s t) {p : Span} (ha : inside s p.start = false)
    (hb : inside s p.stop = false) : Twin x (p.slice s) (p.slice t) :=
  (h.drop hx ha).take hx (inside_drop_length hb)

theorem Alike.slice (h : Alike s t) (p : Span) : Alike (p.slice s) (p.slice t) := (h.drop _).take _

/-- The word at the start of a text stands there. -/
theorem eq_takeWhile_iff (hw : ∀ c ∈ w, isAsciiWord c = true) : w = s.takeWhile isAsciiWord ↔ StandsAt w s 0 := by
  have hnext : ∀ v : List Char, wordAt (w ++ v) (0 + w.length) = v.head?.any isAsciiWord := by
    intro v
    rw [wordAt, Nat.zero_add, List.getElem?_append_right (Nat.le_refl _), Nat.sub_self, List.head?_eq_getElem?]
  constructor
  · intro h
    have hs : s = w ++ s.dropWhile isAsciiWord := by rw [h, List.takeWhile_append_dropWhile]
    refine ⟨h ▸ List.takeWhile_prefix _, rfl, ?_⟩
    rw [hs, hnext]
    have hhead := List.head?_dropWhile_not isAsciiWord s
    split at hhead
    · rename_i c hc
      rw [hc, Option.any_some, hhead]
    · rename_i hc
      rw [hc, Option.any_none]
  · rintro ⟨⟨v, hv⟩, -, hafter⟩
    rw [List.drop_zero] at hv
    subst hv
    rw [hnext] at hafter
    rw [List.takeWhile_append_of_pos hw]
    cases v with
    | nil => rw [List.takeWhile_nil, List.append_nil]
    | cons c v =>
      rw [List.head?_cons, Option.any_some] at hafter
      rw [List.takeWhile_cons_of_neg (by rw [hafter]; exact Bool.false_ne_true), List.append_nil]

end SourceLikeness.Text
