import SourceLikeness.Proofs.Renaming.Pipeline
import Mathlib.Data.Nat.Find

/-!
# Renaming

What a program is called by makes no difference: two texts that differ in names only have the same tokens.

* `Renames` : texts that have their words at the same offsets and are equal elsewhere, where a word that is not the
  same in both is a name that is not reserved;
* `Renames.keeps` : so a lexicon of reserved words does not tell them apart;
* `tokenize_py_eq_of_renames` : the tokens of Python;
* `KeepsElse`, `tokenize_c_eq_of_renames` : those of the C family, if no word that begins with `else` is put for one
  that does not;
* `tokenize_elsewhere_ne` : without that the tokens may be others.
-/

namespace SourceLikeness

namespace Text
variable {s t w : List Char} {x : Lexicon} {reserved : List String} {i j n : Nat}

/-! ## Runs of word characters -/

/-- Where a word starts, there is a run. -/
theorem exists_isRun (hbefore : wordBefore s i = false) (hat : wordAt s i = true) : ∃ j, IsRun s i j := by
  have hend : ∃ n, wordAt s (i + n) = false := ⟨s.length, wordAt_of_length_le (Nat.le_add_left _ _)⟩
  have hpos : 0 < Nat.find hend := by
    rw [Nat.find_pos, Nat.add_zero, hat]
    exact Bool.true_eq_false.mp
  refine ⟨i + Nat.find hend, by omega, fun k hik hk => ?_, hbefore, Nat.find_spec hend⟩
  obtain ⟨n, rfl⟩ := Nat.exists_eq_add_of_le hik
  exact (Bool.not_eq_false _).mp (Nat.find_min hend (by omega))

theorem StandsAt.isRun (h : StandsAt w s i) (hw : ∀ c ∈ w, isAsciiWord c = true) (hne : w ≠ []) :
    IsRun s i (i + w.length) := by
  have hpos := List.length_pos_of_ne_nil hne
  refine ⟨by omega, fun k hik hk => ?_, h.before, h.after⟩
  obtain ⟨n, rfl⟩ := Nat.exists_eq_add_of_le hik
  exact wordAt_of_reads hw h.reads (by omega)

/-- The text of a run. -/
def between (s : List Char) (i j : Nat) : List Char := Span.slice ⟨i, j⟩ s

theorem reads_iff_between : w <+: s.drop i ↔ between s i (i + w.length) = w := by
  rw [between, Span.slice, Nat.add_sub_cancel_left, List.prefix_iff_eq_take, eq_comm]

theorem getElem?_between (hj : i + n < j) : (between s i j)[n]? = s[i + n]? := by
  have hlt : n < j - i := by omega
  rw [between, Span.slice, List.getElem?_take_of_lt hlt, List.getElem?_drop]

instance (s : List Char) (i j : Nat) : Decidable (IsRun s i j) :=
  decidable_of_iff
    (i < j ∧ (∀ k < j, i ≤ k → wordAt s k = true) ∧ wordBefore s i = false ∧ wordAt s j = false)
    ⟨fun ⟨hlt, hword, hbefore, hafter⟩ => ⟨hlt, fun k hk hk' => hword k hk' hk, hbefore, hafter⟩,
      fun h => ⟨h.lt, fun k hk' hk => h.word k hk hk', h.before, h.after⟩⟩

theorem IsRun.bounds (h : IsRun s i j) : i < s.length ∧ j < s.length + 1 := by
  have hlt := h.lt
  have hlast := lt_length_of_wordAt (h.word (j - 1) (by omega) (by omega))
  omega

/-- What holds of all runs is asked of those only that may be one by their bounds. -/
theorem forall_isRun_iff {P : Nat → Nat → Prop} :
    (∀ i j, IsRun s i j → P i j) ↔ ∀ i < s.length, ∀ j < s.length + 1, IsRun s i j → P i j :=
  ⟨fun h i _ j _ => h i j, fun h i j hrun => h i hrun.bounds.1 j hrun.bounds.2 hrun⟩

/-! ## Renaming -/

/-- A word that starts with a letter or an underscore and is not reserved. -/
structure IsName (reserved : List String) (w : List Char) : Prop where
  initial : w.head?.any (fun c => c.isAlpha || c == '_') = true
  notReserved : ∀ r ∈ reserved, w ≠ r.toList

instance (reserved : List String) (w : List Char) : Decidable (IsName reserved w) :=
  decidable_of_iff (w.head?.any (fun c => c.isAlpha || c == '_') = true ∧ ∀ r ∈ reserved, w ≠ r.toList)
    ⟨fun h => ⟨h.1, h.2⟩, fun h => ⟨h.initial, h.notReserved⟩⟩

/-- Texts of ASCII that have their words at the same offsets and are equal elsewhere. A word that is not the same in
both is a name. -/
structure Renames (reserved : List String) (s t : List Char) : Prop where
  length : s.length = t.length
  left : ∀ c ∈ s, IsAscii c
  right : ∀ c ∈ t, IsAscii c
  word : ∀ i, wordAt s i = wordAt t i
  outside : ∀ i, wordAt s i = false → s[i]? = t[i]?
  run : ∀ i j, IsRun s i j → between s i j = between t i j ∨
    IsName reserved (between s i j) ∧ IsName reserved (between t i j)

theorem all_isAscii : (s.all fun c => decide (IsAscii c)) = true ↔ ∀ c ∈ s, IsAscii c := by
  simp only [List.all_eq_true, decide_eq_true_eq]

/-- Offsets behind the texts show the same in both. -/
theorem renames_iff : Renames reserved s t ↔ s.length = t.length ∧ (s.all fun c => decide (IsAscii c)) = true ∧
    (t.all fun c => decide (IsAscii c)) = true ∧ (∀ i < s.length, wordAt s i = wordAt t i ∧ (wordAt s i = false → s[i]? = t[i]?)) ∧
    ∀ i < s.length, ∀ j < s.length + 1, IsRun s i j → between s i j = between t i j ∨
      IsName reserved (between s i j) ∧ IsName reserved (between t i j) := by
  rw [← forall_isRun_iff (s := s)]
  constructor
  · rintro ⟨hlength, hs, ht, hword, houtside, hrun⟩
    exact ⟨hlength, all_isAscii.2 hs, all_isAscii.2 ht, fun i _ => ⟨hword i, houtside i⟩, hrun⟩
  · rintro ⟨hlength, hs, ht, hchars, hrun⟩
    refine ⟨hlength, all_isAscii.1 hs, all_isAscii.1 ht, fun i => ?_, fun i => ?_, hrun⟩
    · rcases Nat.lt_or_ge i s.length with hi | hi
      · exact (hchars i hi).1
      · rw [wordAt_of_length_le hi, wordAt_of_length_le (hlength ▸ hi)]
    · rcases Nat.lt_or_ge i s.length with hi | hi
      · exact (hchars i hi).2
      · rw [List.getElem?_eq_none hi, List.getElem?_eq_none (hlength ▸ hi)]
        exact fun _ => rfl

instance (reserved : List String) (s t : List Char) : Decidable (Renames reserved s t) :=
  decidable_of_iff _ renames_iff.symm

namespace Renames

theorem wordBefore_eq (h : Renames reserved s t) (i : Nat) : wordBefore s i = wordBefore t i := by
  cases i with
  | zero => rfl
  | succ i => exact h.word i

theorem isRun_iff (h : Renames reserved s t) : IsRun s i j ↔ IsRun t i j := by
  constructor
  · rintro ⟨hlt, hword, hbefore, hafter⟩
    exact ⟨hlt, fun k hk hk' => h.word k ▸ hword k hk hk', h.wordBefore_eq i ▸ hbefore, h.word j ▸ hafter⟩
  · rintro ⟨hlt, hword, hbefore, hafter⟩
    exact ⟨hlt, fun k hk hk' => (h.word k).symm ▸ hword k hk hk', (h.wordBefore_eq i).symm ▸ hbefore,
      (h.word j).symm ▸ hafter⟩

theorem symm (h : Renames reserved s t) : Renames reserved t s where
  length := h.length.symm
  left := h.right
  right := h.left
  word i := (h.word i).symm
  outside i hi := (h.outside i (by rw [h.word, hi])).symm
  run i j hrun := (h.run i j (h.isRun_iff.2 hrun)).imp Eq.symm And.symm

theorem alike (h : Renames reserved s t) : Alike s t where
  length := h.length
  left := h.left
  right := h.right
  char i c d hc hd := by
    cases hat : wordAt s i with
    | false =>
      have hsame := h.outside i hat
      rw [hc, hd] at hsame
      exact Or.inl (Option.some.inj hsame)
    | true =>
      have hat' := h.word i ▸ hat
      rw [wordAt_of_getElem? hc] at hat
      rw [wordAt_of_getElem? hd] at hat'
      exact Or.inr ⟨hat, hat'⟩

/-- A reserved word stands at the same offsets of both texts. -/
theorem standsAt (h : Renames reserved s t) {r : String} (hr : r ∈ reserved)
    (hword : ∀ c ∈ r.toList, isAsciiWord c = true) (hne : r.toList ≠ []) (hs : StandsAt r.toList s i) :
    StandsAt r.toList t i := by
  have hreads := reads_iff_between.1 hs.reads
  rcases h.run i _ (hs.isRun hword hne) with heq | ⟨hname, -⟩
  · exact ⟨reads_iff_between.2 (heq ▸ hreads), h.wordBefore_eq i ▸ hs.before, h.word _ ▸ hs.after⟩
  · exact absurd hreads (hname.notReserved r hr)

/-- A word that starts with a digit is the same in both texts. -/
theorem numeral (h : Renames reserved s t) (hs : NumeralAt n s i) {k : Nat} (hk : k < n) : s[i + k]? = t[i + k]? := by
  have hat : wordAt s i = true := wordAt_of_digit (hs.digits 0 (by omega))
  obtain ⟨j, hrun⟩ := exists_isRun hs.before hat
  have hj : i + k < j := by
    by_contra hge
    have hdigit := wordAt_of_digit (hs.digits (j - i) (by omega))
    rw [show i + (j - i) = j by have := hrun.lt; omega, hrun.after] at hdigit
    exact Bool.noConfusion hdigit
  rcases h.run i j hrun with heq | ⟨hname, -⟩
  · rw [← getElem?_between hj, ← getElem?_between hj, heq]
  · have hdigit := hs.digits 0 (by omega)
    have hinitial := hname.initial
    rw [List.head?_eq_getElem?, getElem?_between hrun.lt, Nat.add_zero] at hinitial
    rw [Nat.add_zero] at hdigit
    obtain ⟨c, hc, hcd⟩ := (Option.any_eq_true _ _).1 hdigit
    have hletter := Pattern.holds_initials_of_isAsciiWord (isAsciiWord_of_isDigit hcd)
    rw [hc, Option.any_some, ← Pattern.holds_initials, hletter, hcd] at hinitial
    exact Bool.noConfusion hinitial

/-- A lexicon of reserved words tells nothing of the first text that does not hold of the second. -/
theorem keeps (h : Renames reserved s t) (hx : x.WellFormed) (hwords : x.words = reserved.map String.toList)
    (hopening : ∀ w ∈ x.openings, ∀ i, StartsAt w s i → StartsAt w t i) (habsent : ∀ c ∈ x.absent, c ∉ s) :
    Keeps x s t where
  word w hw i hs := by
    have htwo := hx.two_le w hw
    have hchars := fun c hc => (hx.word w hw c hc).1
    rw [hwords] at hw
    obtain ⟨r, hr, rfl⟩ := List.mem_map.1 hw
    exact h.standsAt hr hchars (List.ne_nil_of_length_pos (by omega)) hs
  opening := hopening
  absent := habsent
  numeral _ _ _ hs _ hk := h.numeral hs hk

end Renames

/-- Both words begin with `else` or neither does, and neither is `elseif`. -/
structure SameElse (w w' : List Char) : Prop where
  begins : "else".toList <+: w ↔ "else".toList <+: w'
  left : w ≠ "elseif".toList
  right : w' ≠ "elseif".toList

instance (w w' : List Char) : Decidable (SameElse w w') :=
  decidable_of_iff (("else".toList <+: w ↔ "else".toList <+: w') ∧ w ≠ "elseif".toList ∧ w' ≠ "elseif".toList)
    ⟨fun h => ⟨h.1, h.2.1, h.2.2⟩, fun h => ⟨h.begins, h.left, h.right⟩⟩

/-- Where a word is not the same in both texts, it begins with `else` in both or in neither, and is `elseif` in
neither. -/
def KeepsElse (s t : List Char) : Prop :=
  ∀ i j, IsRun s i j → between s i j = between t i j ∨ SameElse (between s i j) (between t i j)

instance (s t : List Char) : Decidable (KeepsElse s t) := decidable_of_iff _ forall_isRun_iff.symm

namespace Renames

theorem keepsElse_symm (h : Renames reserved s t) (helse : KeepsElse s t) : KeepsElse t s := by
  intro i j hrun
  exact (helse i j (h.isRun_iff.2 hrun)).imp Eq.symm fun hsame => ⟨hsame.begins.symm, hsame.right, hsame.left⟩

theorem reserve_elseif (h : Renames reserved s t) (helse : KeepsElse s t) : Renames (reserved ++ ["elseif"]) s t where
  length := h.length
  left := h.left
  right := h.right
  word := h.word
  outside := h.outside
  run i j hrun := by
    have hmore : ∀ {w : List Char}, IsName reserved w → w ≠ "elseif".toList → IsName (reserved ++ ["elseif"]) w := by
      intro w hw hne
      refine ⟨hw.initial, List.forall_mem_append.2 ⟨hw.notReserved, ?_⟩⟩
      rintro r hr
      obtain rfl := List.mem_singleton.1 hr
      exact hne
    rcases helse i j hrun with heq | hsame
    · exact Or.inl heq
    · exact (h.run i j hrun).imp_right fun hname => ⟨hmore hname.1 hsame.left, hmore hname.2 hsame.right⟩

theorem startsAt_else (h : Renames reserved s t) (helse : KeepsElse s t) (hs : StartsAt "else".toList s i) :
    StartsAt "else".toList t i := by
  have hchars : ∀ c ∈ "else".toList, isAsciiWord c = true := List.all_eq_true.1 (by decide)
  have hat := fun k => wordAt_of_reads (j := k) hchars hs.reads
  obtain ⟨j, hrun⟩ := exists_isRun hs.before (hat 0 (by decide))
  have hlong : "else".toList.length ≤ j - i := by
    by_contra hshort
    have hlt := hrun.lt
    have hlast := hat (j - i) (by omega)
    rw [Nat.add_sub_cancel' (Nat.le_of_lt hlt), hrun.after] at hlast
    exact Bool.noConfusion hlast
  have hiff : ∀ u : List Char, "else".toList <+: between u i j ↔ "else".toList <+: u.drop i := by
    intro u
    rw [between, Span.slice, List.prefix_take_iff]
    exact and_iff_left hlong
  refine ⟨(hiff t).1 ?_, h.wordBefore_eq i ▸ hs.before⟩
  have hreads := (hiff s).2 hs.reads
  rcases helse i j hrun with heq | hsame
  · rwa [← heq]
  · exact hsame.begins.1 hreads

end Renames
end Text

namespace Tokenizer
open Text (Renames KeepsElse Lexicon)
variable {s s' : List Char} {x : Lexicon}

theorem twin_ofSource (h : Text.Twin x s s') :
    WorkingCopy.Twin x (.ofSource s : Work) (.ofSource s') := by
  have hs := WorkingCopy.text_ofSource_of_ascii (α := Category) h.left
  have hs' := WorkingCopy.text_ofSource_of_ascii (α := Category) h.right
  have hclaims : ∀ {u : List Char}, (∀ c ∈ u, IsAscii c) →
      (WorkingCopy.ofSource u : Work).claims = List.replicate u.length false := by
    intro u hu
    rw [WorkingCopy.claims, WorkingCopy.cells_ofSource_of_ascii hu, List.map_map]
    exact List.map_const'
  refine ⟨?_, ?_, rfl⟩
  · rw [hs, hs']
    exact h
  · rw [hclaims h.left, hclaims h.right, h.length]

theorem tokenize_eq_of_tokens_eq {t : Tokenizer} (h : (t.run s).tokens = (t.run s').tokens) :
    t.tokenize s = t.tokenize s' := by
  rw [tokenize, tokenize, classes, classes, h]

/-- **Renaming in Python.** Two texts that differ in names only, none of them reserved, have the same tokens. -/
theorem tokenize_py_eq_of_renames (h : Renames pyWords s s') :
    (ofDialect .python).tokenize s = (ofDialect .python).tokenize s' := by
  have hkeeps : ∀ {u v : List Char}, Renames pyWords u v → Text.Keeps pyLexicon u v := fun h =>
    h.keeps wellFormed_pyLexicon rfl (List.forall_mem_nil _) (List.forall_mem_nil _)
  have htwin : Text.Twin pyLexicon s s' := ⟨h.alike, hkeeps h, hkeeps h.symm⟩
  exact tokenize_eq_of_tokens_eq (twin_runPasses wellFormed_pyLexicon blind_pyPasses (twin_ofSource htwin)).tokens

/-- A method and the loop in it, with other names. -/
theorem tokenize_py_eq_of_renames_method :
    let s := "def at(x):\n  for k in x: f.g(1)".toList
    let s' := "def _1(N):\n  for i in N: c.z(1)".toList
    Renames pyWords s s' ∧ (ofDialect .python).tokenize s = (ofDialect .python).tokenize s' := by
  intro s s'
  have h : Renames pyWords s s' := by decide +kernel
  exact ⟨h, tokenize_py_eq_of_renames h⟩

/-- **Renaming in the C family.** Two texts without `#` that differ in names only, none of them reserved, have the same
tokens, if no name that begins with `else` takes the place of one that does not. -/
theorem tokenize_c_eq_of_renames (h : Renames cWords s s') (helse : KeepsElse s s') (hs : '#' ∉ s) (hs' : '#' ∉ s') :
    (ofDialect .cFamily).tokenize s = (ofDialect .cFamily).tokenize s' := by
  have hkeeps : ∀ {u v : List Char}, Renames cWords u v → KeepsElse u v → '#' ∉ u → Text.Keeps cLexicon u v := by
    intro u v h helse hu
    refine (h.reserve_elseif helse).keeps wellFormed_cLexicon rfl ?_ ?_
    · exact List.forall_mem_singleton.2 fun _ => h.startsAt_else helse
    · exact List.forall_mem_singleton.2 hu
  have htwin : Text.Twin cLexicon s s' := ⟨h.alike, hkeeps h helse hs, hkeeps h.symm (h.keepsElse_symm helse) hs'⟩
  obtain ⟨hwords, hsigns⟩ := blind_cPasses
  have hfirst := twin_runPasses wellFormed_cLexicon hwords (twin_ofSource htwin)
  -- the passes behind the last that reads a word need not be told any
  have hlast := twin_runPasses wellFormed_plain hsigns ⟨hfirst.text.toAlike.twin, hfirst.claims, hfirst.tokens⟩
  refine tokenize_eq_of_tokens_eq ?_
  rw [runPasses, runPasses, runPasses, runPasses, ← List.foldl_append, ← List.foldl_append, List.take_append_drop] at hlast
  exact hlast.tokens

/-- A conditional with a body without braces, with other names. -/
theorem tokenize_c_eq_of_renames_conditional :
    let s := "if (a < b2) elsea = c; else if (d) f(e);".toList
    let s' := "if (x < y_) else1 = p; else if (q) _(r);".toList
    Renames cWords s s' ∧ KeepsElse s s' ∧ (ofDialect .cFamily).tokenize s = (ofDialect .cFamily).tokenize s' := by
  intro s s'
  have h : Renames cWords s s' := by decide +kernel
  have helse : KeepsElse s s' := by decide +kernel
  exact ⟨h, helse, tokenize_c_eq_of_renames h helse (by decide +kernel) (by decide +kernel)⟩

/-- A name that begins with `else` is taken for one. -/
theorem tokenize_elsewhere_ne :
    let s := "elsewhere = 1;".toList
    let s' := "somewhere = 1;".toList
    Renames cWords s s' ∧ '#' ∉ s ∧ '#' ∉ s' ∧ (ofDialect .cFamily).tokenize s ≠ (ofDialect .cFamily).tokenize s' := by
  decide +kernel

end Tokenizer
end SourceLikeness
