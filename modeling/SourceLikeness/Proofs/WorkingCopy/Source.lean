import SourceLikeness.Proofs.WorkingCopy.Edit

/-!
# The working copy of a source

The working text of a source shows its bytes one by one (`text_ofSource`), so that an offset into the text is
an offset into the bytes.

* `utf8` : the bytes of a source;
* `WorkingCopy.shown` : the character that stands for a byte, itself if it is one of ASCII;
* `infix_of_infix_text` : what the working text contains and is of ASCII, the source contains;
* `size_ofSource`, `ascii_ofSource`, `newline_ofSource`, `sound_ofSource` : what holds before the first pass.
-/

namespace SourceLikeness

/-- The bytes of a source. -/
def utf8 (source : List Char) : List UInt8 := source.flatMap String.utf8EncodeChar

theorem length_utf8_cons (c : Char) (u : List Char) : (utf8 (c :: u)).length = c.utf8Size + (utf8 u).length := by
  rw [utf8, List.flatMap_cons, List.length_append, String.length_utf8EncodeChar]
  rfl

theorem length_utf8_append (u v : List Char) : (utf8 (u ++ v)).length = (utf8 u).length + (utf8 v).length := by
  rw [utf8, List.flatMap_append, List.length_append, utf8, utf8]

theorem length_utf8_eq_zero_iff {u : List Char} : (utf8 u).length = 0 ↔ u = [] := by
  cases u with
  | nil => exact iff_of_true rfl rfl
  | cons c u =>
    rw [length_utf8_cons]
    exact iff_of_false (by have := c.utf8Size_pos; omega) (List.cons_ne_nil c u)

namespace WorkingCopy
variable {α : Type}

/-- The character that stands for a byte of the source. -/
def shown (b : UInt8) : Char := if b.toNat < 128 then Char.ofNat b.toNat else foreign

theorem isAscii_shown (b : UInt8) : IsAscii (shown b) := by
  unfold shown
  split_ifs with h
  · have hvalid : b.toNat.isValidChar := Or.inl (Nat.lt_trans h (by decide))
    rw [Char.ofNat, dif_pos hvalid]
    exact h
  · decide

/-! ## One character -/

theorem map_shown_of_lt {c : Char} (h : c.toNat < 128) : (String.utf8EncodeChar c).map shown = [c] := by
  have hc : c.val.toNat ≤ 0x7f := Nat.le_of_lt_succ h
  have hbyte : (UInt8.ofNat c.val.toNat).toNat = c.toNat := by
    rw [UInt8.toNat_ofNat']
    exact Nat.mod_eq_of_lt (Nat.lt_trans h (by decide))
  rw [String.utf8EncodeChar, if_pos hc, List.map_singleton, shown, hbyte, if_pos h, Char.ofNat_toNat]

/-- No byte of a character beyond ASCII is one of ASCII. -/
theorem le_toNat_utf8EncodeChar {c : Char} (h : ¬ c.toNat < 128) : ∀ b ∈ String.utf8EncodeChar c, 128 ≤ b.toNat := by
  have hc : ¬ c.val.toNat ≤ 0x7f := fun hle => h (Nat.lt_succ_of_le hle)
  fun_cases String.utf8EncodeChar c with
  | case1 => exact absurd ‹_› hc
  | case2 =>
    simp only [List.forall_mem_cons, UInt8.toNat_ofNat']
    exact ⟨by omega, by omega, List.forall_mem_nil _⟩
  | case3 =>
    simp only [List.forall_mem_cons, UInt8.toNat_ofNat']
    exact ⟨by omega, by omega, by omega, List.forall_mem_nil _⟩
  | case4 =>
    simp only [List.forall_mem_cons, UInt8.toNat_ofNat']
    exact ⟨by omega, by omega, by omega, by omega, List.forall_mem_nil _⟩

theorem text_cellsOf (c : Char) : (cellsOf c).map (·.char) = (String.utf8EncodeChar c).map shown := by
  unfold cellsOf
  split_ifs with h
  · exact (map_shown_of_lt h).symm
  · have hforeign : ∀ b ∈ String.utf8EncodeChar c, shown b = foreign := fun b hb =>
      if_neg (Nat.not_lt.2 (le_toNat_utf8EncodeChar h b hb))
    rw [List.map_replicate, List.map_congr_left hforeign, List.map_const', String.length_utf8EncodeChar]

theorem utf8Size_of_isAscii {c : Char} (h : IsAscii c) : c.utf8Size = 1 := by
  have hlen := congrArg List.length (map_shown_of_lt h)
  rwa [List.length_map, String.length_utf8EncodeChar] at hlen

/-! ## The whole source -/

/-- The working text shows the bytes of the source. -/
theorem text_ofSource (source : List Char) :
    (ofSource source : WorkingCopy α).text = (utf8 source).map shown := by
  unfold text ofSource utf8
  rw [List.map_flatMap, List.map_flatMap]
  exact List.flatMap_congr fun c _ => text_cellsOf c

theorem size_ofSource (source : List Char) : (ofSource source : WorkingCopy α).size = (utf8 source).length := by
  have h := congrArg List.length (text_ofSource (α := α) source)
  rwa [text, List.length_map, List.length_map] at h

theorem ascii_ofSource (source : List Char) : ∀ c ∈ (ofSource source : WorkingCopy α).text, IsAscii c := by
  rw [text_ofSource]
  intro c hc
  obtain ⟨b, -, rfl⟩ := List.mem_map.1 hc
  exact isAscii_shown b

/-- A newline of the source is one of the working text. -/
theorem newline_ofSource {source : List Char} {p : Nat} (hp : (utf8 source)[p]? = some 10) :
    (ofSource source : WorkingCopy α).text[p]? = some '\n' := by
  rw [text_ofSource, List.getElem?_map, hp]
  rfl

theorem cells_ofSource_append (u v : List Char) :
    (ofSource (u ++ v) : WorkingCopy α).cells = (ofSource u : WorkingCopy α).cells ++ (ofSource v : WorkingCopy α).cells :=
  List.flatMap_append

theorem text_ofSource_append (u v : List Char) :
    (ofSource (u ++ v) : WorkingCopy α).text = (ofSource u : WorkingCopy α).text ++ (ofSource v : WorkingCopy α).text := by
  rw [text, cells_ofSource_append, List.map_append]
  rfl

theorem text_ofSource_cons (c : Char) (u : List Char) : (ofSource (c :: u) : WorkingCopy α).text =
    (if IsAscii c then [c] else List.replicate c.utf8Size foreign) ++ (ofSource u : WorkingCopy α).text := by
  have hcells : (cellsOf c).map (·.char) = if IsAscii c then [c] else List.replicate c.utf8Size foreign := by
    unfold cellsOf
    split_ifs with h h' h'
    · rfl
    · exact absurd h h'
    · exact absurd h' h
    · rw [List.map_replicate]
  rw [← hcells, text, ofSource, List.flatMap_cons, List.map_append]
  rfl

/-- The working text starts with nothing of ASCII but what the source starts with. -/
theorem prefix_of_prefix_text {u v : List Char} (hv : foreign ∉ v) (h : v <+: (ofSource u : WorkingCopy α).text) : v <+: u := by
  induction v generalizing u with
  | nil => exact List.nil_prefix
  | cons a v ih =>
    obtain ⟨ha, hv⟩ := not_or.1 (List.mem_cons.not.1 hv)
    cases u with
    | nil => exact absurd (List.prefix_nil.1 h) (List.cons_ne_nil a v)
    | cons c u =>
      rw [text_ofSource_cons] at h
      split_ifs at h with hc
      · obtain ⟨rfl, hrest⟩ := List.cons_prefix_cons.1 h
        exact List.cons_prefix_cons.2 ⟨rfl, ih hv hrest⟩
      · obtain ⟨k, hk⟩ := Nat.exists_eq_succ_of_ne_zero (Nat.ne_of_gt c.utf8Size_pos)
        rw [hk, List.replicate_succ, List.cons_append] at h
        exact absurd (List.cons_prefix_cons.1 h).1.symm ha

/-- What the working text contains and is not a byte beyond ASCII, the source contains. -/
theorem infix_of_infix_text {u v : List Char} (hv : foreign ∉ v) (hne : v ≠ []) (h : v <:+: (ofSource u : WorkingCopy α).text) :
    v <:+: u := by
  have hskip : ∀ (k : Nat) (t : List Char), v <:+: List.replicate k foreign ++ t → v <:+: t := by
    intro k t h
    induction k with
    | zero => exact h
    | succ k ih =>
      rw [List.replicate_succ, List.cons_append] at h
      rcases List.infix_cons_iff.1 h with h | h
      · obtain ⟨a, v, rfl⟩ := List.exists_cons_of_ne_nil hne
        obtain ⟨rfl, -⟩ := List.cons_prefix_cons.1 h
        exact absurd List.mem_cons_self hv
      · exact ih h
  induction u with
  | nil => exact h
  | cons c u ih =>
    by_cases hc : IsAscii c
    · have hcons := text_ofSource_cons (α := α) c u
      rw [if_pos hc, List.singleton_append] at hcons
      rcases List.infix_cons_iff.1 (hcons ▸ h) with h | h
      · rw [← hcons] at h
        exact (prefix_of_prefix_text hv h).isInfix
      · exact List.infix_cons (ih h)
    · rw [text_ofSource_cons, if_neg hc] at h
      exact List.infix_cons (ih (hskip _ _ h))

theorem sound_ofSource (source : List Char) : (ofSource source : WorkingCopy α).Sound where
  bounds := List.forall_mem_nil _
  claimed := List.forall_mem_nil _
  apart := List.Pairwise.nil

end WorkingCopy
end SourceLikeness
