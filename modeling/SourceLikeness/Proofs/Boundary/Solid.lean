import SourceLikeness.Proofs.Pattern.SeamHits
import SourceLikeness.Proofs.WorkingCopy.Source

/-!
# Characters of the source in the working copy

A character beyond ASCII has several cells. As long as no operation starts or stops between two of them that are free,
they stay alike or are claimed together, so that a place between two free ones is a seam between two equal fills.

* `IsBoundary`, `exists_slice_utf8` : the offsets where a character starts, and the slices between them;
* `Knit source s` : the cells of one character are alike in a text, and hold one of the open fills; a place that is no seam
  of these is a boundary (`Knit.isBoundary`);
* `WorkingCopy.Solid source fills w` : they are alike and free, or claimed and hold some fills, and the tokens start and
  stop at boundaries;
* `Spared`, `Span.Spares` : places and spans that cut no free character;
* `Solid.overwrite`, `Solid.claim`, `Solid.take`, `Solid.mark` : operations that spare them keep all that;
* `Intact` : any number of such operations.
-/

namespace SourceLikeness
open Text (charBefore)

/-! ## Boundaries -/

/-- An offset in bytes where a character of the source starts, or where the source ends. -/
def IsBoundary (source : List Char) (p : Nat) : Prop := ∃ u v, source = u ++ v ∧ (utf8 u).length = p

section Boundary
variable {source u : List Char} {c : Char} {p q : Nat}

theorem isBoundary_iff : IsBoundary source p ↔ ∃ n ≤ source.length, (utf8 (source.take n)).length = p := by
  constructor
  · rintro ⟨u, v, rfl, rfl⟩
    exact ⟨u.length, by rw [List.length_append]; omega, by rw [List.take_left]⟩
  · rintro ⟨n, -, rfl⟩
    exact ⟨source.take n, source.drop n, (List.take_append_drop n source).symm, rfl⟩

instance (source : List Char) (p : Nat) : Decidable (IsBoundary source p) := decidable_of_iff' _ isBoundary_iff

theorem isBoundary_zero (source : List Char) : IsBoundary source 0 := ⟨[], source, rfl, rfl⟩

theorem isBoundary_length (source : List Char) : IsBoundary source (utf8 source).length := ⟨source, [], (List.append_nil _).symm, rfl⟩

theorem isBoundary_cons : IsBoundary (c :: u) p ↔ p = 0 ∨ ∃ q, IsBoundary u q ∧ p = c.utf8Size + q := by
  constructor
  · rintro ⟨a, b, hab, rfl⟩
    cases a with
    | nil => exact Or.inl rfl
    | cons d a =>
      obtain ⟨rfl, rfl⟩ := List.cons.inj hab
      exact Or.inr ⟨(utf8 a).length, ⟨a, b, rfl, rfl⟩, length_utf8_cons _ _⟩
  · rintro (rfl | ⟨_, ⟨a, b, rfl, rfl⟩, rfl⟩)
    · exact isBoundary_zero _
    · exact ⟨c :: a, b, rfl, length_utf8_cons _ _⟩

theorem pos_of_not_isBoundary (h : ¬ IsBoundary source p) : 0 < p :=
  Nat.pos_of_ne_zero fun hp => h (hp ▸ isBoundary_zero source)

/-- The bytes between two boundaries are those of some characters. -/
theorem exists_slice_utf8 (hp : IsBoundary source p) (hq : IsBoundary source q) (hle : p ≤ q) :
    ∃ m, Span.slice ⟨p, q⟩ (utf8 source) = utf8 m := by
  obtain ⟨u, v, rfl, rfl⟩ := hp
  obtain ⟨u', v', heq, rfl⟩ := hq
  have hmiddle : ∃ m, u' = u ++ m := by
    rcases List.append_eq_append_iff.1 heq with ⟨m, rfl, -⟩ | ⟨m, rfl, -⟩
    · exact ⟨m, rfl⟩
    · rw [length_utf8_append] at hle
      obtain rfl := length_utf8_eq_zero_iff.1 (show (utf8 m).length = 0 by omega)
      exact ⟨[], by rw [List.append_nil, List.append_nil]⟩
  obtain ⟨m, rfl⟩ := hmiddle
  refine ⟨m, ?_⟩
  have hbytes : utf8 (u ++ v) = utf8 u ++ (utf8 m ++ utf8 v') := by
    rw [heq, List.append_assoc, utf8, List.flatMap_append, List.flatMap_append, utf8, utf8, utf8]
  rw [Span.slice, hbytes, List.drop_left, length_utf8_append, Nat.add_sub_cancel_left, List.take_left]

end Boundary

/-- A span from one boundary to another. -/
structure Span.Aligned (source : List Char) (s : Span) : Prop where
  start : IsBoundary source s.start
  stop : IsBoundary source s.stop

/-! ## Texts with one character for each byte -/

/-- What the free cells of a character beyond ASCII may hold. -/
def openFills : List Char := [WorkingCopy.foreign, WorkingCopy.literal, WorkingCopy.blank, WorkingCopy.masked]

theorem newline_not_mem_openFills : '\n' ∉ openFills := by decide

/-- What the claimed cells of one may hold. -/
def closedFills : List Char := [WorkingCopy.masked, WorkingCopy.terminator, WorkingCopy.operator]

/-- In a text with one character for each byte of the source, the same open fill stands for all bytes of a character
beyond ASCII. -/
structure Knit (source s : List Char) : Prop where
  length_eq : s.length = (utf8 source).length
  char : ∀ p < s.length, ¬ IsBoundary source p → ∃ x ∈ openFills, charBefore s p = some x ∧ s[p]? = some x

namespace Knit
variable {source s : List Char} {p : Nat} {x : Char}

theorem isBoundary_length (h : Knit source s) : IsBoundary source s.length := by
  rw [h.length_eq]
  exact SourceLikeness.isBoundary_length source

/-- A place that is no seam of the open fills is a boundary. -/
theorem isBoundary (h : Knit source s) (hp : p ≤ s.length)
    (hseam : ∀ x ∈ openFills, (Seam.between x).seamAt s p = false) : IsBoundary source p := by
  by_contra hb
  have hne : p ≠ s.length := fun heq => hb (heq ▸ h.isBoundary_length)
  obtain ⟨x, hx, hbefore, hat⟩ := h.char p (by omega) hb
  have hs := (Seam.seamAt_between fun heq => newline_not_mem_openFills (heq ▸ hx)).2 ⟨hbefore, hat⟩
  rw [hseam x hx] at hs
  exact Bool.noConfusion hs

theorem aligned (h : Knit source s) {a : Nat} {q : Span} (hq : q.Within a s.length)
    (hclear : ∀ x ∈ openFills, (Seam.between x).Clear s q) : q.Aligned source where
  start := h.isBoundary (Nat.le_trans hq.start_le_stop hq.stop_le) fun x hx => (hclear x hx).start
  stop := h.isBoundary hq.stop_le fun x hx => (hclear x hx).stop

/-- Where the characters on both sides are not the same, there is a boundary. -/
theorem isBoundary_of_ne (h : Knit source s) (hp : p ≤ s.length) (hne : charBefore s p ≠ s[p]?) : IsBoundary source p := by
  by_contra hb
  have hlt : p ≠ s.length := fun heq => hb (heq ▸ h.isBoundary_length)
  obtain ⟨x, -, hbefore, hat⟩ := h.char p (by omega) hb
  exact hne (hbefore.trans hat.symm)

/-- A character that is no open fill starts at a boundary and stops at one. -/
theorem isBoundary_of_getElem? (h : Knit source s) (hx : s[p]? = some x) (hfill : x ∉ openFills) :
    IsBoundary source p ∧ IsBoundary source (p + 1) := by
  have hlt := (List.getElem?_eq_some_iff.1 hx).1
  constructor
  · by_contra hb
    obtain ⟨y, hy, -, hat⟩ := h.char p hlt hb
    rw [hx] at hat
    exact hfill (Option.some.inj hat ▸ hy)
  · by_contra hb
    have hne : p + 1 ≠ s.length := fun heq => hb (heq ▸ h.isBoundary_length)
    obtain ⟨y, hy, hbefore, -⟩ := h.char (p + 1) (by omega) hb
    rw [show charBefore s (p + 1) = s[p]? from rfl, hx] at hbefore
    exact hfill (Option.some.inj hbefore ▸ hy)

end Knit

namespace WorkingCopy
variable {α : Type} {w w' : WorkingCopy α} {source fills fills' : List Char} {s : Span} {p : Nat}

/-- Between two bytes of one character stand two cells for bytes beyond ASCII. -/
theorem cells_ofSource_of_not_isBoundary (hp : p < (utf8 source).length) (h : ¬ IsBoundary source p) :
    (ofSource source : WorkingCopy α).cells[p - 1]? = some ⟨foreign, false⟩ ∧
      (ofSource source : WorkingCopy α).cells[p]? = some ⟨foreign, false⟩ := by
  induction source generalizing p with
  | nil => exact absurd hp (Nat.not_lt_zero p)
  | cons c u ih =>
    rw [isBoundary_cons, not_or] at h
    obtain ⟨hne, hrest⟩ := h
    have hcells : (ofSource (c :: u) : WorkingCopy α).cells = cellsOf c ++ (ofSource u : WorkingCopy α).cells :=
      List.flatMap_cons
    have hlength : (cellsOf c).length = c.utf8Size := by
      unfold cellsOf
      split_ifs with hc
      · exact (utf8Size_of_isAscii hc).symm
      · exact List.length_replicate
    rw [hcells]
    rcases Nat.lt_or_ge p c.utf8Size with hlt | hge
    · have hbeyond : ¬ c.toNat < 128 := fun hc => by
        have := utf8Size_of_isAscii hc
        omega
      rw [List.getElem?_append_left (by omega), List.getElem?_append_left (by omega), cellsOf, if_neg hbeyond,
        List.getElem?_replicate, List.getElem?_replicate, if_pos (by omega), if_pos hlt]
      exact ⟨rfl, rfl⟩
    · rw [length_utf8_cons] at hp
      have hinner : ¬ IsBoundary u (p - c.utf8Size) := fun hb => hrest ⟨p - c.utf8Size, hb, by omega⟩
      have hpos := pos_of_not_isBoundary hinner
      rw [List.getElem?_append_right (by omega), List.getElem?_append_right (by omega), hlength,
        show p - 1 - c.utf8Size = p - c.utf8Size - 1 by omega]
      exact ih (by omega) hinner

/-! ## Cells that stay together -/

/-- Two cells of one character: they are alike and free, with one of the open fills, or both claimed, with some fills. -/
def Joined (fills : List Char) (c d : Cell) : Prop :=
  c = d ∧ c.claimed = false ∧ c.char ∈ openFills ∨
    (c.claimed = true ∧ c.char ∈ fills) ∧ d.claimed = true ∧ d.char ∈ fills

theorem Joined.mono {c d : Cell} (h : Joined fills c d) (hsub : fills ⊆ fills') : Joined fills' c d :=
  h.imp_right fun ⟨hc, hd⟩ => ⟨⟨hc.1, hsub hc.2⟩, hd.1, hsub hd.2⟩

/-- The cells of one character stay together, and the tokens start and stop at boundaries. -/
structure Solid (source fills : List Char) (w : WorkingCopy α) : Prop where
  size_eq : w.size = (utf8 source).length
  cell : ∀ p < w.size, ¬ IsBoundary source p →
    ∃ c d : Cell, w.cells[p - 1]? = some c ∧ w.cells[p]? = some d ∧ Joined fills c d
  tokens : ∀ t ∈ w.tokens, t.span.Aligned source

/-- A place where no free character is cut. -/
def Spared (source : List Char) (w : WorkingCopy α) (p : Nat) : Prop :=
  IsBoundary source p ∨ ∃ c : Cell, w.cells[p]? = some c ∧ c.claimed = true

theorem Spared.grows (h : Spared source w p) (hg : w.Grows w') : Spared source w' p :=
  h.imp_right fun ⟨c, hc, hclaimed⟩ =>
    let ⟨c', hc', hcell⟩ := hg.cell p c hc
    ⟨c', hc', hcell.claimed hclaimed⟩

end WorkingCopy

/-- A span that cuts no free character. -/
structure Span.Spares {α : Type} (source : List Char) (w : WorkingCopy α) (s : Span) : Prop where
  start : WorkingCopy.Spared source w s.start
  stop : WorkingCopy.Spared source w s.stop

theorem Span.Spares.grows {α : Type} {source : List Char} {w w' : WorkingCopy α} {s : Span} (h : s.Spares source w) (hg : w.Grows w') :
    s.Spares source w' := ⟨h.start.grows hg, h.stop.grows hg⟩

theorem Span.Aligned.spares {α : Type} {source : List Char} {s : Span} (h : s.Aligned source) (w : WorkingCopy α) :
    s.Spares source w := ⟨Or.inl h.start, Or.inl h.stop⟩

namespace WorkingCopy
variable {α : Type} {w w' : WorkingCopy α} {source fills fills' : List Char} {s : Span} {p : Nat} {x fill : Char}

namespace Solid

theorem ofSource (source : List Char) : Solid source [] (ofSource source : WorkingCopy α) where
  size_eq := size_ofSource source
  cell p hp hb := by
    rw [size_ofSource] at hp
    obtain ⟨hbefore, hat⟩ := cells_ofSource_of_not_isBoundary hp hb
    exact ⟨_, _, hbefore, hat, Or.inl ⟨rfl, rfl, List.mem_cons_self⟩⟩
  tokens := List.forall_mem_nil _

theorem mono (h : w.Solid source fills) (hsub : fills ⊆ fills') : w.Solid source fills' where
  size_eq := h.size_eq
  cell p hp hb := by
    obtain ⟨c, d, hbefore, hat, hjoined⟩ := h.cell p hp hb
    exact ⟨c, d, hbefore, hat, hjoined.mono hsub⟩
  tokens := h.tokens

/-! ## Finding boundaries -/

theorem isBoundary_size (h : w.Solid source fills) : IsBoundary source w.size := by
  rw [h.size_eq]
  exact isBoundary_length source

theorem lt_size (h : w.Solid source fills) (hp : p ≤ w.size) (hb : ¬ IsBoundary source p) : p < w.size :=
  Nat.lt_of_le_of_ne hp fun heq => hb (heq ▸ h.isBoundary_size)

theorem text_sub_one (hp : 0 < p) {c : Cell} (hc : w.cells[p - 1]? = some c) : charBefore w.text p = some c.char := by
  obtain ⟨n, rfl⟩ := Nat.exists_eq_succ_of_ne_zero (Nat.ne_of_gt hp)
  change w.text[n]? = some c.char
  rw [text, List.getElem?_map]
  exact congrArg (Option.map (·.char)) hc

theorem text_of_cell {c : Cell} (hc : w.cells[p]? = some c) : w.text[p]? = some c.char := by
  rw [text, List.getElem?_map, hc, Option.map_some]

/-- There is a seam between two cells that are alike. -/
theorem seamAt_of_cells {c : Cell} (hp : 0 < p) (hbefore : w.cells[p - 1]? = some c) (hat : w.cells[p]? = some c)
    (hopen : c.char ∈ openFills) : (Seam.between c.char).seamAt w.text p = true :=
  (Seam.seamAt_between fun heq => newline_not_mem_openFills (heq ▸ hopen)).2 ⟨text_sub_one hp hbefore, text_of_cell hat⟩

/-- As long as only one of the open fills is claimed, the text is knit. -/
theorem knit (h : w.Solid source fills) (hfills : ∀ x ∈ fills, x = masked) : Knit source w.text where
  length_eq := by rw [← size_eq_length_text, h.size_eq]
  char p hp hb := by
    rw [← size_eq_length_text] at hp
    obtain ⟨c, d, hbefore, hat, hjoined⟩ := h.cell p hp hb
    have hbefore' := text_sub_one (pos_of_not_isBoundary hb) hbefore
    have hat' := text_of_cell hat
    rcases hjoined with ⟨rfl, -, hopen⟩ | ⟨⟨-, hc⟩, -, hd⟩
    · exact ⟨c.char, hopen, hbefore', hat'⟩
    · rw [hfills _ hc] at hbefore'
      rw [hfills _ hd] at hat'
      exact ⟨masked, by decide, hbefore', hat'⟩

/-- A place that is no seam of the open fills cuts no free character. -/
theorem spared (h : w.Solid source fills) (hp : p ≤ w.size)
    (hseam : ∀ x ∈ openFills, (Seam.between x).seamAt w.text p = false) : Spared source w p := by
  by_cases hb : IsBoundary source p
  · exact Or.inl hb
  · obtain ⟨c, d, hbefore, hat, hjoined⟩ := h.cell p (h.lt_size hp hb) hb
    rcases hjoined with ⟨rfl, -, hopen⟩ | ⟨-, hclaimed, -⟩
    · have hs := seamAt_of_cells (pos_of_not_isBoundary hb) hbefore hat hopen
      rw [hseam _ hopen] at hs
      exact Bool.noConfusion hs
    · exact Or.inr ⟨d, hat, hclaimed⟩

theorem spares (h : w.Solid source fills) (hs : s.Within 0 w.size)
    (hclear : ∀ x ∈ openFills, (Seam.between x).Clear w.text s) : s.Spares source w where
  start := h.spared (Nat.le_trans hs.start_le_stop hs.stop_le) fun x hx => (hclear x hx).start
  stop := h.spared hs.stop_le fun x hx => (hclear x hx).stop

/-- A character that is no fill starts at a boundary and stops at one. -/
theorem isBoundary_of_getElem? (h : w.Solid source fills) (hx : w.text[p]? = some x) (hopen : x ∉ openFills)
    (hfill : x ∉ fills) : IsBoundary source p ∧ IsBoundary source (p + 1) := by
  have hlt : p < w.size := by
    rw [size_eq_length_text]
    exact (List.getElem?_eq_some_iff.1 hx).1
  obtain ⟨c, hc, rfl⟩ := Option.map_eq_some_iff.1 ((List.getElem?_map ..).symm.trans hx)
  constructor
  · by_contra hb
    obtain ⟨b, d, -, hat, hjoined⟩ := h.cell p hlt hb
    obtain rfl := Option.some.inj (hat.symm.trans hc)
    rcases hjoined with ⟨rfl, -, hmem⟩ | ⟨-, -, hmem⟩
    · exact hopen hmem
    · exact hfill hmem
  · by_contra hb
    obtain ⟨b, d, hbefore, -, hjoined⟩ := h.cell (p + 1) (h.lt_size hlt hb) hb
    obtain rfl := Option.some.inj (hbefore.symm.trans hc)
    rcases hjoined with ⟨-, -, hmem⟩ | ⟨⟨-, hmem⟩, -⟩
    · exact hopen hmem
    · exact hfill hmem

/-- A span that is free, not empty and spares the free characters is aligned. -/
theorem aligned (h : w.Solid source fills) (hs : s.Spares source w) (hlt : s.start < s.stop) (hadmits : w.admits s = true) :
    s.Aligned source := by
  obtain ⟨-, hstop, hfree⟩ := admits_iff.1 hadmits
  have hnot : ∀ {p : Nat} {c : Cell}, s.start ≤ p → p < s.stop → w.cells[p]? = some c → c.claimed = true → False :=
    fun hle hlt hc hclaimed => by
      rw [hfree _ _ hle hlt hc] at hclaimed
      exact Bool.noConfusion hclaimed
  constructor
  · rcases hs.start with hb | ⟨c, hc, hclaimed⟩
    · exact hb
    · exact (hnot (Nat.le_refl _) hlt hc hclaimed).elim
  · rcases hs.stop with hb | ⟨c, hc, hclaimed⟩
    · exact hb
    · -- The cell before the stop would be claimed too.
      by_contra hb
      obtain ⟨b, d, hbefore, hat, hjoined⟩ := h.cell _ (h.lt_size hstop hb) hb
      obtain rfl := Option.some.inj (hat.symm.trans hc)
      rcases hjoined with ⟨rfl, hopen, -⟩ | ⟨⟨hclaimed', -⟩, -⟩
      · rw [hopen] at hclaimed
        exact Bool.noConfusion hclaimed
      · exact hnot (by omega) (by omega) hbefore hclaimed'

/-! ## Operations that spare the characters -/

/-- Cells of a span go through a function that keeps claimed ones claimed and free ones of one character alike. -/
theorem mapSpan (h : w.Solid source fills) (hs : s.Spares source w) {f : Cell → Cell}
    (hclaimed : ∀ c : Cell, c.claimed = true → c.char ∈ fills → (f c).claimed = true ∧ (f c).char ∈ fills)
    (hjoined : ∀ c d, Joined fills c d → Joined fills (f c) (f d)) :
    Solid source fills { w with cells := WorkingCopy.mapSpan f (s.clamp w.size) w.cells } where
  size_eq := (length_mapSpan _ _ _).trans h.size_eq
  cell p hp hb := by
    have hp' : p < w.size := Nat.lt_of_lt_of_eq hp (length_mapSpan _ _ _)
    obtain ⟨c, d, hbefore, hat, hcd⟩ := h.cell p hp' hb
    -- Where the span starts or stops at this place, both cells are claimed.
    have hcut : Spared source w p → (c.claimed = true ∧ c.char ∈ fills) ∧ d.claimed = true ∧ d.char ∈ fills := by
      rintro (hb' | ⟨e, he, heclaimed⟩)
      · exact absurd hb' hb
      · obtain rfl := Option.some.inj (hat.symm.trans he)
        rcases hcd with ⟨rfl, hfree, -⟩ | hboth
        · rw [hfree] at heclaimed
          exact Bool.noConfusion heclaimed
        · exact hboth
    have hpos := pos_of_not_isBoundary hb
    dsimp only
    rw [size, getElem?_mapSpan_clamp, getElem?_mapSpan_clamp, hbefore, hat]
    by_cases hin : s.start ≤ p - 1 ∧ p - 1 < s.stop
    · by_cases hin' : s.start ≤ p ∧ p < s.stop
      · rw [if_pos hin, if_pos hin']
        exact ⟨f c, f d, rfl, rfl, hjoined c d hcd⟩
      · obtain ⟨hc, hd⟩ := hcut ((show p = s.stop by omega) ▸ hs.stop)
        rw [if_pos hin, if_neg hin']
        exact ⟨f c, d, rfl, rfl, Or.inr ⟨hclaimed c hc.1 hc.2, hd⟩⟩
    · by_cases hin' : s.start ≤ p ∧ p < s.stop
      · obtain ⟨hc, hd⟩ := hcut ((show p = s.start by omega) ▸ hs.start)
        rw [if_neg hin, if_pos hin']
        exact ⟨c, f d, rfl, rfl, Or.inr ⟨hc, hclaimed d hd.1 hd.2⟩⟩
      · rw [if_neg hin, if_neg hin']
        exact ⟨c, d, rfl, rfl, hcd⟩
  tokens := h.tokens

theorem char_fill_mem {l : List Char} (hfill : fill ∈ l) {c : Cell} (hc : c.char ∈ l) : (c.fill fill).char ∈ l := by
  unfold Cell.fill
  split_ifs
  · exact hc
  · exact hfill

theorem claimed_fill (fill : Char) (c : Cell) : (c.fill fill).claimed = c.claimed := by
  unfold Cell.fill
  split_ifs <;> rfl

/-- A span may be overwritten with an open fill, if what is claimed may hold that too or nothing is claimed at all. -/
theorem overwrite (h : w.Solid source fills) (hs : s.Spares source w) (hopen : fill ∈ openFills)
    (hfill : fill ∈ fills ∨ fills = []) : (w.overwrite s fill).Solid source fills := by
  have hclaimed : ∀ c : Cell, c.claimed = true → c.char ∈ fills →
      (c.fill fill).claimed = true ∧ (c.fill fill).char ∈ fills := by
    intro c hc hchar
    rw [claimed_fill]
    refine ⟨hc, hfill.elim (char_fill_mem · hchar) fun hnil => ?_⟩
    rw [hnil] at hchar
    exact absurd hchar List.not_mem_nil
  refine h.mapSpan hs hclaimed fun c d hcd => ?_
  rcases hcd with ⟨rfl, hfree, hchar⟩ | ⟨hc, hd⟩
  · exact Or.inl ⟨rfl, (claimed_fill fill c).trans hfree, char_fill_mem hopen hchar⟩
  · exact Or.inr ⟨hclaimed c hc.1 hc.2, hclaimed d hd.1 hd.2⟩

theorem claim (h : w.Solid source fills) (hs : s.Spares source w) (hfill : fill ∈ fills) :
    (w.claim s fill).Solid source fills := by
  have hclaimed : ∀ c : Cell, c.char ∈ fills → (c.claim fill).claimed = true ∧ (c.claim fill).char ∈ fills :=
    fun c hchar => ⟨rfl, char_fill_mem hfill hchar⟩
  have hopen : ∀ c : Cell, c.char ∈ openFills → (c.claim fill).claimed = true ∧ (c.claim fill).char ∈ fills := by
    intro c hchar
    have hnewline : c.char ≠ '\n' := fun heq => newline_not_mem_openFills (heq ▸ hchar)
    refine ⟨rfl, ?_⟩
    change (c.fill fill).char ∈ fills
    rw [Cell.fill, if_neg hnewline]
    exact hfill
  refine h.mapSpan hs (fun c _ => hclaimed c) fun c d hcd => ?_
  rcases hcd with ⟨rfl, -, hchar⟩ | ⟨hc, hd⟩
  · exact Or.inr ⟨hopen c hchar, hopen c hchar⟩
  · exact Or.inr ⟨hclaimed c hc.2, hclaimed d hd.2⟩

/-- A single cell may be claimed with any fill: a character beyond ASCII has more than one. -/
theorem claim_one (h : w.Solid source fills) (hs : IsBoundary source p ∧ IsBoundary source (p + 1)) (fill : Char) :
    (w.claim ⟨p, p + 1⟩ fill).Solid source fills where
  size_eq := (length_mapSpan _ _ _).trans h.size_eq
  cell q hq hb := by
    have hq' : q < w.size := Nat.lt_of_lt_of_eq hq (length_mapSpan _ _ _)
    have hstart : q ≠ p := fun heq => hb (heq ▸ hs.1)
    have hstop : q ≠ p + 1 := fun heq => hb (heq ▸ hs.2)
    have hpos := pos_of_not_isBoundary hb
    unfold WorkingCopy.claim
    dsimp only
    rw [size, getElem?_mapSpan_clamp, getElem?_mapSpan_clamp, if_neg (by dsimp only; omega), if_neg (by dsimp only; omega)]
    exact h.cell q hq' hb
  tokens := h.tokens

theorem emit (h : w.Solid source fills) (hs : s.Aligned source) (symbol : α) : (w.emit symbol s).Solid source fills := by
  unfold WorkingCopy.emit
  split_ifs
  · exact ⟨h.size_eq, h.cell, List.forall_mem_append.2 ⟨h.tokens, List.forall_mem_singleton.2 hs⟩⟩
  · exact h

theorem mark (h : w.Solid source fills) (hp : IsBoundary source p) (symbol : α) : (w.mark symbol p).Solid source fills :=
  h.emit ⟨hp, hp⟩ symbol

theorem take (h : w.Solid source fills) (hs : s.Spares source w) (hlt : s.start < s.stop) (symbol : α)
    (hfill : fill ∈ fills) : (w.take symbol s fill).Solid source fills := by
  unfold WorkingCopy.take
  split_ifs with hadmits
  · have haligned := h.aligned hs hlt hadmits
    exact (h.emit haligned symbol).claim (haligned.spares _) hfill
  · exact h

end Solid

/-! ## Sequences of operations -/

/-- One working copy grew out of another and is solid. What spares the free characters of the one spares those of the
other. -/
structure Intact (source fills : List Char) (w v : WorkingCopy α) : Prop where
  grows : w.Grows v
  solid : v.Solid source fills

namespace Intact
variable {v : WorkingCopy α}

theorem refl (h : w.Solid source fills) : Intact source fills w w := ⟨.refl w, h⟩

theorem trans {u : WorkingCopy α} (h : Intact source fills w v) (h' : Intact source fills' v u) : Intact source fills' w u :=
  ⟨h.grows.trans h'.grows, h'.solid⟩

theorem overwrite (h : Intact source fills w v) (hs : s.Spares source w) (hopen : fill ∈ openFills)
    (hfill : fill ∈ fills ∨ fills = []) (hascii : IsAscii fill) : Intact source fills w (v.overwrite s fill) :=
  ⟨h.grows.trans (grows_overwrite v s hascii), h.solid.overwrite (hs.grows h.grows) hopen hfill⟩

theorem claim (h : Intact source fills w v) (hs : s.Spares source w) (hfill : fill ∈ fills) (hascii : IsAscii fill) :
    Intact source fills w (v.claim s fill) :=
  ⟨h.grows.trans (grows_claim v s hascii), h.solid.claim (hs.grows h.grows) hfill⟩

theorem claim_one (h : Intact source fills w v) (hp : IsBoundary source p ∧ IsBoundary source (p + 1)) (hascii : IsAscii fill) :
    Intact source fills w (v.claim ⟨p, p + 1⟩ fill) :=
  ⟨h.grows.trans (grows_claim v _ hascii), h.solid.claim_one hp fill⟩

theorem take (h : Intact source fills w v) (hs : s.Spares source w) (hlt : s.start < s.stop) (symbol : α)
    (hfill : fill ∈ fills) (hascii : IsAscii fill) : Intact source fills w (v.take symbol s fill) :=
  ⟨h.grows.trans (grows_take v symbol s hascii), h.solid.take (hs.grows h.grows) hlt symbol hfill⟩

theorem mark (h : Intact source fills w v) (hp : IsBoundary source p) (symbol : α) : Intact source fills w (v.mark symbol p) :=
  ⟨h.grows.trans (grows_emit v symbol _), h.solid.mark hp symbol⟩

theorem foldl {β : Type} {f : WorkingCopy α → β → WorkingCopy α} {xs : List β} (h : Intact source fills w v)
    (hf : ∀ x ∈ xs, ∀ u : WorkingCopy α, Intact source fills w u → Intact source fills w (f u x)) :
    Intact source fills w (xs.foldl f v) := by
  induction xs generalizing v with
  | nil => exact h
  | cons x xs ih => exact ih (hf x List.mem_cons_self v h) fun y hy => hf y (List.mem_cons_of_mem x hy)

end Intact
end WorkingCopy
end SourceLikeness
