import SourceLikeness.Proofs.Text.Twin

/-!
# Working copies of two texts

Two working copies are twins if a lexicon does not tell their texts apart, the same cells are claimed, and the
same tokens are recorded.

* `WorkingCopy.Twin`, `WorkingCopy.Step` : twins, and twins with no word character that some text had not;
* `Text.Margin x s p` : a span of `s` that can be written over without leaving a part of a word of the lexicon;
* `Step.claim`, `Step.overwrite`, `Step.take`, `Step.mark`, `Step.foldl` : the operations make twins of twins, and
  so does any number of them, if the spans have margins in the text that they start from;
* `Twin.foldl_ones` : so does writing over spans with the digit that stands for literals.
-/

namespace SourceLikeness
open Text (isAsciiWord inside wordAt wordBefore LooseAt Lexicon Filled inked)

namespace Text
variable {s t u : List Char} {x : Lexicon} {i : Nat}

/-- A text is as long as another one and has word characters only where that one has them. -/
structure Fewer (s t : List Char) : Prop where
  length : t.length = s.length
  word : ∀ i, wordAt t i = true → wordAt s i = true

namespace Fewer

theorem refl (s : List Char) : Fewer s s := ⟨rfl, fun _ h => h⟩

theorem trans (h : Fewer s t) (h' : Fewer t u) : Fewer s u :=
  ⟨h'.length.trans h.length, fun i hi => h.word i (h'.word i hi)⟩

theorem wordAt_eq_false (h : Fewer s t) (hi : wordAt s i = false) : wordAt t i = false := by
  rw [← Bool.not_eq_true] at *
  exact fun ht => hi (h.word i ht)

theorem wordBefore_eq_false (h : Fewer s t) (hi : wordBefore s i = false) : wordBefore t i = false := by
  cases i with
  | zero => rfl
  | succ i => exact h.wordAt_eq_false hi

theorem inside_eq_false (h : Fewer s t) (hi : inside s i = false) : inside t i = false := by
  rw [inside_eq_false_iff] at *
  exact hi.imp h.wordBefore_eq_false h.wordAt_eq_false

theorem looseAt (h : Fewer s t) (hi : LooseAt s i) : LooseAt t i :=
  hi.imp h.inside_eq_false fun hi j hj => h.wordAt_eq_false (hi j hj)

theorem edged {p : Span} (h : Fewer s t) (hp : Edged s p) : Edged t p :=
  ⟨h.inside_eq_false hp.start, h.inside_eq_false hp.stop, h.length ▸ hp.start_le, h.length ▸ hp.stop_le⟩

end Fewer

theorem Filled.fewer {g : Char → Char} {a b : Nat} (hg : ∀ c, isAsciiWord (g c) = false) (h : Filled g a b s t) :
    Fewer s t := by
  refine ⟨h.length_eq, fun i hi => ?_⟩
  rw [← h.wordAt_of_not (h.not_mem_of_wordAt hg hi)]
  exact hi

/-- A span that can be written over: the lexicon has nothing to lose, or no part of a word is left that is longer
than one character. -/
def Margin (x : Lexicon) (s : List Char) (p : Span) : Prop :=
  x = .plain ∨ LooseAt s p.start ∧ inside s p.stop = false

theorem Edged.margin {p : Span} (h : Edged s p) : Margin x s p := Or.inr ⟨Or.inl h.start, h.stop⟩

theorem Fewer.margin {p : Span} (h : Fewer s t) (hp : Margin x s p) : Margin x t p :=
  hp.imp_right fun hp => ⟨h.looseAt hp.1, h.inside_eq_false hp.2⟩

/-- A character that a pass may fill with. -/
structure IsBlot (x : Lexicon) (fill : Char) : Prop where
  ascii : IsAscii fill
  notWord : isAsciiWord fill = false
  notMem : fill ∉ x.absent

/-- Whether a character is one that a pass may fill with. -/
def blots (x : Lexicon) (fill : Char) : Bool := decide (IsAscii fill) && !isAsciiWord fill && !x.absent.contains fill

theorem isBlot_of_blots {fill : Char} (h : blots x fill = true) : IsBlot x fill := by
  simp only [blots, Bool.and_eq_true, decide_eq_true_eq, Bool.not_eq_true'] at h
  obtain ⟨⟨hascii, hword⟩, habsent⟩ := h
  refine ⟨hascii, hword, fun hmem => ?_⟩
  rw [List.contains_iff_mem.2 hmem] at habsent
  exact Bool.noConfusion habsent

/-- Writing over a span of both texts that has margins. -/
theorem Twin.blot {s' t' : List Char} {fill : Char} {p : Span} (hx : x.WellFormed) (h : Twin x s t)
    (hfill : IsBlot x fill) (hp : Margin x s p) (hs : Filled (inked fill) p.start p.stop s s')
    (ht : Filled (inked fill) p.start p.stop t t') : Twin x s' t' := by
  rcases hp with rfl | ⟨ha, hb⟩
  · exact (h.toAlike.fill (isFill_inked hfill.ascii) hs ht).twin
  · exact h.fill hx (isFill_inked hfill.ascii) (isAsciiWord_inked hfill.notWord) (fun c hc => inked_notMem hfill.notMem hc)
      ha hb hs ht

end Text

namespace WorkingCopy
open Text (Fewer Margin IsBlot)
variable {α β : Type} {x : Lexicon} {s : List Char} {w w' : WorkingCopy α} {p : Span} {fill : Char}

/-! ## The text and the claims after an operation -/

theorem filled_mapSpan {f : Cell → Cell} (hf : ∀ c : Cell, (f c).char = inked fill c.char) (w : WorkingCopy α)
    (p : Span) : Filled (inked fill) p.start p.stop w.text (mapSpan f (p.clamp w.size) w.cells |>.map (·.char)) := by
  intro i
  rw [text, List.getElem?_map, List.getElem?_map, size, getElem?_mapSpan_clamp]
  split_ifs
  · rw [Option.map_map, Option.map_map]
    exact congrArg (Option.map · _) (funext hf)
  · rfl

theorem char_fill (fill : Char) (c : Cell) : (c.fill fill).char = inked fill c.char := by
  unfold Cell.fill inked
  split_ifs <;> rfl

theorem filled_overwrite (w : WorkingCopy α) (p : Span) (fill : Char) :
    Filled (inked fill) p.start p.stop w.text (w.overwrite p fill).text := filled_mapSpan (char_fill fill) w p

theorem filled_claim (w : WorkingCopy α) (p : Span) (fill : Char) :
    Filled (inked fill) p.start p.stop w.text (w.claim p fill).text :=
  filled_mapSpan (f := Cell.claim fill) (char_fill fill) w p

/-- Which cells are claimed. -/
def claims (w : WorkingCopy α) : List Bool := w.cells.map (·.claimed)

theorem size_eq_length_claims (w : WorkingCopy α) : w.size = w.claims.length := by rw [size, claims, List.length_map]

theorem claims_overwrite (w : WorkingCopy α) (p : Span) (fill : Char) : (w.overwrite p fill).claims = w.claims := by
  have hfill : ∀ c : Cell, (c.fill fill).claimed = c.claimed := by
    intro c
    unfold Cell.fill
    split_ifs <;> rfl
  refine List.ext_getElem? fun i => ?_
  rw [claims, claims, List.getElem?_map, List.getElem?_map, overwrite, size, getElem?_mapSpan_clamp]
  split_ifs
  · rw [Option.map_map]
    exact congrArg (Option.map · _) (funext hfill)
  · rfl

theorem getElem?_claims_claim (w : WorkingCopy α) (p : Span) (fill : Char) (i : Nat) :
    (w.claim p fill).claims[i]? =
      if p.start ≤ i ∧ i < p.stop then w.claims[i]?.map fun _ => true else w.claims[i]? := by
  rw [claims, claims, List.getElem?_map, List.getElem?_map, claim, size, getElem?_mapSpan_clamp]
  split_ifs
  · rw [Option.map_map, Option.map_map]
    rfl
  · rfl

theorem isClaimed_eq (h : w.claims = w'.claims) (p : Span) : w.isClaimed p = w'.isClaimed p := by
  have hsize : w.size = w'.size := by rw [size_eq_length_claims, size_eq_length_claims, h]
  have hany : ∀ v : WorkingCopy α, (p.slice v.cells).any (·.claimed) = (p.slice v.claims).any id := by
    intro v
    rw [Span.slice, Span.slice, claims, ← List.map_drop, ← List.map_take, List.any_map]
    rfl
  rw [isClaimed, isClaimed, hsize, hany, hany, h]

/-! ## Working copies of two texts -/

/-- Working copies of two texts that a lexicon does not tell apart, with the same claims and tokens. -/
structure Twin (x : Lexicon) (w w' : WorkingCopy α) : Prop where
  text : Text.Twin x w.text w'.text
  claims : w.claims = w'.claims
  tokens : w.tokens = w'.tokens

namespace Twin

theorem size_eq (h : Twin x w w') : w.size = w'.size := by
  rw [size_eq_length_claims, size_eq_length_claims, h.claims]

theorem isClaimed_eq (h : Twin x w w') (p : Span) : w.isClaimed p = w'.isClaimed p :=
  WorkingCopy.isClaimed_eq h.claims p

theorem admits_eq (h : Twin x w w') (p : Span) : w.admits p = w'.admits p := by
  rw [admits, admits, h.size_eq, h.isClaimed_eq]

theorem overwrite (h : Twin x w w') (htext : Text.Twin x (w.overwrite p fill).text (w'.overwrite p fill).text) :
    Twin x (w.overwrite p fill) (w'.overwrite p fill) where
  text := htext
  claims := by rw [claims_overwrite, claims_overwrite, h.claims]
  tokens := h.tokens

/-- Writing over a span with the digit of literals, up to an edge. -/
theorem overwrite_one (hx : x.WellFormed) (h : Twin x w w') (hp : p.start < p.stop → inside w.text p.stop = false) :
    Twin x (w.overwrite p '1') (w'.overwrite p '1') := by
  refine h.overwrite ?_
  have hs := filled_overwrite w p '1'
  have ht := filled_overwrite w' p '1'
  rcases Nat.lt_or_ge p.start p.stop with hlt | hge
  · exact h.text.fill_ones hx (hp hlt) hs ht
  · rw [hs.eq_of_le hge, ht.eq_of_le hge]
    exact h.text

end Twin

/-- Such working copies, the first of which has word characters only where the text `s` has them. -/
structure Step (x : Lexicon) (s : List Char) (w w' : WorkingCopy α) : Prop extends Twin x w w' where
  fewer : Fewer s w.text

theorem Twin.step (h : Twin x w w') : Step x w.text w w' := ⟨h, .refl _⟩

namespace Step

theorem rebase {t : List Char} (h : Step x t w w') (hst : Fewer s t) : Step x s w w' := ⟨h.toTwin, hst.trans h.fewer⟩

theorem emit (h : Step x s w w') (symbol : α) (p : Span) : Step x s (w.emit symbol p) (w'.emit symbol p) := by
  unfold WorkingCopy.emit
  rw [← h.admits_eq]
  split_ifs
  · exact ⟨⟨h.text, h.claims, congrArg (· ++ _) h.tokens⟩, h.fewer⟩
  · exact h

theorem mark (h : Step x s w w') (symbol : α) (place : Nat) : Step x s (w.mark symbol place) (w'.mark symbol place) :=
  h.emit symbol ⟨place, place⟩

theorem overwrite (hx : x.WellFormed) (h : Step x s w w') (hfill : IsBlot x fill) (hp : Margin x s p) :
    Step x s (w.overwrite p fill) (w'.overwrite p fill) where
  toTwin := h.toTwin.overwrite
    (h.text.blot hx hfill (h.fewer.margin hp) (filled_overwrite w p fill) (filled_overwrite w' p fill))
  fewer := h.fewer.trans ((filled_overwrite w p fill).fewer (Text.isAsciiWord_inked hfill.notWord))

theorem claim (hx : x.WellFormed) (h : Step x s w w') (hfill : IsBlot x fill) (hp : Margin x s p) :
    Step x s (w.claim p fill) (w'.claim p fill) where
  text := h.text.blot hx hfill (h.fewer.margin hp) (filled_claim w p fill) (filled_claim w' p fill)
  claims := List.ext_getElem? fun i => by rw [getElem?_claims_claim, getElem?_claims_claim, h.claims]
  tokens := h.tokens
  fewer := h.fewer.trans ((filled_claim w p fill).fewer (Text.isAsciiWord_inked hfill.notWord))

theorem take (hx : x.WellFormed) (h : Step x s w w') (hfill : IsBlot x fill) (hp : Margin x s p) (symbol : α) :
    Step x s (w.take symbol p fill) (w'.take symbol p fill) := by
  unfold WorkingCopy.take
  rw [← h.admits_eq]
  split_ifs
  · exact (h.emit symbol p).claim hx hfill hp
  · exact h

/-- A fold whose steps keep the step keeps it. -/
theorem foldl {f : WorkingCopy α → β → WorkingCopy α} {xs : List β}
    (hf : ∀ b ∈ xs, ∀ v v' : WorkingCopy α, Step x s v v' → Step x s (f v b) (f v' b)) (h : Step x s w w') :
    Step x s (xs.foldl f w) (xs.foldl f w') := by
  induction xs generalizing w w' with
  | nil => exact h
  | cons b xs ih =>
    exact ih (fun b' hb' => hf b' (List.mem_cons_of_mem b hb')) (hf b List.mem_cons_self w w' h)

end Step

/-- Writing over spans that lie one behind the other with the digit of literals, each up to an edge. -/
theorem Twin.foldl_ones (hx : x.WellFormed) {ps : List Span} (hps : ps.Pairwise fun p q => p.stop ≤ q.start)
    (hedge : ∀ p ∈ ps, p.start < p.stop → inside w.text p.stop = false) (h : Twin x w w') :
    Twin x (ps.foldl (fun v p => v.overwrite p '1') w) (ps.foldl (fun v p => v.overwrite p '1') w') := by
  induction ps generalizing w w' with
  | nil => exact h
  | cons p ps ih =>
    obtain ⟨hp, hps⟩ := List.pairwise_cons.1 hps
    refine ih hps (fun q hq hlt => ?_) (h.overwrite_one hx (hedge p List.mem_cons_self))
    -- both neighbours of the end of a later span lie behind the one written over
    have hle := hp q hq
    have hfilled := filled_overwrite w p '1'
    have hedge := hedge q (List.mem_cons_of_mem p hq) hlt
    rw [inside, Text.wordBefore_of_pos (by omega)] at hedge ⊢
    rw [hfilled.wordAt_of_not (by omega), hfilled.wordAt_of_not (by omega)]
    exact hedge

end WorkingCopy
end SourceLikeness
