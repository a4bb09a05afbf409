import SourceLikeness.Proofs.Pattern.Behind
import SourceLikeness.Proofs.WorkingCopy.Edit
import SourceLikeness.Tokenizer.Pipeline

/-!
# Erasing in two working copies

Two working copies that agree from an offset on, and before it except for what a fill would overwrite anyway.

* `getElem?_erase` : the cells of a working copy after a pass that erases;
* `Veiled` : two such working copies; `Spares` : no hit lies across an offset;
* `Veiled.erase` : they stay such working copies if the hits spare the offset in both;
* `Veiled.erase_eq_of_front` : they become equal if they agree before the offset then; `Veiled.erase_eq` : so they do if
  all before it is erased in both.
-/

namespace SourceLikeness
open WorkingCopy

theorem Cell.fill_fill (a b : Char) (c : Cell) (ha : a ≠ '\n') : (c.fill a).fill b = c.fill b := by
  unfold Cell.fill
  split_ifs <;> simp_all

theorem Cell.fill_of_newline {c : Cell} (a : Char) (hc : c.char = '\n') : c.fill a = c := if_pos hc

/-- A span covers an offset. -/
def Span.Covers (p : Span) (i : Nat) : Prop := p.start ≤ i ∧ i < p.stop

instance (p : Span) (i : Nat) : Decidable (p.Covers i) := inferInstanceAs (Decidable (_ ∧ _))

namespace Tokenizer
variable {f : Finder} {fill : Char} {w w' : Work} {m p : Nat}

/-- The cells after an operation on the cells of each span of a list that does nothing more if it comes twice. -/
theorem getElem?_foldl_spans {f : Cell → Cell} (hf : ∀ c, f (f c) = f c) {op : Work → Span → Work}
    (hop : ∀ (w : Work) (q : Span) (p : Nat), (op w q).cells[p]? = if q.Covers p then w.cells[p]?.map f else w.cells[p]?)
    (spans : List Span) (w : Work) (p : Nat) :
    (spans.foldl op w).cells[p]? = if ∃ q ∈ spans, q.Covers p then w.cells[p]?.map f else w.cells[p]? := by
  induction spans generalizing w with
  | nil => simp
  | cons q spans ih =>
    have htwice : (w.cells[p]?.map f).map f = w.cells[p]?.map f := by
      rw [Option.map_map]
      exact congrArg (Option.map · _) (funext hf)
    rw [List.foldl_cons, ih, hop]
    by_cases hq : q.Covers p
    · rw [if_pos hq, htwice, ite_self, if_pos ⟨q, List.mem_cons_self, hq⟩]
    · have hrest : (∃ r ∈ q :: spans, r.Covers p) ↔ ∃ r ∈ spans, r.Covers p := by
        simp only [List.mem_cons, exists_eq_or_imp, hq, false_or]
      rw [if_neg hq]
      exact (if_congr hrest rfl rfl).symm

theorem getElem?_overwrites (hfill : fill ≠ '\n') (hits : List Hit) (w : Work) (p : Nat) :
    (hits.foldl (fun w hit => w.overwrite hit.whole fill) w).cells[p]? =
      if ∃ h ∈ hits, h.whole.Covers p then w.cells[p]?.map (Cell.fill fill) else w.cells[p]? := by
  have hspans : ((hits.map Hit.whole).foldl (·.overwrite · fill) w).cells[p]? = _ :=
    getElem?_foldl_spans (fun c => Cell.fill_fill fill fill c hfill)
      (fun w q p => getElem?_mapSpan_clamp (Cell.fill fill) q w.cells p) (hits.map Hit.whole) w p
  rw [List.foldl_map] at hspans
  simpa only [List.mem_map, exists_exists_and_eq_and] using hspans

theorem getElem?_erase (hfill : fill ≠ '\n') (f : Finder) (w : Work) (p : Nat) :
    (erase f fill w).cells[p]? =
      if ∃ h ∈ f.hits w.text, h.whole.Covers p then w.cells[p]?.map (Cell.fill fill) else w.cells[p]? :=
  getElem?_overwrites hfill _ w p

@[simp] theorem tokens_erase (f : Finder) (fill : Char) (w : Work) : (erase f fill w).tokens = w.tokens := by
  unfold erase
  generalize f.hits w.text = hits
  induction hits generalizing w with
  | nil => rfl
  | cons h hits ih => exact ih (w.overwrite h.whole fill)

theorem getElem?_text_erase_of_not (hfill : fill ≠ '\n') (hp : ∀ h ∈ f.hits w.text, ¬ h.whole.Covers p) :
    (erase f fill w).text[p]? = w.text[p]? := by
  have hnot : ¬ ∃ h ∈ f.hits w.text, h.whole.Covers p := fun ⟨h, hmem, hcovers⟩ => hp h hmem hcovers
  rw [text, List.getElem?_map, getElem?_erase hfill, if_neg hnot, ← List.getElem?_map]
  rfl

/-- Whatever is not the fill stood there before. -/
theorem getElem?_of_erase {x : Char} (hfill : fill ≠ '\n') (hx : x ≠ fill) (h : (erase f fill w).text[p]? = some x) :
    w.text[p]? = some x := by
  rw [text, List.getElem?_map, getElem?_erase hfill] at h
  rw [text, List.getElem?_map]
  split_ifs at h
  · obtain ⟨c, hc, rfl⟩ := Option.map_eq_some_iff.1 h
    obtain ⟨d, hd, rfl⟩ := Option.map_eq_some_iff.1 hc
    rw [hd, Option.map_some]
    unfold Cell.fill at hx ⊢
    split_ifs at hx ⊢ with hnewline
    · rfl
    · exact absurd rfl hx
  · exact h

/-! ## Two working copies -/

/-- Two working copies that agree from an offset on, and before it up to what a fill overwrites. -/
structure Veiled (m : Nat) (w w' : Work) : Prop where
  behind : w.cells.drop m = w'.cells.drop m
  front : ∀ p < m, w.cells[p]?.map (Cell.fill blank) = w'.cells[p]?.map (Cell.fill blank)
  tokens : w.tokens = w'.tokens

namespace Veiled

theorem drop_text (h : Veiled m w w') : w.text.drop m = w'.text.drop m := by
  rw [text, text, ← List.map_drop, ← List.map_drop, h.behind]

theorem getElem?_eq (h : Veiled m w w') (hp : m ≤ p) : w.cells[p]? = w'.cells[p]? := by
  obtain ⟨j, rfl⟩ := Nat.exists_eq_add_of_le hp
  rw [← List.getElem?_drop, h.behind, List.getElem?_drop]

/-- A newline stands in both copies or in neither, with the same cell. -/
theorem getElem?_eq_of_newline (h : Veiled m w w') (hp : p < m) (hnewline : w.text[p]? = some '\n') :
    w.cells[p]? = w'.cells[p]? := by
  have hfront := h.front p hp
  rw [text, List.getElem?_map] at hnewline
  obtain ⟨c, hc, hchar⟩ := Option.map_eq_some_iff.1 hnewline
  rw [hc, Option.map_some, Cell.fill_of_newline blank hchar] at hfront
  obtain ⟨d, hd, hfill⟩ := Option.map_eq_some_iff.1 hfront.symm
  rw [hc, hd, ← hfill]
  have hd' : d.char = '\n' := by
    by_contra hne
    rw [Cell.fill, if_neg hne] at hfill
    rw [← hfill] at hchar
    exact absurd hchar (show blank ≠ '\n' by decide)
  rw [Cell.fill_of_newline blank hd']

end Veiled

/-! ## Hits on one side of an offset -/

/-- The hits that start before `a` stop at `b` or earlier. -/
def Spares (f : Finder) (a b : Nat) (s : List Char) : Prop := ∀ h ∈ f.hits s, h.whole.start < a → h.whole.stop ≤ b

/-- Behind the hits that start before an offset, those of a walk from there on are all. -/
theorem covers_iff {s : List Char} {a b : Nat} (hpart : f.pattern.partless = true) (hs : Spares f a b s)
    (ha : a ≤ s.length) (hba : b ≤ a) (hp : b ≤ p) :
    (∃ h ∈ f.hits s, h.whole.Covers p) ↔ ∃ h ∈ f.walk (fun _ => true) s a 0, h.whole.Covers p := by
  have hresume : ∀ h ∈ f.walk (fun _ => true) s 0 0, h.whole.start < a → f.resume h ≤ a := by
    intro h hmem hstart
    rw [Finder.resume_eq_stop hpart hmem]
    exact Nat.le_trans (hs h hmem hstart) hba
  obtain ⟨before, happend, hbefore⟩ := Finder.walk_eq_append (Nat.zero_le a) ha (Nat.zero_le a) hresume
  change f.hits s = _ at happend
  rw [happend]
  constructor
  · rintro ⟨h, hmem, hcovers⟩
    rcases List.mem_append.1 hmem with hmem | hmem
    · have hstop := hs h (happend ▸ List.mem_append_left _ hmem) (hbefore h hmem)
      exact absurd (Nat.lt_of_lt_of_le hcovers.2 hstop) (Nat.not_lt.2 hp)
    · exact ⟨h, hmem, hcovers⟩
  · rintro ⟨h, hmem, hcovers⟩
    exact ⟨h, List.mem_append_right _ hmem, hcovers⟩

namespace Veiled

/-- Hits that spare the offset cover the same places of both copies from there on. -/
theorem covers_iff {a b : Nat} (h : Veiled m w w') (hpart : f.pattern.partless = true) (hs : Spares f a b w.text)
    (hs' : Spares f a b w'.text) (hma : m < a) (ha : a ≤ w.text.length) (hba : b ≤ a) (hp : b ≤ p) :
    (∃ g ∈ f.hits w.text, g.whole.Covers p) ↔ ∃ g ∈ f.hits w'.text, g.whole.Covers p := by
  have hlen : a ≤ w'.text.length := by
    have := congrArg List.length h.drop_text
    rw [List.length_drop, List.length_drop] at this
    omega
  rw [Tokenizer.covers_iff hpart hs ha hba hp, Tokenizer.covers_iff hpart hs' hlen hba hp,
    Finder.walk_eq_of_drop h.drop_text hma]

/-- Whatever is erased before the offset, the copies agree up to what a fill overwrites. -/
theorem erase (h : Veiled m w w') (hfill : fill ≠ '\n') (hpart : f.pattern.partless = true)
    (hs : Spares f (m + 1) m w.text) (hs' : Spares f (m + 1) m w'.text) (hm : m < w.text.length) :
    Veiled m (Tokenizer.erase f fill w) (Tokenizer.erase f fill w') where
  behind := by
    refine List.ext_getElem? fun j => ?_
    have hiff := h.covers_iff hpart hs hs' (Nat.lt_succ_self m) hm (Nat.le_succ m) (Nat.le_add_right m j)
    rw [List.getElem?_drop, List.getElem?_drop, getElem?_erase hfill, getElem?_erase hfill, h.getElem?_eq (Nat.le_add_right m j)]
    exact if_congr hiff rfl rfl
  front := by
    intro p hp
    have hfilled : ∀ v : Work, (Tokenizer.erase f fill v).cells[p]?.map (Cell.fill blank) = v.cells[p]?.map (Cell.fill blank) := by
      intro v
      rw [getElem?_erase hfill]
      split_ifs
      · rw [Option.map_map]
        exact congrArg (Option.map · _) (funext fun c => Cell.fill_fill fill blank c hfill)
      · rfl
    rw [hfilled, hfilled, h.front p hp]
  tokens := by rw [tokens_erase, tokens_erase, h.tokens]

/-- Whatever a fill overwrites in both copies becomes equal. -/
theorem map_fill_eq (h : Veiled m w w') (fill : Char) (p : Nat) :
    w.cells[p]?.map (Cell.fill fill) = w'.cells[p]?.map (Cell.fill fill) := by
  rcases Nat.lt_or_ge p m with hp | hp
  · have htwice : ∀ c : Option Cell, (c.map (Cell.fill blank)).map (Cell.fill fill) = c.map (Cell.fill fill) := fun c => by
      rw [Option.map_map]
      exact congrArg (Option.map · c) (funext fun d => Cell.fill_fill blank fill d (by decide))
    rw [← htwice, h.front p hp, htwice]
  · rw [h.getElem?_eq hp]

/-- If the copies agree before an offset when they are erased, they are equal. -/
theorem erase_eq_of_front {n : Nat} (h : Veiled m w w') (hfill : fill ≠ '\n') (hpart : f.pattern.partless = true)
    (hs : Spares f n n w.text) (hs' : Spares f n n w'.text) (hmn : m < n) (hn : n ≤ w.text.length)
    (hfront : ∀ p < n, (Tokenizer.erase f fill w).cells[p]? = (Tokenizer.erase f fill w').cells[p]?) :
    Tokenizer.erase f fill w = Tokenizer.erase f fill w' := by
  have hcells : (Tokenizer.erase f fill w).cells = (Tokenizer.erase f fill w').cells := by
    refine List.ext_getElem? fun p => ?_
    rcases Nat.lt_or_ge p n with hp | hp
    · exact hfront p hp
    · rw [getElem?_erase hfill, getElem?_erase hfill, h.getElem?_eq (Nat.le_trans (Nat.le_of_lt hmn) hp)]
      exact if_congr (h.covers_iff hpart hs hs' hmn hn (Nat.le_refl n) hp) rfl rfl
  have htokens : (Tokenizer.erase f fill w).tokens = (Tokenizer.erase f fill w').tokens := by
    rw [tokens_erase, tokens_erase, h.tokens]
  exact congrArg₂ WorkingCopy.mk hcells htokens

/-- If all before an offset is erased in both copies, they become equal. -/
theorem erase_eq {n : Nat} (h : Veiled m w w') (hpart : f.pattern.partless = true) (hs : Spares f n n w.text)
    (hs' : Spares f n n w'.text) (hmn : m < n) (hn : n ≤ w.text.length)
    (hfront : ∀ p < n, w.text[p]? = some '\n' ∨
      (∃ g ∈ f.hits w.text, g.whole.Covers p) ∧ ∃ g ∈ f.hits w'.text, g.whole.Covers p) :
    Tokenizer.erase f blank w = Tokenizer.erase f blank w' := by
  have hblank : blank ≠ '\n' := by decide
  refine h.erase_eq_of_front hblank hpart hs hs' hmn hn fun p hp => ?_
  rw [getElem?_erase hblank, getElem?_erase hblank]
  rcases hfront p hp with hnewline | ⟨hin, hin'⟩
  · have hcell : w.cells[p]? = w'.cells[p]? :=
      (Nat.lt_or_ge p m).elim (fun hpm => h.getElem?_eq_of_newline hpm hnewline) h.getElem?_eq
    rw [text, List.getElem?_map] at hnewline
    obtain ⟨c, hc, hchar⟩ := Option.map_eq_some_iff.1 hnewline
    have hkept : (some c).map (Cell.fill blank) = some c := congrArg some (Cell.fill_of_newline blank hchar)
    rw [← hcell, hc, hkept, ite_self, ite_self]
  · rw [if_pos hin, if_pos hin', h.map_fill_eq]

end Veiled

end Tokenizer
end SourceLikeness
