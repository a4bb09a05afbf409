import SourceLikeness.Proofs.Cases.Scan
import SourceLikeness.Proofs.Comment.Erasure

/-!
# Cases in a text whose breaks are masked

When a label is recorded, each `break` that ends a case is masked already, and the closing brace of the `switch` is a `$`.

* `bodyStart` : where the body behind a label starts;
* `IsBreak` : what is masked; `Redacted` : a text between a label and the end of the `switch` where that was done;
* `Redacted.bodyStart_eq`, `Redacted.halts_iff` : the body starts and ends where it did before.
-/

namespace SourceLikeness.Tokenizer.SwitchStatement
open Bracket
open Text (StandsAt braceAt inked isAsciiWord isBlank isLayout wordAt wordBefore)
open WorkingCopy (masked switchEnd)
variable {s t w : List Char} {breaks : List Span} {q : Span} {a d i n p stop : Nat} {c : Char}

/-! ## Where a body starts -/

/-- The first offset behind a label that is no layout. -/
def bodyStart (s : List Char) (a : Nat) : Nat := a + ((s.drop a).takeWhile isLayout).length

theorem le_bodyStart (s : List Char) (a : Nat) : a ≤ bodyStart s a := Nat.le_add_right _ _

theorem isLayout_of_lt_bodyStart (hle : a ≤ i) (hlt : i < bodyStart s a) : ∃ c, s[i]? = some c ∧ isLayout c = true := by
  obtain ⟨c, hc, hlayout⟩ := Text.exists_of_lt_takeWhile (Nat.sub_lt_left_of_lt_add hle hlt)
  rw [List.getElem?_drop, Nat.add_sub_cancel' hle] at hc
  exact ⟨c, hc, hlayout⟩

theorem bodyStart_le (hle : a ≤ n) (hn : s[n]? = some c) (hc : isLayout c = false) : bodyStart s a ≤ n := by
  by_contra hlt
  obtain ⟨d, hd, hlayout⟩ := isLayout_of_lt_bodyStart hle (Nat.lt_of_not_le hlt)
  obtain rfl := Option.some.inj (hn.symm.trans hd)
  rw [hc] at hlayout
  exact Bool.noConfusion hlayout

theorem isLayout_bodyStart (h : s[bodyStart s a]? = some c) : isLayout c = false := by
  rw [bodyStart, ← List.getElem?_drop] at h
  exact Text.eq_false_of_takeWhile h

/-- The only offset that has layout before it and is none itself. -/
theorem bodyStart_eq (hle : a ≤ n) (hbefore : ∀ i, a ≤ i → i < n → ∃ c, s[i]? = some c ∧ isLayout c = true)
    (hn : s[n]? = some c) (hc : isLayout c = false) : bodyStart s a = n := by
  refine Nat.le_antisymm (bodyStart_le hle hn hc) (Nat.le_of_not_lt fun hlt => ?_)
  obtain ⟨d, hd, hlayout⟩ := hbefore _ (le_bodyStart s a) hlt
  rw [isLayout_bodyStart hd] at hlayout
  exact Bool.noConfusion hlayout

/-! ## What is masked -/

theorem slice_slice {r : Span} (hq : q.stop ≤ r.stop - r.start) (s : List Char) : q.slice (r.slice s) = (q.shift r.start).slice s := by
  rw [Span.slice, Span.slice, Span.slice, Span.shift, List.drop_take, List.drop_drop, List.take_take]
  congr 1
  · dsimp only
    omega
  · dsimp only
    rw [Nat.add_comm]

/-- A `break` that ends a case, with its semicolon. It starts a word. -/
structure IsBreak (s : List Char) (q : Span) : Prop where
  before : wordBefore s q.start = false
  reads : ∃ g, q.slice s = "break".toList ++ (g ++ [';']) ∧ ∀ a ∈ g, isBlank a = true

theorem IsBreak.length_slice (h : IsBreak s q) : 0 < (q.slice s).length := by
  obtain ⟨g, hslice, -⟩ := h.reads
  rw [hslice, List.length_append]
  exact Nat.lt_of_lt_of_le (by decide) (Nat.le_add_right _ _)

theorem IsBreak.lt (h : IsBreak s q) : q.start < q.stop := by
  have hlen : (q.slice s).length ≤ q.stop - q.start := List.length_take_le _ _
  have hpos := h.length_slice
  omega

theorem IsBreak.first (h : IsBreak s q) : s[q.start]? = some 'b' := by
  obtain ⟨g, hslice, -⟩ := h.reads
  have hget : (q.slice s)[0]? = some 'b' := by rw [hslice]; rfl
  rwa [WorkingCopy.getElem?_slice, if_pos (Nat.sub_pos_of_lt h.lt), Nat.add_zero] at hget

theorem IsBreak.inner (h : IsBreak s q) (hi : q.Covers i) (hc : s[i]? = some c) : c ∈ "break;".toList ∨ isBlank c = true := by
  obtain ⟨g, hslice, hg⟩ := h.reads
  have hmem : c ∈ q.slice s := Span.mem_slice_iff.2 ⟨i, hi.1, hi.2, hc⟩
  rw [hslice, List.mem_append, List.mem_append] at hmem
  rcases hmem with hbreak | hblank | hsemicolon
  · exact Or.inl (List.mem_append_left [';'] hbreak)
  · exact Or.inr (hg c hblank)
  · exact Or.inl (List.mem_append_right "break".toList hsemicolon)

/-- The last character is a semicolon. -/
theorem IsBreak.after (h : IsBreak s q) : wordBefore s q.stop = false := by
  obtain ⟨g, hslice, -⟩ := h.reads
  have hlt := h.lt
  have hlen : (q.slice s).length ≤ q.stop - q.start := List.length_take_le _ _
  rw [Text.wordBefore_of_pos (Nat.zero_lt_of_lt hlt)]
  by_contra hword
  obtain ⟨c, hc, hcword⟩ := Text.wordAt_eq_true_iff.1 (Bool.not_eq_false _ ▸ hword)
  have hlast : (q.slice s)[q.stop - 1 - q.start]? = some c := by
    rwa [WorkingCopy.getElem?_slice, if_pos (by omega), Nat.add_sub_cancel' (by omega)]
  rw [hslice, ← List.append_assoc] at hlast hlen
  rw [List.length_append, List.length_singleton] at hlen
  rw [List.getElem?_append_right (by omega)] at hlast
  obtain rfl := List.mem_singleton.1 (List.mem_of_getElem? hlast)
  exact absurd hcword (by decide)

/-- A text that goes up to the end of a `break` in the same way has it as well. -/
theorem IsBreak.congr (h : IsBreak s q) (hst : ∀ i < q.stop, t[i]? = s[i]?) : IsBreak t q := by
  have hlt := h.lt
  have hslice : q.slice t = q.slice s := List.ext_getElem? fun j => by
    rw [WorkingCopy.getElem?_slice, WorkingCopy.getElem?_slice]
    split_ifs with hj
    · exact hst _ (by omega)
    · rfl
  refine ⟨?_, hslice ▸ h.reads⟩
  have hbefore := h.before
  rcases Nat.eq_zero_or_pos q.start with hzero | hpos
  · rw [hzero]
    rfl
  · rw [Text.wordBefore_of_pos hpos, wordAt] at hbefore ⊢
    rw [hst _ (by omega)]
    exact hbefore

theorem IsBreak.ne (h : IsBreak s q) (hi : q.Covers i) (hc : s[i]? = some c) {x : Char} (hx : x ∉ "break;".toList)
    (hblank : isBlank x = false) : c ≠ x := by
  rintro rfl
  rcases h.inner hi hc with hmem | hd
  · exact hx hmem
  · rw [hblank] at hd
    exact Bool.noConfusion hd

/-- A text between the offset `a` behind a label and the end of its `switch`: the breaks are masked, and the closing brace
is overwritten. -/
structure Redacted (breaks : List Span) (a stop : Nat) (s t : List Char) : Prop where
  length : t.length = s.length
  isBreak : ∀ q ∈ breaks, IsBreak s q
  apart : ∀ q ∈ breaks, q.start < a → q.stop ≤ a
  before : wordBefore s a = false
  before' : wordBefore t a = false
  getElem?_eq : ∀ i, a ≤ i → i < stop →
    t[i]? = if ∃ q ∈ breaks, q.Covers i then s[i]?.map (inked masked) else s[i]?
  closing : s[stop]? = some '\x7d'
  sign : t[stop]? = some switchEnd

namespace Redacted

/-- A character is kept, or lies in a `break` and is masked. -/
theorem cases (h : Redacted breaks a stop s t) (hle : a ≤ i) (hlt : i < stop) :
    t[i]? = s[i]? ∨ ∃ q ∈ breaks, q.Covers i ∧ ∃ c, s[i]? = some c ∧ t[i]? = some (inked masked c) := by
  rw [h.getElem?_eq i hle hlt]
  split_ifs with hcovered
  · obtain ⟨q, hq, hi⟩ := hcovered
    have hc := List.getElem?_eq_getElem (Nat.lt_trans hlt (List.getElem?_eq_some_iff.1 h.closing).1)
    exact Or.inr ⟨q, hq, hi, _, hc, by rw [hc, Option.map_some]⟩
  · exact Or.inl rfl

theorem getElem?_of_not_covers (h : Redacted breaks a stop s t) (hle : a ≤ i) (hlt : i < stop)
    (hnot : ∀ q ∈ breaks, ¬ q.Covers i) : t[i]? = s[i]? := by
  rcases h.cases hle hlt with heq | ⟨q, hq, hcovers, -⟩
  · exact heq
  · exact absurd hcovers (hnot q hq)

/-- A character that is neither a fill nor part of a `break` stands in both texts or in none. -/
theorem getElem?_iff (h : Redacted breaks a stop s t) (hle : a ≤ i) (hlt : i < stop) {x : Char} (hx : x ∉ "break;".toList)
    (hblank : isBlank x = false) (hmasked : x ≠ masked) : t[i]? = some x ↔ s[i]? = some x := by
  rcases h.cases hle hlt with heq | ⟨q, hq, hi, c, hc, ht⟩
  · rw [heq]
  · have hne : inked masked c ≠ x := by
      unfold inked
      split_ifs with hnewline
      · rintro rfl
        rw [hnewline] at hblank
        exact Bool.noConfusion hblank
      · exact fun heq => hmasked heq.symm
    rw [ht, hc, Option.some.injEq, Option.some.injEq]
    exact iff_of_false hne ((h.isBreak q hq).ne hi hc hx hblank)

theorem braceAt_eq (h : Redacted breaks a stop s t) (hle : a ≤ i) (hlt : i < stop) : braceAt t i = braceAt s i := by
  rcases h.cases hle hlt with heq | ⟨q, hq, hi, c, hc, ht⟩
  · rw [braceAt, braceAt, heq]
  · have hnone : brace? c = none := brace?_eq_none_iff.2
      ⟨(h.isBreak q hq).ne hi hc (by decide) (by decide), (h.isBreak q hq).ne hi hc (by decide) (by decide)⟩
    have hnone' : brace? (inked masked c) = none := by
      unfold inked
      split_ifs
      · exact hnone
      · rfl
    rw [braceAt, braceAt, ht, hc, Option.bind_some, Option.bind_some, hnone, hnone']

/-! ## Words -/

/-- A word character that is left stood there before. -/
theorem getElem?_of_word (h : Redacted breaks a stop s t) (hle : a ≤ i) (hlt : i < stop) (hi : t[i]? = some c)
    (hc : isAsciiWord c = true) : s[i]? = some c ∧ ∀ q ∈ breaks, ¬ q.Covers i := by
  rw [h.getElem?_eq i hle hlt] at hi
  split_ifs at hi with hcovered
  · obtain ⟨d, -, rfl⟩ := Option.map_eq_some_iff.1 hi
    unfold inked at hc
    split_ifs at hc with hnewline
    · rw [hnewline] at hc
      exact absurd hc (by decide)
    · exact absurd hc (by decide)
  · exact ⟨hi, fun q hq hcovers => hcovered ⟨q, hq, hcovers⟩⟩

theorem wordAt_of_wordAt (h : Redacted breaks a stop s t) (hle : a ≤ i) (hlt : i < stop) (hi : wordAt t i = true) :
    wordAt s i = true := by
  obtain ⟨c, hc, hword⟩ := Text.wordAt_eq_true_iff.1 hi
  exact Text.wordAt_eq_true_iff.2 ⟨c, (h.getElem?_of_word hle hlt hc hword).1, hword⟩

/-- No `break` goes on behind a word character in front of it. -/
theorem not_covers_succ (h : Redacted breaks a stop s t) (hi : wordAt s i = true) (hnot : ∀ q ∈ breaks, ¬ q.Covers i) :
    ∀ q ∈ breaks, ¬ q.Covers (i + 1) := by
  rintro q hq ⟨hstart, hstop⟩
  have heq : q.start = i + 1 := by
    by_contra hne
    exact hnot q hq ⟨by omega, by omega⟩
  have hbefore := (h.isBreak q hq).before
  rw [heq, Text.wordBefore_succ, hi] at hbefore
  exact Bool.noConfusion hbefore

/-- A word does not reach over a place where no word character stands. -/
theorem lt_of_reads (hlt : i < stop) (hw : ∀ c ∈ w, isAsciiWord c = true) (hr : w <+: s.drop i) (hstop : wordAt s stop = false) :
    ∀ j < w.length, i + j < stop := by
  intro j hj
  by_contra hge
  have hat := Text.wordAt_of_reads hw hr (show stop - i < w.length by omega)
  rw [Nat.add_sub_cancel' (Nat.le_of_lt hlt), hstop] at hat
  exact Bool.noConfusion hat

theorem wordAt_stop (h : Redacted breaks a stop s t) : wordAt s stop = false ∧ wordAt t stop = false := by
  rw [wordAt, wordAt, h.closing, h.sign]
  exact ⟨rfl, rfl⟩

/-- No word character stands in front of a place that is not masked if none is left there. -/
theorem wordBefore_eq (h : Redacted breaks a stop s t) (hle : a ≤ i) (hlt : i < stop) (hnot : ∀ q ∈ breaks, ¬ q.Covers i)
    (hbefore : wordBefore t i = false) : wordBefore s i = false := by
  rcases Nat.lt_or_eq_of_le hle with hai | rfl
  · rcases h.cases (i := i - 1) (by omega) (by omega) with heq | ⟨q, hq, hcovers, -⟩
    · rw [Text.wordBefore_of_pos (by omega)] at hbefore ⊢
      rwa [wordAt, ← heq]
    · have hstop : q.stop = i := by
        by_contra hne
        exact hnot q hq ⟨by have := hcovers.1; omega, by have := hcovers.2; omega⟩
      rw [← hstop]
      exact (h.isBreak q hq).after
  · exact h.before

/-- A word that is left stood there before. -/
theorem standsAt_of_standsAt (h : Redacted breaks a stop s t) (hle : a ≤ i) (hlt : i < stop) (hw : ∀ c ∈ w, isAsciiWord c = true)
    (hpos : 0 < w.length) (hstands : StandsAt w t i) : StandsAt w s i := by
  have hbound := lt_of_reads hlt hw hstands.reads h.wordAt_stop.2
  have hsame : ∀ j < w.length, s[i + j]? = w[j]? ∧ ∀ q ∈ breaks, ¬ q.Covers (i + j) := by
    intro j hj
    have hword : isAsciiWord w[j] = true := hw _ (List.getElem_mem hj)
    have hget := Text.prefix_drop_iff.1 hstands.reads j hj
    rw [List.getElem?_eq_getElem hj] at hget ⊢
    exact h.getElem?_of_word (Nat.le_trans hle (Nat.le_add_right i j)) (hbound j hj) hget hword
  have hreads : w <+: s.drop i := Text.prefix_drop_iff.2 fun j hj => (hsame j hj).1
  refine ⟨hreads, h.wordBefore_eq hle hlt (hsame 0 hpos).2 hstands.before, ?_⟩
  have hlast := hsame (w.length - 1) (by omega)
  rcases Nat.lt_or_ge (i + w.length) stop with hin | hout
  · have hlastWord : wordAt s (i + (w.length - 1)) = true := Text.wordAt_of_reads hw hreads (by omega)
    have hnot := h.not_covers_succ hlastWord hlast.2
    rw [show i + (w.length - 1) + 1 = i + w.length by omega] at hnot
    rw [wordAt, ← h.getElem?_of_not_covers (by omega) hin hnot]
    exact hstands.after
  · have hend := hbound (w.length - 1) (by omega)
    rw [show i + w.length = stop by omega]
    exact h.wordAt_stop.1

/-- No `break` is masked where a word stands that starts with none of its characters. -/
theorem not_covers_of_standsAt (h : Redacted breaks a stop s t) (hw : ∀ c ∈ w, isAsciiWord c = true)
    (hhead : w.head?.any (fun c => !"break;".toList.contains c) = true) (hstands : StandsAt w s i) :
    ∀ j < w.length, ∀ q ∈ breaks, ¬ q.Covers (i + j) := by
  obtain ⟨x, hx, hxhead⟩ := (Option.any_eq_true _ _).1 hhead
  intro j
  induction j with
  | zero =>
    intro hpos q hq hcovers
    have hget := Text.prefix_drop_iff.1 hstands.reads 0 hpos
    have hxblank := Text.isBlank_eq_false_of_isAsciiWord (hw x (List.mem_of_mem_head? hx))
    rw [List.head?_eq_getElem?] at hx
    rw [hx] at hget
    refine (h.isBreak q hq).ne hcovers hget ?_ hxblank rfl
    rwa [Bool.not_eq_true', ← Bool.not_eq_true, List.contains_iff_mem] at hxhead
  | succ j ih =>
    intro hj
    exact h.not_covers_succ (Text.wordAt_of_reads hw hstands.reads (by omega)) (ih (by omega))

/-- Such a word is left. -/
theorem standsAt_redacted (h : Redacted breaks a stop s t) (hle : a ≤ i) (hlt : i < stop) (hw : ∀ c ∈ w, isAsciiWord c = true)
    (hpos : 0 < w.length) (hnot : ∀ j < w.length, ∀ q ∈ breaks, ¬ q.Covers (i + j)) (hstands : StandsAt w s i) :
    StandsAt w t i := by
  have hbound := lt_of_reads hlt hw hstands.reads h.wordAt_stop.1
  have hsame : ∀ j < w.length, t[i + j]? = w[j]? := by
    intro j hj
    rw [h.getElem?_of_not_covers (by omega) (hbound j hj) (hnot j hj)]
    exact Text.prefix_drop_iff.1 hstands.reads j hj
  refine ⟨Text.prefix_drop_iff.2 hsame, ?_, ?_⟩
  · rcases Nat.lt_or_eq_of_le hle with hai | rfl
    · have hbefore := hstands.before
      rw [Text.wordBefore_of_pos (by omega)] at hbefore ⊢
      by_contra hword
      rw [h.wordAt_of_wordAt (by omega) (by omega) (Bool.not_eq_false _ ▸ hword)] at hbefore
      exact Bool.noConfusion hbefore
    · exact h.before'
  · rcases Nat.lt_or_ge (i + w.length) stop with hin | hout
    · by_contra hword
      have hafter := hstands.after
      rw [h.wordAt_of_wordAt (by omega) hin (Bool.not_eq_false _ ▸ hword)] at hafter
      exact Bool.noConfusion hafter
    · have hend := hbound (w.length - 1) (by omega)
      rw [show i + w.length = stop by omega]
      exact h.wordAt_stop.2

/-- A word that starts with no character of `break` is not masked, and nothing else is taken for it. -/
theorem standsAt_iff (h : Redacted breaks a stop s t) (hle : a ≤ i) (hlt : i < stop) (hw : ∀ c ∈ w, isAsciiWord c = true)
    (hhead : w.head?.any (fun c => !"break;".toList.contains c) = true) : StandsAt w t i ↔ StandsAt w s i := by
  have hpos : 0 < w.length := List.length_pos_of_ne_nil fun hnil => by rw [hnil] at hhead; exact Bool.noConfusion hhead
  exact ⟨h.standsAt_of_standsAt hle hlt hw hpos,
    fun hstands => h.standsAt_redacted hle hlt hw hpos (h.not_covers_of_standsAt hw hhead hstands) hstands⟩

/-! ## The body of a case -/

theorem halts_iff (h : Redacted breaks a stop s t) (hle : a ≤ i) (hlt : i < stop) : Halts t i ↔ Halts s i := by
  rw [Halts, Halts, EndsCase, EndsCase, h.getElem?_iff hle hlt (x := '\x7d') (by decide) (by decide) (by decide),
    h.getElem?_iff hle hlt (x := switchEnd) (by decide) (by decide) (by decide),
    h.standsAt_iff hle hlt (w := "case".toList) (by decide) (by decide),
    h.standsAt_iff hle hlt (w := "default".toList) (by decide) (by decide)]

theorem depth_eq (h : Redacted breaks a stop s t) (hle : a ≤ i) (hp : p ≤ stop) (d : Nat) :
    depth brace? d (Span.slice ⟨i, p⟩ s) = depth brace? d (Span.slice ⟨i, p⟩ t) := by
  refine (depth_eq_of_map_eq (Text.map_brace?_eq ?_ fun j => ?_) d).symm
  · rw [Span.slice, Span.slice, List.length_take, List.length_take, List.length_drop, List.length_drop, h.length]
  · rw [Text.braceAt_slice, Text.braceAt_slice]
    split_ifs with hj
    · exact h.braceAt_eq (Nat.le_trans hle (Nat.le_add_right i j)) (Nat.lt_of_lt_of_le (Nat.add_lt_of_lt_sub' hj) hp)
    · rfl

/-- A scan stops where it did before, or at the end of the `switch`. -/
theorem firstStop (h : Redacted breaks a stop s t) (hle : a ≤ i) (hp : p ≤ stop)
    (hfirst : FirstStop (fun j => (EndsCase s j ∨ j = stop) ∨ s[j]? = some switchEnd) s d i p) : FirstStop (Halts t) t d i p := by
  refine hfirst.congr (fun j hij hj => ?_) fun j hij hj => h.depth_eq hle (Nat.le_trans hj hp) d
  rcases Nat.lt_or_eq_of_le (Nat.le_trans hj hp) with hlt | rfl
  · rw [h.halts_iff (Nat.le_trans hle hij) hlt, Halts, or_right_comm, or_iff_left (Nat.ne_of_lt hlt)]
  · exact iff_of_true (Or.inl (Or.inr rfl)) (Or.inr h.sign)

theorem bodyStart_eq (h : Redacted breaks a stop s t) (hle : a ≤ stop) : bodyStart t a = bodyStart s a := by
  have hstop : bodyStart s a ≤ stop := bodyStart_le hle h.closing (by decide)
  -- A `break` behind the label starts with a character that is no layout.
  have hnot : ∀ i, a ≤ i → i < bodyStart s a → ∀ q ∈ breaks, ¬ q.Covers i := by
    rintro i hai hi q hq ⟨hstart, hlt⟩
    rcases Nat.lt_or_ge q.start a with hbefore | hbehind
    · have := h.apart q hq hbefore
      omega
    · obtain ⟨c, hc, hlayout⟩ := isLayout_of_lt_bodyStart hbehind (Nat.lt_of_le_of_lt hstart hi)
      obtain rfl := Option.some.inj ((h.isBreak q hq).first.symm.trans hc)
      exact absurd hlayout (by decide)
  have hlayout : ∀ i, a ≤ i → i < bodyStart s a → ∃ c, t[i]? = some c ∧ isLayout c = true := by
    intro i hai hi
    rw [h.getElem?_of_not_covers hai (Nat.lt_of_lt_of_le hi hstop) (hnot i hai hi)]
    exact isLayout_of_lt_bodyStart hai hi
  rcases Nat.lt_or_eq_of_le hstop with hlt | heq
  · rcases h.cases (le_bodyStart s a) hlt with hsame | ⟨q, hq, hcovers, c, hc, ht⟩
    · have hlen : bodyStart s a < s.length := Nat.lt_trans hlt (List.getElem?_eq_some_iff.1 h.closing).1
      have hget := List.getElem?_eq_getElem hlen
      exact SwitchStatement.bodyStart_eq (le_bodyStart s a) hlayout (hsame.trans hget) (isLayout_bodyStart hget)
    · have hnewline : c ≠ '\n' := by
        rintro rfl
        exact absurd (isLayout_bodyStart hc) (by decide)
      rw [inked, if_neg hnewline] at ht
      exact SwitchStatement.bodyStart_eq (le_bodyStart s a) hlayout ht (by decide)
  · rw [heq] at hlayout ⊢
    exact SwitchStatement.bodyStart_eq hle hlayout h.sign (by decide)

end Redacted
end SourceLikeness.Tokenizer.SwitchStatement
