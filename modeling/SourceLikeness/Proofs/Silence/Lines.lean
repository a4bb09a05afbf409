import SourceLikeness.Proofs.Literal.Inert
import SourceLikeness.Proofs.Silence.Passes

/-!
# Lines that are blanked

What the passes for imports and directives find starts at the start of a line and reaches over no newline, however the lines
before it look. So what they find at the start of a line of code is blanked, and no token starts in it.

* `ToLineEnd`, `Finder.Lined` : hits up to the end of a line, and within lines;
* `Finder.Lined.exists_covers` : what is found at the start of a line is covered by the hits;
* `IsLine` : a line of a text; `BlankIn` : a part of one that is blank but for its newlines;
* `InCode`, `inCode_of_bare` : parts of a source that the masking of literals and comments leaves as they are;
* `not_covers_of_blankIn` : no token starts in lines that are blank behind the masking passes.
-/

namespace SourceLikeness
open WorkingCopy Tokenizer
open Text (charBefore inked)
variable {s l : List Char} {f : Finder} {q : Span} {hit : Hit} {a i p : Nat}

/-! ## Hits within lines -/

/-- A part of a text goes on over no newline, up to one or to the end. -/
structure ToLineEnd (s : List Char) (q : Span) : Prop where
  noNewline : ∀ i, q.Covers i → s[i]? ≠ some '\n'
  lineEnd : s[q.stop]?.all (· == '\n') = true

namespace Finder

/-- The hits of a finder reach over no newline. -/
def Lined (f : Finder) (s : List Char) : Prop := ∀ h ∈ f.hits s, ∀ i, h.whole.Covers i → s[i]? ≠ some '\n'

theorem lined_of_avoids (hf : f.pattern.avoids '\n' = true) (s : List Char) : f.Lined s := by
  intro h hmem i hcovers hi
  obtain ⟨d, hd, heq⟩ := read_of_hitOf (hitOf_of_mem hmem)
  have hle := (Pattern.reads_of_read hd).stop_le_of_avoids hf (in_start s _) hi hcovers.1
  rw [heq] at hcovers
  exact absurd hcovers.2 (Nat.not_lt.2 hle)

/-- Hits before the start of a line stop there. -/
theorem Lined.spares (h : f.Lined s) (ha : (charBefore s a).all (· == '\n') = true) : Spares f a a s := by
  intro g hmem hlt
  by_contra hgt
  obtain ⟨n, rfl⟩ := Nat.exists_eq_succ_of_ne_zero (Nat.ne_of_gt (Nat.zero_lt_of_lt hlt))
  have hstop := (within_of_mem hmem).whole.stop_le
  have hn := List.getElem?_eq_getElem (show n < s.length by omega)
  change (s[n]?).all _ = true at ha
  rw [hn] at ha
  refine h g hmem n ⟨Nat.le_of_lt_succ hlt, by omega⟩ ?_
  rw [hn]
  exact congrArg some (beq_iff_eq.1 ha)

theorem start_le_of_hitOf {accept : Hit → Bool} (h : f.hitOf accept s a = some hit) : hit.whole.start ≤ hit.whole.stop := by
  obtain ⟨d, hd, rfl⟩ := read_of_hitOf h
  exact ((Pattern.reads_of_read hd).mem (in_start s a)).2

/-- What is found at the start of a line is one of the hits, or what the hits cover covers it. -/
theorem Lined.exists_covers (h : f.Lined s) (hpart : f.pattern.partless = true) (ha : (charBefore s a).all (· == '\n') = true)
    (hle : a ≤ s.length) (hhit : f.hitOf (fun _ => true) s a = some hit) (hp : hit.whole.Covers p) :
    ∃ g ∈ f.hits s, g.whole.Covers p := by
  have hstart := start_of_hitOf hhit
  have hap : a ≤ p := by rw [← hstart]; exact hp.1
  rw [covers_iff hpart (h.spares ha) hle (Nat.le_refl a) hap]
  rcases walk_cases f (fun _ => true) s a 0 with ⟨-, hnone⟩ | ⟨g, -, hg, hwalk⟩
  · rcases hnone with hlt | hnone
    · exact absurd hlt (Nat.not_lt_zero a)
    · exact nomatch hhit.symm.trans hnone
  · obtain rfl := Option.some.inj (hhit.symm.trans hg)
    exact ⟨hit, hwalk ▸ List.mem_cons_self, hp⟩

end Finder

/-! ## Lines -/

/-- A line stands at a place of a text. -/
structure IsLine (s : List Char) (a : Nat) (l : List Char) : Prop where
  lineStart : (charBefore s a).all (· == '\n') = true
  noNewline : '\n' ∉ l
  rest : ∃ v, s.drop a = l ++ v ∧ v.head?.all (· == '\n') = true

namespace IsLine

theorem of_getElem? (hstart : (charBefore s a).all (· == '\n') = true) (hl : '\n' ∉ l)
    (hat : ∀ i < l.length, s[a + i]? = l[i]?) (hend : s[a + l.length]?.all (· == '\n') = true) : IsLine s a l := by
  refine ⟨hstart, hl, s.drop (a + l.length), List.ext_getElem? fun i => ?_, by rw [List.head?_drop]; exact hend⟩
  rw [List.getElem?_drop]
  rcases Nat.lt_or_ge i l.length with hlt | hge
  · rw [hat i hlt, List.getElem?_append_left hlt]
  · rw [List.getElem?_append_right hge, List.getElem?_drop]
    congr 1
    omega

theorem lineEnd (h : IsLine s a l) : s[a + l.length]?.all (· == '\n') = true := by
  obtain ⟨v, hv, hend⟩ := h.rest
  rw [← List.getElem?_drop, hv, List.getElem?_append_right (Nat.le_refl _), Nat.sub_self, ← List.head?_eq_getElem?, hend]

theorem getElem? (h : IsLine s a l) (hi : i < l.length) : s[a + i]? = l[i]? := by
  obtain ⟨v, hv, -⟩ := h.rest
  rw [← List.getElem?_drop, hv, List.getElem?_append_left hi]

theorem ne_newline (h : IsLine s a l) (hai : a ≤ i) (hi : i < a + l.length) : ∃ x, s[i]? = some x ∧ x ≠ '\n' := by
  obtain ⟨j, rfl⟩ := Nat.exists_eq_add_of_le hai
  have hj : j < l.length := by omega
  refine ⟨l[j], by rw [h.getElem? hj, List.getElem?_eq_getElem hj], fun heq => h.noNewline (heq ▸ List.getElem_mem hj)⟩

theorem le_length (h : IsLine s a l) (hne : l ≠ []) : a ≤ s.length := by
  obtain ⟨v, hv, -⟩ := h.rest
  by_contra hlt
  rw [List.drop_eq_nil_of_le (by omega)] at hv
  exact hne (List.append_eq_nil_iff.1 hv.symm).1

/-- What starts with the line and goes up to the end of it covers it. -/
theorem covers (h : IsLine s a l) (hq : ToLineEnd s q) (hstart : q.start = a) (hle : q.start ≤ q.stop) (hai : a ≤ i)
    (hi : i < a + l.length) : q.Covers i := by
  refine ⟨hstart ▸ hai, Nat.lt_of_not_le fun hstop => ?_⟩
  obtain ⟨x, hx, hne⟩ := h.ne_newline (i := q.stop) (hstart ▸ hle) (by omega)
  have hend := hq.lineEnd
  rw [hx] at hend
  exact hne (beq_iff_eq.1 hend)

end IsLine
/-! ## Gaps and the rest of a line -/

namespace Tokenizer.Inert
open Pattern
variable {c d m : Cursor} {k : Cursor → Option Cursor} {u v : List Char}

def isGap (x : Char) : Bool := x == ' ' || x == '\t'
theorem run_gap {x : Char} (hrest : c.rest = u ++ x :: v) (hu : ∀ z ∈ u, isGap z = true) (hx : isGap x = false)
    (hk : k (c.past u (x :: v)) = some d) : Shape.gap.run c k = some d := by
  have hholds : ∀ z, (CharSet.only (" \t".toList.map .char)).holds z = isGap z := fun z => by
    change (z == ' ' || (z == '\t' || false)) = _
    rw [Bool.or_false]
    rfl
  refine run_many hrest (fun z hz => (hholds z).trans (hu z hz)) ?_ hk
  rw [List.head?_cons, Option.any_some, hholds, hx]

theorem run_lineStart (h : c.atLineStart = true) : lineStart.run c k = k c := if_pos h
/-- Behind a gap stands what does behind all of it. -/
theorem dropWhile_of_gap (h : Shape.gap.Reads c m) : c.rest.dropWhile isGap = m.rest.dropWhile isGap := by
  obtain ⟨u, hu, hall⟩ := reads_many h
  rw [hu, List.dropWhile_append_of_pos fun x hx => ?_]
  have hx : (x == ' ' || (x == '\t' || false)) = true := hall x hx
  rwa [Bool.or_false] at hx
/-- The rest of a line is read as far as it goes. -/
theorem exists_run_restOfLine (m : Cursor) : ∃ u v, m.rest = u ++ v ∧ '\n' ∉ u ∧ v.head?.all (· == '\n') = true ∧
    ∀ (k : Cursor → Option Cursor) (d : Cursor), k (m.past u v) = some d → Shape.restOfLine.run m k = some d := by
  have hholds : ∀ x, (CharSet.except ("\n".toList.map .char)).holds x = !(x == '\n') := fun x => by
    rw [holds_noneOf]
    exact congrArg Bool.not (Bool.or_false _)
  have hall : (m.rest.takeWhile fun x => !(x == '\n')).all (fun x => !(x == '\n')) = true := List.all_takeWhile
  have hhead := List.head?_dropWhile_not (fun x => !(x == '\n')) m.rest
  refine ⟨m.rest.takeWhile fun x => !(x == '\n'), m.rest.dropWhile fun x => !(x == '\n'), List.takeWhile_append_dropWhile.symm,
    fun hmem => absurd (List.all_eq_true.1 hall _ hmem) (by decide), ?_, fun k d hk => ?_⟩
  · cases hdrop : m.rest.dropWhile (fun x => !(x == '\n')) with
    | nil => rfl
    | cons x v => simpa [hdrop] using hhead
  · refine run_many List.takeWhile_append_dropWhile.symm (fun x hx => (hholds x).trans (List.all_eq_true.1 hall x hx)) ?_ hk
    cases hdrop : m.rest.dropWhile (fun x => !(x == '\n')) with
    | nil => rfl
    | cons x v =>
      rw [hdrop] at hhead
      exact (hholds x).trans hhead

/-- What is read up to the rest of a line, and by work that does no more at the end of one, goes to the end of a line. -/
theorem toLineEnd_of_run {p : Pattern} (hp : p.avoids '\n' = true) (hc : c.In s)
    (hk : ∀ m : Cursor, m.rest.head?.all (· == '\n') = true → k m = some m)
    (h : p.run c (fun m => Shape.restOfLine.run m k) = some d) : ToLineEnd s ⟨c.offset, d.offset⟩ := by
  obtain ⟨m, hm, hrest⟩ := reads_of_run h
  obtain ⟨u, v, hsplit, hu, hend, hrun⟩ := exists_run_restOfLine m
  obtain rfl := Option.some.inj ((hrun k _ (hk (m.past u v) hend)).symm.trans hrest)
  have hdrop : s.drop m.offset = u ++ v := by rw [← (hm.mem hc).1.rest, hsplit]
  refine ⟨fun i hi hnewline => ?_, ?_⟩
  · have hmi := hm.stop_le_of_avoids hp hc hnewline hi.1
    obtain ⟨j, rfl⟩ := Nat.exists_eq_add_of_le hmi
    have hj : j < u.length := by
      have hlt : m.offset + j < m.offset + u.length := hi.2
      omega
    rw [← List.getElem?_drop, hdrop, List.getElem?_append_left hj] at hnewline
    exact hu (List.mem_of_getElem? hnewline)
  · change s[m.offset + u.length]?.all _ = true
    rw [← List.getElem?_drop, hdrop, List.getElem?_append_right (Nat.le_refl _), Nat.sub_self, ← List.head?_eq_getElem?, hend]
end Tokenizer.Inert

/-! ## Erasing -/

namespace Tokenizer
open Inert
variable {w : Work} {fill : Char}

theorem getElem?_text_erase (hfill : fill ≠ '\n') (f : Finder) (w : Work) (p : Nat) : (erase f fill w).text[p]? =
    if ∃ h ∈ f.hits w.text, h.whole.Covers p then w.text[p]?.map (inked fill) else w.text[p]? := by
  rw [text, List.getElem?_map, getElem?_erase hfill, text, List.getElem?_map]
  split_ifs
  · rw [Option.map_map, Option.map_map]
    exact congrArg (Option.map · _) (funext (char_fill fill))
  · rfl

/-- Newlines stay. -/
theorem all_newline_erase (hfill : fill ≠ '\n') (f : Finder) (h : w.text[p]?.all (· == '\n') = true) :
    (erase f fill w).text[p]?.all (· == '\n') = true := by
  rw [getElem?_text_erase hfill]
  split_ifs
  · cases hp : w.text[p]? with
    | none => rfl
    | some x =>
      rw [hp] at h
      obtain rfl := beq_iff_eq.1 h
      rfl
  · exact h

/-- A part of a text is blank but for its newlines. -/
def BlankIn (q : Span) (s : List Char) : Prop := ∀ i, q.Covers i → s[i]?.all (fun x => x == blank || x == '\n') = true

theorem BlankIn.erase (h : BlankIn q w.text) (f : Finder) : BlankIn q (erase f blank w).text := by
  intro i hi
  have hblank := h i hi
  rw [getElem?_text_erase (by decide)]
  split_ifs
  · cases hat : w.text[i]? with
    | none => rfl
    | some x =>
      rw [Option.map_some, inked, Option.all_some]
      split_ifs with hx
      · rw [hx]
        rfl
      · rfl
  · exact hblank

/-- What hits cover is blank when they are erased. -/
theorem blankIn_erase (hq : ∀ i, q.Covers i → ∃ h ∈ f.hits w.text, h.whole.Covers i) : BlankIn q (erase f blank w).text := by
  intro i hi
  rw [getElem?_text_erase (by decide), if_pos (hq i hi)]
  cases w.text[i]? with
  | none => rfl
  | some x =>
    rw [Option.map_some, inked, Option.all_some]
    split_ifs with hx
    · rw [hx]
      rfl
    · rfl
/-! ## Parts of a source that are code -/

/-- A source without its literals and comments. -/
def uncommented (source : List Char) : Work :=
  erase { pattern := cComment } blank (erase { pattern := cLiteral } literal (.ofSource source))

/-- The masking of literals and comments leaves a part of a source as it is. -/
def InCode (source : List Char) (q : Span) : Prop :=
  ∀ i, q.Covers i → (uncommented source).text[i]? = (ofSource source : Work).text[i]?

theorem InCode.mono {source : List Char} {q r : Span} (h : InCode source q) (hr : ∀ i, r.Covers i → q.Covers i) :
    InCode source r := fun i hi => h i (hr i hi)

/-- A text without quotes and openers of comments. -/
structure Bare (s : List Char) : Prop where
  quotes : ∀ q ∈ Comment.quoteSigns, q ∉ s
  line : ¬ ['/', '/'] <:+: s
  block : ¬ ['/', '*'] <:+: s

variable {source before after m : List Char}

/-- Where a part of a source stands. -/
def placed (before m : List Char) : Span := ⟨(utf8 before).length, (utf8 before).length + (utf8 m).length⟩

theorem getElem?_text_placed (hi : i < (ofSource m : Work).text.length) :
    (ofSource (before ++ m ++ after) : Work).text[(utf8 before).length + i]? = (ofSource m : Work).text[i]? := by
  rw [text_ofSource_append, text_ofSource_append, List.append_assoc, ← Literal.length_text,
    List.getElem?_append_right (Nat.le_add_right _ _), Nat.add_sub_cancel_left, List.getElem?_append_left hi]

theorem covers_placed_append {m n : List Char} (h : (placed before m).Covers i) : (placed before (m ++ n)).Covers i := by
  refine ⟨h.1, Nat.lt_of_lt_of_le h.2 ?_⟩
  rw [placed, placed, length_utf8_append]
  exact Nat.add_le_add_left (Nat.le_add_right _ _) _

theorem stop_placed (before m : List Char) : (placed before m).stop = (ofSource (before ++ m) : Work).text.length := by
  rw [Literal.length_text, length_utf8_append]
  rfl

theorem lineStart_placed (hbefore : before.getLast?.all (· == '\n') = true) :
    (charBefore (ofSource (before ++ m ++ after) : Work).text (placed before m).start).all (· == '\n') = true := by
  rcases List.eq_nil_or_concat' before with rfl | ⟨u, x, rfl⟩
  · rfl
  · rw [List.getLast?_concat] at hbefore
    obtain rfl : x = '\n' := beq_iff_eq.1 hbefore
    have hlen : (utf8 (u ++ ['\n'])).length = (utf8 u).length + 1 := length_utf8_append u ['\n']
    rw [placed, hlen, List.append_assoc, List.append_assoc, text_ofSource_append, ← Literal.length_text]
    change (((ofSource u : Work).text ++ _)[(ofSource u : Work).text.length]?).all _ = true
    rw [List.getElem?_append_right (Nat.le_refl _), Nat.sub_self]
    rfl

theorem lineEnd_placed (before m : List Char) (hafter : after.head?.all (· == '\n') = true) :
    (ofSource (before ++ m ++ after) : Work).text[(placed before m).stop]?.all (· == '\n') = true := by
  rw [stop_placed, text_ofSource_append, List.getElem?_append_right (Nat.le_refl _), Nat.sub_self]
  cases after with
  | nil => rfl
  | cons x after =>
    obtain rfl : x = '\n' := beq_iff_eq.1 hafter
    rfl

theorem charBefore_erase (hfill : fill ≠ '\n') (f : Finder) (h : (charBefore w.text a).all (· == '\n') = true) :
    (charBefore (erase f fill w).text a).all (· == '\n') = true := by
  cases a with
  | zero => rfl
  | succ n => exact all_newline_erase hfill f h

/-- Up to the first quote or opener of a comment a source is code. -/
theorem inCode_of_bare (h : Bare (before ++ m)) (hafter : after.head?.all (· == '\n') = true) :
    InCode (before ++ m ++ after) (placed before m) := by
  set w : Work := ofSource (before ++ m ++ after) with hw
  have hstop := stop_placed before m
  have hfront : ∀ i < (placed before m).stop, w.text[i]? = (ofSource (before ++ m) : Work).text[i]? := fun i hi => by
    rw [hw, text_ofSource_append, List.getElem?_append_left (hstop ▸ hi)]
  have hliterals : ∀ i < (placed before m).stop, (erase { pattern := cLiteral } literal w).text[i]? = w.text[i]? := by
    refine fun i hi => getElem?_text_erase_of_not (by decide) fun hit hmem hcovers => ?_
    obtain ⟨q, hq, hat⟩ := Comment.quote_of_hit (d := .cFamily) hmem
    rw [hfront _ (Nat.lt_of_le_of_lt hcovers.1 hi)] at hat
    exact Literal.quoteless_text h.quotes q hq (List.mem_of_getElem? hat)
  have hcomments : ∀ hit ∈ Finder.hits { pattern := cComment } (erase { pattern := cLiteral } literal w).text,
      ¬ hit.whole.start < (placed before m).stop := by
    intro hit hmem hlt
    obtain ⟨y, hy, hinfix, hopener⟩ : ∃ y ∈ ['/', '*'], ¬ ['/', y] <:+: before ++ m ∧
        ['/', y] <+: (erase { pattern := cLiteral } literal w).text.drop hit.whole.start := by
      obtain ⟨d, hd, -⟩ := Finder.read_of_hitOf (Finder.hitOf_of_mem hmem)
      rcases Pattern.reads_of_read hd with ⟨n, hn, -⟩ | ⟨n, hn, -⟩
      · exact ⟨'/', by decide, h.line, ⟨_, (Pattern.reads_chars hn).symm⟩⟩
      · exact ⟨'*', by decide, h.block, ⟨_, (Pattern.reads_chars hn).symm⟩⟩
    have hsigns : ∀ y ∈ ['/', '*'], y ≠ '\n' ∧ foreign ∉ ['/', y] := by decide
    have hat := Text.prefix_drop_iff.1 hopener
    by_cases hnext : hit.whole.start + 1 < (placed before m).stop
    · have hread : ['/', y] <+: (ofSource (before ++ m) : Work).text.drop hit.whole.start := by
        refine Text.prefix_drop_iff.2 fun j hj => ?_
        have hlt : hit.whole.start + j < (placed before m).stop := by
          have hj : j < 2 := hj
          omega
        rw [← hfront _ hlt, ← hliterals _ hlt, hat j hj]
      exact hinfix (infix_of_infix_text (hsigns y hy).2 (List.cons_ne_nil _ _) (hread.isInfix.trans (List.drop_suffix _ _).isInfix))
    · have hend : (erase { pattern := cLiteral } literal w).text[(placed before m).stop]?.all (· == '\n') = true :=
        all_newline_erase (by decide) _ (lineEnd_placed before m hafter)
      rw [show (placed before m).stop = hit.whole.start + 1 by omega, hat 1 (by simp)] at hend
      exact (hsigns y hy).1 (beq_iff_eq.1 hend)
  intro i hi
  rw [uncommented, getElem?_text_erase_of_not (by decide) fun hit hmem hcovers =>
    hcomments hit hmem (Nat.lt_of_le_of_lt hcovers.1 hi.2), hliterals i hi.2]

theorem isLine_of_inCode (hbefore : before.getLast?.all (· == '\n') = true) (hm : '\n' ∉ m)
    (hafter : after.head?.all (· == '\n') = true) (hcode : InCode (before ++ m ++ after) (placed before m)) :
    IsLine (uncommented (before ++ m ++ after)).text (utf8 before).length (ofSource m : Work).text := by
  have hend := lineEnd_placed before m hafter
  refine .of_getElem? ?_ (fun hmem => hm (Literal.mem_of_mem_text (by decide) hmem)) (fun i hi => ?_) ?_
  · exact charBefore_erase (by decide) _ (charBefore_erase (by decide) _ (lineStart_placed (m := m) hbefore))
  · have hcovers : (placed before m).Covers ((utf8 before).length + i) :=
      ⟨Nat.le_add_right _ _, Nat.add_lt_add_left (Literal.length_text m ▸ hi) _⟩
    rw [hcode _ hcovers, getElem?_text_placed hi]
  · rw [Literal.length_text]
    exact all_newline_erase (by decide) _ (all_newline_erase (by decide) _ hend)

/-! ## Behind the masking passes -/

theorem length_text_visible (source : List Char) : (visible source).text.length = (ofSource source : Work).text.length := by
  have hone : ∀ (f : Finder) {fill : Char}, IsAscii fill → ∀ w : Work, (erase f fill w).size = w.size :=
    fun f _ hfill w => (edits_erase f hfill w).grows.size_eq
  rw [← size_eq_length_text, ← size_eq_length_text, visible_eq, hone _ isAscii_blank, hone _ isAscii_blank, hone _ isAscii_blank,
    hone _ isAscii_literal]

theorem all_newline_visible (h : (ofSource source : Work).text[p]?.all (· == '\n') = true) :
    (visible source).text[p]?.all (· == '\n') = true := by
  rw [visible_eq]
  iterate 4 refine all_newline_erase (by decide) _ ?_
  exact h

/-- No newline is written. -/
theorem newline_of_visible (h : (visible source).text[p]? = some '\n') : (ofSource source : Work).text[p]? = some '\n' := by
  rw [visible_eq] at h
  iterate 4 replace h := getElem?_of_erase (by decide) (by decide) h
  exact h

/-- What is blank behind the masking passes has a blank for each character but newlines. -/
theorem getElem?_of_blankIn (h : BlankIn q (visible source).text) (hi : q.Covers i) :
    (visible source).text[i]? = ((ofSource source : Work).text[i]?).map (inked blank) := by
  have hblank := h i hi
  cases hsource : (ofSource source : Work).text[i]? with
  | none =>
    rw [List.getElem?_eq_none_iff, ← length_text_visible] at hsource
    rw [List.getElem?_eq_none hsource, Option.map_none]
  | some y =>
    have hlt : i < (visible source).text.length := by
      rw [length_text_visible]
      exact (List.getElem?_eq_some_iff.1 hsource).1
    obtain ⟨x, hx⟩ : ∃ x, (visible source).text[i]? = some x := ⟨_, List.getElem?_eq_getElem hlt⟩
    rw [hx, Option.all_some] at hblank
    rw [hx, Option.map_some, inked]
    split_ifs with hy
    · have hnewline : (ofSource source : Work).text[i]?.all (· == '\n') = true := by
        rw [hsource, hy]
        rfl
      replace hnewline := all_newline_visible hnewline
      rw [hx] at hnewline
      rw [hy, beq_iff_eq.1 hnewline]
    · rcases Bool.or_eq_true_iff.1 hblank with hblank | hnewline
      · rw [beq_iff_eq.1 hblank]
      · rw [beq_iff_eq.1 hnewline] at hx
        have hat := newline_of_visible hx
        rw [hsource] at hat
        exact absurd (Option.some.inj hat) hy

theorem blankLines_of_blankIn (hbefore : before.getLast?.all (· == '\n') = true) (hafter : after.head?.all (· == '\n') = true)
    (h : BlankIn (placed before m) (visible (before ++ m ++ after)).text) :
    BlankLines (placed before m) (visible (before ++ m ++ after)).text := by
  have hend := lineEnd_placed before m hafter
  refine ⟨?_, ?_, fun i hi => ?_⟩
  · rw [visible_eq]
    iterate 4 refine charBefore_erase (by decide) _ ?_
    exact lineStart_placed hbefore
  · exact all_newline_visible hend
  · have hlt : i < (visible (before ++ m ++ after)).text.length := by
      rw [length_text_visible, text_ofSource_append, List.length_append, ← stop_placed]
      exact Nat.lt_of_lt_of_le hi.2 (Nat.le_add_right _ _)
    have hblank := h i hi
    rw [List.getElem?_eq_getElem hlt] at hblank ⊢
    exact ⟨_, by simpa using hblank, rfl⟩

/-- No token starts in lines that are blank behind the masking passes. -/
theorem not_covers_of_blankIn {t : Tokenizer} (hd : t.settings.dialect = .cFamily) (hbefore : before.getLast?.all (· == '\n') = true)
    (hafter : after.head?.all (· == '\n') = true) (h : BlankIn (placed before m) (visible (before ++ m ++ after)).text) :
    ∀ k ∈ t.tokenize (before ++ m ++ after), ¬ (placed before m).Covers k.start :=
  not_covers_of_mem_tokenize hd (blankLines_of_blankIn hbefore hafter h)

end Tokenizer

end SourceLikeness
