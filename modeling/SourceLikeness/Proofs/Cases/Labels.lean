import SourceLikeness.Proofs.Blocks.Switch
import SourceLikeness.Proofs.Cases.Redaction

/-!
# The cases of a switch statement

* `shell` : the working copy in which the labels of a `switch` are looked for; `labels` : those that are recorded;
* `redacted_shell` : behind each of them it is the text that the pass came to, redacted;
* `record` : what is recorded for a label; `tokens_applyLabel`, `tokens_foldl_applyLabel` : one label, and all of them;
* `Processes` : the pass comes to a `switch` in a working copy;
* `tokens_apply_of_processes` : the body of a case is closed where the case ends, unless a `$` stands in it outside of the
  braces that it opens: then there.
-/

namespace SourceLikeness.Tokenizer.SwitchStatement
open Bracket Pattern
open Text (StandsAt inked wordAt wordBefore isAsciiWord)
open WorkingCopy (masked terminator switchEnd)
variable {s t : List Char} {w u v x : Work} {head l q region : Span} {hit : Hit} {breaks ls : List Span} {i m n stop : Nat}

/-! ## What is found in a region -/

theorem wordBefore_of_edge {c : Cursor} (hc : c.In s) (hedge : c.atWordEdge = true) (hhead : c.rest.head?.any Text.isWord = true) :
    wordBefore s c.offset = false := by
  have hbefore : c.before.any Text.isWord = false := by
    rw [Cursor.atWordEdge, hhead] at hedge
    simpa using hedge
  by_contra hword
  obtain ⟨x, hx, hxword⟩ := (Option.any_eq_true _ _).1 (Bool.not_eq_false _ ▸ hword)
  rw [hc.before, hx, Option.any_some, Text.isWord_eq_isAsciiWord (Text.isAscii_of_isAsciiWord hxword), hxword] at hbefore
  exact Bool.noConfusion hbefore

/-- The token of a `break` that ends a case. The label is in front of it. -/
theorem isBreak_of_mem_readings (hmem : hit ∈ caseBreak.readings s) : IsBreak s hit.token ∧ 0 < hit.token.start := by
  obtain ⟨d, hd, heq⟩ := Finder.read_of_hitOf (Finder.hitOf_of_mem hmem)
  obtain ⟨c₁, hword, c₂, hvalue, c₃, hcolon, c₄, hbody, c₅, ⟨_, ⟨hedge, rfl⟩, c₆, htext, c₇, hblanks, hsemicolon⟩, rfl⟩ :=
    reads_of_read hd
  have htoken : hit.token = ⟨c₄.offset, c₅.offset⟩ := by
    rw [heq]
    rfl
  have hin₁ := (hword.mem (Finder.in_start s _)).1
  have hin₂ := (hvalue.mem hin₁).1
  have hlt := hcolon.lt_of_solid hin₂ (by decide)
  have hin₃ := (hcolon.mem hin₂).1
  obtain ⟨hin₄, hle⟩ := hbody.mem hin₃
  obtain ⟨hin₆, hle₆⟩ := htext.mem hin₄
  obtain ⟨hin₇, hle₇⟩ := hblanks.mem hin₆
  obtain ⟨hin₅, hle₅⟩ := hsemicolon.mem hin₇
  have hlen : c₅.offset ≤ s.length := by
    have hwithin := (within_of_mem_readings hmem).token.stop_le
    rwa [htoken] at hwithin
  obtain ⟨g, hg, hblank⟩ := reads_many hblanks
  have hrest : c₄.rest = ("break".toList ++ (g ++ [';'])) ++ c₅.rest := by
    rw [reads_chars htext, hg, reads_chars hsemicolon]
    simp only [List.append_assoc]
    rfl
  rw [htoken]
  refine ⟨⟨wordBefore_of_edge hin₄ hedge (by rw [hrest]; rfl), g, ?_, fun a ha => holds_blank.symm.trans (hblank a ha)⟩, ?_⟩
  · exact hin₄.slice_of_rest hin₅ (Nat.le_trans hle₆ (Nat.le_trans hle₇ hle₅)) hlen hrest
  · exact Nat.lt_of_le_of_lt (Nat.zero_le _) (Nat.lt_of_lt_of_le hlt hle)

theorem isBreak_of_mem (hmem : q ∈ tokensWithin caseBreak region s) : IsBreak s q := by
  obtain ⟨hit, hread, rfl⟩ := List.mem_map.1 hmem
  obtain ⟨hbreak, hpos⟩ := isBreak_of_mem_readings hread
  have hstop : hit.token.stop ≤ region.stop - region.start :=
    Nat.le_trans (within_of_mem_readings hread).token.stop_le (List.length_take_le _ _)
  have hlt := hbreak.lt
  refine ⟨?_, ?_⟩
  · have hbefore := hbreak.before
    rw [Text.wordBefore_of_pos hpos, wordAt, WorkingCopy.getElem?_slice, if_pos (by omega)] at hbefore
    change wordBefore s (hit.token.start + region.start) = false
    rwa [Text.wordBefore_of_pos (by omega), wordAt, show hit.token.start + region.start - 1 = region.start + (hit.token.start - 1) by omega]
  · rw [← slice_slice hstop]
    exact hbreak.reads

/-- A label ends with a colon. -/
theorem colon_of_mem (hmem : l ∈ tokensWithin label region s) : l.start < l.stop ∧ s[l.stop - 1]? = some ':' := by
  obtain ⟨hit, hread, rfl⟩ := List.mem_map.1 hmem
  have hwhole : hit.token = hit.whole := Finder.token_eq_whole (f := reader label) (by decide) hread
  obtain ⟨d, hd, heq⟩ := Finder.read_of_hitOf (Finder.hitOf_of_mem hread)
  obtain ⟨c₁, hedge, c₂, hname, hcolon⟩ := reads_of_read hd
  have hin₁ := hedge.mem (Finder.in_start (region.slice s) _)
  have hin₂ := hname.mem hin₁.1
  obtain ⟨hreads, rfl⟩ := hcolon.of_spelled (w := [':']) rfl hin₂.1
  have hget : (region.slice s)[c₂.offset]? = some ':' := Text.prefix_drop_iff.1 hreads 0 Nat.one_pos
  rw [WorkingCopy.getElem?_slice] at hget
  split_ifs at hget
  have hle : hit.whole.start ≤ c₂.offset := Nat.le_trans hin₁.2 hin₂.2
  have hstop : hit.whole.stop = c₂.offset + 1 := congrArg (·.whole.stop) heq
  rw [hwhole, Span.shift]
  dsimp only
  rw [hstop, show c₂.offset + 1 + region.start - 1 = region.start + c₂.offset by omega]
  exact ⟨by omega, hget⟩

theorem pairwise_tokensWithin_label (region : Span) (s : List Char) :
    (tokensWithin label region s).Pairwise fun p q => p.stop ≤ q.start := by
  refine List.pairwise_map.2 ((Finder.pairwise_hitsWhere (reader label) _ _).imp_of_mem fun hg hh hle => ?_)
  have hwhole : ∀ {hit : Hit}, hit ∈ label.readings (region.slice s) → hit.token = hit.whole := fun hread =>
    Finder.token_eq_whole (f := reader label) (by decide) hread
  rw [hwhole hg, hwhole hh]
  rw [Finder.resume_eq_stop (f := reader label) (by decide) hg] at hle
  exact Nat.add_le_add_right hle region.start

/-! ## The shell of a switch -/

/-- The working copy in which the labels of a `switch` are looked for: its closing brace, the breaks that end its cases and
its header are claimed. -/
def shell (head : Span) (stop : Nat) (u : Work) : Work :=
  let open' := u.claim ⟨stop, stop + 1⟩ switchEnd
  ((tokensWithin caseBreak ⟨head.stop, stop⟩ open'.text).foldl (·.claim · masked) open').claim head terminator

/-- The labels of a `switch` that are recorded. -/
def labels (head : Span) (stop : Nat) (u : Work) : List Span :=
  (tokensWithin label ⟨head.stop, stop⟩ (shell head stop u).text).filter (shell head stop u).admits

theorem claim_claim (fill : Char) (c : Cell) : (c.claim fill).claim fill = c.claim fill := by
  unfold Cell.claim Cell.fill
  split_ifs <;> simp_all

theorem getElem?_claim (fill : Char) (w : Work) (q : Span) (i : Nat) :
    (w.claim q fill).cells[i]? = if q.Covers i then w.cells[i]?.map (Cell.claim fill) else w.cells[i]? :=
  WorkingCopy.getElem?_mapSpan_clamp (Cell.claim fill) q w.cells i

theorem getElem?_claims (fill : Char) (spans : List Span) (w : Work) (i : Nat) :
    (spans.foldl (·.claim · fill) w).cells[i]? =
      if ∃ q ∈ spans, q.Covers i then w.cells[i]?.map (Cell.claim fill) else w.cells[i]? :=
  getElem?_foldl_spans (claim_claim fill) (getElem?_claim fill) spans w i

/-- The breaks of a `switch`. -/
def breaksOf (head : Span) (stop : Nat) (u : Work) : List Span :=
  tokensWithin caseBreak ⟨head.stop, stop⟩ (u.claim ⟨stop, stop + 1⟩ switchEnd).text

theorem getElem?_shell (hle : head.stop ≤ i) (hlt : i < stop) : (shell head stop u).cells[i]? =
    if ∃ q ∈ breaksOf head stop u, q.Covers i then u.cells[i]?.map (Cell.claim masked) else u.cells[i]? := by
  have hheader : ¬ head.Covers i := fun h => absurd h.2 (Nat.not_lt.2 hle)
  have hstop : ¬ Span.Covers ⟨stop, stop + 1⟩ i := fun h => absurd h.1 (Nat.not_le.2 hlt)
  rw [shell, getElem?_claim, if_neg hheader, getElem?_claims, getElem?_claim, if_neg hstop]
  rfl

section Shell
variable (hclosing : closingBrace 1 head.stop (u.text.drop head.stop) = some stop)
include hclosing

theorem within_of_mem_breaks (hq : q ∈ breaksOf head stop u) : q.Within head.stop stop :=
  within_of_mem_tokensWithin (balanced_of_closingBrace hclosing).1 hq

/-- The closing brace of the `switch` is overwritten. -/
theorem getElem?_shell_stop : (shell head stop u).text[stop]? = some switchEnd := by
  obtain ⟨hle, hbrace, -⟩ := balanced_of_closingBrace hclosing
  have hheader : ¬ head.Covers stop := fun h => absurd h.2 (Nat.not_lt.2 hle)
  have hbreaks : ¬ ∃ q ∈ breaksOf head stop u, q.Covers stop := fun ⟨q, hq, hcovers⟩ =>
    absurd hcovers.2 (Nat.not_lt.2 (within_of_mem_breaks hclosing hq).stop_le)
  rw [WorkingCopy.text, List.getElem?_map, Option.map_eq_some_iff] at hbrace
  obtain ⟨c, hc, hchar⟩ := hbrace
  have hcell : (shell head stop u).cells[stop]? = some (c.claim switchEnd) := by
    rw [shell, getElem?_claim, if_neg hheader, getElem?_claims]
    refine (if_neg hbreaks).trans ?_
    rw [getElem?_claim, if_pos ⟨Nat.le_refl stop, Nat.lt_succ_self stop⟩, hc, Option.map_some]
  rw [WorkingCopy.text, List.getElem?_map, hcell, Option.map_some]
  have hne : c.char ≠ '\n' := by
    rw [hchar]
    decide
  exact congrArg some (by rw [Cell.claim, Cell.fill, if_neg hne])

theorem redacted_shell (hl : l ∈ labels head stop u) (hlen : t.length = u.text.length)
    (ht : ∀ i, l.stop ≤ i → t[i]? = (shell head stop u).text[i]?) (hbefore : wordBefore t l.stop = false) :
    Redacted (breaksOf head stop u) l.stop stop u.text t := by
  obtain ⟨hmem, hadmits⟩ := List.mem_filter.1 hl
  obtain ⟨hle, hbrace, -⟩ := balanced_of_closingBrace hclosing
  have hwithin : l.Within head.stop stop := within_of_mem_tokensWithin hle hmem
  obtain ⟨hlt, hcolon⟩ := colon_of_mem hmem
  obtain ⟨-, -, hfree⟩ := WorkingCopy.admits_iff.1 hadmits
  have hge := hwithin.le
  have hstop := hwithin.stop_le
  have htext : ∀ i, head.stop ≤ i → i < stop → (shell head stop u).text[i]? =
      if ∃ q ∈ breaksOf head stop u, q.Covers i then u.text[i]?.map (inked masked) else u.text[i]? := by
    intro i hge hi
    rw [WorkingCopy.text, List.getElem?_map, getElem?_shell hge hi, WorkingCopy.text, List.getElem?_map]
    split_ifs
    · rw [Option.map_map, Option.map_map]
      exact congrArg (Option.map · _) (funext fun c => WorkingCopy.char_fill masked c)
    · rfl
  -- The last character of the label is free, so it lies in no break.
  have hlast : ¬ ∃ q ∈ breaksOf head stop u, q.Covers (l.stop - 1) := by
    rintro ⟨q, hq, hcovers⟩
    have hcell : (shell head stop u).cells[l.stop - 1]? = _ := getElem?_shell (by omega) (by omega)
    rw [if_pos ⟨q, hq, hcovers⟩] at hcell
    rw [WorkingCopy.text, List.getElem?_map, Option.map_eq_some_iff] at hcolon
    obtain ⟨c, hc, -⟩ := hcolon
    obtain ⟨c', -, rfl⟩ := Option.map_eq_some_iff.1 (hcell.symm.trans hc)
    have hclaimed := hfree _ _ (by omega) (by omega) hc
    exact Bool.noConfusion hclaimed
  refine ⟨hlen, fun q hq => ?_, fun q hq hqlt => ?_, ?_, hbefore, fun i hi hlt => ?_, hbrace, ?_⟩
  · refine (isBreak_of_mem hq).congr fun i hi => ?_
    have hnot : ¬ Span.Covers ⟨stop, stop + 1⟩ i := fun h =>
      absurd h.1 (Nat.not_le.2 (Nat.lt_of_lt_of_le hi (within_of_mem_breaks hclosing hq).stop_le))
    rw [WorkingCopy.text, WorkingCopy.text, List.getElem?_map, List.getElem?_map, getElem?_claim, if_neg hnot]
  · by_contra hover
    exact hlast ⟨q, hq, by omega, by omega⟩
  · have hget := htext (l.stop - 1) (by omega) (by omega)
    rw [if_neg hlast, hcolon] at hget
    rw [Text.wordBefore_of_pos (by omega), wordAt, ← hget]
    rfl
  · rw [ht i hi, htext i (by omega) hlt]
  · rw [ht stop hwithin.stop_le]
    exact getElem?_shell_stop hclosing

end Shell

/-! ## Recording labels -/

/-- What is recorded for a label whose case ends at `n`. -/
def record (s : List Char) (n : Nat) (label : Span) : List (Token Category) :=
  ⟨.conditional, label.start, label.stop⟩ ::
    if s[bodyStart s label.stop]? = some '\x7b' then [] else [⟨.openBrace, label.stop, label.stop⟩, ⟨.closeBrace, n, n⟩]

theorem tokens_mark {c : Category} (h : n ≤ w.size) : (w.mark c n).tokens = w.tokens ++ [⟨c, n, n⟩] := by
  have hadmits : w.admits ⟨n, n⟩ = true :=
    WorkingCopy.admits_iff.2 ⟨Nat.le_refl _, h, fun p _ hle hlt => absurd hlt (Nat.not_lt.2 hle)⟩
  rw [WorkingCopy.mark, WorkingCopy.emit, if_pos hadmits]

theorem tokens_applyLabel (hadmits : x.admits l = true) (hred : Redacted breaks l.stop stop s (x.claim l terminator).text)
    (hle : l.stop ≤ stop) (hn : n ≤ stop)
    (hend : FirstStop (fun i => (EndsCase s i ∨ i = stop) ∨ s[i]? = some switchEnd) s 0 (bodyStart s l.stop) n) :
    (applyLabel stop x l).tokens = x.tokens ++ record s n l := by
  have hlen : stop < (x.claim l terminator).size := by
    rw [WorkingCopy.size_eq_length_text]
    exact (List.getElem?_eq_some_iff.1 hred.sign).1
  have hbrace : (x.claim l terminator).text[bodyStart s l.stop]? = some '\x7b' ↔ s[bodyStart s l.stop]? = some '\x7b' := by
    rcases Nat.lt_or_eq_of_le (bodyStart_le hle hred.closing (by decide)) with hlt | heq
    · exact hred.getElem?_iff (le_bodyStart s l.stop) hlt (by decide) (by decide) (by decide)
    · rw [heq, hred.sign, hred.closing]
      decide
  have hcase : caseEnd 0 (bodyStart s l.stop) (charBefore (x.claim l terminator).text (bodyStart s l.stop))
      ((x.claim l terminator).text.drop (bodyStart s l.stop)) = some n :=
    caseEnd_of_firstStop (hred.firstStop (le_bodyStart s l.stop) hn hend) (by rw [← WorkingCopy.size_eq_length_text]; omega)
  have htake : x.take .conditional l terminator =
      ⟨(x.claim l terminator).cells, x.tokens ++ [⟨.conditional, l.start, l.stop⟩]⟩ := by
    rw [WorkingCopy.take, if_pos hadmits, WorkingCopy.emit, if_pos hadmits]
    rfl
  unfold applyLabel
  rw [if_pos hadmits, htake]
  generalize hy : (⟨(x.claim l terminator).cells, x.tokens ++ [⟨.conditional, l.start, l.stop⟩]⟩ : Work) = y
  have htext : y.text = (x.claim l terminator).text := by rw [← hy]; rfl
  have hsize : y.size = (x.claim l terminator).size := by rw [← hy]; rfl
  have htokens : y.tokens = x.tokens ++ [⟨.conditional, l.start, l.stop⟩] := by rw [← hy]
  have hbody : bodyStart y.text l.stop = bodyStart s l.stop := by rw [htext, hred.bodyStart_eq hle]
  rw [bodyStart] at hbody
  dsimp only
  rw [hbody, htext, hcase, Option.getD_some, record]
  simp only [hbrace]
  split_ifs
  · exact htokens
  · rw [tokens_mark, tokens_mark, htokens, List.append_assoc, List.append_assoc]
    · rfl
    · omega
    · rw [size_mark]
      omega

/-- A label touches nothing behind itself. -/
theorem getElem?_applyLabel (hi : l.stop ≤ i) : (applyLabel stop x l).cells[i]? = x.cells[i]? := by
  have hemit : ∀ (y : Work) (c : Category) (q : Span), (y.emit c q).cells = y.cells := fun y c q => by
    unfold WorkingCopy.emit
    split_ifs <;> rfl
  have htake : (x.take .conditional l terminator).cells[i]? = x.cells[i]? := by
    have hnot : ¬ l.Covers i := fun h => absurd h.2 (Nat.not_lt.2 hi)
    unfold WorkingCopy.take
    split_ifs
    · rw [getElem?_claim, if_neg hnot, hemit]
    · rfl
  unfold applyLabel
  dsimp only
  split_ifs
  · exact htake
  · rw [WorkingCopy.mark, WorkingCopy.mark, hemit, hemit]
    exact htake
  · rfl

theorem admits_congr (hsize : x.size = v.size) (hsame : ∀ i, l.start ≤ i → x.cells[i]? = v.cells[i]?) :
    x.admits l = v.admits l := by
  rw [Bool.eq_iff_iff, WorkingCopy.admits_iff, WorkingCopy.admits_iff, hsize]
  refine and_congr_right fun _ => and_congr_right fun _ => forall₂_congr fun i c => forall₂_congr fun hle _ => ?_
  rw [hsame i hle]

/-- All labels are recorded that are free before the first of them is. -/
theorem tokens_foldl_applyLabel {f : Span → List (Token Category)} (hls : ls.Pairwise fun p q => p.stop ≤ q.start)
    (hsize : x.size = v.size) (hsame : ∀ l ∈ ls, ∀ i, l.start ≤ i → x.cells[i]? = v.cells[i]?)
    (hone : ∀ l ∈ ls, v.admits l = true → ∀ y : Work, y.size = v.size → (∀ i, l.start ≤ i → y.cells[i]? = v.cells[i]?) →
      (applyLabel stop y l).tokens = y.tokens ++ f l) :
    (ls.foldl (applyLabel stop) x).tokens = x.tokens ++ (ls.filter v.admits).flatMap f := by
  induction ls generalizing x with
  | nil => rw [List.foldl_nil, List.filter_nil, List.flatMap_nil, List.append_nil]
  | cons l ls ih =>
    obtain ⟨hlater, hls⟩ := List.pairwise_cons.1 hls
    obtain ⟨hl, hsames⟩ := List.forall_mem_cons.1 hsame
    obtain ⟨hrecord, hones⟩ := List.forall_mem_cons.1 hone
    have hadmits := admits_congr hsize hl
    have hnext : (applyLabel stop x l).size = v.size := (edits_applyLabel stop x l).grows.size_eq.trans hsize
    rw [List.foldl_cons, ih hls hnext (fun k hk i hi => ?_) hones]
    · cases hfree : v.admits l with
      | true =>
        rw [List.filter_cons_of_pos hfree, List.flatMap_cons, hrecord hfree x hsize hl, List.append_assoc]
      | false =>
        have hself : applyLabel stop x l = x := by
          unfold applyLabel
          rw [hadmits, hfree]
          rfl
        rw [List.filter_cons_of_neg (by rw [hfree]; exact Bool.false_ne_true), hself]
    · rw [getElem?_applyLabel (Nat.le_trans (hlater k hk) hi)]
      exact hsames k hk i hi

/-! ## The pass -/

/-- In the course of a pass over `w` the turn comes to a header, in the working copy `u`. The header is free, and its block
is closed at `stop`. -/
structure Processes (w u : Work) (head : Span) (stop : Nat) : Prop where
  turn : ∃ before after, (header.readings w.text).map Hit.whole = before ++ head :: after ∧ before.foldl applyHeader w = u
  free : u.isClaimed head = false
  closes : closingBrace 1 head.stop (u.text.drop head.stop) = some stop

/-- The scan for the end of a case stops where the case ends, if it does not come to a `$` before that. -/
theorem exists_scanned {body : Nat} (hbalanced : Balanced (Span.slice ⟨i, stop⟩ s)) (hbrace : s[stop]? = some '\x7d')
    (hi : i ≤ body) (hbody : body ≤ stop) :
    ∃ n, FirstStop (fun j => (EndsCase s j ∨ j = stop) ∨ s[j]? = some switchEnd) s 0 body n ∧
      ∃ p ≤ stop, IsCaseEnd s stop body p ∧ n ≤ p ∧ (n = p ↔ ∀ j, body ≤ j → j < p →
        depth brace? 0 (Span.slice ⟨body, j⟩ s) = some 0 → s[j]? ≠ some switchEnd) := by
  obtain ⟨p, hp, hend⟩ := exists_isCaseEnd_le hbalanced hi hbody
  obtain ⟨n, hn, hscan⟩ := FirstStop.exists_le (P := fun j => (EndsCase s j ∨ j = stop) ∨ s[j]? = some switchEnd) hend.le hend.level
    (Or.inl hend.holds)
  refine ⟨n, hscan, p, hp, hend, hn, (hend.eq_iff hscan ?_).trans Iff.rfl⟩
  have hword : ∀ {w : List Char}, w.head? ≠ none → w.head? ≠ some switchEnd → StandsAt w s p → s[p]? ≠ some switchEnd := by
    intro w hne hsign hstands heq
    obtain ⟨c, hc⟩ := Option.ne_none_iff_exists'.1 hne
    have hpos : 0 < w.length := List.length_pos_of_ne_nil fun hnil => hne (by rw [hnil]; rfl)
    have hget := Text.prefix_drop_iff.1 hstands.reads 0 hpos
    rw [Nat.add_zero, heq, ← List.head?_eq_getElem?] at hget
    exact hsign hget.symm
  rintro ((hclose | hcase | hdefault) | rfl) hsign
  · rw [hclose] at hsign
    exact absurd hsign (by decide)
  · exact hword (by decide) (by decide) hcase hsign
  · exact hword (by decide) (by decide) hdefault hsign
  · rw [hbrace] at hsign
    exact absurd hsign (by decide)

theorem tokens_shell (head : Span) (stop : Nat) (u : Work) : (shell head stop u).tokens = u.tokens := by
  have hclaims : ∀ (spans : List Span) (w : Work), (spans.foldl (·.claim · masked) w).tokens = w.tokens := by
    intro spans
    induction spans with
    | nil => exact fun _ => rfl
    | cons q spans ih => exact fun w => ih (w.claim q masked)
  exact hclaims _ _

theorem size_shell (head : Span) (stop : Nat) (u : Work) : (shell head stop u).size = u.size := by
  have hopen : WorkingCopy.Edits u (u.claim ⟨stop, stop + 1⟩ switchEnd) := .claim .refl _ isAscii_switchEnd
  have hbreaks := hopen.foldl
    (fun (w : Work) q => .claim .refl q isAscii_masked) (breaksOf head stop u)
  exact (hbreaks.claim head isAscii_terminator).grows.size_eq

/-- What a `switch` records if the scan stops at `caseStop` for each of its labels. -/
theorem tokens_applyRegion {caseStop : Span → Nat} (hclosing : closingBrace 1 head.stop (u.text.drop head.stop) = some stop)
    (hscan : ∀ l ∈ labels head stop u, caseStop l ≤ stop ∧ FirstStop
      (fun j => (EndsCase u.text j ∨ j = stop) ∨ u.text[j]? = some switchEnd) u.text 0 (bodyStart u.text l.stop) (caseStop l)) :
    (applyRegion head stop u).tokens = u.tokens ++ (labels head stop u).flatMap fun l => record u.text (caseStop l) l := by
  have hle := (balanced_of_closingBrace hclosing).1
  rw [← tokens_shell head stop u]
  refine tokens_foldl_applyLabel (pairwise_tokensWithin_label _ _) rfl (fun _ _ _ _ => rfl) fun l hmem hfree y hsize hsame => ?_
  have hl : l ∈ labels head stop u := List.mem_filter.2 ⟨hmem, hfree⟩
  obtain ⟨hstop, hend⟩ := hscan l hl
  have hfilled := WorkingCopy.filled_claim y l terminator
  have hlt := (colon_of_mem hmem).1
  have hred : Redacted (breaksOf head stop u) l.stop stop u.text (y.claim l terminator).text := by
    refine redacted_shell hclosing hl ?_ (fun i hi => ?_) ?_
    · rw [← WorkingCopy.size_eq_length_text, size_claim, hsize, size_shell, WorkingCopy.size_eq_length_text]
    · rw [hfilled.of_not fun h => absurd h.2 (Nat.not_lt.2 hi), WorkingCopy.text, WorkingCopy.text, List.getElem?_map,
        List.getElem?_map, hsame i (Nat.le_trans (Nat.le_of_lt hlt) hi)]
    · rw [Text.wordBefore_of_pos (by omega), wordAt, hfilled.of_mem (by omega)]
      cases y.text[l.stop - 1]? with
      | none => rfl
      | some c => exact Text.isAsciiWord_inked (by decide) c
  exact tokens_applyLabel ((admits_congr hsize hsame).trans hfree) hred (within_of_mem_tokensWithin hle hmem).stop_le hstop hend

/-- Each label that a `switch` records is followed by the marks of its body, unless that is a block. The closing mark stands
where the case ends, or before that at a `$` outside of all braces that the body opens, if there is one. -/
theorem tokens_apply_of_processes (h : Processes w u head stop) : ∃ (caseStop : Span → Nat) (later : List (Token Category)),
    (apply w).tokens = u.tokens ++ ((labels head stop u).flatMap fun l => record u.text (caseStop l) l) ++ later ∧
    ∀ l ∈ labels head stop u, ∃ p ≤ stop, IsCaseEnd u.text stop (bodyStart u.text l.stop) p ∧ caseStop l ≤ p ∧
      (caseStop l = p ↔ ∀ j, bodyStart u.text l.stop ≤ j → j < p →
        depth brace? 0 (Span.slice ⟨bodyStart u.text l.stop, j⟩ u.text) = some 0 → u.text[j]? ≠ some switchEnd) := by
  classical
  obtain ⟨hle, hbrace, hbalanced⟩ := balanced_of_closingBrace h.closes
  have hscanned : ∀ l : Span, ∃ n, l ∈ labels head stop u →
      FirstStop (fun j => (EndsCase u.text j ∨ j = stop) ∨ u.text[j]? = some switchEnd) u.text 0 (bodyStart u.text l.stop) n ∧
        ∃ p ≤ stop, IsCaseEnd u.text stop (bodyStart u.text l.stop) p ∧ n ≤ p ∧
          (n = p ↔ ∀ j, bodyStart u.text l.stop ≤ j → j < p →
            depth brace? 0 (Span.slice ⟨bodyStart u.text l.stop, j⟩ u.text) = some 0 → u.text[j]? ≠ some switchEnd) := by
    intro l
    by_cases hl : l ∈ labels head stop u
    · have hwithin : l.Within head.stop stop := within_of_mem_tokensWithin hle (List.mem_filter.1 hl).1
      obtain ⟨n, hn⟩ := exists_scanned hbalanced hbrace
        (Nat.le_trans hwithin.le (Nat.le_trans hwithin.start_le_stop (le_bodyStart u.text l.stop)))
        (bodyStart_le hwithin.stop_le hbrace (by decide))
      exact ⟨n, fun _ => hn⟩
    · exact ⟨0, fun hmem => absurd hmem hl⟩
  obtain ⟨caseStop, hstops⟩ := Classical.skolem.1 hscanned
  have hregion := tokens_applyRegion h.closes fun l hl => by
    obtain ⟨hscan, p, hp, -, hle, -⟩ := hstops l hl
    exact ⟨Nat.le_trans hle hp, hscan⟩
  obtain ⟨before, after, hheaders, hturn⟩ := h.turn
  have happly : apply w = after.foldl applyHeader (applyRegion head stop u) := by
    rw [apply, hheaders, List.foldl_append, List.foldl_cons, hturn, applyHeader, h.free, h.closes]
    rfl
  obtain ⟨later, hlater⟩ : (applyRegion head stop u).tokens <+: (apply w).tokens := by
    rw [happly]
    exact (WorkingCopy.Edits.foldl edits_applyHeader after .refl).grows.tokens
  exact ⟨caseStop, later, by rw [← hlater, hregion], fun l hl => (hstops l hl).2⟩

theorem tokens_apply_of_processes_blocks :
    let w : Work := .ofSource "switch (k) \x7b case 1: if (a) \x7b b = 1; \x7d break; default: \x7b c = 2; \x7d \x7d".toList
    Processes w w ⟨0, 12⟩ 66 ∧ ∃ (caseStop : Span → Nat) (later : List (Token Category)),
      (apply w).tokens = w.tokens ++ ((labels ⟨0, 12⟩ 66 w).flatMap fun l => record w.text (caseStop l) l) ++ later ∧
      ∀ l ∈ labels ⟨0, 12⟩ 66 w, ∃ p ≤ 66, IsCaseEnd w.text 66 (bodyStart w.text l.stop) p ∧ caseStop l ≤ p ∧
        (caseStop l = p ↔ ∀ j, bodyStart w.text l.stop ≤ j → j < p →
          depth brace? 0 (Span.slice ⟨bodyStart w.text l.stop, j⟩ w.text) = some 0 → w.text[j]? ≠ some switchEnd) := by
  intro w
  have h : Processes w w ⟨0, 12⟩ 66 := ⟨⟨[], [], by decide +kernel, rfl⟩, by decide +kernel, by decide +kernel⟩
  exact ⟨h, tokens_apply_of_processes h⟩

/-- A `$` of a name in the body of a case is taken for the end of the `switch`. -/
theorem not_closes_at_caseEnd :
    let w : Work := .ofSource "switch (k) \x7b case 1: $x = 1; break; case 2: y = 2; \x7d".toList
    Processes w w ⟨0, 12⟩ 51 ∧ ⟨13, 20⟩ ∈ labels ⟨0, 12⟩ 51 w ∧ w.text[bodyStart w.text 20]? ≠ some '\x7b' ∧
      IsCaseEnd w.text 51 (bodyStart w.text 20) 36 ∧ ⟨.closeBrace, 36, 36⟩ ∉ (apply w).tokens ∧
      [⟨.conditional, 13, 20⟩, ⟨.openBrace, 20, 20⟩, ⟨.closeBrace, 21, 21⟩] <+: (apply w).tokens := by
  intro w
  refine ⟨⟨⟨[], [], ?_, rfl⟩, ?_, ?_⟩, ?_⟩
  all_goals decide +kernel

end SourceLikeness.Tokenizer.SwitchStatement
