import SourceLikeness.Proofs.Blocks.Switch
import SourceLikeness.Proofs.Boundary.Passes
import SourceLikeness.Proofs.Renaming.Statement
import SourceLikeness.Proofs.Tokenizer.Places

/-!
# Statements that cut no character

The markers of these passes stand at places that no pattern reads: behind the layout in front of a body, and where the block
or the case of a `switch` ends.

* `BareBody.Framed`, `BareBody.framed_of_mem_bodies` : bodies go from a boundary or a blank to a boundary;
* `BareBody.isBoundary_skip`, `BareBody.intact_apply` : so their markers stand at boundaries;
* `SwitchStatement.getElem?_caseEnd` : a case ends where a character stands that is no fill;
* `SwitchStatement.intact_apply` : the headers, labels and cases of switches.
-/

namespace SourceLikeness.Tokenizer
open WorkingCopy
open Text (charBefore)
variable {w : Work} {source fills : List Char} {fill : Char}

/-! ## Bodies without braces -/

namespace BareBody
open Pattern

/-- A body from a boundary or a blank to a boundary. -/
structure Framed (source s : List Char) (body : Span) : Prop where
  start : IsBoundary source body.start ∨ s[body.start]? = some blank
  lt : body.start < body.stop
  stop : IsBoundary source body.stop
  stop_le : body.stop ≤ s.length

/-- The patterns for bodies: their tokens start at no seam of an open fill but blanks, and stop at none. -/
def framed (p : Pattern) : Bool :=
  p.notes .token && (p.bodies .token).all Pattern.solid &&
    (openFills.all fun x => x == blank || (Seam.between x).tidy .token p false ((Seam.between x).ends p false)) &&
    openFills.all fun x => (p.bodies .token).all ((Seam.between x).edges · false)

variable {s : List Char} {p : Pattern} {hit : Hit}

theorem framed_elseBody : framed elseBody = true := by decide +kernel

theorem framed_doBody : framed doBody = true := by decide +kernel

theorem framed_headedBody : framed headedBody = true := by decide +kernel

/-- The body of a reading, by the seams at which it may stand. -/
theorem token_of_framed (hp : framed p = true) (hmem : hit ∈ p.readings s) :
    (∀ x ∈ openFills, x ≠ blank → (Seam.between x).seamAt s hit.token.start = false) ∧ hit.token.start < hit.token.stop ∧
      ∀ x ∈ openFills, (Seam.between x).seamAt s hit.token.stop = false := by
  simp only [framed, Bool.and_eq_true] at hp
  obtain ⟨⟨⟨hnotes, hsolid⟩, htidy⟩, hedges⟩ := hp
  obtain ⟨q, hq⟩ := Finder.exists_part? (f := reader p) hmem hnotes
  rw [show hit.token = q by rw [Hit.token, hq, Option.getD_some]]
  refine ⟨fun x hx hne => ?_, Finder.start_lt_stop_of_part (f := reader p) hmem hq hsolid, fun x hx => ?_⟩
  · have hclear := (Bool.or_eq_true_iff.1 (List.all_eq_true.1 htidy x hx)).resolve_left fun heq => hne (beq_iff_eq.1 heq)
    exact (Seam.clear_part_of_mem (f := reader p) hclear hmem hq).start
  · exact Seam.stop_of_part (f := reader p) (List.all_eq_true.1 hedges x hx) hmem hq

/-- Where only a seam of blanks can be, there is a boundary or a blank. -/
theorem isBoundary_or_blank (hs : Knit source s) {n : Nat} (hn : n < s.length)
    (hseam : ∀ x ∈ openFills, x ≠ blank → (Seam.between x).seamAt s n = false) :
    IsBoundary source n ∨ s[n]? = some blank := by
  by_cases hb : IsBoundary source n
  · exact Or.inl hb
  · obtain ⟨x, hx, hbefore, hat⟩ := hs.char n hn hb
    by_cases heq : x = blank
    · exact Or.inr (heq ▸ hat)
    · have hs := (Seam.seamAt_between fun h => newline_not_mem_openFills (h ▸ hx)).2 ⟨hbefore, hat⟩
      rw [hseam x hx heq] at hs
      exact Bool.noConfusion hs

theorem framed_of_mem (hp : framed p = true) (hs : Knit source s) (hmem : hit ∈ p.readings s) : Framed source s hit.token := by
  obtain ⟨hstart, hlt, hstop⟩ := token_of_framed hp hmem
  have hle := (within_of_mem_readings hmem).token.stop_le
  exact ⟨isBoundary_or_blank hs (Nat.lt_of_lt_of_le hlt hle) hstart, hlt, hs.isBoundary hle hstop, hle⟩

/-! ### Texts without headers -/

theorem knit_hide (hs : Knit source s) {q : Span} (hq : q.Aligned source) : Knit source (hide s q) where
  length_eq := (length_hide s q).trans hs.length_eq
  char n hn hb := by
    rw [length_hide] at hn
    obtain ⟨x, hx, hbefore, hat⟩ := hs.char n hn hb
    obtain ⟨m, rfl⟩ := Nat.exists_eq_succ_of_ne_zero (Nat.ne_of_gt (pos_of_not_isBoundary hb))
    have hbefore : s[m]? = some x := hbefore
    have hstart : m + 1 ≠ q.start := fun heq => hb (show IsBoundary source (m + 1) from heq ▸ hq.start)
    have hstop : m + 1 ≠ q.stop := fun heq => hb (show IsBoundary source (m + 1) from heq ▸ hq.stop)
    change ∃ x ∈ openFills, (hide s q)[m]? = some x ∧ (hide s q)[m + 1]? = some x
    rw [getElem?_hide, getElem?_hide, hbefore, hat]
    by_cases hin : q.start ≤ m ∧ m < q.stop
    · rw [if_pos hin, if_pos (by omega)]
      exact ⟨masked, by decide, rfl, rfl⟩
    · rw [if_neg hin, if_neg (by omega)]
      exact ⟨x, hx, rfl, rfl⟩

theorem knit_withoutHeaders (hs : Knit source s) : Knit source (withoutHeaders s) := by
  have hheaders : ∀ q ∈ (forHeader.readings s).map Hit.token, q.Aligned source := by
    intro q hq
    obtain ⟨hit, hmem, rfl⟩ := List.mem_map.1 hq
    have hfirm : Finder.sparesTokens (reader forHeader) = true := by decide +kernel
    exact hs.aligned (within_of_mem_readings hmem).token fun x hx =>
      Seam.clear_token_of_mem (List.all_eq_true.1 hfirm x hx) hmem
  unfold withoutHeaders
  generalize (forHeader.readings s).map Hit.token = headers at hheaders ⊢
  induction headers generalizing s with
  | nil => exact hs
  | cons q headers ih =>
    obtain ⟨hq, hrest⟩ := List.forall_mem_cons.1 hheaders
    exact ih (knit_hide hs hq) hrest

/-- What is not hidden stands in the text. -/
theorem getElem?_of_withoutHeaders {i : Nat} {x : Char} (h : (withoutHeaders s)[i]? = some x) (hx : x ≠ '.') :
    s[i]? = some x := by
  unfold withoutHeaders at h
  generalize (forHeader.readings s).map Hit.token = headers at h
  induction headers generalizing s with
  | nil => exact h
  | cons q headers ih =>
    have hone := ih h
    rw [getElem?_hide] at hone
    split_ifs at hone
    · obtain ⟨-, -, rfl⟩ := Option.map_eq_some_iff.1 hone
      exact absurd rfl hx
    · exact hone

theorem framed_of_mem_headedBodies {body : Span} (hs : Knit source s) (hbody : body ∈ headedBodies s) : Framed source s body := by
  obtain ⟨header, hmem, hread⟩ := List.mem_filterMap.1 hbody
  obtain ⟨hit, hhit, rfl⟩ := Option.map_eq_some_iff.1 hread
  have hreads := mem_readings_of_readStart hhit
  obtain ⟨hstart, hlt, hstop⟩ := token_of_framed framed_headedBody hreads
  have hle := (within_of_mem_readings hreads).token.stop_le
  rw [List.length_drop] at hle
  have hclean : Finder.sparesHits (reader (word headed)) = true := by decide +kernel
  have hheader : IsBoundary source header.whole.start :=
    hs.isBoundary (Finder.start_le_of_mem hmem) fun x hx => (Seam.clear_whole_of_mem (List.all_eq_true.1 hclean x hx) hmem).start
  refine ⟨?_, Nat.add_lt_add_right hlt _, ?_, by change hit.token.stop + header.whole.start ≤ s.length; omega⟩
  · change IsBoundary source (hit.token.start + header.whole.start) ∨ s[hit.token.start + header.whole.start]? = some blank
    rw [Nat.add_comm]
    rcases Nat.eq_zero_or_pos hit.token.start with hzero | hpos
    · rw [hzero]
      exact Or.inl hheader
    · refine isBoundary_or_blank hs (by omega) fun x hx hne => ?_
      rw [← Seam.seamAt_drop hpos]
      exact hstart x hx hne
  · change IsBoundary source (hit.token.stop + header.whole.start)
    rw [Nat.add_comm]
    refine hs.isBoundary (by omega) fun x hx => ?_
    rw [← Seam.seamAt_drop (Nat.zero_lt_of_lt hlt)]
    exact hstop x hx

theorem framed_of_mem_bodies {body : Span} (hs : Knit source s) (hbody : body ∈ bodies s) : Framed source s body := by
  rcases List.mem_append.1 hbody with hbody | hbody
  · rcases List.mem_append.1 hbody with hbody | hbody
    · obtain ⟨hit, hmem, rfl⟩ := List.mem_map.1 (List.mem_filter.1 hbody).1
      exact framed_of_mem framed_elseBody hs hmem
    · obtain ⟨hit, hmem, rfl⟩ := List.mem_map.1 hbody
      exact framed_of_mem framed_doBody hs hmem
  · have hframed := framed_of_mem_headedBodies (knit_withoutHeaders hs) hbody
    refine ⟨hframed.start.imp_right fun h => getElem?_of_withoutHeaders h (by decide), hframed.lt, hframed.stop, ?_⟩
    rw [← length_withoutHeaders s]
    exact hframed.stop_le

/-! ### The markers -/

/-- Behind the layout in front of a body stands a boundary. -/
theorem isBoundary_skip {body : Span} (hs : Knit source s) (hbody : Framed source s body) :
    IsBoundary source (body.start + ((body.slice s).takeWhile Text.isLayout).length) := by
  have hlt := hbody.lt
  have hle := hbody.stop_le
  have hlength : (body.slice s).length = body.stop - body.start := by
    rw [Span.slice, List.length_take, List.length_drop]
    omega
  have hat : ∀ i, body.start + i < body.stop → (body.slice s)[i]? = s[body.start + i]? := fun i hi => by
    rw [getElem?_slice, if_pos (by omega)]
  have hsplit : (body.slice s).takeWhile Text.isLayout ++ (body.slice s).dropWhile Text.isLayout = body.slice s :=
    List.takeWhile_append_dropWhile
  have hall : ((body.slice s).takeWhile Text.isLayout).all Text.isLayout = true := List.all_takeWhile
  have hhead := List.head?_dropWhile_not Text.isLayout (body.slice s)
  generalize (body.slice s).takeWhile Text.isLayout = layout at hsplit hall
  generalize (body.slice s).dropWhile Text.isLayout = rest at hsplit hhead
  rw [← hsplit] at hlength hat
  rw [List.length_append] at hlength
  cases rest with
  | nil =>
    rw [List.length_nil, Nat.add_zero] at hlength
    rw [hlength, Nat.add_sub_cancel' (Nat.le_of_lt hlt)]
    exact hbody.stop
  | cons c rest =>
    rw [List.length_cons] at hlength
    have hc : Text.isLayout c = false := by simpa using hhead
    have hnext : s[body.start + layout.length]? = some c := by
      rw [← hat _ (by omega), List.getElem?_append_right (Nat.le_refl _), Nat.sub_self, List.getElem?_cons_zero]
    rcases List.eq_nil_or_concat' layout with rfl | ⟨front, a, rfl⟩
    · rw [List.length_nil, Nat.add_zero] at hnext ⊢
      refine hbody.start.resolve_right fun hblank => ?_
      rw [hnext] at hblank
      rw [Option.some.inj hblank] at hc
      exact absurd hc (by decide)
    · -- The last character that is skipped is layout, the one behind it is not.
      have hprev : s[body.start + front.length]? = some a := by
        rw [List.length_append, List.length_singleton] at hlength
        rw [← hat _ (by omega), List.append_assoc, List.getElem?_append_right (Nat.le_refl _), Nat.sub_self]
        rfl
      have ha : Text.isLayout a = true := List.all_eq_true.1 hall a (List.mem_append_right _ (List.mem_singleton_self a))
      rw [List.length_append, List.length_singleton] at hlength hnext ⊢
      refine hs.isBoundary_of_ne (by omega) fun heq => ?_
      rw [hnext, show charBefore s (body.start + (front.length + 1)) = s[body.start + front.length]? from rfl, hprev] at heq
      rw [Option.some.inj heq, hc] at ha
      exact Bool.noConfusion ha

theorem text_mark (w : Work) (c : Category) (n : Nat) : (w.mark c n).text = w.text := by
  unfold WorkingCopy.mark WorkingCopy.emit
  split_ifs <;> rfl

theorem intact_wrap {body : Span} (hs : Knit source w.text) (hbody : Framed source w.text body) (hw : w.Solid source fills) :
    Intact source fills w (wrap w body) :=
  ((Intact.refl hw).mark (isBoundary_skip hs hbody) _).mark hbody.stop _

theorem intact_foldl_wrap {spans : List Span} (hs : Knit source w.text) (hspans : ∀ q ∈ spans, Framed source w.text q)
    (hw : w.Solid source fills) : Intact source fills w (spans.foldl wrap w) := by
  induction spans generalizing w with
  | nil => exact .refl hw
  | cons q spans ih =>
    obtain ⟨hq, hrest⟩ := List.forall_mem_cons.1 hspans
    have hwrap := intact_wrap hs hq hw
    have htext : (wrap w q).text = w.text := (text_mark _ _ _).trans (text_mark _ _ _)
    exact hwrap.trans (ih (htext ▸ hs) (fun r hr => htext ▸ hrest r hr) hwrap.solid)

theorem intact_apply (hfills : ∀ x ∈ fills, x = masked) (hw : w.Solid source fills) : Intact source fills w (apply w) :=
  intact_foldl_wrap (hw.knit hfills) (fun _ hq => framed_of_mem_bodies (hw.knit hfills) hq) hw

end BareBody

/-! ## Switch statements -/

namespace SwitchStatement
open Pattern
variable {v : Work} {s : List Char} {p : Pattern} {q header label : Span} {stop : Nat}

/-! ### Where cases end -/

/-- What a case ends at: a closing brace, one of a `switch`, or a label. -/
def caseEnds : List Char := ['\x7d', switchEnd, 'c', 'd']

theorem head_of_startsWord {word : String} {before : Option Char} {x c : Char} {u rest : List Char}
    (hword : word.toList = x :: u) (h : startsWord word before (c :: rest) = true) : c = x := by
  simp only [startsWord, hword, Bool.and_eq_true, List.isPrefixOf_cons_cons, beq_iff_eq] at h
  exact h.1.1.1.symm

theorem getElem?_caseEnd {depth offset n : Nat} {before : Option Char} (h : caseEnd depth offset before s = some n) :
    offset ≤ n ∧ ∃ x ∈ caseEnds, s[n - offset]? = some x := by
  have hlater : ∀ {c : Char} {rest : List Char} {k : Nat}, (k + 1 ≤ n ∧ ∃ x ∈ caseEnds, rest[n - (k + 1)]? = some x) →
      k ≤ n ∧ ∃ x ∈ caseEnds, (c :: rest)[n - k]? = some x := by
    rintro c rest k ⟨hle, x, hx, hget⟩
    refine ⟨Nat.le_of_succ_le hle, x, hx, ?_⟩
    rw [show n - k = n - (k + 1) + 1 by omega, List.getElem?_cons_succ, hget]
  have hhere : ∀ {c : Char} {rest : List Char} {k : Nat}, some k = some n → c ∈ caseEnds →
      k ≤ n ∧ ∃ x ∈ caseEnds, (c :: rest)[n - k]? = some x := by
    rintro c rest k hk hc
    obtain rfl := Option.some.inj hk
    exact ⟨Nat.le_refl _, c, hc, by rw [Nat.sub_self, List.getElem?_cons_zero]⟩
  induction s generalizing depth offset before with
  | nil => exact nomatch h
  | cons c rest ih =>
    unfold caseEnd at h
    split_ifs at h with hopen hclose hdepth hend
    · exact hlater (ih h)
    · exact hhere h (by rw [hclose]; decide)
    · exact hlater (ih h)
    · refine hhere h ?_
      simp only [Bool.and_eq_true, Bool.or_eq_true, beq_iff_eq] at hend
      rcases hend.2 with (rfl | hcase) | hdefault
      · decide
      · rw [head_of_startsWord (x := 'c') rfl hcase]
        decide
      · rw [head_of_startsWord (x := 'd') rfl hdefault]
        decide
    · exact hlater (ih h)

/-! ### What is found in a region -/

theorem spares_of_mem_tokensWithin (hp : Finder.sparesTokens (reader p) = true) (hw : w.Solid source fills) {region : Span}
    (hregion : region.Aligned source) (hle : region.start ≤ region.stop) (hstop : region.stop ≤ w.size)
    (hq : q ∈ tokensWithin p region w.text) : q.Spares source w := by
  obtain ⟨hit, hmem, rfl⟩ := List.mem_map.1 hq
  have hclear := fun x hx => Seam.clear_token_of_mem (List.all_eq_true.1 hp x hx) hmem
  have hwithin := (within_of_mem_readings hmem).token
  have hlength : (region.slice w.text).length = region.stop - region.start := by
    rw [Span.slice, List.length_take, List.length_drop, ← size_eq_length_text]
    omega
  -- At the ends of the region stand boundaries, and what is a seam between them is one of the region.
  have hplace : ∀ n ≤ (region.slice w.text).length,
      (∀ x ∈ openFills, (Seam.between x).seamAt (region.slice w.text) n = false) → Spared source w (n + region.start) := by
    intro n hn hseam
    rw [Nat.add_comm]
    rcases Nat.eq_zero_or_pos n with rfl | hpos
    · exact Or.inl hregion.start
    · rcases Nat.lt_or_eq_of_le hn with hlt | heq
      · refine hw.spared (by omega) fun x hx => ?_
        rw [← Seam.seamAt_drop hpos, ← Seam.seamAt_take (n := region.stop - region.start) (by omega)]
        exact hseam x hx
      · rw [heq, hlength, Nat.add_sub_cancel' hle]
        exact Or.inl hregion.stop
  exact ⟨hplace _ (Nat.le_trans hwithin.start_le_stop hwithin.stop_le) fun x hx => (hclear x hx).start,
    hplace _ hwithin.stop_le fun x hx => (hclear x hx).stop⟩

theorem lt_of_mem_tokensWithin (hp : (reader p).solid = true) {region : Span} (hq : q ∈ tokensWithin p region s) :
    q.start < q.stop := by
  obtain ⟨hit, hmem, rfl⟩ := List.mem_map.1 hq
  exact Nat.add_lt_add_right (Finder.token_lt_of_mem hmem hp) _

/-! ### The pass -/

theorem isBoundary_of_caseEnds {n : Nat} {x : Char} (hw : w.Solid source closedFills) (hn : w.text[n]? = some x)
    (hx : x ∈ caseEnds) : IsBoundary source n := by
  have hnot : ∀ x ∈ caseEnds, x ∉ openFills ∧ x ∉ closedFills := by decide
  exact (hw.isBoundary_of_getElem? hn (hnot x hx).1 (hnot x hx).2).1

theorem intact_applyLabel (hlabel : label.Spares source w) (hlt : label.start < label.stop) (hstop : IsBoundary source stop)
    (hv : Intact source closedFills w v) : Intact source closedFills w (applyLabel stop v label) := by
  have hfill : terminator ∈ closedFills := by decide
  have htake := hv.take hlabel hlt Category.conditional hfill isAscii_terminator
  unfold applyLabel
  dsimp only
  split_ifs with hadmits
  · exact htake
  · have haligned := hv.solid.aligned (hlabel.grows hv.grows) hlt hadmits
    refine (htake.mark haligned.stop _).mark ?_ _
    generalize v.take Category.conditional label terminator = u at htake ⊢
    generalize label.stop + ((u.text.drop label.stop).takeWhile Text.isLayout).length = body
    cases hcase : caseEnd 0 body (charBefore u.text body) (u.text.drop body) with
    | none => exact hstop
    | some n =>
      obtain ⟨hle, x, hx, hget⟩ := getElem?_caseEnd hcase
      rw [List.getElem?_drop, Nat.add_sub_cancel' hle] at hget
      exact isBoundary_of_caseEnds htake.solid hget hx
  · exact hv

theorem intact_applyRegion (hheader : header.Spares source w) (hstart : IsBoundary source header.stop)
    (hle : header.stop ≤ stop) (hbrace : v.text[stop]? = some '\x7d') (hv : Intact source closedFills w v) :
    Intact source closedFills w (applyRegion header stop v) := by
  have hstop := hv.solid.isBoundary_of_getElem? hbrace (by decide) (by decide)
  have hsize : stop ≤ v.size := by
    rw [size_eq_length_text]
    exact Nat.le_of_lt (List.getElem?_eq_some_iff.1 hbrace).1
  have hregion : Span.Aligned source ⟨header.stop, stop⟩ := ⟨hstart, hstop.1⟩
  have hclosed := hv.claim_one hstop isAscii_switchEnd
  unfold applyRegion
  dsimp only
  -- Each stage starts anew from what the one before it left.
  have hbroken : Intact source closedFills w
      ((tokensWithin caseBreak ⟨header.stop, stop⟩ (v.claim ⟨stop, stop + 1⟩ switchEnd).text).foldl (·.claim · masked)
        (v.claim ⟨stop, stop + 1⟩ switchEnd)) := by
    have hbreaks : Finder.sparesTokens (reader caseBreak) = true := by decide +kernel
    refine hclosed.trans (.foldl (.refl hclosed.solid) fun q hq u hu => hu.claim ?_ (by decide) isAscii_masked)
    refine spares_of_mem_tokensWithin hbreaks hclosed.solid hregion hle ?_ hq
    rw [hclosed.grows.size_eq, ← hv.grows.size_eq]
    exact hsize
  have hfill : terminator ∈ closedFills := by decide
  have hopened := hbroken.claim hheader hfill isAscii_terminator
  have hlabels : Finder.sparesTokens (reader SwitchStatement.label) = true := by decide +kernel
  refine hopened.trans (.foldl (.refl hopened.solid) fun q hq u hu => ?_)
  refine intact_applyLabel (spares_of_mem_tokensWithin hlabels hopened.solid hregion hle ?_ hq)
    (lt_of_mem_tokensWithin (by decide +kernel) hq) hstop.1 hu
  rw [hopened.grows.size_eq, ← hv.grows.size_eq]
  exact hsize

theorem intact_applyHeader {h : Hit} (hw : w.Solid source closedFills) (hmem : h ∈ SwitchStatement.header.readings w.text)
    (hv : Intact source closedFills w v) : Intact source closedFills w (applyHeader v h.whole) := by
  have hheaders : Finder.sparesHits (reader SwitchStatement.header) = true := by decide +kernel
  unfold applyHeader
  split_ifs
  · exact hv
  · split
    · exact hv
    · rename_i stop hstop
      obtain ⟨hle, hbrace⟩ := getElem?_closingBrace hstop
      rw [List.getElem?_drop, Nat.add_sub_cancel' hle] at hbrace
      obtain ⟨hlt, hopening, -⟩ := opening_of_mem hmem
      have hstart := (hw.isBoundary_of_getElem? hopening (by decide) (by decide)).2
      rw [Nat.sub_add_cancel (Nat.succ_le_of_lt (Nat.zero_lt_of_lt hlt))] at hstart
      exact intact_applyRegion (Finder.spares_whole hheaders hw hmem) hstart hle hbrace hv

theorem intact_apply (hw : w.Solid source closedFills) : Intact source closedFills w (apply w) := by
  refine .foldl (.refl hw) fun q hq v hv => ?_
  obtain ⟨h, hmem, rfl⟩ := List.mem_map.1 hq
  exact intact_applyHeader hw hmem hv

end SwitchStatement
end SourceLikeness.Tokenizer
