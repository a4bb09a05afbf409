import SourceLikeness.Proofs.Boundary.Tokenizer
import SourceLikeness.Proofs.Cases.Labels
import SourceLikeness.Proofs.Silence.Basic

/-!
# Passes over a quiet part

* `CompoundAssignment.quiet_apply`, `SwitchStatement.quiet_apply` : passes that may write over a quiet part;
* `ConditionalExpression.quiet_apply` : a conditional expression writes nothing over a part of blank lines;
* `Trailed`, `trailed_classify` : what the first passes write over the part goes on from in front of it;
* `BareBody.quiet_apply` : so no body without braces starts in it;
* `not_covers_of_mem_tokenize` : no token starts in a part that is blank behind the masking passes.
-/

namespace SourceLikeness.Tokenizer
open Pattern WorkingCopy
open Text (Filled inked charBefore isBlank)
variable {z q : Span} {dead : List Char} {w v : Work} {s : List Char} {f : Finder} {fill x : Char} {i n : Nat}

/-- What a quiet part may hold in the end. -/
def deadSigns : List Char := [blank, '\n', masked, terminator, WorkingCopy.operator]

/-! ## Compound assignments -/

namespace CompoundAssignment

theorem quiet_apply (h : Quiet deadSigns z w) : Quiet deadSigns z (apply w) := by
  refine h.foldl fun hit hmem v hv => ?_
  have hwhole : ¬ z.Covers hit.whole.start := by
    obtain ⟨d, hd, heq⟩ := Finder.read_of_hitOf (Finder.hitOf_of_mem hmem)
    have hreads := reads_of_read hd
    obtain ⟨x, hx, hget⟩ := hreads.exists_of_startsOff (Finder.in_start w.text _)
      (show compound.startsOff deadSigns = true by decide) (hreads.lt_of_solid (Finder.in_start w.text _) (by decide))
    exact h.not_covers hget hx
  have htoken : ¬ z.Covers hit.token.start := by
    obtain ⟨x, hx, hget⟩ := Finder.exists_token_of_startsOff hmem
      (show (reader compound).startsOff deadSigns = true by decide)
    exact h.not_covers hget hx
  unfold applyHit
  dsimp only
  split_ifs
  · exact hv
  · exact ((hv.mark .assign hwhole).take _ htoken (by decide)).claim (Or.inl (by decide))

end CompoundAssignment

/-! ## Switch statements -/

namespace SwitchStatement
variable {label head : Span} {stop : Nat}

theorem quiet_applyLabel (h : Quiet deadSigns z v) (hstart : ¬ z.Covers label.start) (hlabel : ¬ z.Covers label.stop)
    (hstop : ¬ z.Covers stop) : Quiet deadSigns z (applyLabel stop v label) := by
  have htake : Quiet deadSigns z (v.take .conditional label terminator) := h.take .conditional hstart (by decide)
  unfold applyLabel
  dsimp only
  split_ifs
  · exact htake
  · refine (htake.mark _ hlabel).mark _ ?_
    generalize v.take Category.conditional label terminator = u at htake ⊢
    generalize label.stop + ((u.text.drop label.stop).takeWhile Text.isLayout).length = body
    cases hcase : caseEnd 0 body (charBefore u.text body) (u.text.drop body) with
    | none => exact hstop
    | some n =>
      obtain ⟨hle, x, hx, hget⟩ := getElem?_caseEnd hcase
      have hlive : ∀ x ∈ caseEnds, x ∉ deadSigns := by decide
      rw [List.getElem?_drop, Nat.add_sub_cancel' hle] at hget
      exact htake.not_covers hget (hlive x hx)
  · exact h

theorem quiet_shell (h : Quiet deadSigns z v) (hstop : ¬ z.Covers stop) : Quiet deadSigns z (shell head stop v) := by
  have hbrace : ∀ i, Span.Covers ⟨stop, stop + 1⟩ i → ¬ z.Covers i := fun i hi => by
    obtain rfl : i = stop := Nat.le_antisymm (Nat.le_of_lt_succ hi.2) hi.1
    exact hstop
  have hopen : Quiet deadSigns z (v.claim ⟨stop, stop + 1⟩ switchEnd) := h.claim (Or.inr hbrace)
  exact (hopen.foldl fun q _ u hu => hu.claim (Or.inl (by decide))).claim (Or.inl (by decide))

theorem quiet_applyHeader (h : Quiet deadSigns z v) : Quiet deadSigns z (applyHeader v head) := by
  unfold applyHeader
  split_ifs
  · exact h
  · cases hclosing : closingBrace 1 head.stop (v.text.drop head.stop) with
    | none => exact h
    | some stop =>
      obtain ⟨hle, hbrace, -⟩ := balanced_of_closingBrace hclosing
      have hstop : ¬ z.Covers stop := h.not_covers hbrace (by decide)
      have hshell : Quiet deadSigns z (shell head stop v) := quiet_shell h hstop
      refine hshell.foldl fun label hmem u hu => ?_
      obtain ⟨hlt, hcolon⟩ := colon_of_mem hmem
      have hend := hshell.not_covers_succ hcolon (by decide) (by decide)
      rw [Nat.sub_add_cancel (by omega)] at hend
      refine quiet_applyLabel hu ?_ hend hstop
      obtain ⟨hit, hread, rfl⟩ := List.mem_map.1 hmem
      obtain ⟨x, hx, hget⟩ := Finder.exists_token_of_startsOff hread
        (show (reader SwitchStatement.label).startsOff deadSigns = true by decide)
      rw [getElem?_slice] at hget
      split_ifs at hget
      have hplace : (hit.token.shift head.stop).start = head.stop + hit.token.start := Nat.add_comm _ _
      rw [hplace]
      exact hshell.not_covers hget hx

theorem quiet_apply (h : Quiet deadSigns z w) : Quiet deadSigns z (apply w) := h.foldl fun _ _ _ hv => quiet_applyHeader hv

end SwitchStatement

/-! ## Conditional expressions -/

/-- A part of a text from the start of a line to the end of one that is blank. -/
structure BlankLines (z : Span) (s : List Char) : Prop where
  lineStart : (charBefore s z.start).all (· == '\n') = true
  lineEnd : s[z.stop]?.all (· == '\n') = true
  text : ∀ i, z.Covers i → ∃ x ∈ [blank, '\n'], s[i]? = some x

namespace ConditionalExpression
variable {h : Hit} {c m k d : Cursor} {a b : Nat}

/-- A stretch without newlines that has something in common with blank lines lies in them. -/
theorem covers_of_noNewline (hz : BlankLines z s) (hb : b ≤ s.length) (hline : ∀ j, a ≤ j → j < b → s[j]? ≠ some '\n')
    (hai : a ≤ i) (hib : i < b) (hi : z.Covers i) : ∀ j, a ≤ j → j < b → z.Covers j := by
  have hstart : z.start ≤ a := by
    by_contra hlt
    have hbefore := hz.lineStart
    obtain ⟨p, hp⟩ := Nat.exists_eq_succ_of_ne_zero (show z.start ≠ 0 by omega)
    rw [hp] at hbefore
    change (s[p]?).all _ = true at hbefore
    have hle := hi.1
    rw [List.getElem?_eq_getElem (by omega)] at hbefore
    refine hline p (by omega) (by omega) ?_
    rw [List.getElem?_eq_getElem (by omega)]
    exact congrArg some (beq_iff_eq.1 hbefore)
  have hstop : b ≤ z.stop := by
    by_contra hlt
    have hend := hz.lineEnd
    have hle := hi.2
    rw [List.getElem?_eq_getElem (by omega)] at hend
    refine hline z.stop (by omega) (by omega) ?_
    rw [List.getElem?_eq_getElem (by omega)]
    exact congrArg some (beq_iff_eq.1 hend)
  exact fun j haj hjb => ⟨Nat.le_trans hstart haj, Nat.lt_of_lt_of_le hjb hstop⟩

/-- A condition has a sign of a comparison, so it does not lie in blank lines. -/
theorem not_covers_condition (hz : BlankLines z s) (h : condition.Reads c m) (hc : c.In s) (hm : m.offset ≤ s.length)
    (hi : Span.Covers ⟨c.offset, m.offset⟩ i) : ¬ z.Covers i := by
  intro hcovers
  have hnewline : ∀ j, c.offset ≤ j → j < m.offset → s[j]? ≠ some '\n' := fun j hj hlt heq =>
    absurd (h.stop_le_of_avoids (by decide) hc heq hj) (Nat.not_le.2 hlt)
  have hall := covers_of_noNewline hz hm hnewline hi.1 hi.2 hcovers
  obtain ⟨d, hplus, e, hcomparison, hrest⟩ := h
  obtain ⟨hd, hcd⟩ := hplus.mem hc
  have hlt := hcomparison.lt_of_solid hd (by decide)
  obtain ⟨x, hx, hget⟩ := hcomparison.exists_of_startsOff hd
    (show startsOff [blank, '\n'] (any [text "==", text ">=", text "<=", text ">", text "<"]) = true by decide) hlt
  have hem := (hrest.mem (hcomparison.mem hd).1).2
  obtain ⟨y, hy, hblank⟩ := hz.text d.offset (hall d.offset hcd (Nat.lt_of_lt_of_le hlt hem))
  obtain rfl := Option.some.inj (hget.symm.trans hblank)
  exact hx hy

/-- A piece whose characters are all alive lies beside a quiet part. -/
theorem not_covers_piece {accept : Hit → Bool} {name : Part} (hw : Quiet dead z w) (hmem : h ∈ finder.hitsWhere accept w.text)
    (hq : h.part? name = some q) (havoids : (finder.pattern.bodies name).all (fun b => dead.all b.avoids) = true) :
    ∀ i, q.Covers i → ¬ z.Covers i := by
  intro i hi hcovers
  obtain ⟨body, hbody, a, b, hreads, ha, rfl⟩ := Finder.exists_body hmem hq
  obtain ⟨x, hx, hget⟩ := hw.text i hcovers
  have hle := hreads.stop_le_of_avoids (List.all_eq_true.1 (List.all_eq_true.1 havoids body hbody) x hx) ha hget hi.1
  exact absurd hi.2 (Nat.not_lt.2 hle)

theorem not_covers_lead {accept : Hit → Bool} {l : Category × Span} (hw : Quiet [blank, '\n'] z w)
    (hmem : h ∈ finder.hitsWhere accept w.text) (hl : lead? h = some l) : ∀ i, l.2.Covers i → ¬ z.Covers i := by
  unfold lead? at hl
  split at hl
  · rename_i q hq
    obtain rfl := Option.some.inj hl
    exact not_covers_piece hw hmem hq (by decide)
  · obtain ⟨q, hq, rfl⟩ := Option.map_eq_some_iff.1 hl
    exact not_covers_piece hw hmem hq (by decide)

theorem not_covers_first (hn : ¬ z.Covers q.start) : ∀ i, (first q).Covers i → ¬ z.Covers i := by
  intro i hi
  obtain rfl : i = q.start := Nat.le_antisymm (Nat.le_of_lt_succ hi.2) hi.1
  exact hn

theorem quiet_openBlock {lead : Option Category} (hv : Quiet dead z v) (hn : ¬ z.Covers n) : Quiet dead z (openBlock lead n v) := by
  have hopen := (hv.mark .conditional hn).mark .openBrace hn
  cases lead with
  | none => exact hopen
  | some c => exact hopen.mark c hn

theorem quiet_apply (hz : BlankLines z w.text) (hw : Quiet [blank, '\n'] z w) : Quiet [blank, '\n'] z (apply w) := by
  refine hw.foldl fun h hmem v hv => ?_
  obtain ⟨d, hd, heq⟩ := Finder.read_of_hitOf (Finder.hitOf_of_mem hmem)
  obtain ⟨c₁, hblanks, c₂, hlead, hbody⟩ := reads_of_read hd
  obtain ⟨m, n, k, hs⟩ := exists_sections hbody (congrArg (·.whole.stop) heq) (congrArg (·.parts) heq)
  have hin := (hlead.mem (hblanks.mem (Finder.in_start w.text _)).1).1
  have hquestion : ¬ z.Covers m.offset := hw.not_covers (hs.question hin) (by decide)
  have hcolon : ¬ z.Covers n.offset := hw.not_covers (hs.colon hin) (by decide)
  have hsemicolon : ¬ z.Covers (k.offset - 1) := by
    have hget := hs.semicolon hin
    obtain ⟨j, hj⟩ := Nat.exists_eq_succ_of_ne_zero (Nat.ne_of_gt (Nat.zero_lt_of_lt (hs.lt_stop hin)))
    rw [hj] at hget ⊢
    exact hw.not_covers (i := j) hget (by decide)
  have hcondition : ∀ i, Span.Covers ⟨c₂.offset, m.offset⟩ i → ¬ z.Covers i := fun i =>
    not_covers_condition hz hs.condition hin (Nat.le_of_lt (List.getElem?_eq_some_iff.1 (hs.question hin)).1)
  have hmarks : ∀ lead : Option Category, Quiet [blank, '\n'] z
      ((openBlock lead n.offset ((openBlock lead m.offset v).mark .closeBrace n.offset)).mark .closeBrace (k.offset - 1)) :=
    fun lead => (quiet_openBlock ((quiet_openBlock hv hquestion).mark _ hcolon) hcolon).mark _ hsemicolon
  unfold applyHit
  rw [hs.condition?, hs.thenBranch?, hs.elseBranch?]
  dsimp only
  refine ((Quiet.claim ?_ (Or.inr hcondition)).claim (Or.inr (not_covers_first hquestion))).claim (Or.inr (not_covers_first hcolon))
  cases hl : lead? h with
  | none => exact hmarks none
  | some l => exact (hmarks (some l.1)).claim (Or.inr (not_covers_lead hw hmem hl))

end ConditionalExpression

/-! ## What the first passes write over blank lines -/

/-- What a quiet part may hold before the search for bodies without braces. -/
def earlySigns : List Char := [blank, '\n', masked]

/-- What is masked in a part has something masked in front of it, over newlines. -/
def Trailed (z : Span) (s : List Char) : Prop := ∀ p, z.Covers p → s[p]? = some masked →
  ∃ j < p, s[j]? = some masked ∧ ∀ i, j < i → i < p → s[i]? = some '\n'

theorem Quiet.trailed (h : Quiet [blank, '\n'] z w) : Trailed z w.text := by
  intro p hp hat
  obtain ⟨x, hx, hget⟩ := h.text p hp
  obtain rfl := Option.some.inj (hat.symm.trans hget)
  exact absurd hx (by decide)

/-- The last character before an offset that is no newline. -/
theorem exists_last_not_newline {a p : Nat} (hap : a < p) (hp : p ≤ s.length) (ha : s[a]? = some x) (hx : x ≠ '\n') :
    ∃ j, a ≤ j ∧ j < p ∧ (∃ y, s[j]? = some y ∧ y ≠ '\n') ∧ ∀ i, j < i → i < p → s[i]? = some '\n' := by
  induction p with
  | zero => exact absurd hap (Nat.not_lt_zero a)
  | succ p ih =>
    by_cases hnewline : s[p]? = some '\n'
    · have hne : a ≠ p := fun heq => hx (Option.some.inj (ha.symm.trans (heq ▸ hnewline)))
      obtain ⟨j, haj, hjp, hj, hbetween⟩ := ih (by omega) (by omega)
      refine ⟨j, haj, by omega, hj, fun i hji hip => ?_⟩
      rcases Nat.lt_or_eq_of_le (Nat.le_of_lt_succ hip) with hlt | rfl
      · exact hbetween i hji hlt
      · exact hnewline
    · have hget := List.getElem?_eq_getElem (show p < s.length by omega)
      exact ⟨p, by omega, Nat.lt_succ_self p, ⟨_, hget, fun heq => hnewline (heq ▸ hget)⟩, fun i hji hip => by omega⟩

theorem Trailed.of_filled {t : List Char} (h : Trailed z s) (ht : Filled (inked masked) q.start q.stop s t)
    (hq : ¬ z.Covers q.start) (hstart : s[q.start]? = some x) (hx : x ≠ '\n') : Trailed z t := by
  have hmasked : ∀ {i y}, s[i]? = some y → y ≠ '\n' → (q.start ≤ i ∧ i < q.stop ∨ y = masked) → t[i]? = some masked := by
    intro i y hi hy hcase
    rw [ht i]
    split_ifs with hin
    · rw [hi, Option.map_some, inked, if_neg hy]
    · rw [hi, hcase.resolve_left hin]
  have hnewline : ∀ {i}, s[i]? = some '\n' → t[i]? = some '\n' := fun hi => by
    rw [ht]
    split_ifs
    · rw [hi]
      rfl
    · exact hi
  intro p hp hat
  by_cases hin : q.start ≤ p ∧ p < q.stop
  · have hlt : q.start < p := Nat.lt_of_le_of_ne hin.1 fun heq => hq (heq ▸ hp)
    have hlen : p < s.length := by
      rw [← ht.length_eq]
      exact (List.getElem?_eq_some_iff.1 hat).1
    obtain ⟨j, hqj, hjp, ⟨y, hj, hy⟩, hbetween⟩ := exists_last_not_newline hlt (Nat.le_of_lt hlen) hstart hx
    exact ⟨j, hjp, hmasked hj hy (Or.inl ⟨hqj, by omega⟩), fun i hji hip => hnewline (hbetween i hji hip)⟩
  · rw [ht.of_not hin] at hat
    obtain ⟨j, hjp, hj, hbetween⟩ := h p hp hat
    exact ⟨j, hjp, hmasked hj (by decide) (Or.inr rfl), fun i hji hip => hnewline (hbetween i hji hip)⟩

/-- A working copy with a quiet part, where what is masked has a trail, on the way from another. -/
structure Trailing (z : Span) (w v : Work) : Prop where
  quiet : Quiet earlySigns z v
  trailed : Trailed z v.text
  char : ∀ (i : Nat) (x : Char), w.text[i]? = some x → x ≠ '\n' → ∃ y, v.text[i]? = some y ∧ y ≠ '\n'

theorem Trailing.take (h : Trailing z w v) (category : Category) (hstart : w.text[q.start]? = some x) (hx : x ∉ earlySigns)
    (hq : ¬ z.Covers q.start) : Trailing z w (v.take category q masked) := by
  have hne : ∀ {y : Char}, y ∉ earlySigns → y ≠ '\n' := fun hy heq => hy (heq ▸ by decide)
  have hquiet : Quiet earlySigns z (v.take category q masked) := h.quiet.take category hq (by decide)
  unfold WorkingCopy.take at hquiet ⊢
  split_ifs at hquiet ⊢ with hadmits
  · have htext : (v.emit category q).text = v.text := by
      unfold WorkingCopy.emit
      rw [if_pos hadmits]
      rfl
    have hfilled : Filled (inked masked) q.start q.stop v.text ((v.emit category q).claim q masked).text :=
      htext ▸ filled_claim (v.emit category q) q masked
    obtain ⟨y, hy, hynewline⟩ := h.char _ _ hstart (hne hx)
    refine ⟨hquiet, h.trailed.of_filled hfilled hq hy hynewline, fun i x hi hxi => ?_⟩
    obtain ⟨y, hy, hynewline⟩ := h.char i x hi hxi
    rw [hfilled i]
    split_ifs
    · refine ⟨inked masked y, by rw [hy, Option.map_some], ?_⟩
      rw [inked, if_neg hynewline]
      decide
    · exact ⟨y, hy, hynewline⟩
  · exact h

theorem trailed_classify (category : Category) (hw : Quiet earlySigns z w) (ht : Trailed z w.text)
    (hf : f.startsOff earlySigns = true) :
    Quiet earlySigns z (classify f category masked false w) ∧ Trailed z (classify f category masked false w).text := by
  have hstep : ∀ hits : List Hit, (∀ hit ∈ hits, ∃ x ∉ earlySigns, w.text[hit.token.start]? = some x) → ∀ v, Trailing z w v →
      Trailing z w (hits.foldl (classifyHit category masked false) v) := by
    intro hits
    induction hits with
    | nil => exact fun _ v hv => hv
    | cons hit hits ih =>
      intro hstarts v hv
      obtain ⟨⟨x, hx, hget⟩, hrest⟩ := List.forall_mem_cons.1 hstarts
      refine ih hrest _ ?_
      unfold classifyHit
      split_ifs with hadmits hswallows
      · cases hswallows
      · exact hv.take category hget hx (hw.not_covers hget hx)
      · exact hv
  have hall : Trailing z w (classify f category masked false w) :=
    hstep _ (fun hit hmem => Finder.exists_token_of_startsOff hmem hf) w ⟨hw, ht, fun i x hi hx => ⟨x, hi, hx⟩⟩
  exact ⟨hall.quiet, hall.trailed⟩

/-! ## Bodies without braces -/

namespace BareBody
variable {c d m k : Cursor} {body : Span} {hit : Hit} {p : Pattern}

/-- A body that blanks lead to from the last character of an `else`, a `do` or a header. It ends with a semicolon. -/
structure Led (s : List Char) (body : Span) : Prop where
  front : ∃ j < body.start, (∃ x ∈ ['e', 'o', ')'], s[j]? = some x) ∧
    ∀ i, j < i → i < body.start → ∃ y, s[i]? = some y ∧ isBlank y = true
  lt : body.start < body.stop
  semicolon : s[body.stop - 1]? = some ';'

/-- What is read by a pattern that spells something out ends with its last character. -/
theorem before_of_spelled {u : List Char} (hp : p.spelled? = some (u ++ [x])) (h : p.Reads c d) (hc : c.In s) :
    ∃ j, d.offset = j + 1 ∧ s[j]? = some x := by
  obtain ⟨⟨rest, hrest⟩, rfl⟩ := h.of_spelled hp hc
  refine ⟨c.offset + u.length, by rw [Cursor.moved, List.length_append]; rfl, ?_⟩
  rw [← List.getElem?_drop, ← hrest, List.append_assoc, List.getElem?_append_right (Nat.le_refl _), Nat.sub_self]
  rfl

/-- What is read by any number of characters of a set. -/
theorem forall_of_many {set : CharSet} (h : (many (one set)).Reads c d) (hc : c.In s) :
    ∀ i, c.offset ≤ i → i < d.offset → ∃ y, s[i]? = some y ∧ set.holds y = true := by
  induction h with
  | refl => exact fun i hle hlt => absurd hlt (Nat.not_lt.2 hle)
  | tail hsteps hstep ih =>
    intro i hle hlt
    have hb := (Reads.mem (p := many (one set)) hsteps hc).1
    obtain ⟨y, rest, hrest, hy, rfl⟩ := hstep
    rcases Nat.lt_or_eq_of_le (Nat.le_of_lt_succ hlt) with hlt | rfl
    · exact ih i hle hlt
    · exact ⟨y, hb.getElem? hrest, hy⟩

/-- The body of a reading: blanks lead to it from the place behind what is read first. -/
theorem led_of_reads (hm : m.In s) (hbefore : ∃ j, m.offset = j + 1 ∧ ∃ x ∈ ['e', 'o', ')'], s[j]? = some x)
    (hreads : (all [blanks, statement]).Reads m d) : Led s (Hit.token ⟨q, d.parts⟩) := by
  obtain ⟨j, hj, hx⟩ := hbefore
  obtain ⟨n, hblanks, k, ⟨e, hplus, hsemicolon⟩, rfl⟩ := hreads
  obtain ⟨hn, hmn⟩ := hblanks.mem hm
  obtain ⟨he, hne⟩ := hplus.mem hn
  obtain ⟨i, hi, hget⟩ := before_of_spelled (u := []) rfl hsemicolon he
  have hlt := hsemicolon.lt_of_solid he (by decide)
  rw [show Hit.token ⟨q, (n.note .token k).parts⟩ = ⟨n.offset, k.offset⟩ from rfl]
  refine ⟨⟨j, ?_, hx, fun i hji hin => ?_⟩, Nat.lt_of_le_of_lt hne hlt, ?_⟩
  · dsimp only
    omega
  · obtain ⟨y, hy, hblank⟩ := forall_of_many hblanks hm i (by omega) hin
    exact ⟨y, hy, holds_blank.symm.trans hblank⟩
  · rw [hi]
    exact hget

theorem led_of_mem_elseBody (hmem : hit ∈ elseBody.readings s) : Led s hit.token := by
  obtain ⟨e, he, heq⟩ := Finder.read_of_hitOf (Finder.hitOf_of_mem (f := reader elseBody) hmem)
  obtain ⟨_, ⟨-, rfl⟩, m, helse, hreads⟩ := reads_of_read he
  have hc := Finder.in_start s hit.whole.start
  obtain ⟨j, hj, hx⟩ := before_of_spelled (u := ['e', 'l', 's']) rfl helse hc
  rw [heq]
  exact led_of_reads (helse.mem hc).1 ⟨j, hj, 'e', by decide, hx⟩ hreads

theorem led_of_mem_doBody (hmem : hit ∈ doBody.readings s) : Led s hit.token := by
  obtain ⟨e, he, heq⟩ := Finder.read_of_hitOf (Finder.hitOf_of_mem (f := reader doBody) hmem)
  obtain ⟨m, ⟨_, ⟨-, rfl⟩, n, hdo, -, rfl⟩, hreads⟩ := reads_of_read he
  have hc := Finder.in_start s hit.whole.start
  obtain ⟨j, hj, hx⟩ := before_of_spelled (u := ['d']) rfl hdo hc
  rw [heq]
  exact led_of_reads (hdo.mem hc).1 ⟨j, hj, 'o', by decide, hx⟩ hreads

theorem led_of_mem_headedBody (hmem : hit ∈ headedBody.readings s) : Led s hit.token := by
  obtain ⟨e, he, heq⟩ := Finder.read_of_hitOf (Finder.hitOf_of_mem (f := reader headedBody) hmem)
  obtain ⟨c₁, hword, c₂, hblanks, c₃, hopen, c₄, hinner, m, hclose, hreads⟩ := reads_of_read he
  have hc := (hinner.mem (hopen.mem (hblanks.mem (hword.mem (Finder.in_start s hit.whole.start)).1).1).1).1
  obtain ⟨j, hj, hx⟩ := before_of_spelled (u := []) rfl hclose hc
  rw [heq]
  exact led_of_reads (hclose.mem hc).1 ⟨j, hj, ')', by decide, hx⟩ hreads

theorem Led.of_drop (h : Led (s.drop n) body) : Led s (body.shift n) := by
  obtain ⟨j, hj, ⟨x, hx, hat⟩, hbetween⟩ := h.front
  have hstop : (body.shift n).stop - 1 = n + (body.stop - 1) := by
    have hlt := h.lt
    change body.stop + n - 1 = _
    omega
  refine ⟨⟨n + j, ?_, ⟨x, hx, by rw [← List.getElem?_drop, hat]⟩, fun i hji hi => ?_⟩, Nat.add_lt_add_right h.lt n, ?_⟩
  · change n + j < body.start + n
    omega
  · have hi : i < body.start + n := hi
    obtain ⟨y, hy, hblank⟩ := hbetween (i - n) (by omega) (by omega)
    rw [List.getElem?_drop, Nat.add_sub_cancel' (by omega)] at hy
    exact ⟨y, hy, hblank⟩
  · rw [hstop, ← List.getElem?_drop, h.semicolon]

/-- Hidden headers lead to no body. -/
theorem Led.of_withoutHeaders (h : Led (withoutHeaders s) body) : Led s body := by
  obtain ⟨j, hj, ⟨x, hx, hat⟩, hbetween⟩ := h.front
  have hfronts : ∀ x ∈ ['e', 'o', ')'], x ≠ '.' := by decide
  refine ⟨⟨j, hj, ⟨x, hx, getElem?_of_withoutHeaders hat (hfronts x hx)⟩, fun i hji hi => ?_⟩, h.lt,
    getElem?_of_withoutHeaders h.semicolon (by decide)⟩
  obtain ⟨y, hy, hblank⟩ := hbetween i hji hi
  refine ⟨y, getElem?_of_withoutHeaders hy ?_, hblank⟩
  rintro rfl
  exact Bool.noConfusion hblank

theorem led_of_mem_bodies (hbody : body ∈ bodies s) : Led s body := by
  rcases List.mem_append.1 hbody with hbody | hbody
  · rcases List.mem_append.1 hbody with hbody | hbody
    · obtain ⟨hit, hmem, rfl⟩ := List.mem_map.1 (List.mem_filter.1 hbody).1
      exact led_of_mem_elseBody hmem
    · obtain ⟨hit, hmem, rfl⟩ := List.mem_map.1 hbody
      exact led_of_mem_doBody hmem
  · obtain ⟨header, -, hread⟩ := List.mem_filterMap.1 hbody
    obtain ⟨hit, hhit, rfl⟩ := Option.map_eq_some_iff.1 hread
    exact (led_of_mem_headedBody (mem_readings_of_readStart hhit)).of_drop.of_withoutHeaders

/-- An opening marker stands behind blanks and layout that lead to it from a character that is alive. In a quiet part there
would be something masked among them. -/
theorem not_covers_skip (hw : Quiet earlySigns z w) (ht : Trailed z w.text) (hbody : Led w.text body) :
    ¬ z.Covers (body.start + ((body.slice w.text).takeWhile Text.isLayout).length) := by
  intro hcovers
  obtain ⟨j, hj, ⟨x, hx, hat⟩, hbetween⟩ := hbody.front
  have hslice : ∀ i < body.stop - body.start, (body.slice w.text)[i]? = w.text[body.start + i]? := fun i hi => by
    rw [getElem?_slice, if_pos hi]
  have hlt := hbody.lt
  have hlayout : ∀ i, i < ((body.slice w.text).takeWhile Text.isLayout).length →
      i < body.stop - body.start ∧ ∃ y, w.text[body.start + i]? = some y ∧ Text.isLayout y = true := fun i hi => by
    obtain ⟨y, hy, hlay⟩ := Text.exists_of_lt_takeWhile hi
    rw [getElem?_slice] at hy
    split_ifs at hy with hin
    exact ⟨hin, y, hy, hlay⟩
  have hstop : ((body.slice w.text).takeWhile Text.isLayout).length < body.stop - body.start := by
    by_contra hge
    obtain ⟨-, y, hy, hlay⟩ := hlayout (body.stop - 1 - body.start) (by omega)
    rw [show body.start + (body.stop - 1 - body.start) = body.stop - 1 by omega, hbody.semicolon] at hy
    obtain rfl := Option.some.inj hy
    exact absurd hlay (by decide)
  generalize hn : ((body.slice w.text).takeWhile Text.isLayout).length = n at *
  have hmasked : w.text[body.start + n]? = some masked := by
    obtain ⟨y, hy, hget⟩ := hw.text _ hcovers
    have hnot : Text.isLayout y = false := Text.eq_false_of_takeWhile (by rw [hn, hslice n hstop, hget])
    have hsigns : ∀ y ∈ earlySigns, Text.isLayout y = false → y = masked := by decide
    rw [hget, hsigns y hy hnot]
  obtain ⟨i, hi, hdot, hnewlines⟩ := ht _ hcovers hmasked
  rcases Nat.lt_trichotomy i j with hlt | rfl | hgt
  · rw [hnewlines j hlt (by omega)] at hat
    obtain rfl := Option.some.inj hat
    exact absurd hx (by decide)
  · rw [hdot] at hat
    obtain rfl := Option.some.inj hat
    exact absurd hx (by decide)
  · by_cases hfront : i < body.start
    · obtain ⟨y, hy, hblank⟩ := hbetween i hgt hfront
      obtain rfl := Option.some.inj (hdot.symm.trans hy)
      exact absurd hblank (by decide)
    · obtain ⟨-, y, hy, hlay⟩ := hlayout (i - body.start) (by omega)
      rw [Nat.add_sub_cancel' (by omega), hdot] at hy
      obtain rfl := Option.some.inj hy
      exact absurd hlay (by decide)

theorem quiet_apply (hw : Quiet earlySigns z w) (ht : Trailed z w.text) : Quiet earlySigns z (apply w) := by
  have hstep : ∀ spans : List Span, (∀ body ∈ spans, Led w.text body) → ∀ v : Work, v.text = w.text → Quiet earlySigns z v →
      Quiet earlySigns z (spans.foldl wrap v) := by
    intro spans
    induction spans with
    | nil => exact fun _ v _ hv => hv
    | cons body spans ih =>
      intro hspans v htext hv
      obtain ⟨hbody, hrest⟩ := List.forall_mem_cons.1 hspans
      refine ih hrest _ ?_ ?_
      · exact ((text_mark _ _ _).trans (text_mark _ _ _)).trans htext
      · have hstop := hw.not_covers_succ hbody.semicolon (by decide) (by decide)
        rw [Nat.sub_add_cancel (Nat.zero_lt_of_lt hbody.lt)] at hstop
        have hstart := not_covers_skip hw ht hbody
        rw [← htext] at hstart
        exact (hv.mark .openBrace hstart).mark .closeBrace hstop
  exact hstep _ (fun _ => led_of_mem_bodies) w rfl hw

end BareBody

/-! ## All passes -/

/-- The pass keeps a part quiet, whatever the final fills it holds by then. -/
def Action.hushes : Action → Bool
  | .erase _ fill => deadSigns.contains fill
  | .classify f _ fill _ => deadSigns.contains fill && f.startsOff deadSigns
  | .switches | .compoundAssignments => true
  | _ => false

theorem Action.quiet_apply {a : Action} (ha : a.hushes = true) (h : Quiet deadSigns z w) : Quiet deadSigns z (a.apply w) := by
  cases a with
  | erase f fill => exact h.erase f (List.contains_iff_mem.1 ha)
  | classify f category fill swallows =>
    obtain ⟨hfill, hf⟩ := Bool.and_eq_true_iff.1 ha
    exact h.classify (List.contains_iff_mem.1 hfill) hf
  | switches => exact SwitchStatement.quiet_apply h
  | compoundAssignments => exact CompoundAssignment.quiet_apply h
  | docstrings | conditionalExpressions | bareBodies => exact Bool.noConfusion ha

/-- Declarations start at the edge of a word. -/
theorem quiet_declaration (body : Pattern) (name : String) (category : Category) (h : Quiet deadSigns z w) :
    Quiet deadSigns z ((Pass.construct name (all [wordEdge, part .token body, Shape.declarationEnd]) category).apply w) := by
  refine h.classify_of_starts (by decide) fun accept hit hmem => ?_
  obtain ⟨d, hd, heq⟩ := Finder.read_of_hitOf (Finder.hitOf_of_mem hmem)
  obtain ⟨_, ⟨hedge, rfl⟩, _, ⟨k, -, rfl⟩, y, rest, -, -, rfl⟩ := reads_of_read hd
  rw [heq]
  exact h.not_covers_of_edge (by decide) hedge

theorem quiet_declarationPasses (s : Settings) : ∀ p ∈ declarationPasses s, ∀ w, Quiet deadSigns z w → Quiet deadSigns z (p.apply w) := by
  unfold declarationPasses
  simp only [List.forall_mem_append]
  have hall := fun body name category w => quiet_declaration (z := z) (w := w) body name category
  refine ⟨⟨⟨?_, ?_⟩, ?_⟩, ?_⟩ <;> split_ifs
  all_goals first | exact List.forall_mem_nil _ | exact List.forall_mem_singleton.2 fun w => hall _ _ _ w

/-- The passes of the C family behind the masking passes, up to the one for bodies without braces. -/
def earlyPasses : List Pass :=
  [⟨"ternary", .conditionalExpressions⟩, .construct "function_pointers" Header.functionPointer .pointer,
    .construct "pointer_returning_functions" Header.pointerReturningFunction .function, ⟨"missing_braces", .bareBodies⟩]

theorem exists_late (s : Settings) : ∃ late : List Pass,
    cPasses s = maskingPasses ++ earlyPasses ++ late ∧ ∀ p ∈ late, p.action.hushes = true ∨ p ∈ declarationPasses s := by
  obtain ⟨front, control, operators, assignments, hpasses, hfront, hhushes⟩ : ∃ front control operators assignments : List Pass,
      cPasses s = front ++ declarationPasses s ++ control ++ operators ++ assignments ++ bracePasses ∧
        front.take 8 = maskingPasses ++ earlyPasses ∧
        (front.drop 8 ++ (control ++ operators ++ assignments ++ bracePasses)).all (·.action.hushes) = true :=
    ⟨_, _, _, _, rfl, rfl, by decide +kernel⟩
  refine ⟨front.drop 8 ++ (declarationPasses s ++ (control ++ operators ++ assignments ++ bracePasses)), ?_, ?_⟩
  · rw [← hfront, ← List.append_assoc, List.take_append_drop, hpasses]
    simp only [List.append_assoc]
  · rw [List.all_append, Bool.and_eq_true, List.all_eq_true, List.all_eq_true] at hhushes
    rw [List.forall_mem_append, List.forall_mem_append]
    exact ⟨fun p hp => Or.inl (hhushes.1 p hp), fun p hp => Or.inr hp, fun p hp => Or.inl (hhushes.2 p hp)⟩

theorem quiet_visible {source : List Char} (hz : BlankLines z (visible source).text) : Quiet [blank, '\n'] z (visible source) where
  lineStart := hz.lineStart
  text := hz.text
  tokens := by
    rw [tokens_visible]
    exact List.forall_mem_nil _

theorem quiet_runPasses {passes : List Pass} (h : ∀ p ∈ passes, ∀ w, Quiet dead z w → Quiet dead z (p.apply w))
    (hw : Quiet dead z w) : Quiet dead z (runPasses passes w) := by
  induction passes generalizing w with
  | nil => exact hw
  | cons p passes ih =>
    obtain ⟨hp, hpasses⟩ := List.forall_mem_cons.1 h
    exact ih hpasses (hp w hw)

theorem quiet_early {source : List Char} (hz : BlankLines z (visible source).text) :
    Quiet earlySigns z (runPasses earlyPasses (visible source)) := by
  have hternary := ConditionalExpression.quiet_apply hz (quiet_visible hz)
  obtain ⟨hquiet, htrailed⟩ := trailed_classify (f := { pattern := Header.functionPointer }) .pointer
    (hternary.mono (show [blank, '\n'] ⊆ earlySigns by decide)) hternary.trailed (by decide)
  obtain ⟨hquiet, htrailed⟩ := trailed_classify (f := { pattern := Header.pointerReturningFunction }) .function
    hquiet htrailed (by decide)
  simp only [runPasses, earlyPasses, List.foldl_cons, List.foldl_nil, Pass.apply, Action.apply, Pass.construct]
  exact BareBody.quiet_apply hquiet htrailed

/-- **No token starts in blank lines.** A part of a source from the start of a line to the end of one that the masking passes
leave blank holds the start of no token. -/
theorem not_covers_of_mem_tokenize {t : Tokenizer} {source : List Char} (hd : t.settings.dialect = .cFamily)
    (hz : BlankLines z (visible source).text) : ∀ k ∈ t.tokenize source, ¬ z.Covers k.start := by
  obtain ⟨late, hpasses, hlate⟩ := exists_late t.settings
  have hrun : Quiet deadSigns z (t.run source) := by
    have hsettings : t.settings.passes = cPasses t.settings := by rw [Settings.passes, hd]
    rw [run, Tokenizer.passes, hsettings, hpasses, runPasses_append, runPasses_append, ← visible]
    refine quiet_runPasses (fun p hp w hw => ?_) ((quiet_early hz).mono (by decide))
    exact (hlate p hp).elim (fun hhushes => Action.quiet_apply hhushes hw) fun hmem => quiet_declarationPasses _ p hmem w hw
  intro k hk
  obtain ⟨k', hk', rfl⟩ := List.mem_map.1 ((tokenize_perm t source).subset hk)
  exact hrun.tokens k' hk'

end SourceLikeness.Tokenizer
