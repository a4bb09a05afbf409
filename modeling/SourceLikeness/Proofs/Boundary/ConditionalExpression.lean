import SourceLikeness.Proofs.Blocks.Survival
import SourceLikeness.Proofs.Boundary.Passes
import SourceLikeness.Proofs.Renaming.ConditionalExpression

/-!
# Conditional expressions that cut no character

A condition may start anywhere, so its pattern alone does not keep it from starting between two bytes of a character. What
does is the search, which comes to the earlier bytes first.

* `Detached`, `fresh_visible` : no sign of a comparison follows directly on a blanked character;
* `LiteralsLed` : before each character beyond ASCII of a literal stands, over blanks, what a conditional expression may
  follow; a literal that starts in a comment and goes on behind it need not have that;
* `exists_start` : where the condition of a reading starts;
* `isBoundary_of_blanks` : at a boundary, whatever fill stands there;
* `intact_apply` : the pass.
-/

namespace SourceLikeness
open Text (charBefore isBlank)

/-- The signs that a comparison starts with. -/
def comparisonSigns : List Char := ['=', '<', '>']

/-- The places with an open fill before them and a sign of a comparison behind them. -/
def Seam.beforeSign : Seam where
  before c := decide (c ∈ openFills)
  behind c := decide (c ∈ comparisonSigns)
  lacks set := openFills.all fun c => !set.holds c
  shuns set := comparisonSigns.all fun c => !set.holds c
  full set := comparisonSigns.all fun c => set.holds c
  words := false
  holds_of_lacks set h c hc := Bool.not_eq_true' _ ▸ List.all_eq_true.1 h c (of_decide_eq_true hc)
  holds_of_shuns set h c hc := Bool.not_eq_true' _ ▸ List.all_eq_true.1 h c (of_decide_eq_true hc)
  holds_of_full set h c hc := List.all_eq_true.1 h c (of_decide_eq_true hc)
  isWord_eq h := Bool.noConfusion h
  newline := by decide

namespace Tokenizer
open WorkingCopy
variable {w : Work} {source : List Char} {f : Finder} {p : Nat}

/-! ## The visible text -/

/-- No sign of a comparison follows directly on the blank for a byte of a character that is not its first. -/
def Detached (source s : List Char) : Prop :=
  ∀ p, ¬ IsBoundary source p → s[p]? = some blank → ∀ x ∈ comparisonSigns, s[p + 1]? ≠ some x

theorem detached_erase (hf : Seam.beforeSign.ends f.pattern false = true) (hs : Knit source w.text)
    (h : Detached source w.text) : Detached source (erase f blank w).text := by
  intro p hb hblank x hx hnext
  have hfill : blank ≠ '\n' := by decide
  have hsigns : ∀ x ∈ comparisonSigns, x ≠ blank ∧ x ≠ '\n' := by decide
  have hsign := getElem?_of_erase hfill (hsigns x hx).1 hnext
  have hnot : ∀ g ∈ f.hits w.text, ¬ g.whole.Covers (p + 1) := by
    intro g hg hcovers
    obtain ⟨c, hc, rfl⟩ := Option.map_eq_some_iff.1 ((List.getElem?_map ..).symm.trans hsign)
    rw [text, List.getElem?_map, getElem?_erase hfill, if_pos ⟨g, hg, hcovers⟩, hc, Option.map_some, Option.map_some,
      Cell.fill, if_neg (hsigns _ hx).2] at hnext
    exact (hsigns _ hx).1 (Option.some.inj hnext).symm
  by_cases hcovered : ∃ g ∈ f.hits w.text, g.whole.Covers p
  · -- A hit would stop at the sign, right behind the character.
    obtain ⟨g, hg, hcovers⟩ := hcovered
    have hstop : g.whole.stop = p + 1 := by
      have hend := hnot g hg
      unfold Span.Covers at hcovers hend
      omega
    have hlt : p < w.text.length := Nat.lt_of_succ_lt (List.getElem?_eq_some_iff.1 hsign).1
    obtain ⟨y, hy, -, hat⟩ := hs.char p hlt hb
    have hseam := Seam.stop_of_mem hf hg
    have hbefore : charBefore w.text (p + 1) = some y := hat
    rw [hstop, Seam.seamAt, hbefore, hsign, Option.any_some, Option.any_some] at hseam
    have hboth : (Seam.beforeSign.before y && Seam.beforeSign.behind x) = true :=
      Bool.and_eq_true_iff.2 ⟨decide_eq_true hy, decide_eq_true hx⟩
    rw [hboth] at hseam
    exact Bool.noConfusion hseam
  · rw [getElem?_text_erase_of_not hfill fun g hg hcovers => hcovered ⟨g, hg, hcovers⟩] at hblank
    exact h p hb hblank x hx hsign

/-- Before a place stands, over blanks, what a conditional expression may follow. -/
def Led (s : List Char) (a : Nat) : Prop :=
  ∃ j ≤ a, ConditionalExpression.mayPrecede (charBefore s j) = true ∧ ∀ i < a, j ≤ i → s[i]?.any isBlank = true

instance (s : List Char) (a : Nat) : Decidable (Led s a) := by
  unfold Led
  infer_instance

/-- Before each character beyond ASCII of a literal stands, over blanks, what a conditional expression may follow. That is so
inside a literal, whose quote stands before it, unless the quote is gone with a comment. -/
def LiteralsLed (source s : List Char) : Prop :=
  ∀ a < s.length, IsBoundary source a → ¬ IsBoundary source (a + 1) → s[a]? = some literal → Led s a

instance (source s : List Char) : Decidable (LiteralsLed source s) := by
  unfold LiteralsLed
  infer_instance

/-- Nothing is claimed yet, and what is blanked stands apart from the comparisons. -/
structure Fresh (source : List Char) (w : Work) : Prop where
  solid : w.Solid source []
  free : ∀ c ∈ w.cells, c.claimed = false
  detached : Detached source w.text

theorem Fresh.knit (h : Fresh source w) : Knit source w.text := h.solid.knit (List.forall_mem_nil _)

theorem fresh_visible (source : List Char) : Fresh source (visible source) := by
  have hliterals : Finder.sparesHits { pattern := Inert.cLiteral } = true := by decide +kernel
  have hcomments : Finder.sparesHits { pattern := Inert.cComment } = true := by decide +kernel
  have himports : Finder.sparesHits { pattern := Inert.cImport } = true := by decide +kernel
  have hdirectives : Finder.sparesHits { pattern := Inert.cDirective } = true := by decide +kernel
  have hmask : literal ∈ openFills := by decide
  have hopen : blank ∈ openFills := by decide
  have hknit : ∀ {w : Work}, w.Solid source [] → Knit source w.text := fun h => h.knit (List.forall_mem_nil _)
  have hsource : Solid source [] (ofSource source : Work) := .ofSource source
  have hmasked := (intact_erase hliterals hmask (Or.inr rfl) isAscii_literal hsource).solid
  have hplain := (intact_erase hcomments hopen (Or.inr rfl) isAscii_blank hmasked).solid
  have himported := (intact_erase himports hopen (Or.inr rfl) isAscii_blank hplain).solid
  have hdone := (intact_erase hdirectives hopen (Or.inr rfl) isAscii_blank himported).solid
  refine ⟨visible_eq source ▸ hdone, not_claimed_visible source, ?_⟩
  rw [visible_eq]
  refine detached_erase (by decide +kernel) (hknit himported) (detached_erase (by decide +kernel) (hknit hplain)
    (detached_erase (by decide +kernel) (hknit hmasked) fun p hb hblank x hx hnext => ?_))
  -- Nothing of a character is blanked yet.
  have hat := getElem?_of_erase (by decide) (by decide) hblank
  have hlt : p < (utf8 source).length := by
    rw [← size_ofSource (α := Category), size_eq_length_text]
    exact (List.getElem?_eq_some_iff.1 hat).1
  rw [Solid.text_of_cell (cells_ofSource_of_not_isBoundary hlt hb).2] at hat
  exact absurd (Option.some.inj hat) (by decide)

namespace ConditionalExpression
open Pattern
open Relation (ReflTransGen)
variable {s : List Char} {c c' c₁ c₂ m d : Cursor} {h : Hit} {i j a : Nat}

/-! ## Readings -/

/-- Where the condition of a reading starts: behind what says where the value goes, or where the blanks end. In that case
there is no reading from the next place, if there is one more blank. -/
theorem exists_start (hd : finder.pattern.read c = some d) : ∃ c₁ c₂, blanks.Reads c c₁ ∧ body.Reads c₂ d ∧
    (target.Reads c₁ c₂ ∨
      c₂ = c₁ ∧ ∀ y rest, c₁.rest = y :: rest → isBlank y = true → body.run (c₁.advance y rest) some = none) := by
  obtain ⟨c₁, hblanks, hrun, hlast⟩ := reads_of_run_many (k := fun t => (seq lead body).run t some) hd
  rcases orElse_eq_some hrun with htarget | hempty
  · obtain ⟨c₂, hreads, hbody⟩ := reads_of_run htarget
    exact ⟨c₁, c₂, hblanks, reads_of_read hbody, Or.inl hreads⟩
  · refine ⟨c₁, c₁, hblanks, reads_of_read hempty, Or.inr ⟨rfl, fun y rest hrest hy => ?_⟩⟩
    have hnone := hlast y rest hrest (holds_blank.trans hy)
    change (target.run (c₁.advance y rest) _ <|> body.run (c₁.advance y rest) some) = none at hnone
    generalize target.run (c₁.advance y rest) _ = o at hnone
    cases o with
    | none => exact hnone
    | some z => exact nomatch hnone

theorem eq_or_before_of_blanks (h : blanks.Reads c d) : c = d ∨ d.before.any isBlank = true := by
  rcases ReflTransGen.cases_tail h with heq | ⟨_, -, y, rest, -, hy, rfl⟩
  · exact Or.inl heq.symm
  · exact Or.inr (holds_blank.symm.trans hy)

theorem condition_of_steps (hsteps : ReflTransGen operand.Reads c c') (hcondition : condition.Reads c' m) :
    condition.Reads c m := by
  induction hsteps using ReflTransGen.head_induction_on with
  | refl => exact hcondition
  | head hstep _ ih =>
    obtain ⟨e, ⟨x, hfirst, hmany⟩, hcomparison⟩ := ih
    exact ⟨e, ⟨_, hstep, .head hfirst hmany⟩, hcomparison⟩

/-- The branches may be read behind a condition from elsewhere. -/
theorem body_of_condition (hcondition : condition.Reads c m) (hbranches : branches.Reads (c'.note .condition m) d) :
    ∃ l, body.Reads c { d with parts := l } := by
  obtain ⟨l, hl⟩ := hbranches.reparts (c.note .condition m).parts
  exact ⟨l, _, ⟨m, hcondition, rfl⟩, hl⟩

theorem head?_of_comparison (h : comparison.Reads c d) : ∃ x ∈ comparisonSigns, c.rest.head? = some x := by
  obtain ⟨_, hsign, -⟩ := h
  rcases hsign with hsign | hsign | hsign | hsign | hsign
  · exact ⟨'=', by decide, head?_of_reads_text (t := "==") rfl hsign⟩
  · exact ⟨'>', by decide, head?_of_reads_text (t := ">=") rfl hsign⟩
  · exact ⟨'<', by decide, head?_of_reads_text (t := "<=") rfl hsign⟩
  · exact ⟨'>', by decide, head?_of_reads_text (t := ">") rfl hsign⟩
  · exact ⟨'<', by decide, head?_of_reads_text (t := "<") rfl hsign⟩

/-- If a reading could not start one character later, a comparison starts there. -/
theorem head?_of_body {y : Char} {rest : List Char} (hbody : body.Reads c d) (hrest : c.rest = y :: rest)
    (hnone : body.run (c.advance y rest) some = none) : ∃ x ∈ comparisonSigns, rest.head? = some x := by
  obtain ⟨_, ⟨m, ⟨e, ⟨x, hfirst, hmany⟩, hcomparison⟩, rfl⟩, hbranches⟩ := hbody
  obtain ⟨y', rest', hrest', -, rfl⟩ := hfirst
  obtain ⟨rfl, rfl⟩ := List.cons.inj (hrest.symm.trans hrest')
  rcases ReflTransGen.cases_head hmany with rfl | ⟨x, hstep, hsteps⟩
  · exact head?_of_comparison hcomparison
  · have hcondition : condition.Reads (c.advance y rest) m := ⟨e, ⟨x, hstep, hsteps⟩, hcomparison⟩
    obtain ⟨l, hl⟩ := body_of_condition hcondition hbranches
    have hsome := isSome_run_of_reads (k := some) (by decide) hl rfl
    rw [hnone] at hsome
    exact Bool.noConfusion hsome

/-- A repetition reads over what holds the characters of its set. -/
theorem steps_start {set : CharSet} (hle : j ≤ a) (h : ∀ i < a, j ≤ i → s[i]?.any set.holds = true) :
    ReflTransGen (one set).Reads (Finder.start s j) (Finder.start s a) := by
  induction a, hle using Nat.le_induction with
  | base => exact .refl
  | succ a hle ih =>
    obtain ⟨y, hy, hholds⟩ := (Option.any_eq_true _ _).1 (h a (Nat.lt_succ_self a) hle)
    have hin := Finder.in_start s a
    obtain ⟨rest, hrest⟩ := List.head?_eq_some_iff.1 (hin.head?.trans hy)
    exact .tail (ih fun i hi => h i (Nat.lt_succ_of_lt hi)) ⟨y, rest, hrest, hholds, hin.advance_eq hrest⟩

/-! ## Hits -/

theorem isFree_of_read (hfree : ∀ c ∈ w.cells, c.claimed = false) (hd : finder.pattern.read c = some d) :
    isFree w ⟨⟨i, d.offset⟩, d.parts⟩ = true := by
  have hnot : ∀ p : Span, w.isClaimed p = false := by
    intro p
    rw [← Bool.not_eq_true]
    intro hclaimed
    obtain ⟨-, hany⟩ := Bool.and_eq_true_iff.1 hclaimed
    obtain ⟨cell, hcell, hclaimed⟩ := List.any_eq_true.1 hany
    rw [hfree cell (List.mem_of_mem_drop (List.mem_of_mem_take hcell))] at hclaimed
    exact Bool.noConfusion hclaimed
  obtain ⟨_, -, _, -, hbody⟩ := reads_of_read hd
  obtain ⟨m, n, k, hsections⟩ := exists_sections (h := ⟨⟨i, d.offset⟩, d.parts⟩) hbody rfl rfl
  rw [isFree, hsections.thenBranch?, hsections.elseBranch?, Option.any_some, Option.any_some, hnot, hnot]
  rfl

theorem charBefore_stop {accept : Hit → Bool} (hhit : finder.hitOf accept s i = some h) :
    charBefore s h.whole.stop = some ';' := by
  obtain ⟨d, hd, rfl⟩ := Finder.read_of_hitOf hhit
  obtain ⟨c₁, hblanks, c₂, hlead, hbody⟩ := reads_of_read hd
  obtain ⟨m, n, k, hsections⟩ := exists_sections (h := ⟨⟨i, d.offset⟩, d.parts⟩) hbody rfl rfl
  obtain ⟨hin, -⟩ := hblanks.mem (Finder.in_start s i)
  rw [hsections.stop]
  exact hsections.semicolon (hlead.mem hin).1

/-- No condition starts a hit behind more of a literal, if a hit could start before the literal. -/
theorem not_mem_of_led (hfree : ∀ c ∈ w.cells, c.claimed = false) (hd : body.Reads (Finder.start w.text h.whole.start) d)
    (hled : Led w.text a) (ha : a < h.whole.start) (hones : ∀ i < h.whole.start, a ≤ i → w.text[i]? = some literal) :
    h ∉ finder.hitsWhere (isFree w) w.text := by
  intro hmem
  obtain ⟨j, hja, hbefore, hblanks⟩ := hled
  have hoperands : ReflTransGen operand.Reads (Finder.start w.text a) (Finder.start w.text h.whole.start) :=
    steps_start (Nat.le_of_lt ha) fun i hi hai => by
      rw [hones i hi hai]
      decide
  have hsteps : blanks.Reads (Finder.start w.text j) (Finder.start w.text a) :=
    steps_start hja (by simpa only [holds_blank] using hblanks)
  obtain ⟨_, ⟨m, hcondition, rfl⟩, hbranches⟩ := hd
  obtain ⟨l, hbody⟩ := body_of_condition (condition_of_steps hoperands hcondition) hbranches
  have hreads : finder.pattern.Reads (Finder.start w.text j) { d with parts := l } := ⟨_, hsteps, _, Or.inr rfl, hbody⟩
  obtain ⟨e, he⟩ := Option.isSome_iff_exists.1 (isSome_run_of_reads (k := some) (by decide) hreads rfl)
  have hfound := Finder.hitOf_of_read (f := finder) hbefore rfl rfl he (isFree_of_read hfree he)
  -- That hit or one before it stops where blanks or the literal stand.
  obtain ⟨g, n, hg, hlt, hle⟩ : ∃ g n, finder.hitOf (isFree w) w.text n = some g ∧ j < g.whole.stop ∧
      g.whole.stop ≤ h.whole.start := by
    rcases Finder.earlier_of_mem hmem (n := j) (by omega) with hnone | ⟨g, hg, hlt, hle⟩
    · exact ⟨_, j, hfound, (reads_of_read he).lt_of_solid (Finder.in_start _ _) (by decide), hnone _ hfound⟩
    · exact ⟨g, _, Finder.hitOf_of_mem hg, hlt, hle⟩
  have hsemicolon := charBefore_stop hg
  obtain ⟨i, hi⟩ := Nat.exists_eq_succ_of_ne_zero (Nat.ne_of_gt (Nat.zero_lt_of_lt hlt))
  rw [hi] at hsemicolon hlt hle
  change w.text[i]? = some ';' at hsemicolon
  rcases Nat.lt_or_ge i a with hia | hai
  · have hblank := hblanks i hia (Nat.le_of_lt_succ hlt)
    rw [hsemicolon] at hblank
    exact absurd hblank (by decide)
  · rw [hones i hle hai] at hsemicolon
    exact absurd hsemicolon (by decide)

/-! ## Boundaries -/

/-- The literal that a place inside of a character belongs to starts with the character or before it. -/
theorem exists_first (hs : Knit source s) (hp : ¬ IsBoundary source p) (hat : s[p]? = some literal) :
    ∃ a < p, IsBoundary source a ∧ ¬ IsBoundary source (a + 1) ∧ ∀ i < p + 1, a ≤ i → s[i]? = some literal := by
  induction p with
  | zero => exact absurd (isBoundary_zero source) hp
  | succ p ih =>
    have hlt := (List.getElem?_eq_some_iff.1 hat).1
    obtain ⟨x, -, hbefore, hat'⟩ := hs.char (p + 1) hlt hp
    obtain rfl := Option.some.inj (hat'.symm.trans hat)
    have hprev : s[p]? = some literal := hbefore
    by_cases hb : IsBoundary source p
    · refine ⟨p, Nat.lt_succ_self p, hb, hp, fun i hi hle => ?_⟩
      rcases Nat.lt_or_eq_of_le (Nat.le_of_lt_succ hi) with hi | rfl
      · rwa [Nat.le_antisymm (Nat.le_of_lt_succ hi) hle]
      · exact hat
    · obtain ⟨a, ha, hstart, hinner, hones⟩ := ih hb hprev
      refine ⟨a, Nat.lt_succ_of_lt ha, hstart, hinner, fun i hi hle => ?_⟩
      rcases Nat.lt_or_eq_of_le (Nat.le_of_lt_succ hi) with hi | rfl
      · exact hones i hi hle
      · exact hat

theorem isBoundary_of_blanks (hw : Fresh source w) (hled : LiteralsLed source w.text)
    (hmem : h ∈ finder.hitsWhere (isFree w) w.text) (hblanks : blanks.Reads (Finder.start w.text h.whole.start) c)
    (hbody : body.Reads c d)
    (hlast : ∀ y rest, c.rest = y :: rest → isBlank y = true → body.run (c.advance y rest) some = none) :
    IsBoundary source c.offset := by
  by_contra hb
  obtain ⟨hin, -⟩ := hblanks.mem (Finder.in_start w.text _)
  have hlt : c.offset < w.text.length := by
    have hpos := hbody.lt_of_solid hin (by decide)
    have hle := hblanks.le_length (Finder.in_start _ _) (Finder.start_le_of_mem hmem)
    exact Nat.lt_of_lt_of_le hpos (hbody.le_length hin hle)
  obtain ⟨x, hx, hbefore, hat⟩ := hw.knit.char c.offset hlt hb
  by_cases hblank : x = blank
  · -- The reading could not start one place later, so a comparison starts there.
    subst hblank
    obtain ⟨rest, hrest⟩ := List.head?_eq_some_iff.1 (hin.head?.trans hat)
    obtain ⟨y, hy, hsign⟩ := head?_of_body hbody hrest (hlast _ rest hrest (by decide))
    exact hw.detached c.offset hb hat y hy ((hin.advance hrest).head?.symm.trans hsign)
  · have hnot : ∀ x ∈ openFills, isBlank x = true → x = blank := by decide
    obtain rfl : Finder.start w.text h.whole.start = c := (eq_or_before_of_blanks hblanks).resolve_right fun hany => by
      rw [hin.before, hbefore, Option.any_some] at hany
      exact hblank (hnot x hx hany)
    by_cases hliteral : x = literal
    · subst hliteral
      obtain ⟨a, ha, hstart, hinner, hones⟩ := exists_first hw.knit hb hat
      have hat' := hones a (Nat.lt_succ_of_lt ha) (Nat.le_refl a)
      exact not_mem_of_led hw.free hbody (hled a (Nat.lt_trans ha hlt) hstart hinner hat') ha
        (fun i hi => hones i (Nat.lt_succ_of_lt hi)) hmem
    · have hmay := Finder.before_of_hitOf (Finder.hitOf_of_mem hmem)
      have hnever : ∀ x ∈ openFills, x ≠ blank → x ≠ literal → mayPrecede (some x) = false := by decide
      change mayPrecede (charBefore w.text h.whole.start) = true at hmay
      rw [show charBefore w.text h.whole.start = some x from hbefore, hnever x hx hblank hliteral] at hmay
      exact Bool.noConfusion hmay

/-- What the pass writes over for a hit, and where it sets markers. -/
structure Cuts (source : List Char) (h : Hit) (c t e : Span) : Prop where
  condition? : h.part? .condition = some c
  thenBranch? : h.part? .thenBranch = some t
  elseBranch? : h.part? .elseBranch = some e
  condition : c.Aligned source
  question : (first t).Aligned source
  colon : (first e).Aligned source
  stop : IsBoundary source (e.stop - 1)
  lead : ∀ l, lead? h = some l → l.2.Aligned source

theorem aligned_lead (hs : Knit source s) {accept : Hit → Bool} (hmem : h ∈ finder.hitsWhere accept s)
    {l : Category × Span} (hl : lead? h = some l) : l.2.Aligned source := by
  have hpart : ∀ name p, (name = .assigned ∨ name = .returned) → h.part? name = some p → p.Aligned source := by
    intro name p hname hp
    have htidy : openFills.all (fun x => [Part.assigned, Part.returned].all fun name =>
        (Seam.between x).tidy name finder.pattern false ((Seam.between x).ends finder.pattern false)) = true := by
      decide +kernel
    exact hs.aligned ((Finder.within_of_mem hmem).part? hp) fun x hx =>
      Seam.clear_part_of_mem (List.all_eq_true.1 (List.all_eq_true.1 htidy x hx) name (by simpa using hname)) hmem hp
  unfold lead? at hl
  split at hl
  · rename_i p hp
    obtain rfl := Option.some.inj hl
    exact hpart _ p (Or.inl rfl) hp
  · obtain ⟨p, hp, rfl⟩ := Option.map_eq_some_iff.1 hl
    exact hpart _ p (Or.inr rfl) hp

theorem cuts_of_mem (hw : Fresh source w) (hled : LiteralsLed source w.text)
    (hmem : h ∈ finder.hitsWhere (isFree w) w.text) : ∃ c t e, Cuts source h c t e := by
  obtain ⟨d, hd, heq⟩ := Finder.read_of_hitOf (Finder.hitOf_of_mem hmem)
  obtain ⟨c₁, c₂, hblanks, hbody, hstart⟩ := exists_start hd
  obtain ⟨m, n, k, hsections⟩ := exists_sections hbody (congrArg (·.whole.stop) heq) (congrArg (·.parts) heq)
  obtain ⟨hin₁, -⟩ := hblanks.mem (Finder.in_start w.text _)
  have hin₂ : c₂.In w.text := by
    rcases hstart with htarget | ⟨rfl, -⟩
    · exact (htarget.mem hin₁).1
    · exact hin₁
  have hquestion := hw.knit.isBoundary_of_getElem? (hsections.question hin₂) (by decide)
  have hcolon := hw.knit.isBoundary_of_getElem? (hsections.colon hin₂) (by decide)
  have hsemicolon : IsBoundary source (k.offset - 1) := by
    have hlast := hsections.semicolon hin₂
    obtain ⟨i, hi⟩ := Nat.exists_eq_succ_of_ne_zero (Nat.ne_of_gt (Nat.zero_lt_of_lt (hsections.lt_stop hin₂)))
    rw [hi] at hlast ⊢
    exact (hw.knit.isBoundary_of_getElem? hlast (by decide)).1
  have hcondition : IsBoundary source c₂.offset := by
    rcases hstart with htarget | ⟨rfl, hlast⟩
    · have hlt := (List.getElem?_eq_some_iff.1 (hsections.question hin₂)).1
      have hle := (hsections.in_question hin₂).2
      refine hw.knit.isBoundary (Nat.le_trans hle (Nat.le_of_lt hlt)) fun x hx => ?_
      have hedges : openFills.all (fun x => (Seam.between x).edges target false) = true := by decide +kernel
      have hon := Seam.on_of_reads htarget (e := false) nofun (List.all_eq_true.1 hedges x hx)
      rwa [Seam.on_eq _ hin₂] at hon
    · exact isBoundary_of_blanks hw hled hmem hblanks hbody hlast
  exact ⟨_, _, _, hsections.condition?, hsections.thenBranch?, hsections.elseBranch?, ⟨hcondition, hquestion.1⟩,
    ⟨hquestion.1, hquestion.2⟩, ⟨hcolon.1, hcolon.2⟩, hsemicolon, fun l hl => aligned_lead hw.knit hmem hl⟩

/-! ## The pass -/

theorem intact_openBlock {v : Work} {fills : List Char} (lead : Option Category) {place : Nat} (hplace : IsBoundary source place)
    (hv : Intact source fills w v) : Intact source fills w (openBlock lead place v) := by
  have hopen := (hv.mark hplace Category.conditional).mark hplace Category.openBrace
  cases lead with
  | none => exact hopen
  | some category => exact hopen.mark hplace category

theorem intact_applyHit {v : Work} {t e q : Span} (hcuts : Cuts source h q t e) (hv : Intact source [masked] w v) :
    Intact source [masked] w (applyHit v h) := by
  have hmasked : masked ∈ [masked] := List.mem_singleton_self masked
  have hlead := hcuts.lead
  unfold applyHit
  rw [hcuts.condition?, hcuts.thenBranch?, hcuts.elseBranch?]
  dsimp only
  generalize lead? h = lead at hlead ⊢
  have hmarks := (intact_openBlock (lead.map (·.1)) hcuts.colon.start ((intact_openBlock (lead.map (·.1)) hcuts.question.start
    hv).mark hcuts.colon.start Category.closeBrace)).mark hcuts.stop Category.closeBrace
  have hclaimed : ∀ {u : Work}, Intact source [masked] w u → Intact source [masked] w
      (((u.claim q masked).claim (first t) masked).claim (first e) terminator) := fun hu =>
    ((hu.claim (hcuts.condition.spares w) hmasked isAscii_masked).claim (hcuts.question.spares w) hmasked
      isAscii_masked).claim_one ⟨hcuts.colon.start, hcuts.colon.stop⟩ isAscii_terminator
  cases lead with
  | none => exact hclaimed hmarks
  | some l => exact hclaimed (hmarks.claim ((hlead l rfl).spares w) hmasked isAscii_masked)

/-- **Conditional expressions.** The pass cuts no character if the literals are led. -/
theorem intact_apply (hw : Fresh source w) (hled : LiteralsLed source w.text) : Intact source [masked] w (apply w) := by
  refine .foldl (.refl (hw.solid.mono (List.nil_subset _))) fun h hmem v hv => ?_
  obtain ⟨c, t, e, hcuts⟩ := cuts_of_mem hw hled hmem
  exact intact_applyHit hcuts hv

end ConditionalExpression
end Tokenizer
end SourceLikeness
