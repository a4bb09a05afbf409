import SourceLikeness.Proofs.Renaming.BareBody
import SourceLikeness.Tokenizer.ConditionalExpression

/-!
# Conditional expressions of two texts

All that the pass writes over stands between edges, but for the condition: it may start inside a word. But then it
starts behind the first character of the word. Else the condition could as well start one character earlier, and the
search would have found that one first.

* `read_earlier` : a reading that starts inside a word is one that starts one character earlier as well;
* `looseAt_of_inside` : so no part of a word is left before a condition that is longer than one character;
* `twin_apply` : the pass makes twins of twins.
-/

namespace SourceLikeness.Tokenizer.ConditionalExpression
open Pattern
open Cursor (Beside Steady)
open Text (isAsciiWord inside wordAt wordBefore charBefore LooseAt Lexicon IsBlot Edged Margin)
open WorkingCopy (Step)
variable {x : Lexicon} {s : List Char} {w w' : Work} {c d : Cursor} {h : Hit} {i : Nat}

/-! ## The pieces of the pattern -/

/-- What a condition starts with. -/
def operand : Pattern := noneOf ";<>=\x7b\x7d\n"

def comparison : Pattern :=
  all [any [text "==", text ">=", text "<=", text ">", text "<"], plus (noneOf ";<>=?\x7b\x7d\n")]

/-- The lexicon has all that the pass for conditional expressions reads, and may lose what it writes over. -/
def blind (x : Lexicon) : Bool :=
  finder.blind x && (many operand).blind x false false && comparison.blind x false false && branches.blind x false false &&
    Text.blots x WorkingCopy.masked && Text.blots x WorkingCopy.terminator

/-! ## Readings that start inside a word -/

theorem run_eq_none_of_stops {β : Type} {p : Pattern} {k : Cursor → Option β} (hp : p.stops false = true)
    (hc : c.inside = true) : p.run c k = none := (halts_false k).run hp c hc

/-- Inside a word there are no blanks and no lead. -/
theorem read_of_inside (hc : c.inside = true) :
    finder.pattern.read c = (plus operand).run c fun m => comparison.run m fun n => branches.run (c.note .condition n) some := by
  obtain ⟨y, rest, hrest⟩ := Cursor.exists_rest_of_inside hc
  have hlead : ∀ k : Cursor → Option Cursor, lead.run c k = k c := by
    intro k
    have hsome : target.run c k = none := run_eq_none_of_stops rfl hc
    change (target.run c k <|> k c) = k c
    rw [hsome]
    rfl
  rw [pattern_eq, Pattern.read, run]
  refine (BareBody.run_blanks_of_isAsciiWord hrest (Cursor.isAsciiWord_of_inside hc hrest)).trans ?_
  exact hlead _

/-- The same pieces, but for the condition. -/
def SameBranches (l l' : List (Part × Span)) : Prop := ∀ name, name ≠ .condition → l.lookup name = l'.lookup name

theorem steady_sameBranches : Steady SameBranches := by
  rintro ⟨name', piece⟩ l l' h name hname
  rw [List.lookup_cons, List.lookup_cons, h name hname]

theorem sameBranches_note (p q : Span) (l l' : List (Part × Span)) (h : SameBranches l l') :
    SameBranches ((.condition, p) :: l) ((.condition, q) :: l') := by
  intro name hname
  have hne : (name == Part.condition) = false := beq_eq_false_iff_ne.2 hname
  rw [List.lookup_cons, List.lookup_cons, hne, h name hname]

/-- How a reading goes on behind the first operand of a condition that started at a place. -/
def goOn (start m : Cursor) : Option Cursor := comparison.run m fun n => branches.run (start.note .condition n) some

/-- Where a condition started makes no difference to how its reading goes on. -/
theorem rel_goOn (hx : x.WellFormed) (hs : Text.Twin x s s) (hcomparison : comparison.blind x false false = true)
    (hbranches : branches.blind x false false = true) {c c' m m' : Cursor} (hm : Beside SameBranches s s m m') :
    Option.Rel (Beside SameBranches s s) (goOn c m) (goOn c' m') := by
  refine rel_run steady_sameBranches hx hs hcomparison hm nofun (halts_false _) (halts_false _) fun n n' _ hn => ?_
  have hnote : Beside SameBranches s s (c.note .condition n) (c'.note .condition n') :=
    ⟨hn.left.note _ c, hn.right.note _ c', hn.offset, sameBranches_note _ _ _ _ hn.parts⟩
  exact rel_run steady_sameBranches hx hs hbranches hnote nofun (halts_false _) (halts_false _) fun _ _ _ h => .some h

/-- A reading that starts inside a word is one that starts one character earlier as well, if that is inside the word
too. -/
theorem read_earlier (hx : x.WellFormed) (hs : Text.Twin x s s) (hk : blind x = true) (hi : inside s i = true)
    (hnext : inside s (i + 1) = true) (hd : finder.pattern.read (Finder.start s (i + 1)) = some d) :
    ∃ d', finder.pattern.read (Finder.start s i) = some d' ∧ Beside SameBranches s s d d' := by
  simp only [blind, Bool.and_eq_true] at hk
  obtain ⟨⟨⟨⟨⟨-, hoperand⟩, hcomparison⟩, hbranches⟩, -⟩, -⟩ := hk
  have hin := Finder.in_start s i
  have hin' := Finder.in_start s (i + 1)
  have hc : (Finder.start s i).inside = true := hin.inside_eq.trans hi
  have hc' : (Finder.start s (i + 1)).inside = true := hin'.inside_eq.trans hnext
  obtain ⟨y, rest, hrest⟩ := Cursor.exists_rest_of_inside hc
  obtain ⟨z, rest', hrest'⟩ := Cursor.exists_rest_of_inside hc'
  have hreads : ∀ {a : Char} {u : List Char} {m : Cursor} {k : Cursor → Option Cursor}, m.inside = true →
      m.rest = a :: u → operand.run m k = k (m.advance a u) := by
    intro a u m k hm hu
    have hfull : (CharSet.except (";<>=\x7b\x7d\n".toList.map .char)).holds a = true :=
      CharSet.holds_eq_true rfl (Cursor.isAsciiWord_of_inside hm hu)
    unfold operand noneOf
    rw [run_one_of_cons hu, if_pos hfull]
  have hstep : (Finder.start s i).advance y rest = Finder.start s (i + 1) := hin.advance_eq hrest
  have hplus : ∀ {a : Char} {u : List Char} {m : Cursor} {k : Cursor → Option Cursor}, m.inside = true →
      m.rest = a :: u → (plus operand).run m k = (many operand).run (m.advance a u) k := fun {_ _ _ k} hm hu =>
    hreads (k := fun t => (many operand).run t k) hm hu
  rw [read_of_inside hc'] at hd
  rw [read_of_inside hc, hplus hc hrest, hstep]
  rw [hplus hc' hrest'] at hd
  have hself : Beside SameBranches s s ((Finder.start s (i + 1)).advance z rest')
      ((Finder.start s (i + 1)).advance z rest') := ⟨hin'.advance hrest', hin'.advance hrest', rfl, fun _ _ => rfl⟩
  have hrel := rel_run steady_sameBranches hx hs hoperand hself (e := false) nofun
    (halts_false (goOn (Finder.start s (i + 1)))) (halts_false (goOn (Finder.start s i)))
    fun _ _ _ hm => rel_goOn hx hs hcomparison hbranches hm
  have hd : (many operand).run ((Finder.start s (i + 1)).advance z rest') (goOn (Finder.start s (i + 1))) = some d := hd
  rw [hd] at hrel
  have hmany : (many operand).run (Finder.start s (i + 1)) (goOn (Finder.start s i)) =
      ((many operand).run ((Finder.start s (i + 1)).advance z rest') (goOn (Finder.start s i)) <|>
        goOn (Finder.start s i) (Finder.start s (i + 1))) := by
    rw [run, hrest', greedily, hreads hc' hrest']
    rfl
  change ∃ d', (many operand).run (Finder.start s (i + 1)) (goOn (Finder.start s i)) = some d' ∧ _
  rw [hmany]
  generalize (many operand).run ((Finder.start s (i + 1)).advance z rest') (goOn (Finder.start s i)) = o at hrel ⊢
  cases hrel with
  | some hdd' => exact ⟨_, rfl, hdd'⟩

/-! ## What the pass writes over -/

theorem mayPrecede_of_isAsciiWord {y : Char} (hy : isAsciiWord y = true) : mayPrecede (some y) = true := by
  simp only [mayPrecede, Option.any_some, List.mem_cons, Bool.or_eq_true, decide_eq_true_eq]
  rw [isAsciiWord, Bool.or_eq_true, beq_iff_eq] at hy
  exact hy.imp_right Or.inl

theorem isFree_eq (w : Work) {g g' : Hit} (hg : SameBranches g.parts g'.parts) : isFree w g = isFree w g' := by
  rw [isFree, isFree, Hit.part?, Hit.part?, Hit.part?, Hit.part?, hg .thenBranch (by decide), hg .elseBranch (by decide)]

/-- Where the condition of a hit starts inside a word, the hit starts. -/
theorem eq_start_of_inside {m n : Cursor} (hblanks : blanks.Reads c m) (hlead : lead.Reads m n) (hin : n.inside = true) :
    n = c := by
  obtain rfl : m = n := by
    rcases hlead with hlead | hempty
    · rw [hlead.inside_eq_false (e := false) nofun rfl] at hin
      exact Bool.noConfusion hin
    · exact hempty
  rcases BareBody.eq_or_inside_of_blanks hblanks with heq | hout
  · exact heq
  · rw [hout] at hin
    exact Bool.noConfusion hin

/-- No part of a word is left before a condition that is longer than one character. -/
theorem looseAt_of_inside (hx : x.WellFormed) (hs : Text.Twin x s s) (hk : blind x = true)
    (hmem : h ∈ finder.hitsWhere (isFree w) s) (hin : inside s h.whole.start = true) : LooseAt s h.whole.start := by
  refine Or.inr fun j hj => ?_
  rw [← Bool.not_eq_true]
  intro hat
  have hblind : finder.blind x = true := by
    simp only [blind, Bool.and_eq_true] at hk
    exact hk.1.1.1.1.1
  have hnext : inside s (j + 1 + 1) = true := by rw [hj, hin]
  have hprev : inside s (j + 1) = true := by
    obtain ⟨hbefore, -⟩ := Bool.and_eq_true_iff.1 hnext
    rw [inside, Text.wordBefore_succ, hat, Bool.true_and]
    exact hbefore
  have hhit := Finder.hitOf_of_mem hmem
  obtain ⟨d, hd, heq⟩ := Finder.read_of_hitOf hhit
  rw [← hj] at hd
  obtain ⟨d', hd', hsame⟩ := read_earlier hx hs hk hprev hnext hd
  have haccept : isFree w ⟨⟨j + 1, d'.offset⟩, d'.parts⟩ = true := by
    rw [← Finder.accept_of_hitOf hhit, heq]
    exact (isFree_eq w hsame.parts).symm
  have hbefore : finder.before (charBefore s (j + 1)) = true := by
    obtain ⟨y, hy, hyw⟩ := Text.wordAt_eq_true_iff.1 hat
    change mayPrecede s[j]? = true
    rw [hy, mayPrecede_of_isAsciiWord hyw]
  have hearlier : finder.hitOf (isFree w) s (j + 1) = some ⟨⟨j + 1, d'.offset⟩, d'.parts⟩ :=
    Finder.hitOf_of_read hbefore rfl rfl hd' haccept
  have hends : finder.pattern.ends = true := by decide +kernel
  rcases Finder.earlier_of_mem hmem (n := j + 1) (by omega) with hnone | ⟨g, hg, hbehind, hbefore⟩
  · -- the earlier hit would reach behind the start of this one
    have hle : d'.offset ≤ h.whole.start := hnone _ hearlier
    obtain ⟨-, hge⟩ := (reads_of_read hd).mem (Finder.in_start s (j + 1 + 1))
    have hge : j + 1 + 1 ≤ d.offset := hge
    rw [hsame.offset] at hge
    have hstop := Finder.stop_of_read hends hd'
    rw [show d'.offset = j + 1 + 1 by omega, hnext] at hstop
    exact Bool.noConfusion hstop
  · have hstop := Finder.stop_of_mem (f := finder) hends hg
    rw [show g.whole.stop = j + 1 + 1 by change j + 1 < g.whole.stop at hbehind; change g.whole.stop ≤ _ at hbefore; omega,
      hnext] at hstop
    exact Bool.noConfusion hstop

/-- What the pass writes over for a hit. -/
structure Margins (x : Lexicon) (s : List Char) (h : Hit) (c t e : Span) : Prop where
  condition? : h.part? .condition = some c
  thenBranch? : h.part? .thenBranch = some t
  elseBranch? : h.part? .elseBranch = some e
  condition : Margin x s c
  question : Margin x s (first t)
  colon : Margin x s (first e)
  lead : ∀ l, lead? h = some l → Margin x s l.2

/-- The pieces of a hit but for its condition start and stop at edges. -/
theorem edged_of_part? (hmem : h ∈ finder.hitsWhere (isFree w) s) {name : Part} {p : Span} (hname : name ≠ .condition)
    (hp : h.part? name = some p) : Edged s p := by
  obtain ⟨d, hd, heq⟩ := Finder.read_of_hitOf (Finder.hitOf_of_mem hmem)
  have htidy : finder.pattern.tidy false finder.pattern.ends = true := by decide +kernel
  rw [heq] at hp
  obtain ⟨l, l', hparts, -⟩ := List.lookup_eq_some_iff.1 hp
  have hpiece : (name, p) ∈ d.parts := by
    rw [show d.parts = l ++ (name, p) :: l' from hparts]
    exact List.mem_append_right _ List.mem_cons_self
  have hfirm := Finder.firm_of_read htidy (Finder.start_le_of_mem hmem) hd _ hpiece
  exact ⟨hfirm.start hname, hfirm.stop, hfirm.bounds.1, hfirm.bounds.2⟩

theorem margin_lead (hmem : h ∈ finder.hitsWhere (isFree w) s) {l : Category × Span} (hl : lead? h = some l) :
    Margin x s l.2 := by
  unfold lead? at hl
  split at hl
  · rename_i p hp
    obtain rfl := Option.some.inj hl
    exact (edged_of_part? hmem (by decide) hp).margin
  · obtain ⟨p, hp, rfl⟩ := Option.map_eq_some_iff.1 hl
    exact (edged_of_part? hmem (by decide) hp).margin

theorem margins_of_mem (hx : x.WellFormed) (hs : Text.Twin x s s) (hk : blind x = true)
    (hmem : h ∈ finder.hitsWhere (isFree w) s) : ∃ c t e, Margins x s h c t e := by
  obtain ⟨d, hd, heq⟩ := Finder.read_of_hitOf (Finder.hitOf_of_mem hmem)
  obtain ⟨c₁, hblanks, c₂, hlead, hbody⟩ := reads_of_read hd
  obtain ⟨m, n, k, hsections⟩ := exists_sections hbody (congrArg (·.whole.stop) heq) (congrArg (·.parts) heq)
  obtain ⟨hin₁, -⟩ := hblanks.mem (Finder.in_start s _)
  obtain ⟨hin₂, -⟩ := hlead.mem hin₁
  have hquestion := SwitchStatement.edged_of_getElem? (hsections.question hin₂) (by decide)
  have hcolon := SwitchStatement.edged_of_getElem? (hsections.colon hin₂) (by decide)
  have hloose : LooseAt s c₂.offset := by
    rcases Bool.eq_false_or_eq_true (inside s c₂.offset) with hin | hin
    · have hstart := eq_start_of_inside hblanks hlead (hin₂.inside_eq.trans hin)
      have hoffset : c₂.offset = h.whole.start := by rw [hstart]; rfl
      rw [hoffset] at hin ⊢
      exact looseAt_of_inside hx hs hk hmem hin
    · exact Or.inl hin
  exact ⟨_, _, _, hsections.condition?, hsections.thenBranch?, hsections.elseBranch?, Or.inr ⟨hloose, hquestion.start⟩,
    hquestion.margin, hcolon.margin, fun l hl => margin_lead hmem hl⟩

/-! ## The pass -/

theorem step_openBlock {lead : Option Category} {place : Nat} (h : Step x s w w') :
    Step x s (openBlock lead place w) (openBlock lead place w') := by
  have hopen := (h.mark .conditional place).mark .openBrace place
  cases lead with
  | none => exact hopen
  | some category => exact hopen.mark category place

theorem step_applyHit {c t e : Span} (hx : x.WellFormed) (hk : blind x = true) (hm : Margins x s h c t e)
    (hstep : Step x s w w') : Step x s (applyHit w h) (applyHit w' h) := by
  simp only [blind, Bool.and_eq_true] at hk
  obtain ⟨⟨-, hmasked⟩, hterminator⟩ := hk
  have hmasked := Text.isBlot_of_blots hmasked
  have hterminator := Text.isBlot_of_blots hterminator
  have hlead := hm.lead
  unfold applyHit
  rw [hm.condition?, hm.thenBranch?, hm.elseBranch?]
  dsimp only
  generalize lead? h = lead at hlead ⊢
  refine (((Step.claim hx ?_ hmasked hm.condition).claim hx hmasked hm.question).claim hx hterminator hm.colon)
  have hmarks : Step x s
      ((openBlock (lead.map (·.1)) e.start ((openBlock (lead.map (·.1)) t.start w).mark .closeBrace e.start)).mark
        .closeBrace (e.stop - 1))
      ((openBlock (lead.map (·.1)) e.start ((openBlock (lead.map (·.1)) t.start w').mark .closeBrace e.start)).mark
        .closeBrace (e.stop - 1)) := (step_openBlock ((step_openBlock hstep).mark _ _)).mark _ _
  cases lead with
  | none => exact hmarks
  | some l => exact hmarks.claim hx hmasked (hlead l rfl)

/-- **Conditional expressions.** The pass makes twins of twins. -/
theorem twin_apply (hx : x.WellFormed) (hk : blind x = true) (h : WorkingCopy.Twin x w w') :
    WorkingCopy.Twin x (apply w) (apply w') := by
  have hblind : finder.blind x = true := by
    simp only [blind, Bool.and_eq_true] at hk
    exact hk.1.1.1.1.1
  have haccept : isFree w = isFree w' := funext fun hit => by simp only [isFree, h.isClaimed_eq]
  unfold apply
  rw [← haccept, ← Finder.hitsWhere_eq hx h.text hblind]
  refine (Step.foldl (fun hit hmem v v' hv => ?_) h.step).toTwin
  obtain ⟨c, t, e, hm⟩ := margins_of_mem hx h.text.refl_left hk hmem
  exact step_applyHit hx hk hm hv

end SourceLikeness.Tokenizer.ConditionalExpression
