import SourceLikeness.Proofs.Boundary.Solid
import SourceLikeness.Proofs.Pattern.Evaluation
import SourceLikeness.Proofs.Renaming.Docstring
import SourceLikeness.Proofs.Tokenizer.Edits

/-!
# Passes that cut no character

Whether the hits of a finder cut free characters can be computed from its pattern: they do not if it starts and stops at no
seam of an open fill.

* `Finder.sparesHits`, `Finder.sparesTokens` : whole hits and tokens cut no free character;
* `intact_erase`, `intact_classify` : the passes that need a finder only;
* `Docstring.intact_apply`, `CompoundAssignment.intact_apply` : passes of their own;
* `Increment.intact_classify` : the pattern of an increment may start between two bytes of a literal, but the search finds it
  one byte earlier then (`Increment.not_found_inside`).
-/

namespace SourceLikeness
open Text (charBefore)

/-! ## Finders -/

namespace Finder
variable {f : Finder} {accept : Hit → Bool} {h : Hit} {w : Tokenizer.Work} {source fills : List Char}

/-- Whole hits start and stop at no seam of an open fill. -/
def sparesHits (f : Finder) : Bool := openFills.all fun x => (Seam.between x).clean f.pattern

/-- Tokens start and stop at no seam of an open fill. -/
def sparesTokens (f : Finder) : Bool := openFills.all fun x => (Seam.between x).firm f

theorem spares_whole (hf : f.sparesHits = true) (hw : w.Solid source fills) (hmem : h ∈ f.hitsWhere accept w.text) :
    h.whole.Spares source w := by
  have hwithin := (within_of_mem hmem).whole.mono (Nat.zero_le _) (Nat.le_refl _)
  rw [← WorkingCopy.size_eq_length_text] at hwithin
  exact hw.spares hwithin fun x hx => Seam.clear_whole_of_mem (List.all_eq_true.1 hf x hx) hmem

theorem spares_token (hf : f.sparesTokens = true) (hw : w.Solid source fills) (hmem : h ∈ f.hitsWhere accept w.text) :
    h.token.Spares source w := by
  have hwithin := (within_of_mem hmem).token.mono (Nat.zero_le _) (Nat.le_refl _)
  rw [← WorkingCopy.size_eq_length_text] at hwithin
  exact hw.spares hwithin fun x hx => Seam.clear_token_of_mem (List.all_eq_true.1 hf x hx) hmem

end Finder

namespace Tokenizer
open WorkingCopy
variable {w : Work} {source fills : List Char} {f : Finder} {fill : Char}

/-! ## The passes that need a finder only -/

theorem intact_erase (hf : f.sparesHits = true) (hopen : fill ∈ openFills) (hfill : fill ∈ fills ∨ fills = [])
    (hascii : IsAscii fill) (hw : w.Solid source fills) : Intact source fills w (erase f fill w) :=
  .foldl (.refl hw) fun _ hmem _ hv => hv.overwrite (Finder.spares_whole hf hw hmem) hopen hfill hascii

theorem intact_classifyHit {v : Work} {hit : Hit} (htoken : hit.token.Spares source w) (hlt : hit.token.start < hit.token.stop)
    {swallows : Bool} (hwhole : swallows = true → hit.whole.Spares source w) (category : Category) (hfill : fill ∈ fills)
    (hascii : IsAscii fill) (hv : Intact source fills w v) :
    Intact source fills w (classifyHit category fill swallows v hit) := by
  have htake := hv.take htoken hlt category hfill hascii
  unfold classifyHit
  split_ifs with hadmits hswallows
  · exact htake.claim (hwhole hswallows) hfill hascii
  · exact htake
  · exact hv

theorem intact_classify (hf : f.sparesTokens = true) (hsolid : f.solid = true) (category : Category) (swallows : Bool)
    (hwhole : swallows = true → f.sparesHits = true) (hfill : fill ∈ fills) (hascii : IsAscii fill)
    (hw : w.Solid source fills) : Intact source fills w (classify f category fill swallows w) :=
  .foldl (.refl hw) fun _ hmem _ hv => intact_classifyHit (Finder.spares_token hf hw hmem) (Finder.token_lt_of_mem hmem hsolid)
    (fun hswallows => Finder.spares_whole (hwhole hswallows) hw hmem) category hfill hascii hv

/-! ## Docstrings -/

namespace Docstring

/-- A literal alone on its line starts and stops at boundaries: on both sides stands something else. -/
theorem aligned_of_lone {s : List Char} {p : Span} (hs : Knit source s) (h : Lone s p) : p.Aligned source := by
  have hne : ∀ {n : Nat}, Text.inside s n = false → (charBefore s n = some literal ∨ s[n]? = some literal) →
      charBefore s n ≠ s[n]? := by
    intro n hinside hone heq
    have hword : ∀ o : Option Char, o = some literal → o.any Text.isAsciiWord = true := by
      rintro _ rfl
      decide
    rw [Text.inside, Text.wordBefore, Text.wordAt, ← heq, hword _ (hone.elim id heq.trans)] at hinside
    exact Bool.noConfusion hinside
  have hlt := h.lt
  constructor
  · exact hs.isBoundary_of_ne h.edged.start_le (hne h.edged.start (Or.inr (h.ones _ (Nat.le_refl _) hlt)))
  · refine hs.isBoundary_of_ne h.edged.stop_le (hne h.edged.stop (Or.inl ?_))
    obtain ⟨n, hn⟩ := Nat.exists_eq_succ_of_ne_zero (Nat.ne_of_gt (Nat.zero_lt_of_lt hlt))
    rw [hn]
    exact h.ones n (by omega) (by omega)

theorem intact_apply (hw : w.Solid source []) : Intact source [] w (apply w) := by
  refine .foldl (.refl hw) fun p hmem v hv => ?_
  have haligned := aligned_of_lone (hw.knit (List.forall_mem_nil _)) (lone_of_mem_spans hmem)
  exact hv.overwrite (haligned.spares w) (by decide) (Or.inr rfl) isAscii_blank

end Docstring

/-! ## Compound assignments -/

namespace CompoundAssignment

theorem intact_applyHit {v : Work} {hit : Hit} (htoken : hit.token.Spares source w) (hlt : hit.token.start < hit.token.stop)
    (hwhole : hit.whole.Spares source w) (hle : hit.whole.start < hit.whole.stop) (hstop : hit.whole.stop ≤ w.size)
    (hfill : WorkingCopy.operator ∈ fills) (hv : Intact source fills w v) : Intact source fills w (applyHit v hit) := by
  unfold applyHit
  dsimp only
  split_ifs with hskip
  · exact hv
  · have hfree : v.isClaimed hit.whole = false := by
      rw [← Bool.not_eq_true]
      exact fun hclaimed => hskip (by rw [hclaimed, Bool.true_or])
    have hadmits : v.admits hit.whole = true := by
      simp only [WorkingCopy.admits, Nat.le_of_lt hle, hv.grows.size_eq, hstop, hfree, decide_true, Bool.not_false, Bool.and_self]
    have hstart := (hv.solid.aligned (hwhole.grows hv.grows) hle hadmits).start
    exact ((hv.mark hstart _).take htoken hlt _ hfill isAscii_operator).claim hwhole hfill isAscii_operator

theorem intact_apply (hfill : WorkingCopy.operator ∈ fills) (hw : w.Solid source fills) : Intact source fills w (apply w) := by
  refine .foldl (.refl hw) fun hit hmem v hv => ?_
  have hhits : Finder.sparesHits { pattern := compound, consumes := true } = true := by decide +kernel
  have htokens : Finder.sparesTokens { pattern := compound, consumes := true } = true := by decide +kernel
  have hstop := (Pattern.within_of_mem_readings hmem).whole.stop_le
  rw [← size_eq_length_text] at hstop
  exact intact_applyHit (Finder.spares_token htokens hw hmem) (Finder.token_lt_of_mem hmem (by decide +kernel))
    (Finder.spares_whole hhits hw hmem) (Finder.start_lt_stop_of_mem hmem (by decide +kernel)) hstop hfill hv

end CompoundAssignment

/-! ## Increments -/

namespace Increment
open Pattern

/-- The finder of the pass. -/
def finder : Finder := { pattern := Operator.increment }

def step : Pattern := any [text "++", text "--"]

theorem increment_eq : Operator.increment = alt (seq name (seq blanks step)) (seq step (seq blanks name)) := rfl

/-- An increment that starts inside a literal could as well start one character earlier. -/
theorem read_earlier {s : List Char} {i : Nat} {d : Cursor} (hi : s[i]? = some literal) (hnext : s[i + 1]? = some literal)
    (hd : Operator.increment.read (Finder.start s (i + 1)) = some d) : Operator.increment.read (Finder.start s i) = some d := by
  have hin := Finder.in_start s i
  have hin' := Finder.in_start s (i + 1)
  obtain ⟨rest, hrest⟩ := List.head?_eq_some_iff.1 (hin.head?.trans hi)
  obtain ⟨rest', hrest'⟩ := List.head?_eq_some_iff.1 (hin'.head?.trans hnext)
  have hstep : (Finder.start s i).advance literal rest = Finder.start s (i + 1) := hin.advance_eq hrest
  have hone : ∀ {c : Cursor} {u : List Char} (k : Cursor → Option Cursor), c.rest = literal :: u →
      wordChar.run c k = k (c.advance literal u) := fun k hc => (run_one_of_cons hc).trans (if_pos (by decide))
  have hsign : ∀ k : Cursor → Option Cursor, step.run (Finder.start s (i + 1)) k = none := fun k => by
    have hplus : (text "++").run (Finder.start s (i + 1)) k = none :=
      run_text_eq_none (t := "++") (b := '+') rfl (by rw [hrest', List.head?_cons]; decide)
    have hminus : (text "--").run (Finder.start s (i + 1)) k = none :=
      run_text_eq_none (t := "--") (b := '-') rfl (by rw [hrest', List.head?_cons]; decide)
    exact (run_any_of_none hplus).trans hminus
  have hlast : (seq step (seq blanks name)).run (Finder.start s (i + 1)) some = none := hsign _
  -- Behind the first character both readings go on with the name.
  have hfirst : ∀ {c : Cursor} {u : List Char}, c.rest = literal :: u →
      (seq name (seq blanks step)).run c some =
        (many wordChar).run (c.advance literal u) fun t => (seq blanks step).run t some :=
    fun hc => hone (fun m => (many wordChar).run m fun t => (seq blanks step).run t some) hc
  have hmany : (seq name (seq blanks step)).run (Finder.start s (i + 1)) some = some d := by
    rw [Pattern.read, increment_eq, run_alt, hlast] at hd
    cases hrun : (seq name (seq blanks step)).run (Finder.start s (i + 1)) some with
    | none =>
      rw [hrun] at hd
      cases hd
    | some e =>
      rw [hrun] at hd
      exact hd
  rw [Pattern.read, increment_eq, run_alt, hfirst hrest, hstep]
  rw [hfirst hrest'] at hmany
  have hnextRound : (many wordChar).run (Finder.start s (i + 1)) (fun t => (seq blanks step).run t some) = some d := by
    change greedily wordChar.run (Finder.start s (i + 1)).rest _ _ = some d
    rw [hrest', greedily, hone _ hrest']
    change ((many wordChar).run ((Finder.start s (i + 1)).advance literal rest') _ <|> _) = some d
    rw [hmany]
    rfl
  rw [hnextRound]
  rfl

theorem ends_finder {x : Char} (hx : x ∈ openFills) : (Seam.between x).ends finder.pattern false = true := by
  have hall : openFills.all (fun x => (Seam.between x).ends finder.pattern false) = true := by decide +kernel
  exact List.all_eq_true.1 hall x hx

theorem stops_finder {x : Char} (hx : x ∈ openFills) (hne : x ≠ literal) :
    (Seam.between x).stops finder.pattern ((Seam.between x).ends finder.pattern false) = true := by
  have hall : openFills.all (fun x => x == literal ||
      (Seam.between x).stops finder.pattern ((Seam.between x).ends finder.pattern false)) = true := by decide +kernel
  exact (Bool.or_eq_true_iff.1 (List.all_eq_true.1 hall x hx)).resolve_left fun heq => hne (beq_iff_eq.1 heq)

variable {hit : Hit}

/-- What is found between two bytes of a literal and is free would have been found one byte earlier. -/
theorem not_found_inside {n : Nat} {c : Cell} (hn : hit.whole.start = n + 1) (hbefore : w.cells[n]? = some c)
    (hat : w.cells[n + 1]? = some c) (hfree : c.claimed = false) (hchar : c.char = literal) :
    hit ∉ finder.hitsWhere (fun hit => !w.isClaimed hit.token) w.text := by
  intro hmem
  have hshown : ∀ {i : Nat}, w.cells[i]? = some c → w.text[i]? = some literal := fun hi => hchar ▸ Solid.text_of_cell hi
  have hpartless : finder.pattern.partless = true := by decide
  have hhit := Finder.hitOf_of_mem hmem
  obtain ⟨d, hd, heq⟩ := Finder.read_of_hitOf hhit
  have hwithin := (Finder.within_of_mem hmem).whole
  have hlt := Finder.start_lt_stop_of_mem hmem (by decide)
  have hstop : hit.whole.stop = d.offset := congrArg (fun h => h.whole.stop) heq
  have hsize := hwithin.stop_le
  rw [← size_eq_length_text, hstop] at hsize
  rw [hn] at hd
  have hearlier := read_earlier (hshown hbefore) (hshown hat) hd
  have hparts : d.parts = [] := (reads_of_read hd).parts_eq hpartless
  have htoken : Hit.token ⟨⟨n, d.offset⟩, d.parts⟩ = ⟨n, d.offset⟩ := by
    rw [hparts]
    rfl
  have haccept : (!w.isClaimed (Hit.token ⟨⟨n, d.offset⟩, d.parts⟩)) = true := by
    rw [htoken, Bool.not_eq_true', ← Bool.not_eq_true]
    intro hclaimed
    obtain ⟨p, e, hle, hltp, he, heclaimed⟩ := (isClaimed_iff (by dsimp only; omega) hsize).1 hclaimed
    rcases Nat.lt_or_ge n p with hp | hp
    · have hall : w.isClaimed hit.token = true := by
        rw [Finder.token_eq_whole hpartless hmem]
        refine (isClaimed_iff (Nat.le_of_lt hlt) (by rw [hstop]; exact hsize)).2 ⟨p, e, by omega, ?_, he, heclaimed⟩
        rw [hstop]
        exact hltp
      have hnot := Finder.accept_of_hitOf hhit
      rw [hall] at hnot
      exact Bool.noConfusion hnot
    · obtain rfl : p = n := Nat.le_antisymm hp hle
      obtain rfl := Option.some.inj (hbefore.symm.trans he)
      rw [hfree] at heclaimed
      exact Bool.noConfusion heclaimed
  have hfound : finder.hitOf (fun hit => !w.isClaimed hit.token) w.text n = some ⟨⟨n, d.offset⟩, d.parts⟩ :=
    Finder.hitOf_of_read rfl rfl rfl hearlier haccept
  rcases Finder.earlier_of_mem hmem (n := n) (by omega) with hnone | ⟨g, hg, hbehind, hbefore'⟩
  · have hle : (Hit.token ⟨⟨n, d.offset⟩, d.parts⟩).stop ≤ hit.whole.start := hnone _ hfound
    rw [htoken] at hle
    dsimp only at hle
    omega
  · -- A hit before it would stop between the two bytes.
    rw [Finder.resume_eq_stop hpartless hg] at hbehind hbefore'
    have hopen : c.char ∈ openFills := by rw [hchar]; decide
    have hseam := Seam.stop_of_mem (ends_finder hopen) hg
    rw [show g.whole.stop = n + 1 by omega, Solid.seamAt_of_cells (Nat.succ_pos n) hbefore hat hopen] at hseam
    exact Bool.noConfusion hseam

theorem spares_token (hw : w.Solid source fills) (hmem : hit ∈ finder.hitsWhere (fun hit => !w.isClaimed hit.token) w.text) :
    hit.token.Spares source w := by
  have hwithin := (Finder.within_of_mem hmem).whole
  have hstop := hwithin.stop_le
  rw [← size_eq_length_text] at hstop
  rw [Finder.token_eq_whole (by decide) hmem]
  refine ⟨?_, hw.spared hstop fun x hx => Seam.stop_of_mem (ends_finder hx) hmem⟩
  by_cases hb : IsBoundary source hit.whole.start
  · exact Or.inl hb
  · have hlt := hw.lt_size (Nat.le_trans hwithin.start_le_stop hstop) hb
    obtain ⟨n, hn⟩ := Nat.exists_eq_succ_of_ne_zero (Nat.ne_of_gt (pos_of_not_isBoundary hb))
    obtain ⟨c, d, hbefore, hat, hjoined⟩ := hw.cell _ hlt hb
    rcases hjoined with ⟨rfl, hfree, hopen⟩ | ⟨-, hclaimed, -⟩
    · by_cases hchar : c.char = literal
      · rw [hn] at hbefore hat
        exact absurd hmem (not_found_inside hn hbefore hat hfree hchar)
      · have hseam := Seam.start_of_mem (stops_finder hopen hchar) hmem
        rw [Solid.seamAt_of_cells (pos_of_not_isBoundary hb) hbefore hat hopen] at hseam
        exact Bool.noConfusion hseam
    · exact Or.inr ⟨d, hat, hclaimed⟩

theorem intact_classify (category : Category) {fill : Char} (hfill : fill ∈ fills) (hascii : IsAscii fill)
    (hw : w.Solid source fills) : Intact source fills w (classify finder category fill false w) :=
  .foldl (.refl hw) fun _ hmem _ hv => intact_classifyHit (spares_token hw hmem) (Finder.token_lt_of_mem hmem (by decide))
    (fun h => Bool.noConfusion h) category hfill hascii hv

end Increment

end Tokenizer
end SourceLikeness
