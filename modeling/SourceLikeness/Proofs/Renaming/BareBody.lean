import SourceLikeness.Proofs.Renaming.Statement
import SourceLikeness.Proofs.Tokenizer.Places

/-!
# Bodies without braces of two texts

The search for the body of an `else` does not ask that the word ends there. So the lexicon has `else` as an opening,
and where a longer word is cut behind it, the rest reads as an `if` only if the word is `elseif`.

* `elseBody_token` : the body of an `else` starts at an edge, or right behind the `else` that a longer word begins with;
* `leadingIf_eq` : whether a body is left to an `if` is the same in both texts;
* `twin_withoutHeaders` : texts whose `for` headers are hidden;
* `bodies_eq`, `twin_apply` : the bodies are the same, and the pass that marks them makes twins of twins.
-/

namespace SourceLikeness.Tokenizer.BareBody
open Pattern
open Text (isAsciiWord inside wordAt wordBefore Lexicon IsBlot Edged StandsAt StartsAt Fewer Filled)
open WorkingCopy (Step)
variable {x : Lexicon} {s t u v : List Char} {w w' : Work} {c d : Cursor}

/-- The lexicon has all that the pass for bodies without braces reads. -/
def blind (x : Lexicon) : Bool :=
  (reader elseBody).blind x && x.openings.contains "else".toList && x.words.contains "elseif".toList &&
    leadingIf.blind x true leadingIf.ends && (reader doBody).blind x &&
    (reader forHeader).blind x && (reader forHeader).firm && Text.blots x '.' &&
    (reader (word headed)).blind x && (reader (word headed)).clean x.absent && headedBody.blind x true headedBody.ends

/-! ## The body of an `else` -/

theorem eq_or_inside_of_blanks (h : blanks.Reads c d) : d = c ∨ d.inside = false := by
  rcases Relation.ReflTransGen.cases_tail h with rfl | ⟨m, -, hstep⟩
  · exact Or.inl rfl
  · exact Or.inr (hstep.inside_eq_false (e := false) nofun rfl)

theorem elseBody_token {h : Hit} (hmem : h ∈ (reader elseBody).hits s) :
    StartsAt "else".toList s h.whole.start ∧
      (h.token.start = h.whole.start + 4 ∨ inside s h.token.start = false) ∧ inside s h.token.stop = false := by
  obtain ⟨m, hm, heq⟩ := Finder.read_of_hitOf (Finder.hitOf_of_mem hmem)
  obtain ⟨c₁, ⟨hedge, rfl⟩, c₂, hword, c₃, hblanks, c₄, hbody, rfl⟩ := reads_of_read hm
  have hin := Finder.in_start s h.whole.start
  obtain ⟨hreads, rfl⟩ := hword.of_spelled (w := "else".toList) rfl hin
  have hin₂ : (Cursor.moved s (Finder.start s h.whole.start) 4).In s := .moved 4
  obtain ⟨hin₃, -⟩ := hblanks.mem hin₂
  obtain ⟨hin₄, -⟩ := hbody.mem hin₃
  have hstarts := startsAt_of_edge (Cursor.inside_of_atWordEdge hedge) hin (w := "else".toList)
    (List.all_eq_true.1 (by decide)) (by decide) hreads
  rw [heq]
  refine ⟨hstarts, ?_, ?_⟩
  · change c₃.offset = _ ∨ inside s c₃.offset = false
    rw [← hin₃.inside_eq]
    exact (eq_or_inside_of_blanks hblanks).imp_left fun h => by rw [h]; rfl
  · change inside s c₄.offset = false
    rw [← hin₄.inside_eq]
    exact hbody.inside_eq_false (e := false) nofun rfl

/-! ## Bodies that are left to an `if` -/

theorem run_blanks_of_isAsciiWord {β : Type} {k : Cursor → Option β} {y : Char} {rest : List Char}
    (hc : c.rest = y :: rest) (hy : isAsciiWord y = true) : blanks.run c k = k c := by
  have hblank : (CharSet.only [.blank]).holds y = false := CharSet.holds_eq_false rfl hy
  unfold blanks
  rw [run, hc, greedily, run_one_of_cons hc, hblank, if_neg Bool.false_ne_true]
  rfl

/-- An `if` at the start of a text whose first character belongs to a word stands there as a whole. -/
theorem isSome_leadingIf (hs : ∀ y ∈ u, IsAscii y) (hword : wordAt u 0 = true) :
    (leadingIf.readStart u).isSome = true ↔ StandsAt "if".toList u 0 := by
  obtain ⟨y, hy, hyw⟩ := Text.wordAt_eq_true_iff.1 hword
  obtain ⟨rest, hu⟩ : ∃ rest, u = y :: rest := by
    cases u with
    | nil => exact nomatch hy
    | cons z rest => exact ⟨rest, by rw [Option.some.inj hy]⟩
  have hin := Finder.in_start u 0
  have hmoved : ((Finder.start u 0).moved u 2).atWordEdge = (wordBefore u 2 != wordAt u 2) :=
    Cursor.In.atWordEdge_eq (.moved 2) hs
  have hrun : leadingIf.read (Finder.start u 0) =
      if "if".toList <+: u then (if wordBefore u 2 != wordAt u 2 then some ((Finder.start u 0).moved u 2) else none)
      else none := by
    rw [← hmoved]
    refine (run_blanks_of_isAsciiWord (c := Finder.start u 0) hu hyw).trans ?_
    exact run_of_spelled (p := text "if") rfl hin
  have hbefore : "if".toList <+: u → wordBefore u 2 = true := fun hreads =>
    Text.wordAt_of_reads (w := "if".toList) (i := 0) (j := 1) (List.all_eq_true.1 (by decide)) hreads (by decide)
  have hsome : (leadingIf.readStart u).isSome = (leadingIf.read (Finder.start u 0)).isSome := Option.isSome_map
  rw [hsome, hrun]
  constructor
  · intro h
    split_ifs at h with hreads hedge
    · rw [hbefore hreads, bne_iff_ne, ne_comm, ne_eq, Bool.not_eq_true] at hedge
      exact ⟨hreads, rfl, hedge⟩
    · exact nomatch h
    · exact nomatch h
  · rintro ⟨hreads, -, hafter⟩
    have hafter : wordAt u 2 = false := hafter
    rw [List.drop_zero] at hreads
    rw [if_pos hreads, hbefore hreads, hafter]
    rfl

/-- A word that is cut behind its `else` leaves an `if` if it is `elseif`. -/
theorem standsAt_if_of_slice (h : Text.Twin x s t) (hword : "elseif".toList ∈ x.words) {i n : Nat}
    (helse : StartsAt "else".toList s i) (hn : inside (s.drop (i + 4)) n = false)
    (hif : StandsAt "if".toList ((s.drop (i + 4)).take n) 0) : StandsAt "if".toList ((t.drop (i + 4)).take n) 0 := by
  have hchars : ∀ c ∈ "if".toList, isAsciiWord c = true := List.all_eq_true.1 (by decide)
  have hn' : inside (t.drop (i + 4)) n = false := by rw [← (h.toAlike.drop _).inside_eq, hn]
  obtain ⟨⟨hreads, -, hafter⟩, hlt⟩ := (Text.standsAt_take_iff hchars (by decide) hn).1 hif
  rw [Text.wordAt_drop] at hafter
  have hstands : StandsAt "elseif".toList s i :=
    ⟨Text.append_prefix_drop_iff (v := "else".toList).2 ⟨helse.reads, hreads⟩, helse.before, hafter⟩
  obtain ⟨hreads', -, hafter'⟩ := (h.standsAt_iff hword).1 hstands
  obtain ⟨-, hif'⟩ := Text.append_prefix_drop_iff (v := "else".toList) (w := "if".toList).1 hreads'
  refine (Text.standsAt_take_iff hchars (by decide) hn').2 ⟨⟨hif', rfl, ?_⟩, hlt⟩
  rw [Text.wordAt_drop]
  exact hafter'

/-- Whether a body of an `else` is left to an `if` is the same in both texts. -/
theorem leadingIf_eq (hx : x.WellFormed) (h : Text.Twin x s t) (hk : blind x = true) {hit : Hit}
    (hmem : hit ∈ (reader elseBody).hits s) :
    (leadingIf.readStart (hit.token.slice s)).isNone = (leadingIf.readStart (hit.token.slice t)).isNone := by
  simp only [blind, Bool.and_eq_true, List.contains_iff_mem] at hk
  obtain ⟨⟨⟨⟨⟨⟨⟨⟨⟨⟨-, hopening⟩, hword⟩, hif⟩, -⟩, -⟩, -⟩, -⟩, -⟩, -⟩, -⟩ := hk
  obtain ⟨helse, hstart, hstop⟩ := elseBody_token hmem
  have halike := h.toAlike.slice hit.token
  rcases Bool.eq_false_or_eq_true (inside s hit.token.start) with hin | hin
  · have hstart : hit.token.start = hit.whole.start + 4 := by
      rcases hstart with hstart | hstart
      · exact hstart
      · rw [hin] at hstart
        exact Bool.noConfusion hstart
    have hslice : ∀ u : List Char, hit.token.slice u = (u.drop (hit.whole.start + 4)).take (hit.token.stop - hit.token.start) :=
      fun u => by rw [Span.slice, ← hstart]
    cases hat : wordAt (hit.token.slice s) 0 with
    | false =>
      -- the body starts inside a word, so it is empty if it does not start with a word character
      have hle : hit.token.stop - hit.token.start = 0 := by
        by_contra hpos
        rw [Span.slice, Text.wordAt_take_of_lt (Nat.pos_of_ne_zero hpos), Text.wordAt_drop] at hat
        rw [inside, show wordAt s hit.token.start = false from hat, Bool.and_false] at hin
        exact Bool.noConfusion hin
      rw [hslice, hslice, hle, List.take_zero, List.take_zero]
    | true =>
      have hn : inside (s.drop (hit.whole.start + 4)) (hit.token.stop - hit.token.start) = false := by
        rw [← hstart]
        exact Text.inside_drop_length hstop
      have hn' : inside (t.drop (hit.whole.start + 4)) (hit.token.stop - hit.token.start) = false := by
        rw [← (h.toAlike.drop _).inside_eq, hn]
      have hiff : StandsAt "if".toList (hit.token.slice s) 0 ↔ StandsAt "if".toList (hit.token.slice t) 0 := by
        rw [hslice, hslice]
        exact ⟨standsAt_if_of_slice h hword helse hn,
          standsAt_if_of_slice h.symm hword ((h.startsAt_iff hopening).1 helse) hn'⟩
      rw [← Option.not_isSome, ← Option.not_isSome, Bool.not_inj_iff, Bool.eq_iff_iff,
        isSome_leadingIf halike.left hat, isSome_leadingIf halike.right (by rw [← halike.wordAt_eq, hat]), hiff]
  · rw [Finder.readStart_eq hx (h.slice hx hin hstop) hif]

/-! ## Bodies behind headers -/

theorem filled_hide (u : List Char) (p : Span) : Filled (fun _ => '.') p.start p.stop u (hide u p) := getElem?_hide u p

theorem twin_hide {ps : List Span} (hx : x.WellFormed) (hfill : IsBlot x '.') (hps : ∀ p ∈ ps, Edged s p)
    (hs : Fewer s u) (h : Text.Twin x u v) : Text.Twin x (ps.foldl hide u) (ps.foldl hide v) := by
  have hascii : Text.IsFill fun _ => '.' := ⟨fun _ _ => hfill.ascii, fun _ _ _ _ => rfl⟩
  induction ps generalizing u v with
  | nil => exact h
  | cons p ps ih =>
    have hp := hs.edged (hps p List.mem_cons_self)
    have hfilled := filled_hide u p
    refine ih (fun q hq => hps q (List.mem_cons_of_mem p hq)) ?_ ?_
    · exact hs.trans (hfilled.fewer fun _ => hfill.notWord)
    · exact h.fill hx hascii (fun _ => hfill.notWord) (fun _ _ => hfill.notMem) (Or.inl hp.start) hp.stop hfilled
        (filled_hide v p)

theorem twin_withoutHeaders (hx : x.WellFormed) (hk : blind x = true) (h : Text.Twin x s t) :
    Text.Twin x (withoutHeaders s) (withoutHeaders t) := by
  simp only [blind, Bool.and_eq_true] at hk
  obtain ⟨⟨⟨⟨⟨⟨-, hheader⟩, hfirm⟩, hfill⟩, -⟩, -⟩, -⟩ := hk
  have hhits : (reader forHeader).hits s = (reader forHeader).hits t := Finder.hitsWhere_eq hx h hheader
  unfold withoutHeaders
  rw [readings_eq_hits, readings_eq_hits, ← hhits]
  refine twin_hide hx (Text.isBlot_of_blots hfill) (fun p hp => ?_) (Fewer.refl s) h
  obtain ⟨hit, hmem, rfl⟩ := List.mem_map.1 hp
  exact Finder.token_of_mem hfirm hmem

theorem headedBodies_eq (hx : x.WellFormed) (hk : blind x = true) (h : Text.Twin x s t) :
    headedBodies s = headedBodies t := by
  simp only [blind, Bool.and_eq_true] at hk
  obtain ⟨⟨⟨-, hword⟩, hclean⟩, hbody⟩ := hk
  have hhits : (reader (word headed)).hits s = (reader (word headed)).hits t := Finder.hitsWhere_eq hx h hword
  unfold headedBodies
  rw [readings_eq_hits, readings_eq_hits, ← hhits]
  refine List.filterMap_congr fun hit hmem => ?_
  have hedged := Finder.whole_of_mem hclean h.forward.absent hmem
  rw [Finder.readStart_eq hx (h.drop hx hedged.start) hbody]

/-- The bodies stand at the same offsets of both texts. -/
theorem bodies_eq (hx : x.WellFormed) (hk : blind x = true) (h : Text.Twin x s t) : bodies s = bodies t := by
  have hall := hk
  simp only [blind, Bool.and_eq_true] at hall
  obtain ⟨⟨⟨⟨⟨⟨⟨⟨⟨⟨helse, -⟩, -⟩, -⟩, hdo⟩, -⟩, -⟩, -⟩, -⟩, -⟩, -⟩ := hall
  have helseHits : (reader elseBody).hits s = (reader elseBody).hits t := Finder.hitsWhere_eq hx h helse
  have hdoHits : (reader doBody).hits s = (reader doBody).hits t := Finder.hitsWhere_eq hx h hdo
  have hkept : ((elseBody.readings s).map Hit.token).filter (fun p => (leadingIf.readStart (p.slice s)).isNone) =
      ((elseBody.readings s).map Hit.token).filter fun p => (leadingIf.readStart (p.slice t)).isNone := by
    refine List.filter_congr fun p hp => ?_
    obtain ⟨hit, hmem, rfl⟩ := List.mem_map.1 hp
    exact leadingIf_eq hx h hk hmem
  unfold bodies
  dsimp only
  rw [hkept, readings_eq_hits, readings_eq_hits, readings_eq_hits, readings_eq_hits, ← helseHits, ← hdoHits,
    headedBodies_eq hx hk (twin_withoutHeaders hx hk h)]

/-! ## The pass -/

theorem step_wrap {body : Span} (h : Step x s w w') : Step x s (wrap w body) (wrap w' body) := by
  have hskip := (h.text.toAlike.slice body).length_takeWhile SwitchStatement.uniform_isLayout
  unfold wrap
  rw [← hskip]
  exact (h.mark _ _).mark _ _

/-- **Bodies without braces.** The pass makes twins of twins. -/
theorem twin_apply (hx : x.WellFormed) (hk : blind x = true) (h : WorkingCopy.Twin x w w') :
    WorkingCopy.Twin x (apply w) (apply w') := by
  unfold apply
  rw [← bodies_eq hx hk h.text]
  exact (Step.foldl (f := wrap) (fun _ _ _ _ hv => step_wrap hv) h.step).toTwin

end SourceLikeness.Tokenizer.BareBody
