import SourceLikeness.Proofs.Renaming.Finders
import SourceLikeness.Proofs.Text.Cut
import SourceLikeness.Tokenizer.CompoundAssignment
import SourceLikeness.Tokenizer.SwitchStatement

/-!
# Compound assignments and switch statements of two texts

* `CompoundAssignment.twin_apply` : the pass for compound assignments makes twins of twins;
* `SwitchStatement.caseEnd_eq` : a case ends at the same offset of both texts;
* `SwitchStatement.step_applyRegion` : what is done to the `switch` of a header keeps the step, since its header, its
  braces, its labels and the `break`s of its cases all stand between edges;
* `SwitchStatement.twin_apply` : the pass for switches makes twins of twins.
-/

namespace SourceLikeness.Tokenizer
open Text (isAsciiWord inside wordAt wordBefore Alike Lexicon Margin IsBlot Edged Uniform StandsAt Fewer)
open Pattern (reader readings_eq_hits)
open WorkingCopy (Step)
variable {x : Lexicon} {s t u : List Char} {w w' : Work}

namespace CompoundAssignment

/-- Signs are the same in both texts. -/
theorem eq_iff_of_alike (h : Alike s t) (hu : (u.all fun c => !isAsciiWord c) = true) : u = s ↔ u = t := by
  have hsame : ∀ {a b : List Char}, Alike a b → (a.all fun c => !isAsciiWord c) = true → a = b := by
    intro a b hab ha
    refine List.ext_getElem? fun i => ?_
    cases hc : a[i]? with
    | none => rw [hab.getElem?_eq_none_iff.1 hc]
    | some c =>
      rw [← hc]
      refine hab.getElem?_eq ?_
      rw [Text.wordAt_of_getElem? hc, ← Bool.not_eq_true']
      exact List.all_eq_true.1 ha c (List.mem_of_getElem? hc)
  constructor
  · rintro rfl
    exact hsame h hu
  · rintro rfl
    exact hsame h.symm hu

theorem category_eq (h : Alike s t) : category s = category t := by
  have hsigns : ∀ op ∈ bitOperators, (op.toList.all fun c => !isAsciiWord c) = true := by decide
  have hany : bitOperators.any (·.toList == s) = bitOperators.any (·.toList == t) := by
    rw [Bool.eq_iff_iff, List.any_eq_true, List.any_eq_true]
    simp only [beq_iff_eq]
    exact exists_congr fun op => and_congr_right fun hop => eq_iff_of_alike h (hsigns op hop)
  rw [category, category, hany]

theorem step_applyHit {hit : Hit} (hx : x.WellFormed) (hfill : IsBlot x WorkingCopy.operator)
    (htoken : Margin x s hit.token) (hwhole : Margin x s hit.whole) (h : Step x s w w') :
    Step x s (applyHit w hit) (applyHit w' hit) := by
  have hequals : (w.text[hit.whole.stop]? == some '=') = (w'.text[hit.whole.stop]? == some '=') := by
    refine h.text.toAlike.test_eq (f := fun o => o == some '=') (fun c d hc hd => ?_) _
    have hne : ∀ e, isAsciiWord e = true → (some e == some '=') = false := by
      intro e he
      rw [beq_eq_false_iff_ne]
      rintro ⟨⟩
      exact absurd he (by decide)
    rw [hne c hc, hne d hd]
  unfold applyHit
  rw [← h.isClaimed_eq, ← hequals, ← category_eq (h.text.toAlike.slice hit.token)]
  dsimp only
  split_ifs
  · exact h
  · exact ((h.mark _ _).take hx hfill htoken _).claim hx hfill hwhole

/-- **Compound assignments.** The pass makes twins of twins. -/
theorem twin_apply (hx : x.WellFormed) (hf : (reader compound).blind x = true)
    (hfirm : spares x (reader compound).firm = true) (hclean : spares x ((reader compound).clean x.absent) = true)
    (hfill : IsBlot x WorkingCopy.operator) (h : WorkingCopy.Twin x w w') :
    WorkingCopy.Twin x (apply w) (apply w') := by
  have hhits : (reader compound).hits w.text = (reader compound).hits w'.text := Finder.hitsWhere_eq hx h.text hf
  unfold apply
  rw [readings_eq_hits, readings_eq_hits, ← hhits]
  refine (Step.foldl (fun hit hmem v v' hv => ?_) h.step).toTwin
  exact step_applyHit hx hfill (margin_token hfirm hmem) (margin_whole hclean h.text.forward.absent hmem) hv

end CompoundAssignment

namespace SwitchStatement

/-- The lexicon has all that the pass for switches reads, and may lose what it writes over. -/
def blind (x : Lexicon) : Bool :=
  (reader header).blind x && (reader header).clean x.absent && (reader caseBreak).blind x && (reader caseBreak).firm &&
    (reader label).blind x && (reader label).firm && ["case", "default"].all (fun w => x.words.contains w.toList) &&
    Text.blots x WorkingCopy.masked && Text.blots x WorkingCopy.terminator && Text.blots x WorkingCopy.switchEnd

/-! ## Where blocks and cases end -/

/-- A closing brace stands where the block is closed. -/
theorem getElem?_closingBrace {depth offset n : Nat} {text : List Char}
    (h : closingBrace depth offset text = some n) : offset ≤ n ∧ text[n - offset]? = some '\x7d' := by
  fun_induction closingBrace depth offset text with
  | case1 => exact nomatch h
  | case2 depth offset rest ih =>
    obtain ⟨hle, hget⟩ := ih h
    rw [show n - offset = n - (offset + 1) + 1 by omega, List.getElem?_cons_succ]
    exact ⟨by omega, hget⟩
  | case3 depth offset rest hne hd =>
    obtain rfl := Option.some.inj h
    exact ⟨Nat.le_refl _, by rw [Nat.sub_self]; rfl⟩
  | case4 depth offset rest hne hd ih =>
    obtain ⟨hle, hget⟩ := ih h
    rw [show n - offset = n - (offset + 1) + 1 by omega, List.getElem?_cons_succ]
    exact ⟨by omega, hget⟩
  | case5 depth offset c rest ho hc ih =>
    obtain ⟨hle, hget⟩ := ih h
    rw [show n - offset = n - (offset + 1) + 1 by omega, List.getElem?_cons_succ]
    exact ⟨by omega, hget⟩

/-- A character that is tested for one that belongs to no word. -/
theorem eq_iff_of_char {c d e : Char} (h : c = d ∨ isAsciiWord c = true ∧ isAsciiWord d = true)
    (he : isAsciiWord e = false) : c = e ↔ d = e := by
  rcases h with rfl | ⟨hc, hd⟩
  · exact Iff.rfl
  · constructor
    · rintro rfl
      rw [hc] at he
      exact Bool.noConfusion he
    · rintro rfl
      rw [hd] at he
      exact Bool.noConfusion he

theorem closingBrace_eq (h : Alike s t) (depth offset : Nat) :
    closingBrace depth offset s = closingBrace depth offset t := by
  induction s generalizing t depth offset with
  | nil => rw [List.eq_nil_of_length_eq_zero h.length.symm]
  | cons c s ih =>
    obtain ⟨d, t, rfl⟩ := List.exists_cons_of_length_eq_add_one h.length.symm
    have hchar := h.char 0 c d rfl rfl
    have hrest : Alike s t := h.drop 1
    unfold closingBrace
    simp only [eq_iff_of_char hchar (e := '\x7b') (by decide), eq_iff_of_char hchar (e := '\x7d') (by decide), ih hrest]

theorem startsWord_iff {word : String} (s : List Char) (o : Nat) :
    startsWord word (Text.charBefore s o) (s.drop o) = true ↔ StandsAt word.toList s o := by
  have hafter : ((s.drop o).drop word.toList.length).head?.any isAsciiWord = wordAt s (o + word.toList.length) := by
    rw [List.drop_drop, List.head?_drop, wordAt]
  rw [startsWord, hafter]
  simp only [Bool.and_eq_true, Bool.not_eq_true', List.isPrefixOf_iff_prefix]
  constructor
  · rintro ⟨⟨hreads, hbefore⟩, hafter⟩
    exact ⟨hreads, hbefore, hafter⟩
  · rintro ⟨hreads, hbefore, hafter⟩
    exact ⟨⟨hreads, hbefore⟩, hafter⟩

theorem startsWord_eq {word : String} (h : Text.Twin x s t) (hword : word.toList ∈ x.words) (o : Nat) :
    startsWord word (Text.charBefore s o) (s.drop o) = startsWord word (Text.charBefore t o) (t.drop o) := by
  rw [Bool.eq_iff_iff, startsWord_iff, startsWord_iff, h.standsAt_iff hword]

/-- A case ends at the same offset of both texts. -/
theorem caseEnd_eq (h : Text.Twin x s t) (hcases : ∀ w ∈ ["case", "default"], w.toList ∈ x.words)
    (depth offset o : Nat) :
    caseEnd depth offset (Text.charBefore s o) (s.drop o) = caseEnd depth offset (Text.charBefore t o) (t.drop o) := by
  induction hn : s.length - o generalizing depth offset o with
  | zero =>
    rw [List.drop_eq_nil_of_le (by omega), List.drop_eq_nil_of_le (by rw [← h.length]; omega)]
    rfl
  | succ n ih =>
    have hs : o < s.length := by omega
    have ht : o < t.length := by rw [← h.length]; exact hs
    have hchar := h.char o s[o] t[o] (List.getElem?_eq_getElem hs) (List.getElem?_eq_getElem ht)
    have hcase := startsWord_eq h (hcases "case" (by decide)) o
    have hdefault := startsWord_eq h (hcases "default" (by decide)) o
    rw [List.drop_eq_getElem_cons hs, List.drop_eq_getElem_cons ht] at hcase hdefault ⊢
    have hnext : ∀ depth, caseEnd depth (offset + 1) (some s[o]) (s.drop (o + 1)) =
        caseEnd depth (offset + 1) (some t[o]) (t.drop (o + 1)) := by
      intro depth
      have hrest := ih depth (offset + 1) (o + 1) (by omega)
      rwa [Text.charBefore, Text.charBefore, List.getElem?_eq_getElem hs, List.getElem?_eq_getElem ht] at hrest
    have hend : (s[o] == WorkingCopy.switchEnd) = (t[o] == WorkingCopy.switchEnd) := by
      rw [Bool.eq_iff_iff, beq_iff_eq, beq_iff_eq]
      exact eq_iff_of_char hchar (by decide)
    unfold caseEnd
    simp only [eq_iff_of_char hchar (e := '\x7b') (by decide), eq_iff_of_char hchar (e := '\x7d') (by decide), hnext,
      hcase, hdefault, hend]

/-! ## The `switch` of a header -/

theorem charBefore_eq (s : List Char) (o : Nat) : charBefore s o = Text.charBefore s o := by
  cases o with
  | zero => rfl
  | succ o => rfl

theorem tokensWithin_eq {p : Pattern} {region : Span} (hx : x.WellFormed) (h : Text.Twin x s t)
    (hp : (reader p).blind x = true) (hregion : Edged s region) :
    tokensWithin p region s = tokensWithin p region t := by
  unfold tokensWithin
  rw [readings_eq_hits, readings_eq_hits, Finder.hits, Finder.hits,
    Finder.hitsWhere_eq hx (h.slice hx hregion.start hregion.stop) hp]

theorem edged_of_mem_tokensWithin {p : Pattern} {region q : Span} (hp : (reader p).firm = true)
    (hregion : Edged s region) (hq : q ∈ tokensWithin p region s) : Edged s q := by
  obtain ⟨hit, hmem, rfl⟩ := List.mem_map.1 hq
  exact hregion.of_slice (Finder.token_of_mem hp hmem)

theorem uniform_isLayout : Uniform Text.isLayout := by
  refine Text.uniform_of_eq_false fun c hc => ?_
  have hne : ∀ d : Char, isAsciiWord d = false → (c == d) = false := by
    intro d hd
    rw [beq_eq_false_iff_ne]
    rintro rfl
    rw [hc] at hd
    exact Bool.noConfusion hd
  simp only [Text.isLayout, hne ' ' (by decide), hne '\t' (by decide), hne '\n' (by decide), hne '\x0c' (by decide),
    hne '\r' (by decide), Bool.or_self]

theorem step_applyLabel {stop : Nat} {label : Span} (hx : x.WellFormed)
    (hcases : ∀ w ∈ ["case", "default"], w.toList ∈ x.words) (hfill : IsBlot x WorkingCopy.terminator)
    (hlabel : Margin x s label) (h : Step x s w w') :
    Step x s (applyLabel stop w label) (applyLabel stop w' label) := by
  have htake := h.take hx hfill hlabel Category.conditional
  unfold applyLabel
  rw [← h.admits_eq]
  dsimp only
  generalize w.take Category.conditional label WorkingCopy.terminator = v at htake ⊢
  generalize w'.take Category.conditional label WorkingCopy.terminator = v' at htake ⊢
  have hskip := (htake.text.toAlike.drop label.stop).length_takeWhile uniform_isLayout
  rw [← hskip]
  generalize label.stop + ((v.text.drop label.stop).takeWhile Text.isLayout).length = body
  have hopens : (v.text[body]? = some '\x7b') = (v'.text[body]? = some '\x7b') := by
    refine htake.text.toAlike.test_eq (f := fun o => o = some '\x7b') (fun c d hc hd => ?_) body
    have hne : ∀ e, isAsciiWord e = true → ¬ some e = some '\x7b' := by
      rintro e he ⟨⟩
      exact absurd he (by decide)
    exact propext ⟨fun h => absurd h (hne c hc), fun h => absurd h (hne d hd)⟩
  simp only [charBefore_eq, caseEnd_eq htake.text hcases, hopens]
  split_ifs
  · exact htake
  · exact (htake.mark _ _).mark _ _
  · exact h

/-- A character that belongs to no word stands between two edges. -/
theorem edged_of_getElem? {i : Nat} {c : Char} (h : s[i]? = some c) (hc : isAsciiWord c = false) :
    Edged s ⟨i, i + 1⟩ := by
  have hlt := (List.getElem?_eq_some_iff.1 h).1
  have hat : wordAt s i = false := by rw [Text.wordAt_of_getElem? h, hc]
  refine ⟨?_, ?_, Nat.le_of_lt hlt, hlt⟩
  · rw [inside, hat, Bool.and_false]
  · rw [inside, Text.wordBefore_succ, hat, Bool.false_and]

theorem step_caseBreaks {region : Span} (hx : x.WellFormed) (hbreak : (reader caseBreak).blind x = true)
    (hfirm : (reader caseBreak).firm = true) (hfill : IsBlot x WorkingCopy.masked) (hregion : Edged w.text region)
    (h : WorkingCopy.Twin x w w') :
    Step x w.text ((tokensWithin caseBreak region w.text).foldl (·.claim · WorkingCopy.masked) w)
      ((tokensWithin caseBreak region w'.text).foldl (·.claim · WorkingCopy.masked) w') := by
  rw [← tokensWithin_eq hx h.text hbreak hregion]
  refine Step.foldl (fun p hp v v' hv => ?_) h.step
  exact hv.claim hx hfill (edged_of_mem_tokensWithin hfirm hregion hp).margin

theorem step_labels {region : Span} (stop : Nat) (hx : x.WellFormed) (hlabel : (reader label).blind x = true)
    (hfirm : (reader label).firm = true) (hcases : ∀ w ∈ ["case", "default"], w.toList ∈ x.words)
    (hfill : IsBlot x WorkingCopy.terminator) (hregion : Edged w.text region) (h : WorkingCopy.Twin x w w') :
    Step x w.text ((tokensWithin label region w.text).foldl (applyLabel stop) w)
      ((tokensWithin label region w'.text).foldl (applyLabel stop) w') := by
  rw [← tokensWithin_eq hx h.text hlabel hregion]
  refine Step.foldl (fun p hp v v' hv => ?_) h.step
  exact step_applyLabel hx hcases hfill (edged_of_mem_tokensWithin hfirm hregion hp).margin hv

theorem step_applyRegion {header : Span} {stop : Nat} (hx : x.WellFormed) (hk : blind x = true)
    (hheader : Edged s header) (hstop : w.text[stop]? = some '\x7d') (h : Step x s w w') :
    Step x s (applyRegion header stop w) (applyRegion header stop w') := by
  simp only [blind, Bool.and_eq_true, List.all_eq_true, List.contains_iff_mem] at hk
  obtain ⟨⟨⟨⟨⟨⟨⟨⟨⟨-, -⟩, hbreak⟩, hbreakFirm⟩, hlabel⟩, hlabelFirm⟩, hcases⟩, hmasked⟩, hterminator⟩, hswitchEnd⟩ := hk
  have hterminator := Text.isBlot_of_blots hterminator
  have hbrace := edged_of_getElem? hstop (by decide)
  have hheader := h.fewer.edged hheader
  have hregion : Edged w.text ⟨header.stop, stop⟩ := ⟨hheader.stop, hbrace.start, hheader.stop_le, hbrace.start_le⟩
  -- each stage starts anew from the text that the one before it left
  have hclosed := h.toTwin.step.claim hx (Text.isBlot_of_blots hswitchEnd) hbrace.margin
  have hbreaks := step_caseBreaks hx hbreak hbreakFirm (Text.isBlot_of_blots hmasked) (hclosed.fewer.edged hregion)
    hclosed.toTwin
  have hopened := (hbreaks.rebase hclosed.fewer).claim hx hterminator hheader.margin
  have hlabels := step_labels stop hx hlabel hlabelFirm hcases hterminator (hopened.fewer.edged hregion)
    hopened.toTwin
  exact (hlabels.rebase hopened.fewer).rebase h.fewer

theorem step_applyHeader {header : Span} (hx : x.WellFormed) (hk : blind x = true) (hheader : Edged s header)
    (h : Step x s w w') : Step x s (applyHeader w header) (applyHeader w' header) := by
  unfold applyHeader
  rw [← h.isClaimed_eq, ← closingBrace_eq (h.text.toAlike.drop header.stop)]
  split_ifs
  · exact h
  · split
    · exact h
    · rename_i stop hstop
      obtain ⟨hle, hget⟩ := getElem?_closingBrace hstop
      rw [List.getElem?_drop, Nat.add_sub_cancel' hle] at hget
      exact step_applyRegion hx hk hheader hget h

/-- **Switches.** The pass makes twins of twins. -/
theorem twin_apply (hx : x.WellFormed) (hk : blind x = true) (h : WorkingCopy.Twin x w w') :
    WorkingCopy.Twin x (apply w) (apply w') := by
  have hheaders := hk
  simp only [blind, Bool.and_eq_true] at hheaders
  obtain ⟨⟨⟨⟨⟨⟨⟨⟨⟨hheader, hclean⟩, -⟩, -⟩, -⟩, -⟩, -⟩, -⟩, -⟩, -⟩ := hheaders
  have hhits : (reader header).hits w.text = (reader header).hits w'.text := Finder.hitsWhere_eq hx h.text hheader
  unfold apply
  rw [readings_eq_hits, readings_eq_hits, ← hhits]
  refine (Step.foldl (fun p hp v v' hv => ?_) h.step).toTwin
  obtain ⟨hit, hmem, rfl⟩ := List.mem_map.1 hp
  exact step_applyHeader hx hk (Finder.whole_of_mem hclean h.text.forward.absent hmem) hv

end SwitchStatement
end SourceLikeness.Tokenizer
