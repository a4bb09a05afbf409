import SourceLikeness.Proofs.Blocks.Passes

/-!
# Switch statements keep the depth of a text

The header of a `switch` and its closing brace are written over together, and what stands between them is balanced.

* `Shell` : the text of a header in front of a balanced part and a closing brace;
* `Shell.balanced` : such a text is balanced; `Shell.depth_eq` : without the two braces the depth is the same;
* `reached_apply` : the pass.
-/

namespace SourceLikeness.Tokenizer.SwitchStatement
open Bracket Pattern
open Text (braceAt)
variable {w v : Work} {s : List Char} {h : Hit} {q : Span} {a b stop : Nat} {fill : Char}

/-! ## The two braces -/

/-- A header and a closing brace, with a balanced part between them and no brace in the header but the last character. -/
structure Shell (s : List Char) (header : Span) (stop : Nat) : Prop where
  lt : header.start < header.stop
  le : header.stop ≤ stop
  front : Braceless ⟨header.start, header.stop - 1⟩ s
  opening : braceAt s (header.stop - 1) = some .opening
  inner : Balanced (Span.slice ⟨header.stop, stop⟩ s)
  closing : braceAt s stop = some .closing

theorem exists_of_braceAt {b : Bracket} {i : Nat} (h : braceAt s i = some b) : ∃ c, s[i]? = some c ∧ brace? c = some b :=
  Option.bind_eq_some_iff.1 h

/-- The whole is balanced. -/
theorem Shell.balanced (hs : Shell s q stop) : Balanced (Span.slice ⟨q.start, stop + 1⟩ s) := by
  obtain ⟨o, ho, hopening⟩ := exists_of_braceAt hs.opening
  obtain ⟨c, hc, hclosing⟩ := exists_of_braceAt hs.closing
  have hlt := hs.lt
  have hle := hs.le
  have hone : Span.slice ⟨q.stop - 1, q.stop⟩ s = [o] := by
    have hslice := Span.slice_one ho
    rwa [Nat.sub_add_cancel (by omega)] at hslice
  rw [← Span.slice_append (a := q.start) (b := q.stop - 1) (c := stop + 1) (by omega) (by omega),
    ← Span.slice_append (a := q.stop - 1) (b := q.stop) (c := stop + 1) (by omega) (by omega),
    ← Span.slice_append (a := q.stop) (b := stop) (c := stop + 1) (by omega) (by omega), hone, Span.slice_one hc]
  refine hs.front.balanced.append ?_
  rw [nested_iff_depth, List.singleton_append, depth_cons_of_opening hopening, depth_append, hs.inner.depth_eq, Option.bind_some,
    depth_cons_of_closing hclosing]
  rfl

/-- A text without the two braces has the same depth. -/
theorem Shell.depth_eq {t : List Char} (hs : Shell s q stop) (hlen : t.length = s.length)
    (ht : ∀ i, braceAt t i = if q.start ≤ i ∧ i < q.stop ∨ i = stop then none else braceAt s i) (d : Nat) :
    depth brace? d t = depth brace? d s := by
  have hlt := hs.lt
  have hle := hs.le
  refine Text.depth_eq_of_slices (p := ⟨q.start, stop + 1⟩) hlen (fun i hi => ?_) hs.balanced ?_ d
  · rw [ht, if_neg (by dsimp only at hi; omega)]
  · rw [← Span.slice_append (a := q.start) (b := q.stop) (c := stop + 1) (by omega) (by omega),
      ← Span.slice_append (a := q.stop) (b := stop) (c := stop + 1) (by omega) (by omega)]
    refine Nested.append (Braceless.balanced fun i hge hi => ?_) (Nested.append ?_ (Braceless.balanced fun i hge hi => ?_))
    · rw [ht, if_pos (Or.inl ⟨hge, hi⟩)]
    · refine Text.balanced_slice_congr hlen (fun i hge hi => ?_) hs.inner
      rw [ht, if_neg (by dsimp only at hge hi; omega)]
    · rw [ht, if_pos (Or.inr (by dsimp only at hge hi; omega))]

/-! ## Headers -/

/-- A header has an opening brace at its end, and no other. -/
theorem opening_of_mem (hmem : h ∈ header.readings s) : h.whole.start < h.whole.stop ∧
    s[h.whole.stop - 1]? = some '\x7b' ∧ ∀ i, h.whole.start ≤ i → i < h.whole.stop - 1 → s[i]? ≠ some '\x7b' := by
  obtain ⟨d, hd, heq⟩ := Finder.read_of_hitOf (Finder.hitOf_of_mem hmem)
  obtain ⟨m, hword, n, hmany, hbrace⟩ := reads_of_read hd
  have hin := Finder.in_start s h.whole.start
  have hfront : (seq (word ["switch"]) (many (noneOf "\x7b;"))).Reads (Finder.start s h.whole.start) n := ⟨m, hword, hmany⟩
  obtain ⟨hinn, hle⟩ := hfront.mem hin
  obtain ⟨hopens, rfl⟩ := hbrace.of_spelled (w := ['\x7b']) rfl hinn
  have hstop : h.whole.stop = n.offset + 1 := congrArg (fun h => h.whole.stop) heq
  rw [hstop, Nat.add_sub_cancel]
  refine ⟨Nat.lt_succ_of_le hle, ?_, fun i hge hlt hi => ?_⟩
  · have hat := Text.prefix_drop_iff.1 hopens 0 Nat.one_pos
    exact hat
  · exact absurd (hfront.stop_le_of_avoids (by decide) hin hi hge) (Nat.not_le.2 hlt)

/-- A header that is free, without a closing brace, with the brace that closes its block. -/
theorem shell_of_mem (hv : Reached w v) (hmem : h ∈ header.readings w.text) (hclosing : '\x7d' ∉ h.whole.slice w.text)
    (hfree : v.isClaimed h.whole = false) (hstop : closingBrace 1 h.whole.stop (v.text.drop h.whole.stop) = some stop) :
    Shell v.text h.whole stop := by
  obtain ⟨hlt, hopening, hfront⟩ := opening_of_mem hmem
  obtain ⟨hle, hclose, hinner⟩ := balanced_of_closingBrace hstop
  have hwithin := (within_of_mem_readings hmem).whole
  have hadmits : v.admits h.whole = true := by
    have hsize : h.whole.stop ≤ v.size := by
      rw [hv.size_eq, WorkingCopy.size_eq_length_text]
      exact hwithin.stop_le
    simp only [WorkingCopy.admits, hwithin.start_le_stop, hsize, hfree, decide_true, Bool.not_false, Bool.and_self]
  have hsame : ∀ i, h.whole.start ≤ i → i < h.whole.stop → braceAt v.text i = braceAt w.text i := fun i hge hi => by
    rw [braceAt, braceAt, hv.kept.getElem?_text_eq hadmits hge hi]
  refine ⟨hlt, hle, fun i hge hi => ?_, ?_, hinner, ?_⟩
  · dsimp only at hge hi
    rw [hsame i hge (by omega), braceAt]
    cases hchar : w.text[i]? with
    | none => rfl
    | some x =>
      refine brace?_eq_none_iff.2 ⟨fun hx => hfront i hge hi (hx ▸ hchar), fun hx => hclosing ?_⟩
      exact Span.mem_slice_iff.2 ⟨i, hge, by omega, hx ▸ hchar⟩
  · rw [hsame _ (by omega) (by omega), braceAt, hopening]
    rfl
  · rw [braceAt, hclose]
    rfl

/-! ## Claiming the two braces -/

theorem foldl_claim (hfill : brace? fill = none) {spans : List Span} {u : Work} (hs : ∀ q ∈ spans, Braceless q u.text) :
    Reached u (spans.foldl (·.claim · fill) u) ∧
      ∀ i, braceAt (spans.foldl (·.claim · fill) u).text i = braceAt u.text i := by
  induction spans generalizing u with
  | nil => exact ⟨.refl u, fun _ => rfl⟩
  | cons q spans ih =>
    obtain ⟨hq, hspans⟩ := List.forall_mem_cons.1 hs
    have hbraces : ∀ i, braceAt (u.claim q fill).text i = braceAt u.text i := by
      intro i
      rw [braceAt_claim hfill]
      split_ifs with hi
      · exact (hq i hi.1 hi.2).symm
      · rfl
    have hclaim := (Reached.refl u).claim hfill hq
    obtain ⟨hreached, hrest⟩ := ih (u := u.claim q fill) fun r hr => hclaim.kept.braceless (hspans r hr)
    exact ⟨hclaim.trans hreached, fun i => (hrest i).trans (hbraces i)⟩

/-- The `break` that ends a case has no brace. -/
theorem braceless_of_mem_breaks {region : Span} (hmem : q ∈ tokensWithin caseBreak region s) : Braceless q s := by
  obtain ⟨hit, hhit, rfl⟩ := List.mem_map.1 hmem
  have hbare : Braceless hit.token (region.slice s) := Finder.braceless_token (f := reader caseBreak) (by decide) hhit
  have hlen : (region.slice s).length ≤ region.stop - region.start := List.length_take_le _ _
  have hstop := (within_of_mem_readings hhit).token.stop_le
  intro i hge hlt
  have hge : hit.token.start + region.start ≤ i := hge
  have hlt : i < hit.token.stop + region.start := hlt
  have hnone := hbare (i - region.start) (by omega) (by omega)
  rw [Text.braceAt_slice, if_pos (by omega), Nat.add_sub_cancel' (by omega)] at hnone
  exact hnone

/-- The header and the closing brace are claimed, and every `break` that ends a case. -/
theorem reached_shell (hs : Shell v.text q stop) :
    Reached v (((tokensWithin caseBreak ⟨q.stop, stop⟩ (v.claim ⟨stop, stop + 1⟩ WorkingCopy.switchEnd).text).foldl
      (·.claim · WorkingCopy.masked) (v.claim ⟨stop, stop + 1⟩ WorkingCopy.switchEnd)).claim q WorkingCopy.terminator) := by
  have hmasked : brace? WorkingCopy.masked = none := rfl
  have hend : brace? WorkingCopy.switchEnd = none := rfl
  have hterminator : brace? WorkingCopy.terminator = none := rfl
  obtain ⟨hbreaks, hsame⟩ := foldl_claim hmasked fun r (hr : r ∈ tokensWithin caseBreak
    ⟨q.stop, stop⟩ (v.claim ⟨stop, stop + 1⟩ WorkingCopy.switchEnd).text) => braceless_of_mem_breaks hr
  have hkept := ((kept_claim hend v ⟨stop, stop + 1⟩).trans hbreaks.kept).trans
    (kept_claim hterminator _ q)
  refine ⟨⟨?_, hs.depth_eq ?_ fun i => ?_, ?_, hkept.clear⟩, hkept, ?_⟩
  · rw [size_claim, hbreaks.size_eq, size_claim]
  · rw [length_text_claim, ← WorkingCopy.size_eq_length_text, hbreaks.size_eq, WorkingCopy.size_eq_length_text, length_text_claim]
  · have hone : stop ≤ i ∧ i < stop + 1 ↔ i = stop := by omega
    rw [braceAt_claim rfl, hsame, braceAt_claim rfl, ite_or]
    simp only [hone]
  · exact hbreaks.braces
  · exact hbreaks.tokens

/-! ## The pass -/

variable {tokens : List (Token Category)}

theorem reached_applyLabel {label : Span} (hholds : Holds w tokens) (hv : Reached w v)
    (htokens : (applyLabel stop v label).tokens <+: tokens) : Reached w (applyLabel stop v label) := by
  unfold applyLabel at htokens ⊢
  dsimp only at htokens ⊢
  have htake : (v.take .conditional label WorkingCopy.terminator).tokens <+: tokens →
      Reached w (v.take .conditional label WorkingCopy.terminator) := hv.take_of_holds rfl rfl hholds
  have hmark : ∀ (u : Work) (c : Category) (n : Nat), u.tokens <+: (u.mark c n).tokens := fun u c n =>
    (WorkingCopy.grows_emit u c ⟨n, n⟩).tokens
  split_ifs at htokens ⊢
  · exact htake htokens
  · exact ((htake (((hmark _ _ _).trans (hmark _ _ _)).trans htokens)).mark _ _).mark _ _
  · exact hv

theorem reached_applyHeader (hholds : Holds w tokens) (hv : Reached w v) (hmem : h ∈ header.readings w.text)
    (hclosing : '\x7d' ∉ h.whole.slice w.text) (htokens : (applyHeader v h.whole).tokens <+: tokens) :
    Reached w (applyHeader v h.whole) := by
  unfold applyHeader at htokens ⊢
  split_ifs at htokens ⊢ with hclaimed
  · exact hv
  · cases hstop : closingBrace 1 h.whole.stop (v.text.drop h.whole.stop) with
    | none => exact hv
    | some stop =>
      rw [hstop] at htokens
      have hshell := shell_of_mem hv hmem hclosing (Bool.not_eq_true _ |>.mp hclaimed) hstop
      exact Reached.foldl (fun u label => (edits_applyLabel stop u label).grows.tokens)
        (fun label _ u hu hpre => reached_applyLabel hholds hu hpre) (hv.trans (reached_shell hshell)) htokens

/-- A pass over switch statements keeps the depth if its labels hold balanced text and its headers no closing brace. -/
theorem reached_apply (hheaders : ∀ h ∈ header.readings w.text, '\x7d' ∉ h.whole.slice w.text)
    (hholds : Holds w (apply w).tokens) : Reached w (apply w) := by
  refine Reached.foldl (fun v q => (edits_applyHeader v q).grows.tokens) (fun q hmem v hv htokens => ?_) (.refl w)
    (List.prefix_refl _)
  obtain ⟨h, hh, rfl⟩ := List.mem_map.1 hmem
  exact reached_applyHeader hholds hv hh (hheaders h hh) htokens

end SourceLikeness.Tokenizer.SwitchStatement
