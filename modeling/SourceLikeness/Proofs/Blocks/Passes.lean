import SourceLikeness.Proofs.Blocks.Level
import SourceLikeness.Proofs.Comment.Erasure
import SourceLikeness.Proofs.Pattern.Evaluation
import SourceLikeness.Proofs.Tokenizer.Edits

/-!
# Passes that keep the depth of a text

* `Pattern.bare`, `Finder.bare` : no reading has a brace, and no token of a hit has one;
* `level_erase`, `reached_classify` : the passes that need a finder only;
* `reached_swallow_all` : a pass that claims the whole of what it finds;
* `ConditionalExpression.reached_apply`, `BareBody.reached_apply`, `CompoundAssignment.reached_apply` : the others.
-/

namespace SourceLikeness
open Text (braceAt)
open Tokenizer (Braceless)

namespace Pattern
variable {p : Pattern} {s : List Char} {c d : Cursor}

/-- No reading has a brace. -/
def bare (p : Pattern) : Bool := p.avoids '\x7b' && p.avoids '\x7d'

theorem Reads.braceless (h : p.Reads c d) (hp : p.bare = true) (hc : c.In s) : Braceless ⟨c.offset, d.offset⟩ s := by
  obtain ⟨hopening, hclosing⟩ := Bool.and_eq_true_iff.1 hp
  intro i hle hlt
  have hnot : ∀ {x : Char}, p.avoids x = true → s[i]? ≠ some x := fun havoids hx =>
    absurd (h.stop_le_of_avoids havoids hc hx hle) (Nat.not_le.2 hlt)
  unfold braceAt
  cases hi : s[i]? with
  | none => rfl
  | some x =>
    refine brace?_eq_none_iff.2 ⟨fun heq => hnot hopening ?_, fun heq => hnot hclosing ?_⟩
    · rw [hi, heq]
    · rw [hi, heq]

end Pattern

namespace Finder
variable {f : Finder} {accept : Hit → Bool} {s : List Char} {h : Hit}

theorem braceless_whole (hf : f.pattern.bare = true) (hmem : h ∈ f.hitsWhere accept s) : Braceless h.whole s := by
  obtain ⟨d, hd, heq⟩ := read_of_hitOf (hitOf_of_mem hmem)
  rw [heq]
  exact (Pattern.reads_of_read hd).braceless hf (in_start s _)

theorem braceless_part {name : Part} {q : Span} (hf : (f.pattern.bodies name).all Pattern.bare = true)
    (hmem : h ∈ f.hitsWhere accept s) (hq : h.part? name = some q) : Braceless q s := by
  obtain ⟨body, hbody, a, b, hreads, hin, rfl⟩ := exists_body hmem hq
  exact hreads.braceless (List.all_eq_true.1 hf body hbody) hin

/-- No token of a hit has a brace. -/
def bare (f : Finder) : Bool :=
  (f.pattern.bodies .token).all Pattern.bare && (f.pattern.notes .token || f.pattern.bare)

theorem braceless_token (hf : f.bare = true) (hmem : h ∈ f.hitsWhere accept s) : Braceless h.token s := by
  obtain ⟨hbodies, hwhole⟩ := Bool.and_eq_true_iff.1 hf
  unfold Hit.token
  cases hq : h.part? .token with
  | some q => exact braceless_part hbodies hmem hq
  | none =>
    rcases Bool.or_eq_true_iff.1 hwhole with hnotes | hwhole
    · obtain ⟨d, hd, heq⟩ := read_of_hitOf (hitOf_of_mem hmem)
      obtain ⟨piece, hpiece⟩ := (Pattern.reads_of_read hd).exists_piece hnotes
      rw [heq] at hq
      exact absurd (List.lookup_eq_none_iff.1 hq _ hpiece) (by simp)
    · exact braceless_whole hwhole hmem

end Finder

namespace Tokenizer
variable {f : Finder} {w : Work} {fill : Char} {category : Category}

/-! ## The passes that need a finder only -/

theorem level_erase (hf : f.pattern.bare = true) (hfill : brace? fill = none) (hnewline : fill ≠ '\n') :
    Level w (erase f fill w) := by
  have hfilled : ∀ c : Cell, brace? c.char = none → brace? (c.fill fill).char = none := by
    intro c hc
    unfold Cell.fill
    split_ifs
    · exact hc
    · exact hfill
  have hcells : (erase f fill w).cells.length = w.cells.length := (fenced_erase f fill w).size_eq
  have hbraces : ∀ i, braceAt (erase f fill w).text i = braceAt w.text i := by
    intro i
    unfold braceAt WorkingCopy.text
    rw [List.getElem?_map, List.getElem?_map, getElem?_erase hnewline]
    split_ifs with hcovers
    · obtain ⟨h, hmem, hcovers⟩ := hcovers
      have hnone := Finder.braceless_whole hf hmem i hcovers.1 hcovers.2
      rw [braceAt, WorkingCopy.text, List.getElem?_map] at hnone
      cases hi : w.cells[i]? with
      | none => rfl
      | some c =>
        rw [hi] at hnone
        exact (hfilled c hnone).trans hnone.symm
    · rfl
  refine ⟨hcells, fun d => ?_, by rw [tokens_erase], fun hclear c hc hclaimed => ?_⟩
  · refine Bracket.depth_eq_of_map_eq (Text.map_brace?_eq ?_ hbraces) d
    rw [WorkingCopy.text, WorkingCopy.text, List.length_map, List.length_map, hcells]
  · obtain ⟨i, hi⟩ := List.getElem?_of_mem hc
    rw [getElem?_erase hnewline] at hi
    split_ifs at hi
    · obtain ⟨c', hc', rfl⟩ := Option.map_eq_some_iff.1 hi
      refine hfilled c' (hclear c' (List.mem_of_getElem? hc') ?_)
      unfold Cell.fill at hclaimed
      split_ifs at hclaimed
      · exact hclaimed
      · exact hclaimed
    · exact hclear c (List.mem_of_getElem? hi) hclaimed

theorem classifyHit_eq_take (category : Category) (fill : Char) (v : Work) (hit : Hit) :
    classifyHit category fill false v hit = v.take category hit.token fill := by
  by_cases hadmits : v.admits hit.token = true
  · exact if_pos hadmits
  · rw [classifyHit, if_neg hadmits, WorkingCopy.take, if_neg hadmits]

/-- Recording tokens keeps the depth if they hold balanced text, which they do if they have no brace. -/
theorem reached_classify (hcategory : category.bracket? = none) (hascii : IsAscii fill) (hfill : brace? fill = none)
    (h : f.bare = true ∨ Holds w (classify f category fill false w).tokens) : Reached w (classify f category fill false w) := by
  refine Reached.foldl (fun v hit => (edits_classifyHit category hascii false v hit).grows.tokens) (fun hit hmem v hv htokens => ?_)
    (.refl w) (List.prefix_refl _)
  rw [classifyHit_eq_take] at htokens ⊢
  rcases h with hf | hholds
  · exact hv.take hcategory hfill (Finder.braceless_token hf hmem)
  · exact hv.take_of_holds hcategory hfill hholds htokens

/-! ## Tokens that claim the whole of their hits -/

/-- The hits of a pass that records tokens, as far as their tokens are free when it starts. -/
def found (f : Finder) (w : Work) : List Hit := f.hitsWhere (fun hit => !w.isClaimed hit.token) w.text

/-- The token of a hit is the start of the whole. -/
structure Anchored (h : Hit) : Prop where
  start_eq : h.token.start = h.whole.start
  start_lt : h.token.start < h.token.stop
  stop_le : h.token.stop ≤ h.whole.stop

theorem braceAt_take {s : Span} (hfill : brace? fill = none) {v : Work} (hs : Braceless s v.text) (i : Nat) :
    braceAt (v.take category s fill).text i = braceAt v.text i := by
  have htext : (v.emit category s).text = v.text := by
    unfold WorkingCopy.emit
    split_ifs
    · rfl
    · rfl
  unfold WorkingCopy.take
  split_ifs
  · rw [braceAt_claim hfill, htext]
    split_ifs with hi
    · exact (hs i hi.1 hi.2).symm
    · rfl
  · rfl

/-- A hit can be claimed as a whole if that is balanced and still as it was. -/
theorem reached_swallow {v : Work} {h : Hit} (hcategory : category.bracket? = none) (hfill : brace? fill = none)
    (hv : Reached w v) (htoken : Braceless h.token w.text) (hwhole : Balanced (h.whole.slice v.text)) :
    Reached w ((v.take category h.token fill).claim h.whole fill) := by
  have htake := hv.take hcategory hfill htoken
  refine htake.trans (reached_claim hfill (Text.balanced_slice_congr ?_
    (fun i _ _ => braceAt_take hfill (hv.kept.braceless htoken) i) hwhole))
  rw [← WorkingCopy.size_eq_length_text, ← WorkingCopy.size_eq_length_text, htake.size_eq, hv.size_eq]

/-- The hits to come start behind what was changed, or on a cell that was claimed. -/
structure Ahead (w v : Work) (hits : List Hit) (n : Nat) : Prop where
  same : ∀ p, n ≤ p → v.cells[p]? = w.cells[p]?
  hits : ∀ h ∈ hits, n ≤ h.whole.start ∨ ∃ c : Cell, v.cells[h.token.start]? = some c ∧ c.claimed = true

theorem Ahead.not_admits {v : Work} {h : Hit} {hits : List Hit} {n : Nat} (ha : Ahead w v (h :: hits) n) (hh : Anchored h)
    (hadmits : v.admits h.token = true) : n ≤ h.whole.start := by
  refine (ha.hits h List.mem_cons_self).resolve_right ?_
  rintro ⟨c, hc, hclaimed⟩
  have hfree := (WorkingCopy.admits_iff.1 hadmits).2.2 h.token.start c (Nat.le_refl _) hh.start_lt hc
  rw [hclaimed] at hfree
  exact Bool.noConfusion hfree

/-- After a hit was claimed as a whole, the hits to come start behind it or on its cells. -/
theorem Ahead.swallow {v : Work} {h : Hit} {hits : List Hit} {n : Nat} (ha : Ahead w v (h :: hits) n) (hh : Anchored h)
    (hascii : IsAscii fill) (hadmits : v.admits h.token = true) (hstop : h.whole.stop ≤ v.size)
    (hanchored : ∀ g ∈ hits, Anchored g) (hbehind : ∀ g ∈ hits, h.token.stop ≤ g.whole.start) :
    Ahead w ((v.take category h.token fill).claim h.whole fill) hits (max n h.whole.stop) where
  same := by
    intro p hp
    have htake : (v.take category h.token fill).cells[p]? = v.cells[p]? := by
      have hemit : (v.emit category h.token).cells = v.cells := by
        unfold WorkingCopy.emit
        split_ifs
        rfl
      have := hh.stop_le
      rw [WorkingCopy.take, if_pos hadmits, getElem?_claim, if_neg (by omega), hemit]
    rw [getElem?_claim, if_neg (by omega), htake, ha.same p (by omega)]
  hits := by
    intro g hg
    have hgrows := (WorkingCopy.grows_take v category h.token hascii).trans (WorkingCopy.grows_claim _ h.whole hascii)
    have hstart := (hanchored g hg).start_eq
    have hle := hbehind g hg
    rcases Nat.lt_or_ge g.whole.start (max n h.whole.stop) with hlt | hge
    · refine Or.inr ?_
      rcases ha.hits g (List.mem_cons_of_mem _ hg) with hn | ⟨c, hc, hclaimed⟩
      · have hsize : g.token.start < (v.take category h.token fill).cells.length := by
          rw [show (v.take category h.token fill).cells.length = v.size from
            (WorkingCopy.grows_take v category h.token hascii).size_eq]
          omega
        have hfirst := hh.start_lt
        have hanchor := hh.start_eq
        rw [getElem?_claim, if_pos (by omega), List.getElem?_eq_getElem hsize]
        exact ⟨_, rfl, rfl⟩
      · obtain ⟨c', hc', hgrow⟩ := hgrows.cell _ c hc
        exact ⟨c', hc', hgrow.claimed hclaimed⟩
    · exact Or.inl hge

/-- Claiming whole hits keeps the depth if those whose token is recorded are balanced. -/
theorem reached_foldl_swallow (hcategory : category.bracket? = none) (hascii : IsAscii fill) (hfill : brace? fill = none)
    {tokens : List (Token Category)} {hits : List Hit} {v : Work} {n : Nat} (hv : Reached w v) (ha : Ahead w v hits n)
    (hanchored : ∀ h ∈ hits, Anchored h) (hsize : ∀ h ∈ hits, h.whole.stop ≤ w.size)
    (hsorted : hits.Pairwise fun g h => g.token.stop ≤ h.whole.start) (htoken : ∀ h ∈ hits, Braceless h.token w.text)
    (hwhole : ∀ h ∈ hits, ⟨category, h.token.start, h.token.stop⟩ ∈ tokens.drop w.tokens.length →
      Balanced (h.whole.slice w.text))
    (htokens : (hits.foldl (classifyHit category fill true) v).tokens <+: tokens) :
    Reached w (hits.foldl (classifyHit category fill true) v) := by
  induction hits generalizing v n with
  | nil => exact hv
  | cons h hits ih =>
    obtain ⟨hh, hanchored⟩ := List.forall_mem_cons.1 hanchored
    obtain ⟨hstop, hsize⟩ := List.forall_mem_cons.1 hsize
    obtain ⟨hbehind, hsorted⟩ := List.pairwise_cons.1 hsorted
    obtain ⟨hbraceless, htoken⟩ := List.forall_mem_cons.1 htoken
    obtain ⟨hbalanced, hwhole⟩ := List.forall_mem_cons.1 hwhole
    rw [List.foldl_cons] at htokens ⊢
    by_cases hadmits : v.admits h.token = true
    · have hn := ha.not_admits hh hadmits
      have hslice : h.whole.slice v.text = h.whole.slice w.text := by
        refine List.ext_getElem? fun j => ?_
        rw [WorkingCopy.getElem?_slice, WorkingCopy.getElem?_slice, WorkingCopy.text, WorkingCopy.text, List.getElem?_map,
          List.getElem?_map, ha.same _ (Nat.le_trans hn (Nat.le_add_right _ _))]
      have hclassify : classifyHit category fill true v h = (v.take category h.token fill).claim h.whole fill := by
        rw [classifyHit, if_pos hadmits]
        rfl
      rw [hclassify] at htokens ⊢
      have hrecorded : (v.take category h.token fill).tokens <+: tokens :=
        (WorkingCopy.Edits.foldl (edits_classifyHit category hascii true) hits
          (.claim .refl h.whole hascii)).grows.tokens.trans htokens
      exact ih (reached_swallow hcategory hfill hv hbraceless (hslice ▸ hbalanced (hv.mem_recorded hadmits hrecorded)))
        (ha.swallow hh hascii hadmits (Nat.le_trans hstop (Nat.le_of_eq hv.size_eq.symm)) hanchored hbehind) hanchored hsize
        hsorted htoken hwhole htokens
    · rw [classifyHit, if_neg hadmits] at htokens ⊢
      exact ih hv ⟨ha.same, fun g hg => ha.hits g (List.mem_cons_of_mem _ hg)⟩ hanchored hsize hsorted htoken hwhole htokens

/-- The token of every reading is its start. -/
def anchored : Pattern → Bool
  | .seq (.part .token body) rest => body.solid && rest.partless
  | _ => false

theorem anchored_of_mem {accept : Hit → Bool} {s : List Char} {h : Hit} (hf : anchored f.pattern = true)
    (hmem : h ∈ f.hitsWhere accept s) : Anchored h := by
  obtain ⟨d, hd, heq⟩ := Finder.read_of_hitOf (Finder.hitOf_of_mem hmem)
  unfold anchored at hf
  split at hf
  · rename_i body rest hpattern
    simp only [Bool.and_eq_true] at hf
    obtain ⟨hsolid, hpartless⟩ := hf
    rw [hpattern] at hd
    obtain ⟨c, ⟨m, hm, rfl⟩, hrest⟩ := Pattern.reads_of_read hd
    have hin := Finder.in_start s h.whole.start
    have hlt := hm.lt_of_solid hin hsolid
    obtain ⟨-, hle⟩ := hrest.mem ((hm.mem hin).1.note .token _)
    have hlast : h.parts = (Part.token, ⟨h.whole.start, m.offset⟩) :: m.parts := by
      rw [heq]
      exact hrest.parts_eq hpartless
    have htoken : h.token = ⟨h.whole.start, m.offset⟩ := by
      rw [Hit.token, Hit.part?, hlast]
      rfl
    have hstop : h.whole.stop = d.offset := congrArg (fun h => h.whole.stop) heq
    rw [← hstop] at hle
    exact ⟨by rw [htoken], by rw [htoken]; exact hlt, by rw [htoken]; exact hle⟩
  · exact Bool.noConfusion hf

/-- Claiming the whole of what is recorded keeps the depth if it holds balanced text. -/
theorem reached_swallow_all (hcategory : category.bracket? = none) (hascii : IsAscii fill) (hfill : brace? fill = none)
    (hbare : f.bare = true) (hanchored : anchored f.pattern = true) (hconsumes : f.consumes = false)
    (h : ∀ h ∈ found f w, ⟨category, h.token.start, h.token.stop⟩ ∈ (classify f category fill true w).tokens.drop w.tokens.length →
      Balanced (h.whole.slice w.text)) : Reached w (classify f category fill true w) := by
  have hsize : ∀ h ∈ found f w, h.whole.stop ≤ w.size := fun h hmem => by
    rw [WorkingCopy.size_eq_length_text]
    exact (Finder.within_of_mem hmem).whole.stop_le
  have hsorted : (found f w).Pairwise fun g h => g.token.stop ≤ h.whole.start := by
    refine (Finder.pairwise_hitsWhere f _ w.text).imp fun {g h} hle => ?_
    rwa [Finder.resume, hconsumes, if_neg Bool.false_ne_true] at hle
  exact reached_foldl_swallow (n := 0) hcategory hascii hfill (.refl w) ⟨fun _ _ => rfl, fun h _ => Or.inl (Nat.zero_le _)⟩
    (fun h hmem => anchored_of_mem hanchored hmem) hsize hsorted (fun h hmem => Finder.braceless_token hbare hmem) h
    (List.prefix_refl _)

/-! ## Conditional expressions -/

namespace ConditionalExpression
open Pattern

/-- The sign at the start of a branch. -/
theorem braceless_first {accept : Hit → Bool} {s : List Char} {h : Hit} {name : Part} {q : Span} {x : Char}
    {ps : List Pattern} {p : Pattern} (sign : String) (hbodies : finder.pattern.bodies name = [all (text sign :: p :: ps)])
    (hsign : sign.toList = [x]) (hx : brace? x = none) (hmem : h ∈ finder.hitsWhere accept s) (hq : h.part? name = some q) :
    Braceless (first q) s := by
  obtain ⟨body, hbody, a, b, hreads, hin, rfl⟩ := Finder.exists_body hmem hq
  rw [hbodies] at hbody
  obtain rfl := List.mem_singleton.1 hbody
  obtain ⟨m, hm, -⟩ := hreads
  have hrest := reads_chars hm
  rw [hsign, List.singleton_append] at hrest
  intro i hle hlt
  obtain rfl : i = a.offset := Nat.le_antisymm (Nat.le_of_lt_succ hlt) hle
  rw [braceAt, hin.getElem? hrest]
  exact hx

theorem braceless_lead {accept : Hit → Bool} {s : List Char} {h : Hit} {l : Category × Span}
    (hmem : h ∈ finder.hitsWhere accept s) (hl : lead? h = some l) : Braceless l.2 s := by
  unfold lead? at hl
  split at hl
  · rename_i q hq
    obtain rfl := Option.some.inj hl
    exact Finder.braceless_part (by decide) hmem hq
  · obtain ⟨q, hq, rfl⟩ := Option.map_eq_some_iff.1 hl
    exact Finder.braceless_part (by decide) hmem hq

theorem reached_openBlock {v : Work} (h : Reached w v) (lead : Option Category) (place : Nat) :
    Reached w (openBlock lead place v) := by
  have hopen := (h.mark .conditional place).mark .openBrace place
  cases lead with
  | none => exact hopen
  | some c => exact hopen.mark c place

/-- A conditional expression has no brace where it is written over. -/
theorem reached_applyHit {accept : Hit → Bool} {v : Work} {h : Hit} (hv : Reached w v) (hmem : h ∈ finder.hitsWhere accept w.text) :
    Reached w (applyHit v h) := by
  unfold applyHit
  split
  · rename_i c t e hc ht he
    dsimp only
    have hmarks := ((reached_openBlock (((reached_openBlock hv ((lead? h).map (·.1)) t.start).mark .closeBrace e.start))
      ((lead? h).map (·.1)) e.start).mark .closeBrace (e.stop - 1))
    have hcondition : Braceless c w.text := Finder.braceless_part (by decide) hmem hc
    have hquestion : Braceless (first t) w.text := braceless_first "?" rfl rfl rfl hmem ht
    have hcolon : Braceless (first e) w.text := braceless_first ":" rfl rfl rfl hmem he
    refine ((Reached.claim ?_ rfl hcondition).claim rfl hquestion).claim rfl hcolon
    cases hl : lead? h with
    | none =>
      rw [hl] at hmarks
      exact hmarks
    | some l =>
      rw [hl] at hmarks
      exact hmarks.claim rfl (braceless_lead hmem hl)
  · exact hv

theorem reached_apply (w : Work) : Reached w (apply w) :=
  Reached.foldl (fun v h => (edits_applyHit v h).grows.tokens) (fun _ hmem _ hv _ => reached_applyHit hv hmem) (.refl w)
    (List.prefix_refl _)

end ConditionalExpression

/-! ## Bodies without braces -/

theorem BareBody.reached_apply (w : Work) : Reached w (BareBody.apply w) :=
  Reached.foldl (fun v body => (edits_wrap v body).grows.tokens) (fun _ _ _ hv _ => (hv.mark _ _).mark _ _) (.refl w)
    (List.prefix_refl _)

/-! ## Compound assignments -/

namespace CompoundAssignment
open Pattern

theorem reached_apply (w : Work) : Reached w (apply w) := by
  refine Reached.foldl (fun v hit => (edits_applyHit v hit).grows.tokens) (fun hit hmem v hv _ => ?_) (.refl w) (List.prefix_refl _)
  have htoken : Braceless hit.token w.text := Finder.braceless_token (f := reader compound) (by decide) hmem
  have hwhole : Braceless hit.whole w.text := Finder.braceless_whole (f := reader compound) (by decide) hmem
  unfold applyHit
  dsimp only
  split_ifs
  · exact hv
  · exact ((hv.mark _ _).take (bracket?_category _) rfl htoken).claim rfl hwhole

end CompoundAssignment

end Tokenizer
end SourceLikeness
