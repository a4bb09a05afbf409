import SourceLikeness.Proofs.Nesting.Stream
import SourceLikeness.Proofs.Pattern.Leads
import SourceLikeness.Proofs.Renaming.ConditionalExpression
import SourceLikeness.Proofs.Tokenizer.Places
import SourceLikeness.Tokenizer.Pipeline

/-!
# Passes set brace markers in pairs

A pass that puts a block between brace markers records the opening one first, and no later in the text.

* `fence` : the two markers around a block; `fences` : the brace markers of a working copy;
* `Fenced w w'` : the brace markers of `w'` are those of `w` and those around more blocks;
* `fenced_applyHit`, `fenced_wrap`, `fenced_applyLabel` : the three constructs that get such markers, in whatever
  text they are found; `Action.fenced_apply` : all passes.
-/

namespace SourceLikeness

/-- Which bracket a category is. -/
def Category.bracket? : Category → Option Bracket
  | .openBrace => some .opening
  | .closeBrace => some .closing
  | _ => none

namespace Tokenizer
open WorkingCopy (size_eq_length_text)
variable {w w' w'' : Work} {s : List Char}

/-- Whether a token is a marker for a brace. -/
def isFence (t : Token Category) : Bool := t.isMarker && t.symbol.bracket?.isSome

def opener (block : Span) : Token Category := ⟨.openBrace, block.start, block.start⟩

def closer (block : Span) : Token Category := ⟨.closeBrace, block.stop, block.stop⟩

/-- The markers around a block. -/
def fence (block : Span) : List (Token Category) := [opener block, closer block]

def fences (w : Work) : List (Token Category) := w.tokens.filter isFence

/-- The cells are as many as before, and the brace markers are those of before and those around more blocks. -/
structure Fenced (w w' : Work) : Prop where
  size_eq : w'.size = w.size
  exists_blocks : ∃ blocks : List Span, (∀ b ∈ blocks, b.start ≤ b.stop) ∧ fences w' = fences w ++ blocks.flatMap fence

namespace Fenced

theorem of_eq (hsize : w'.size = w.size) (h : fences w' = fences w) : Fenced w w' :=
  ⟨hsize, [], List.forall_mem_nil _, by rw [h, List.flatMap_nil, List.append_nil]⟩

theorem refl (w : Work) : Fenced w w := of_eq rfl rfl

theorem trans (h : Fenced w w') (h' : Fenced w' w'') : Fenced w w'' := by
  obtain ⟨blocks, hle, heq⟩ := h.exists_blocks
  obtain ⟨blocks', hle', heq'⟩ := h'.exists_blocks
  refine ⟨h'.size_eq.trans h.size_eq, blocks ++ blocks', List.forall_mem_append.2 ⟨hle, hle'⟩, ?_⟩
  rw [heq', heq, List.flatMap_append, List.append_assoc]

/-- A fold whose steps set markers in pairs sets markers in pairs. -/
theorem foldl {β : Type} {f : Work → β → Work} {xs : List β}
    (h : ∀ x ∈ xs, ∀ v : Work, v.size = w.size → Fenced v (f v x)) : Fenced w (xs.foldl f w) := by
  induction xs generalizing w with
  | nil => exact refl w
  | cons x xs ih =>
    obtain ⟨hx, hxs⟩ := List.forall_mem_cons.1 h
    have hstep := hx w rfl
    exact hstep.trans (ih fun y hy v hv => hxs y hy v (hv.trans hstep.size_eq))

end Fenced

/-! ## Operations -/

theorem size_overwrite (w : Work) (s : Span) (fill : Char) : (w.overwrite s fill).size = w.size :=
  WorkingCopy.length_mapSpan _ _ _

theorem size_claim (w : Work) (s : Span) (fill : Char) : (w.claim s fill).size = w.size :=
  WorkingCopy.length_mapSpan _ _ _

theorem size_emit (w : Work) (c : Category) (s : Span) : (w.emit c s).size = w.size := by
  unfold WorkingCopy.emit
  split_ifs <;> rfl

theorem size_mark (w : Work) (c : Category) (place : Nat) : (w.mark c place).size = w.size := size_emit w c _

theorem fences_emit_of_not {c : Category} {s : Span} (h : isFence ⟨c, s.start, s.stop⟩ = false) (w : Work) :
    fences (w.emit c s) = fences w := by
  unfold WorkingCopy.emit
  split_ifs
  · rw [fences, List.filter_append, List.filter_cons_of_neg (by rw [h]; exact Bool.false_ne_true), List.filter_nil,
      List.append_nil, ← fences]
  · rfl

theorem isFence_of_none {c : Category} (h : c.bracket? = none) (start stop : Nat) : isFence ⟨c, start, stop⟩ = false := by
  rw [isFence, h]
  exact Bool.and_false _

theorem isFence_of_lt {start stop : Nat} (h : start < stop) (c : Category) : isFence ⟨c, start, stop⟩ = false := by
  have hne : (start == stop) = false := beq_eq_false_iff_ne.2 (Nat.ne_of_lt h)
  rw [isFence, Token.isMarker, hne, Bool.false_and]

theorem fences_mark_of_none {c : Category} (h : c.bracket? = none) (w : Work) (place : Nat) :
    fences (w.mark c place) = fences w := fences_emit_of_not (isFence_of_none h _ _) w

theorem fences_mark {c : Category} (h : c.bracket?.isSome = true) {place : Nat} (hplace : place ≤ w.size) :
    fences (w.mark c place) = fences w ++ [⟨c, place, place⟩] := by
  have hadmits : w.admits ⟨place, place⟩ = true :=
    WorkingCopy.admits_iff.2 ⟨Nat.le_refl _, hplace, fun p _ hle hlt => absurd hlt (Nat.not_lt.2 hle)⟩
  have hfence : isFence ⟨c, place, place⟩ = true := by
    rw [isFence, Token.isMarker, beq_self_eq_true, Bool.true_and, h]
  rw [WorkingCopy.mark, WorkingCopy.emit, if_pos hadmits, fences, List.filter_append, List.filter_cons_of_pos hfence]
  rfl

/-- A token that is no brace, or no marker, is no brace marker. -/
theorem fenced_take {c : Category} {s : Span} (h : c.bracket? = none ∨ s.start < s.stop) (w : Work) (fill : Char) :
    Fenced w (w.take c s fill) := by
  have hnot : isFence ⟨c, s.start, s.stop⟩ = false := h.elim (isFence_of_none · _ _) (isFence_of_lt · c)
  unfold WorkingCopy.take
  split_ifs
  · exact .of_eq ((size_claim _ s fill).trans (size_emit w c s)) (fences_emit_of_not hnot w)
  · exact .refl w

theorem fenced_overwrite (w : Work) (s : Span) (fill : Char) : Fenced w (w.overwrite s fill) :=
  .of_eq (size_overwrite w s fill) rfl

theorem fenced_claim (w : Work) (s : Span) (fill : Char) : Fenced w (w.claim s fill) :=
  .of_eq (size_claim w s fill) rfl

/-- The markers of a block inside the text. -/
theorem fenced_block {block : Span} (h : block.Within 0 w.size) :
    Fenced w ((w.mark .openBrace block.start).mark .closeBrace block.stop) := by
  have hstart : block.start ≤ w.size := Nat.le_trans h.start_le_stop h.stop_le
  refine ⟨(size_mark _ _ _).trans (size_mark _ _ _), [block], List.forall_mem_singleton.2 h.start_le_stop, ?_⟩
  rw [fences_mark rfl (by rw [size_mark]; exact h.stop_le), fences_mark rfl hstart, List.append_assoc]
  rfl

/-! ## The passes that need a finder only -/

theorem fenced_erase (f : Finder) (fill : Char) (w : Work) : Fenced w (erase f fill w) :=
  .foldl fun hit _ v _ => fenced_overwrite v hit.whole fill

theorem fenced_classifyHit {category : Category} {hit : Hit} (h : category.bracket? = none ∨ hit.token.start < hit.token.stop)
    (fill : Char) (swallows : Bool) (w : Work) : Fenced w (classifyHit category fill swallows w hit) := by
  have htake := fenced_take h w fill
  unfold classifyHit
  split_ifs
  · exact htake.trans (fenced_claim _ _ _)
  · exact htake
  · exact .refl w

/-- A hit of a pattern that always reads something has a token that is no marker. -/
theorem token_lt_of_solid {f : Finder} {accept : Hit → Bool} (hpartless : f.pattern.partless = true)
    (hsolid : f.pattern.solid = true) {hit : Hit} (hmem : hit ∈ f.hitsWhere accept s) : hit.token.start < hit.token.stop := by
  rw [Finder.token_eq_whole hpartless hmem]
  exact Finder.start_lt_stop_of_mem hmem hsolid

theorem fenced_classify {f : Finder} {category : Category}
    (h : category.bracket? = none ∨ f.pattern.partless = true ∧ f.pattern.solid = true) (fill : Char) (swallows : Bool)
    (w : Work) : Fenced w (classify f category fill swallows w) := by
  refine .foldl fun hit hmem v _ => fenced_classifyHit ?_ fill swallows v
  exact h.imp_right fun h => token_lt_of_solid h.1 h.2 hmem

theorem fenced_docstrings (w : Work) : Fenced w (Docstring.apply w) :=
  .foldl fun s _ v _ => fenced_overwrite v s WorkingCopy.blank

/-! ## Conditional expressions -/

namespace ConditionalExpression
open Pattern

/-- The pieces of a hit, in their order. -/
structure Pieces (n : Nat) (h : Hit) (c t e : Span) : Prop where
  condition? : h.part? .condition = some c
  thenBranch? : h.part? .thenBranch = some t
  elseBranch? : h.part? .elseBranch = some e
  thenBranch : t.start ≤ t.stop
  colon : t.stop = e.start
  elseBranch : e.start < e.stop
  stop_le : e.stop ≤ n

theorem exists_pieces {accept : Hit → Bool} {h : Hit} (hmem : h ∈ finder.hitsWhere accept s) :
    ∃ c t e, Pieces s.length h c t e := by
  obtain ⟨d, hd, heq⟩ := Finder.read_of_hitOf (Finder.hitOf_of_mem hmem)
  have hlen := (Finder.within_of_mem hmem).whole.stop_le
  obtain ⟨c₁, hblanks, c₂, hlead, hbody⟩ := reads_of_read hd
  obtain ⟨m, n, k, hsections⟩ := exists_sections hbody (congrArg (·.whole.stop) heq) (congrArg (·.parts) heq)
  obtain ⟨hin₁, -⟩ := hblanks.mem (Finder.in_start s _)
  obtain ⟨hin₂, -⟩ := hlead.mem hin₁
  exact ⟨_, _, _, hsections.condition?, hsections.thenBranch?, hsections.elseBranch?, (hsections.in_colon hin₂).2, rfl,
    hsections.lt_stop hin₂, hsections.stop ▸ hlen⟩

theorem bracket?_lead {h : Hit} {l : Category × Span} (hl : lead? h = some l) : l.1.bracket? = none := by
  unfold lead? at hl
  split at hl
  · obtain rfl := Option.some.inj hl
    rfl
  · obtain ⟨p, -, rfl⟩ := Option.map_eq_some_iff.1 hl
    rfl

theorem size_openBlock (lead : Option Category) (place : Nat) (w : Work) : (openBlock lead place w).size = w.size := by
  cases lead <;> simp only [openBlock, Option.elim_none, Option.elim_some, size_mark]

theorem fences_openBlock {lead : Option Category} (hlead : ∀ c, lead = some c → c.bracket? = none) {place : Nat}
    (hplace : place ≤ w.size) : fences (openBlock lead place w) = fences w ++ [⟨.openBrace, place, place⟩] := by
  have hopen : fences ((w.mark .conditional place).mark .openBrace place) = fences w ++ [⟨.openBrace, place, place⟩] := by
    rw [fences_mark rfl (by rwa [size_mark]), fences_mark_of_none rfl]
  cases lead with
  | none => exact hopen
  | some c => exact (fences_mark_of_none (hlead c rfl) _ _).trans hopen

/-- A hit puts markers around its two branches. -/
theorem fenced_applyHit {h : Hit} {c t e : Span} (hp : Pieces w.size h c t e) : Fenced w (applyHit w h) := by
  have hlead : ∀ k, (lead? h).map (·.1) = some k → k.bracket? = none := by
    intro k hk
    obtain ⟨l, hl, rfl⟩ := Option.map_eq_some_iff.1 hk
    exact bracket?_lead hl
  have hcolon : e.start ≤ w.size := Nat.le_trans (Nat.le_of_lt hp.elseBranch) hp.stop_le
  have hquestion : t.start ≤ e.start := hp.colon ▸ hp.thenBranch
  have hstop : e.stop - 1 ≤ w.size := Nat.le_trans (Nat.sub_le _ _) hp.stop_le
  unfold applyHit
  rw [hp.condition?, hp.thenBranch?, hp.elseBranch?]
  dsimp only
  generalize lead? h = lead at hlead ⊢
  have hmarks : Fenced w
      ((openBlock (lead.map (·.1)) e.start ((openBlock (lead.map (·.1)) t.start w).mark .closeBrace e.start)).mark
        .closeBrace (e.stop - 1)) := by
    refine ⟨by simp only [size_mark, size_openBlock], [⟨t.start, e.start⟩, ⟨e.start, e.stop - 1⟩], ?_, ?_⟩
    · exact List.forall_mem_cons.2 ⟨hquestion, List.forall_mem_singleton.2 (Nat.le_sub_one_of_lt hp.elseBranch)⟩
    · rw [fences_mark rfl (by simpa only [size_mark, size_openBlock] using hstop),
        fences_openBlock hlead (by simpa only [size_mark, size_openBlock] using hcolon),
        fences_mark rfl (by simpa only [size_mark, size_openBlock] using hcolon),
        fences_openBlock hlead (Nat.le_trans hquestion hcolon)]
      simp only [List.append_assoc]
      rfl
  refine (((Fenced.trans ?_ (fenced_claim _ _ _)).trans (fenced_claim _ _ _)).trans (fenced_claim _ _ _))
  cases lead with
  | none => exact hmarks
  | some l => exact hmarks.trans (fenced_claim _ _ _)

theorem fenced_apply (w : Work) : Fenced w (apply w) := by
  refine .foldl fun h hmem v hv => ?_
  obtain ⟨c, t, e, hp⟩ := exists_pieces hmem
  rw [← size_eq_length_text, ← hv] at hp
  exact fenced_applyHit hp

end ConditionalExpression

/-! ## Bodies without braces -/

namespace BareBody

theorem fenced_wrap {body : Span} (h : body.Within 0 w.size) : Fenced w (wrap w body) := by
  have hskipped : ((body.slice w.text).takeWhile Text.isLayout).length ≤ body.stop - body.start :=
    Nat.le_trans (List.takeWhile_sublist _).length_le (List.length_take_le _ _)
  have hle := h.start_le_stop
  have hinner : Span.Within 0 w.size ⟨body.start + ((body.slice w.text).takeWhile Text.isLayout).length, body.stop⟩ :=
    ⟨Nat.zero_le _, by dsimp only; omega, h.stop_le⟩
  exact fenced_block hinner

theorem fenced_apply (w : Work) : Fenced w (apply w) := by
  refine .foldl fun body hmem v hv => fenced_wrap ?_
  rw [hv, size_eq_length_text]
  exact within_of_mem_bodies hmem

end BareBody

/-! ## Switch statements -/

namespace SwitchStatement

/-- A case ends in the text that its body starts with. -/
theorem caseEnd_bounds {depth offset n : Nat} {before : Option Char} {text : List Char}
    (h : caseEnd depth offset before text = some n) : offset ≤ n ∧ n < offset + text.length := by
  induction text generalizing depth offset before with
  | nil => exact nomatch h
  | cons c rest ih =>
    rw [List.length_cons]
    have hrest : ∀ {depth}, caseEnd depth (offset + 1) (some c) rest = some n →
        offset ≤ n ∧ n < offset + (rest.length + 1) := fun h => by
      obtain ⟨hle, hlt⟩ := ih h
      omega
    unfold caseEnd at h
    split_ifs at h
    · exact hrest h
    · obtain rfl := Option.some.inj h
      omega
    · exact hrest h
    · obtain rfl := Option.some.inj h
      omega
    · exact hrest h

/-- A case ends no earlier than its body starts, or where the `switch` does. -/
theorem caseStop_bounds {label body stop : Nat} (hbody : label ≤ body) (hlabel : label ≤ stop) (hstop : stop ≤ s.length)
    (before : Option Char) : label ≤ (caseEnd 0 body before (s.drop body)).getD stop ∧
      (caseEnd 0 body before (s.drop body)).getD stop ≤ s.length := by
  cases hcase : caseEnd 0 body before (s.drop body) with
  | none => exact ⟨hlabel, hstop⟩
  | some n =>
    obtain ⟨hle, hlt⟩ := caseEnd_bounds hcase
    rw [List.length_drop] at hlt
    rw [Option.getD_some]
    omega

theorem fenced_applyLabel {label : Span} {stop : Nat} (hlabel : label.stop ≤ stop) (hstop : stop ≤ w.size) :
    Fenced w (applyLabel stop w label) := by
  unfold applyLabel
  dsimp only
  have htake : Fenced w (w.take .conditional label WorkingCopy.terminator) := fenced_take (Or.inl rfl) w _
  have hsize := htake.size_eq
  generalize w.take .conditional label WorkingCopy.terminator = v at htake hsize ⊢
  split_ifs
  · exact htake
  · rw [← hsize, size_eq_length_text] at hstop
    obtain ⟨hle, hlen⟩ := caseStop_bounds (Nat.le_add_right label.stop _) hlabel hstop _
    rw [← size_eq_length_text] at hlen
    have hcase : Span.Within 0 v.size ⟨label.stop, _⟩ := ⟨Nat.zero_le _, hle, hlen⟩
    exact htake.trans (fenced_block hcase)
  · exact .refl w

theorem fenced_applyRegion {header : Span} {stop : Nat} (hheader : header.stop ≤ stop) (hstop : stop ≤ w.size) :
    Fenced w (applyRegion header stop w) := by
  unfold applyRegion
  dsimp only
  have hclaim := fenced_claim w ⟨stop, stop + 1⟩ WorkingCopy.switchEnd
  have hbreaks : ∀ v : Work, Fenced v ((tokensWithin caseBreak ⟨header.stop, stop⟩ v.text).foldl (·.claim · WorkingCopy.masked) v) :=
    fun v => .foldl fun q _ u _ => fenced_claim u q _
  have hshell := (hclaim.trans (hbreaks _)).trans (fenced_claim _ header WorkingCopy.terminator)
  refine hshell.trans (.foldl fun label hmem v hv => ?_)
  have hwithin : label.Within header.stop stop := within_of_mem_tokensWithin hheader hmem
  refine fenced_applyLabel hwithin.stop_le ?_
  rw [hv, hshell.size_eq]
  exact hstop

theorem fenced_applyHeader (w : Work) (header : Span) : Fenced w (applyHeader w header) := by
  unfold applyHeader
  split_ifs
  · exact .refl w
  · cases hclose : closingBrace 1 header.stop (w.text.drop header.stop) with
    | none => exact .refl w
    | some stop =>
      obtain ⟨hle, hget⟩ := getElem?_closingBrace hclose
      rw [List.getElem?_drop, Nat.add_sub_cancel' hle] at hget
      have hlt := (List.getElem?_eq_some_iff.1 hget).1
      rw [← size_eq_length_text] at hlt
      exact fenced_applyRegion hle (Nat.le_of_lt hlt)

theorem fenced_apply (w : Work) : Fenced w (apply w) := .foldl fun header _ v _ => fenced_applyHeader v header

end SwitchStatement

/-! ## Compound assignments -/

namespace CompoundAssignment

theorem bracket?_category (operator : List Char) : (category operator).bracket? = none := by
  unfold category
  split_ifs <;> rfl

theorem fenced_applyHit (w : Work) (hit : Hit) : Fenced w (applyHit w hit) := by
  unfold applyHit
  dsimp only
  split_ifs
  · exact .refl w
  · have hmark : Fenced w (w.mark .assign hit.whole.start) := .of_eq (size_mark _ _ _) (fences_mark_of_none rfl w _)
    exact (hmark.trans (fenced_take (Or.inl (bracket?_category _)) _ _)).trans (fenced_claim _ _ _)

theorem fenced_apply (w : Work) : Fenced w (apply w) := .foldl fun hit _ v _ => fenced_applyHit v hit

end CompoundAssignment

/-! ## All passes -/

/-- The pass records no brace, or none that is a marker. -/
def Action.fenced : Action → Bool
  | .classify finder category _ _ => category.bracket?.isNone || (finder.pattern.partless && finder.pattern.solid)
  | _ => true

theorem Action.fenced_apply {a : Action} (h : a.fenced = true) (w : Work) : Fenced w (a.apply w) := by
  cases a with
  | erase finder fill => exact fenced_erase finder fill w
  | classify finder category fill swallows =>
    rw [fenced, Bool.or_eq_true, Option.isNone_iff_eq_none, Bool.and_eq_true] at h
    exact fenced_classify h fill swallows w
  | docstrings => exact fenced_docstrings w
  | conditionalExpressions => exact ConditionalExpression.fenced_apply w
  | bareBodies => exact BareBody.fenced_apply w
  | switches => exact SwitchStatement.fenced_apply w
  | compoundAssignments => exact CompoundAssignment.fenced_apply w

theorem fenced_runPasses {passes : List Pass} (h : passes.all (·.action.fenced) = true) (w : Work) :
    Fenced w (runPasses passes w) :=
  .foldl fun p hp v _ => Action.fenced_apply (List.all_eq_true.1 h p hp) v

/-- The passes of every tokenizer. -/
theorem fenced_passes (s : Settings) : s.passes.all (·.action.fenced) = true := by
  have hdeclarations : (declarationPasses s).all (·.action.fenced) = true := by
    simp only [declarationPasses, List.all_append]
    split_ifs <;> rfl
  unfold Settings.passes
  split
  · simp only [cPasses, List.all_append, hdeclarations]
    rfl
  · rfl

end Tokenizer
end SourceLikeness
