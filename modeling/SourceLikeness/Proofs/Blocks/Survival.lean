import SourceLikeness.Proofs.Blocks.Stream
import SourceLikeness.Proofs.Blocks.Switch
import SourceLikeness.Proofs.Tokenizer.Default
import SourceLikeness.Proofs.Tokenizer.Idle

/-!
# Blocks survive tokenization

If the braces of a source of the C family are nested behind the passes that mask literals, comments, imports and
directives, those of its stream are, unless a pass takes a text with braces apart that are not nested.

* `visible` : the working copy behind the masking passes;
* `Action.crosses` : the passes whose tokens can hold a brace;
* `Stage.Spares`, `SparesBlocks` : what such a pass records, and what a pass claims besides, is balanced;
* `Action.level_apply` : a pass that spares the blocks keeps the depth of the text; `level_runPasses` : any number of them;
* `nested_blocks` : the braces of the stream;
* `not_nested_closure` : a block that ends with an assignment of a list in braces.
-/

namespace SourceLikeness.Tokenizer
open Bracket WorkingCopy
variable {w : Work} {t : Tokenizer} {source : List Char}

/-! ## Passes that spare the blocks -/

instance (w : Work) (tokens : List (Token Category)) : Decidable (Holds w tokens) :=
  inferInstanceAs (Decidable (∀ k ∈ tokens.drop w.tokens.length, Balanced (k.span.slice w.text)))

/-- Whether a token of the pass can hold a brace and is not one itself. -/
def Action.crosses : Action → Bool
  | .classify f category _ _ => category.bracket?.isNone && !f.bare
  | .switches => true
  | _ => false

example : ((ofDialect .cFamily).passes.filter (·.action.crosses)).map (·.name) =
    ["function_pointers", "pointer_returning_functions", "switch", "functions", "struct_definitions", "struct_variables",
      "pointer_declarations", "char_declarations", "float_declarations", "int_declarations"] := by decide +kernel

/-- What a pass writes over besides its tokens is balanced: what is claimed behind a token, and the headers of `switch`
but for the brace at their end. -/
def Action.SparesRest (before after : Work) : Action → Prop
  | .classify f category _ swallows => swallows = true → ∀ h ∈ found f before,
      ⟨category, h.token.start, h.token.stop⟩ ∈ after.tokens.drop before.tokens.length → Balanced (h.whole.slice before.text)
  | .switches => ∀ h ∈ SwitchStatement.header.readings before.text, '\x7d' ∉ h.whole.slice before.text
  | _ => True

instance (before after : Work) (a : Action) : Decidable (a.SparesRest before after) :=
  match a with
  | .classify .. => inferInstanceAs (Decidable (_ → ∀ h ∈ found _ before, _ → Balanced _))
  | .switches => inferInstanceAs (Decidable (∀ h ∈ SwitchStatement.header.readings before.text, _ ∉ _))
  | .erase .. | .docstrings | .conditionalExpressions | .bareBodies | .compoundAssignments => .isTrue trivial

/-- What a pass writes over is balanced, as far as it can cross a brace at all. -/
def Stage.Spares (s : Stage) : Prop :=
  (s.pass.action.crosses = true → Holds s.before s.after.tokens) ∧ s.pass.action.SparesRest s.before s.after

/-- No pass over a source takes text with braces apart that are not nested. -/
def SparesBlocks (t : Tokenizer) (source : List Char) : Prop := ∀ s ∈ t.stages source, s.Spares

instance (s : Stage) : Decidable s.Spares := inferInstanceAs (Decidable ((_ → Holds _ _) ∧ _))

instance (t : Tokenizer) (source : List Char) : Decidable (t.SparesBlocks source) :=
  inferInstanceAs (Decidable (∀ s ∈ t.stages source, s.Spares))

/-! ## Such passes keep the depth -/

/-- The pass writes no brace, and has none in what it erases. -/
def Action.tame : Action → Bool
  | .erase f fill => f.pattern.bare && (brace? fill).isNone && decide (fill ≠ '\n')
  | .classify f category fill swallows => category.bracket?.isNone && decide (IsAscii fill) && (brace? fill).isNone &&
      (!swallows || f.bare && anchored f.pattern && !f.consumes)
  | .docstrings => false
  | .conditionalExpressions | .bareBodies | .switches | .compoundAssignments => true

theorem Action.level_apply {a : Action} (ha : a.tame = true) (htokens : a.crosses = true → Holds w (a.apply w).tokens)
    (hrest : a.SparesRest w (a.apply w)) : Level w (a.apply w) := by
  cases a with
  | erase f fill =>
    simp only [tame, Bool.and_eq_true, Option.isNone_iff_eq_none, decide_eq_true_eq] at ha
    exact level_erase ha.1.1 ha.1.2 ha.2
  | classify f category fill swallows =>
    simp only [tame, Bool.and_eq_true, Option.isNone_iff_eq_none, decide_eq_true_eq] at ha
    obtain ⟨⟨⟨hcategory, hascii⟩, hfill⟩, hswallows⟩ := ha
    cases swallows with
    | false =>
      refine (reached_classify hcategory hascii hfill ?_).toLevel
      cases hf : f.bare with
      | true => exact Or.inl rfl
      | false => exact Or.inr (htokens (by rw [crosses, hcategory, hf]; rfl))
    | true =>
      simp only [Bool.not_true, Bool.false_or, Bool.and_eq_true, Bool.not_eq_true'] at hswallows
      exact (reached_swallow_all hcategory hascii hfill hswallows.1.1 hswallows.1.2 hswallows.2 (hrest rfl)).toLevel
  | docstrings => exact Bool.noConfusion ha
  | conditionalExpressions => exact (ConditionalExpression.reached_apply w).toLevel
  | bareBodies => exact (BareBody.reached_apply w).toLevel
  | switches => exact (SwitchStatement.reached_apply hrest (htokens rfl)).toLevel
  | compoundAssignments => exact (CompoundAssignment.reached_apply w).toLevel

theorem stagesFrom_append (ps qs : List Pass) (w : Work) :
    stagesFrom w (ps ++ qs) = stagesFrom w ps ++ stagesFrom (runPasses ps w) qs := by
  induction ps generalizing w with
  | nil => rfl
  | cons p ps ih => exact congrArg _ (ih (p.apply w))

theorem level_runPasses {passes : List Pass} (hpasses : passes.all (·.action.tame) = true)
    (h : ∀ s ∈ stagesFrom w passes, s.Spares) : Level w (runPasses passes w) := by
  induction passes generalizing w with
  | nil => exact .refl w
  | cons p passes ih =>
    rw [List.all_cons, Bool.and_eq_true] at hpasses
    obtain ⟨hp, hrest⟩ := List.forall_mem_cons.1 h
    exact (Action.level_apply hpasses.1 hp.1 hp.2).trans (ih hpasses.2 hrest)

/-! ## The passes of the C family -/

/-- The passes that mask what is no code: literals, comments, imports and directives. -/
def maskingPasses : List Pass :=
  [.erasing "literals" Inert.cLiteral literal, .erasing "comments" Inert.cComment blank,
    .erasing "imports" Inert.cImport blank, .erasing "preprocessor" Inert.cDirective blank]

/-- What is left of a source behind the masking passes. -/
def visible (source : List Char) : Work := runPasses maskingPasses (.ofSource source)

/-- Between the masking passes and those for braces the passes of the C family write no brace. -/
theorem exists_constructPasses (s : Settings) : ∃ constructs : List Pass,
    cPasses s = maskingPasses ++ (constructs ++ bracePasses) ∧ constructs.all (·.action.tame) = true := by
  have hdeclarations : (declarationPasses s).all (·.action.tame) = true := by
    simp only [declarationPasses, List.all_append]
    split_ifs <;> rfl
  obtain ⟨front, control, operators, assignments, hpasses, hfront, htame⟩ : ∃ front control operators assignments : List Pass,
      cPasses s = front ++ declarationPasses s ++ control ++ operators ++ assignments ++ bracePasses ∧
        front.take 4 = maskingPasses ∧
          (front.drop 4 ++ control ++ operators ++ assignments).all (·.action.tame) = true := ⟨_, _, _, _, rfl, rfl, rfl⟩
  refine ⟨front.drop 4 ++ (declarationPasses s ++ (control ++ (operators ++ assignments))), ?_, ?_⟩
  · rw [hpasses, ← hfront, ← List.append_assoc, ← List.append_assoc, List.take_append_drop]
    simp only [List.append_assoc]
  · simp only [List.all_append, Bool.and_eq_true] at htame ⊢
    exact ⟨htame.1.1.1, hdeclarations, htame.1.1.2, htame.1.2, htame.2⟩

/-! ## The braces of the stream -/

theorem not_claimed_erase {f : Finder} {fill : Char} (hfill : fill ≠ '\n') (hw : ∀ c ∈ w.cells, c.claimed = false) :
    ∀ c ∈ (erase f fill w).cells, c.claimed = false := by
  intro c hc
  obtain ⟨i, hi⟩ := List.getElem?_of_mem hc
  rw [getElem?_erase hfill] at hi
  split_ifs at hi
  · obtain ⟨c', hc', rfl⟩ := Option.map_eq_some_iff.1 hi
    have hfree := hw c' (List.mem_of_getElem? hc')
    unfold Cell.fill
    split_ifs <;> exact hfree
  · exact hw c (List.mem_of_getElem? hi)

theorem not_claimed_ofSource (source : List Char) : ∀ c ∈ (ofSource source : Work).cells, c.claimed = false := by
  intro c hc
  obtain ⟨x, -, hx⟩ := List.mem_flatMap.1 hc
  unfold cellsOf at hx
  split_ifs at hx
  · rw [List.mem_singleton.1 hx]
  · rw [List.eq_of_mem_replicate hx]

theorem visible_eq (source : List Char) : visible source =
    erase { pattern := Inert.cDirective } blank (erase { pattern := Inert.cImport } blank
      (erase { pattern := Inert.cComment } blank (erase { pattern := Inert.cLiteral } literal (.ofSource source)))) := by
  simp only [visible, maskingPasses, runPasses, List.foldl_cons, List.foldl_nil, Pass.apply, Action.apply, Pass.erasing]

/-- The masking passes claim nothing. -/
theorem not_claimed_visible (source : List Char) : ∀ c ∈ (visible source).cells, c.claimed = false := by
  have hblank : blank ≠ '\n' := by decide
  have hliteral : literal ≠ '\n' := by decide
  rw [visible_eq]
  exact not_claimed_erase hblank (not_claimed_erase hblank (not_claimed_erase hblank
    (not_claimed_erase hliteral (not_claimed_ofSource source))))

theorem clear_visible (source : List Char) : Clear (visible source) := by
  intro c hc hclaimed
  rw [not_claimed_visible source c hc] at hclaimed
  exact Bool.noConfusion hclaimed

theorem tokens_visible (source : List Char) : (visible source).tokens = [] := by
  rw [visible_eq, tokens_erase, tokens_erase, tokens_erase, tokens_erase]
  rfl

theorem isBrace_places (x : Char) {c : Category} (hc : c.bracket?.isSome = true) (s : List Char) :
    ((places x s).map fun i => (⟨c, i, i + 1⟩ : Token Category)).filter isBrace =
      (places x s).map fun i => ⟨c, i, i + 1⟩ := by
  refine List.filter_eq_self.2 fun k hk => ?_
  obtain ⟨i, -, rfl⟩ := List.mem_map.1 hk
  have hwide : (i == i + 1) = false := beq_eq_false_iff_ne.2 (Nat.ne_of_lt (Nat.lt_succ_self i))
  rw [isBrace, Token.isMarker, hwide, hc]
  rfl

/-- The passes for braces record those that are left, in their order. -/
theorem filter_isBrace_stream (hclear : Clear w) (hw : w.tokens.filter isBrace = []) :
    (Token.stream (runPasses bracePasses w).tokens).filter isBrace = braceTokens w.text := by
  rw [Token.stream_filter, tokens_bracePasses hclear, List.filter_append, hw, List.nil_append, List.filter_append,
    isBrace_places _ rfl, isBrace_places _ rfl]
  exact stream_braceTokens (perm_braceTokens w.text)

/-- Which bracket a token is that is no marker. -/
def solidBracket? (k : Token Category) : Option Bracket := if !k.isMarker then k.symbol.bracket? else none

theorem solidBracket?_of {k : Token Category} (h : isBrace k = true) : solidBracket? k = k.symbol.bracket? :=
  if_pos (Bool.and_eq_true_iff.1 h).1

theorem solidBracket?_of_not {k : Token Category} (h : isBrace k = false) : solidBracket? k = none := by
  unfold solidBracket?
  rcases Bool.and_eq_false_iff.1 h with hmarker | hnone
  · rw [hmarker, if_neg Bool.false_ne_true]
  · rw [Option.isSome_eq_false_iff, Option.isNone_iff_eq_none] at hnone
    rw [hnone, ite_self]

/-- The braces of a stream that are no markers have the depth of the visible text. -/
theorem depth_classes (hd : t.settings.dialect = .cFamily) (hspares : t.SparesBlocks source) (d : Nat) :
    depth solidBracket? d (t.classes source) = depth brace? d (visible source).text := by
  obtain ⟨constructs, hpasses, htame⟩ := exists_constructPasses t.settings
  have hall : t.passes = maskingPasses ++ (constructs ++ bracePasses) := by
    rw [Tokenizer.passes, Settings.passes, hd]
    exact hpasses
  have hlevel : Level (visible source) (runPasses constructs (visible source)) := by
    refine level_runPasses htame fun s hs => hspares s ?_
    rw [stages, hall, stagesFrom_append, stagesFrom_append]
    exact List.mem_append_right _ (List.mem_append_left _ hs)
  have hrun : t.run source = runPasses bracePasses (runPasses constructs (visible source)) := by
    rw [run, hall, runPasses_append, runPasses_append]
    rfl
  have hfilter : (t.classes source).filter isBrace = braceTokens (runPasses constructs (visible source)).text := by
    rw [classes, hrun, filter_isBrace_stream (hlevel.clear (clear_visible source))]
    rw [hlevel.braces, tokens_visible]
    rfl
  rw [← depth_filter fun k _ => solidBracket?_of_not, depth_congr fun k hk => solidBracket?_of (List.mem_filter.1 hk).2, hfilter,
    depth_braceTokens, hlevel.depth]

/-- **Blocks survive tokenization** unless a pass takes apart what is not nested. If the braces of the visible text of a
source of the C family are nested, so are those of its stream. -/
theorem nested_blocks (hd : t.settings.dialect = .cFamily) (hsource : Balanced (visible source).text)
    (hspares : t.SparesBlocks source) : Nested (fun k => t.alphabet.bracket? k.symbol) (t.tokenize source) := by
  have hsolid : Nested solidBracket? (t.classes source) := by
    rw [nested_iff_depth, depth_classes hd hspares]
    exact nested_iff_depth.1 hsource
  have hside : (fun k => t.alphabet.bracket? k.symbol) ∘ Token.map t.alphabet.symbol =
      fun k : Token Category => k.symbol.bracket? :=
    funext fun k => Alphabet.bracket?_symbol t.fault?_alphabet k.symbol
  rw [nested_iff_depth, tokenize, write, depth_map, hside, ← nested_iff_depth]
  exact (t.nested_fences source).of_split Token.isMarker hsolid


/-- A function with a `switch` and a list in a list. -/
theorem nested_blocks_switch :
    (ofDialect .cFamily).settings.dialect = .cFamily ∧
      Balanced (visible "int f() { switch (x) { case 1: y = 2; } a = { {1} }; }".toList).text ∧
      (ofDialect .cFamily).SparesBlocks "int f() { switch (x) { case 1: y = 2; } a = { {1} }; }".toList ∧
      Nested (fun k => (ofDialect .cFamily).alphabet.bracket? k.symbol)
        ((ofDialect .cFamily).tokenize "int f() { switch (x) { case 1: y = 2; } a = { {1} }; }".toList) := by
  have hsource : Balanced (visible "int f() { switch (x) { case 1: y = 2; } a = { {1} }; }".toList).text := by decide +kernel
  have hspares : (ofDialect .cFamily).SparesBlocks "int f() { switch (x) { case 1: y = 2; } a = { {1} }; }".toList := by
    decide +kernel
  exact ⟨rfl, hsource, hspares, nested_blocks rfl hsource hspares⟩

/-- The semicolon behind a closure is taken for the end of the list in it, and the brace of the closure goes with it. -/
theorem not_nested_closure :
    Balanced (visible "f = () => { o = { a: 1 } };".toList).text ∧
      ¬ Nested (fun k => (ofDialect .cFamily).alphabet.bracket? k.symbol)
        ((ofDialect .cFamily).tokenize "f = () => { o = { a: 1 } };".toList) := by
  decide +kernel

end SourceLikeness.Tokenizer
