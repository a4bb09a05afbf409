import SourceLikeness.Proofs.Braces.Symbols
import SourceLikeness.Proofs.Choice.Expression
import SourceLikeness.Proofs.Choice.Joints

/-!
# Conditional expressions and branches have the same symbols

The passes for the C family are gone through on the pieces of a choice, in both of its texts.

* `Segment.tokens_runPasses` : what is recorded behind the pass for conditional expressions;
* `Segment.stream_tokens` : so the stream has the tokens of the pieces in their order;
* `Choice.symbols_expression_iff` : both texts of a choice have the same symbols if and only if the choice agrees.
-/

namespace SourceLikeness.Tokenizer

namespace Segment
variable {as : List Segment} {T : List (Token Category)}

/-! ## Passes that find nothing -/

/-- What literals, comments, imports and directives need. -/
def literalLeads : Leads := ⟨["import".toList, "use".toList, "package".toList], [], "\"'\x60/#".toList, [], false⟩

def expressionLeads : Leads := ⟨[], [], ['?'], [], false⟩

/-- What declarations of pointers to functions need: a parenthesis in front of a star. -/
def pointerLeads : Leads := ⟨[], [], [], ['('], false⟩

def loopLeads : Leads := ⟨["for".toList, "while".toList, "do".toList, "switch".toList], [], [], [], false⟩

/-- What definitions, calls and casts need. -/
def definitionLeads : Leads :=
  ⟨["struct".toList, "union".toList, "enum".toList, "class".toList, "interface".toList], [], ['('], [], false⟩

/-- What declarations, jumps, compound assignments and increments need. -/
def stepLeads : Leads := ⟨cWords.map String.toList, [], "+/%|^<>".toList, ['-', '*', '&'], false⟩

def logicLeads : Leads := ⟨[], [], ['|', '!'], ['&'], false⟩

def complementLeads : Leads := ⟨[], [], ['~'], [], false⟩

theorem barren_literals : (cDefault.take 4).all (·.action.barren literalLeads) = true := by decide

theorem barren_pointers : ((cDefault.take 7).drop 5).all (·.action.barren pointerLeads) = true := by decide

theorem barren_loops : ((cDefault.take 12).drop 8).all (·.action.barren loopLeads) = true := by decide

theorem barren_definitions : ((cDefault.take 19).drop 13).all (·.action.barren definitionLeads) = true := by decide

theorem barren_steps : ((cDefault.take 27).drop 20).all (·.action.barren stepLeads) = true := by decide

theorem barren_logic : ((cDefault.take 31).drop 29).all (·.action.barren logicLeads) = true := by decide

theorem barren_complement : ((cDefault.take 33).drop 32).all (·.action.barren complementLeads) = true := by decide

/-- The value that stands for all others. -/
def anyValue : Value := { whole := { text := "n" } }

/-- The piece with other names. -/
def renamed : Segment → Segment
  | ifHead _ => ifHead (.value anyValue)
  | target carried _ => target carried anyValue.whole
  | condition _ => condition (.value anyValue)
  | plain _ => plain anyValue
  | signed joins m _ => signed joins m anyValue
  | a => a

/-- Pieces of every kind. -/
def kinds : List Segment :=
  [openBrace false, openBrace true, closeBrace, ifHead (.value anyValue), elseWord, target false anyValue.whole,
    target true anyValue.whole, giveWord false, giveWord true, condition (.value anyValue), question, gap, colon, plain anyValue,
    semicolon] ++ [Unary.minus, .star, .ampersand].flatMap (fun m => [signed false m anyValue, signed true m anyValue]) ++
    Category.all.map mark

theorem renamed_mem_kinds (a : Segment) : a.renamed ∈ kinds := by
  cases a with
  | openBrace spaced => cases spaced <;> simp [kinds, renamed]
  | target carried y | giveWord carried => cases carried <;> simp [kinds, renamed]
  | signed joins m v => cases joins <;> cases m <;> simp [kinds, renamed]
  | mark category => cases category <;> simp [kinds, renamed, Category.all]
  | _ => simp [kinds, renamed]

theorem quiet_renamed (x : Leads) (φ : Inks Role) (a : Segment) : a.renamed.quiet x φ = a.quiet x φ := by
  cases a with
  | openBrace spaced => cases spaced <;> rfl
  | _ => rfl

/-- Whether a piece is quiet does not depend on its names. -/
theorem quiet_of_kinds {x : Leads} {φ : Inks Role} (h : kinds.all (quiet x φ) = true) (a : Segment) : a.quiet x φ = true :=
  (quiet_renamed x φ a).symm.trans (List.all_eq_true.1 h _ a.renamed_mem_kinds)

/-- The fills of the passes for choices. -/
def IsUsual (φ : Inks Role) : Prop :=
  ∀ r ink, φ r = some ink → ink.fill ∈ [WorkingCopy.masked, WorkingCopy.terminator, WorkingCopy.operator]

theorem IsUsual.add {φ : Inks Role} {wanted : Role → Bool} {ink : Ink} (hφ : IsUsual φ)
    (hink : ink.fill ∈ [WorkingCopy.masked, WorkingCopy.terminator, WorkingCopy.operator]) : IsUsual (φ.add wanted ink) := by
  intro r ink' h
  rw [Inks.add] at h
  split_ifs at h
  · obtain rfl := Option.some.inj h
    exact hink
  · exact hφ r ink' h

theorem isUsual_untouched : IsUsual untouched := nofun

theorem isUsual_chosen : IsUsual chosen :=
  (((IsUsual.add isUsual_untouched (by decide)).add (by decide)).add (by decide)).add (by decide)

theorem isUsual_headersDone : IsUsual headersDone := IsUsual.add isUsual_chosen (by decide)

theorem isUsual_givesDone : IsUsual givesDone := IsUsual.add isUsual_headersDone (by decide)

theorem isUsual_minusesDone : IsUsual minusesDone := (IsUsual.add isUsual_givesDone (by decide)).add (by decide)

theorem isUsual_ampersandsDone : IsUsual ampersandsDone := IsUsual.add isUsual_minusesDone (by decide)

/-- Passes that need leads leave pieces that are quiet as they are. -/
theorem runPasses_of_quiet {x : Leads} {φ : Inks Role} {passes : List Pass} (hpasses : passes.all (·.action.barren x) = true)
    (hx : Name.covers x = true) (htight : ∀ c ∈ x.tight, c ∈ ['(', '-', '*', '&']) (hφ : Piece.IsDry φ) (hφ' : IsUsual φ)
    (h : ∀ a ∈ as, a.quiet x φ = true) :
    runPasses passes (Piece.work φ (as.map piece) T) = Piece.work φ (as.map piece) T := by
  have hsigns : ∀ c ∈ [WorkingCopy.masked, WorkingCopy.terminator, WorkingCopy.operator], c ∉ ['(', '-', '*', '&'] := by decide
  refine runPasses_eq_self hpasses ?_
  rw [Piece.text_work]
  exact lacks hx htight hφ (fun r ink hink hmem => hsigns _ (hφ' r ink hink) (htight _ hmem)) h

/-! ## The passes behind that for conditional expressions -/

/-- What is recorded of some pieces behind the pass for conditional expressions. -/
def recorded (as : List Segment) : List (Token Category) :=
  Piece.tokens (Piece.only (· == .header) .conditional) 0 (as.map piece) ++
    (Piece.tokens (Piece.only (· == .give) .return) 0 (as.map piece) ++
      (Piece.tokens (Piece.only (· == .unary .star true) .math) 0 (as.map piece) ++
        (Piece.tokens (Piece.only (· == .unary .minus true) .math) 0 (as.map piece) ++
          (Piece.tokens (Piece.only (· == .unary .ampersand true) .shift) 0 (as.map piece) ++
            (Piece.tokens (Piece.only (· == .assign) .assign) 0 (as.map piece) ++
              (Piece.tokens (Piece.only (· == .openBrace) .openBrace) 0 (as.map piece) ++
                Piece.tokens (Piece.only (· == .closeBrace) .closeBrace) 0 (as.map piece)))))))

theorem runPasses_headers (h : Fits as) : runPasses ((cDefault.take 19).drop 7) (Piece.work chosen (as.map piece) T) =
    Piece.work headersDone (as.map piece) (T ++ Piece.tokens (Piece.only (· == .header) .conditional) 0 (as.map piece)) := by
  have hpasses : (cDefault.take 19).drop 7 = ⟨"missing_braces", .bareBodies⟩ :: ((cDefault.take 12).drop 8 ++
      (.construct "conditionals" Header.cConditional .conditional :: (cDefault.take 19).drop 13)) := rfl
  have hbodies : ∀ T, (⟨"missing_braces", .bareBodies⟩ : Pass).apply (Piece.work chosen (as.map piece) T) =
      Piece.work chosen (as.map piece) T := by
    intro T
    change BareBody.apply _ = _
    rw [BareBody.apply, Piece.text_work, bodies_shown h, List.foldl_nil]
  have hheaders : ∀ T, (Pass.construct "conditionals" Header.cConditional .conditional).apply (Piece.work chosen (as.map piece) T) =
      Piece.work headersDone (as.map piece) (T ++ Piece.tokens (Piece.only (· == .header) .conditional) 0 (as.map piece)) :=
    fun T => Piece.classify_steps (steps_headers h) (by decide) (by decide) (sound_map as) isDry_chosen (Piece.free_of_eq rfl)
  rw [hpasses, runPasses_cons, hbodies, runPasses_append, runPasses_of_quiet barren_loops (by decide) (by decide) isDry_chosen
    isUsual_chosen fun a _ => quiet_of_kinds (by decide) a, runPasses_cons, hheaders, runPasses_of_quiet barren_definitions (by decide)
    (by decide) isDry_headersDone isUsual_headersDone fun a _ => quiet_of_kinds (by decide) a]

/-- The passes from returns to the last search for signs. -/
theorem runPasses_signs (h : Fits as) : runPasses ((cDefault.take 33).drop 19) (Piece.work headersDone (as.map piece) T) =
    Piece.work ampersandsDone (as.map piece) (T ++ Piece.tokens (Piece.only (· == .give) .return) 0 (as.map piece) ++
      Piece.tokens (Piece.only (· == .unary .star true) .math) 0 (as.map piece) ++
      Piece.tokens (Piece.only (· == .unary .minus true) .math) 0 (as.map piece) ++
      Piece.tokens (Piece.only (· == .unary .ampersand true) .shift) 0 (as.map piece)) := by
  have hpasses : (cDefault.take 33).drop 19 = .construct "returns" (Pattern.word ["return"]) .return :: ((cDefault.take 27).drop 20 ++
      (.operator "multiplication" Operator.multiplication .math :: .operator "arithmetic" Operator.arithmetic .math ::
        ((cDefault.take 31).drop 29 ++ (.operator "bitwise" Operator.bitwise .shift :: (cDefault.take 33).drop 32)))) := rfl
  have hgives : ∀ T, (Pass.construct "returns" (Pattern.word ["return"]) .return).apply (Piece.work headersDone (as.map piece) T) =
      Piece.work givesDone (as.map piece) (T ++ Piece.tokens (Piece.only (· == .give) .return) 0 (as.map piece)) :=
    fun T => Piece.classify_steps (steps_gives h) (by decide) (by decide) (sound_map as) isDry_headersDone (Piece.free_of_eq rfl)
  have hstars : ∀ T, (Pass.operator "multiplication" Operator.multiplication .math).apply (Piece.work givesDone (as.map piece) T) =
      Piece.work starsDone (as.map piece) (T ++ Piece.tokens (Piece.only (· == .unary .star true) .math) 0 (as.map piece)) :=
    fun T => Piece.classify_steps (steps_sign ready_givesDone h) (by decide) (by decide) (sound_map as) isDry_givesDone
      (Piece.free_of_eq rfl)
  have hminuses : ∀ T, (Pass.operator "arithmetic" Operator.arithmetic .math).apply (Piece.work starsDone (as.map piece) T) =
      Piece.work minusesDone (as.map piece) (T ++ Piece.tokens (Piece.only (· == .unary .minus true) .math) 0 (as.map piece)) :=
    fun T => Piece.classify_steps (steps_sign ready_starsDone h) (by decide) (by decide) (sound_map as) isDry_starsDone
      (Piece.free_of_eq rfl)
  have hampersands : ∀ T, (Pass.operator "bitwise" Operator.bitwise .shift).apply (Piece.work minusesDone (as.map piece) T) =
      Piece.work ampersandsDone (as.map piece) (T ++ Piece.tokens (Piece.only (· == .unary .ampersand true) .shift) 0 (as.map piece)) :=
    fun T => Piece.classify_steps (steps_sign ready_minusesDone h) (by decide) (by decide) (sound_map as) isDry_minusesDone
      (Piece.free_of_eq rfl)
  rw [hpasses, runPasses_cons, hgives, runPasses_append, runPasses_of_quiet barren_steps (by decide) (by decide) isDry_givesDone
    isUsual_givesDone fun a _ => quiet_of_kinds (by decide) a, runPasses_cons, hstars, runPasses_cons, hminuses, runPasses_append,
    runPasses_of_quiet barren_logic (by decide) (by decide) isDry_minusesDone isUsual_minusesDone
      fun a _ => quiet_of_kinds (by decide) a, runPasses_cons, hampersands,
    runPasses_of_quiet barren_complement (by decide) (by decide) isDry_ampersandsDone isUsual_ampersandsDone
      fun a _ => quiet_of_kinds (by decide) a]

/-- The passes from comparisons on. -/
theorem runPasses_closing (h : Fits as) : (runPasses Item.closingPasses (Piece.work ampersandsDone (as.map piece) T)).tokens =
    T ++ Piece.tokens (Piece.only (· == .assign) .assign) 0 (as.map piece) ++
      Piece.tokens (Piece.only (· == .openBrace) .openBrace) 0 (as.map piece) ++
      Piece.tokens (Piece.only (· == .closeBrace) .closeBrace) 0 (as.map piece) :=
  Item.tokens_runPasses_closing (sound_map as) isDry_ampersandsDone ⟨rfl, rfl, rfl⟩ rfl rfl (steps_comparison h)
    (steps_initializers h) (steps_assigns h) (steps_openBraces as) (steps_closeBraces as)

/-- What is recorded behind the pass for conditional expressions. -/
theorem tokens_runPasses (h : Fits as) : (runPasses (cDefault.drop 7) (Piece.work chosen (as.map piece) T)).tokens = T ++ recorded as := by
  have hpasses : cDefault.drop 7 = (cDefault.take 19).drop 7 ++ ((cDefault.take 33).drop 19 ++ Item.closingPasses) := rfl
  rw [hpasses, runPasses_append, runPasses_headers h, runPasses_append, runPasses_signs h, runPasses_closing h, recorded]
  simp only [List.append_assoc]

/-! ## The stream -/

/-- What is recorded is what the pieces have, in another order. -/
theorem recorded_perm (as : List Segment) : (Piece.tokens Role.markCategory 0 (as.map piece) ++ recorded as).Perm
    (Piece.tokens Role.category 0 (as.map piece)) := by
  rw [recorded]
  simp only [← List.append_assoc]
  have hall := Piece.append_perm_tokens (d := Piece.only (· == .closeBrace) .closeBrace)
    (Piece.append_perm_tokens (d := Piece.only (· == .openBrace) .openBrace)
      (Piece.append_perm_tokens (d := Piece.only (· == .assign) .assign)
        (Piece.append_perm_tokens (d := Piece.only (· == .unary .ampersand true) .shift)
          (Piece.append_perm_tokens (d := Piece.only (· == .unary .minus true) .math)
            (Piece.append_perm_tokens (d := Piece.only (· == .unary .star true) .math)
              (Piece.append_perm_tokens (d := Piece.only (· == .give) .return)
                (Piece.append_perm_tokens (d := Piece.only (· == .header) .conditional)
                  (.refl (Piece.tokens Role.markCategory 0 (as.map piece))) ?_) ?_) ?_) ?_) ?_) ?_) ?_) ?_
  · refine hall.trans (List.Perm.of_eq ?_)
    congr 1
    funext r
    rcases r with _ | _ | _ | _ | _ | _ | _ | _ | _ | ⟨_ | _ | _, _ | _⟩ | _ | _ <;> rfl
  all_goals
    intro r
    rcases r with _ | _ | _ | _ | _ | _ | _ | _ | _ | ⟨_ | _ | _, _ | _⟩ | _ | _ <;> first | exact Or.inl rfl | exact Or.inr rfl

/-- The body of a piece is empty only if it is a mark or has no token. -/
theorem role_of_empty {a : Segment} (h : Lexeme.text a.piece.body = []) : a.piece.role = .still ∨ ∃ c, a.piece.role = .mark c := by
  cases a with
  | openBrace spaced => cases spaced <;> exact absurd h (List.cons_ne_nil _ _)
  | target carried x | giveWord carried => exact absurd h (List.cons_ne_nil _ _)
  | signed joins m v => exact absurd h (List.cons_ne_nil _ _)
  | closeBrace | ifHead _ | elseWord | condition _ | question | colon => exact absurd h (List.cons_ne_nil _ _)
  | mark c => exact Or.inr ⟨c, rfl⟩
  | _ => exact Or.inl rfl

theorem category_of_empty {a : Segment} (h : Lexeme.text a.piece.body = []) : a.piece.role.category = a.piece.role.markCategory := by
  rcases role_of_empty h with hrole | ⟨c, hrole⟩ <;> rw [hrole] <;> rfl

/-- Markers are recorded by the pass for conditional expressions only. -/
theorem filter_recorded (as : List Segment) (n : Nat) : (recorded as).filter (·.span == ⟨n, n⟩) = [] := by
  have hone : ∀ {wanted : Role → Bool} {category : Category}, wanted .still = false → (∀ c, wanted (.mark c) = false) →
      (Piece.tokens (Piece.only wanted category) 0 (as.map piece)).filter (·.span == ⟨n, n⟩) = [] := by
    intro wanted category hstill hmark
    rw [Piece.filter_tokens_congr (d := fun _ => none) ?_, Piece.tokens_none, List.filter_nil]
    intro p hp hbody
    obtain ⟨a, -, rfl⟩ := List.mem_map.1 hp
    rcases role_of_empty hbody with hrole | ⟨c, hrole⟩
    · rw [hrole, Piece.only, hstill]
      rfl
    · rw [hrole, Piece.only, hmark c]
      rfl
  simp only [recorded, List.filter_append, List.append_eq_nil_iff]
  exact ⟨hone rfl fun _ => rfl, hone rfl fun _ => rfl, hone rfl fun _ => rfl, hone rfl fun _ => rfl, hone rfl fun _ => rfl,
    hone rfl fun _ => rfl, hone rfl fun _ => rfl, hone rfl fun _ => rfl⟩

/-- **The stream of pieces.** It has the tokens of the pieces in their order. -/
theorem stream_tokens (as : List Segment) :
    Token.stream (Piece.tokens Role.markCategory 0 (as.map piece) ++ recorded as) = Piece.tokens Role.category 0 (as.map piece) := by
  refine Piece.stream_eq_tokens (recorded_perm as) fun n => Or.inr ?_
  rw [List.filter_append, filter_recorded, List.append_nil]
  refine Piece.filter_tokens_congr (fun p hp hbody => ?_) 0 n
  obtain ⟨a, -, rfl⟩ := List.mem_map.1 hp
  exact (category_of_empty hbody).symm

end Segment

/-! ## The two texts -/

namespace Choice
open Segment

/-- The categories of the pieces. -/
def categories (as : List Segment) : List Category := as.filterMap (·.piece.role.category)

theorem symbols_classes {as : List Segment} {source : List Char} (htext : Segment.shown untouched as = source) (hfits : Segment.Fits as)
    (hwork : runPasses (cDefault.take 7) (Piece.work untouched (as.map piece) []) =
      Piece.work chosen (as.map piece) (Piece.tokens Role.markCategory 0 (as.map piece))) :
    Token.symbols ((ofDialect .cFamily).classes source) = categories as := by
  have hpasses : (ofDialect .cFamily).passes = cDefault.take 7 ++ cDefault.drop 7 := rfl
  rw [classes, run, hpasses, ← htext, Piece.ofSource_text (sound_map as), runPasses_append, hwork, tokens_runPasses hfits, stream_tokens,
    Piece.symbols_tokens, categories, List.filterMap_map]
  rfl

theorem runPasses_expression (k : Choice) : runPasses (cDefault.take 7) (Piece.work untouched (k.expressionSegments.map piece) []) =
    Piece.work chosen (k.expressionSegments.map piece) (Piece.tokens Role.markCategory 0 (k.expressionSegments.map piece)) := by
  have hpasses : cDefault.take 7 = cDefault.take 4 ++ (⟨"ternary", .conditionalExpressions⟩ :: (cDefault.take 7).drop 5) := rfl
  have happly : (⟨"ternary", .conditionalExpressions⟩ : Pass).apply (Piece.work untouched (k.expressionSegments.map piece) []) =
      Piece.work chosen (k.expressionSegments.map piece) k.markTokens := k.apply_expression
  rw [hpasses, runPasses_append, runPasses_of_quiet barren_literals (by decide) (by decide) Piece.isDry_untouched isUsual_untouched
    fun a _ => quiet_of_kinds (by decide) a, runPasses_cons, happly, runPasses_of_quiet barren_pointers (by decide) (by decide)
    isDry_chosen isUsual_chosen fun a _ => quiet_of_kinds (by decide) a, tokens_expressionSegments]

theorem barren_expressions : ((cDefault.take 5).drop 4).all (·.action.barren expressionLeads) = true := by decide

theorem runPasses_branches (k : Choice) : runPasses (cDefault.take 7) (Piece.work untouched (k.branchSegments.map piece) []) =
    Piece.work chosen (k.branchSegments.map piece) (Piece.tokens Role.markCategory 0 (k.branchSegments.map piece)) := by
  have hpasses : cDefault.take 7 = cDefault.take 4 ++ ((cDefault.take 5).drop 4 ++ (cDefault.take 7).drop 5) := rfl
  have hquestions : k.branchSegments.all (quiet expressionLeads untouched) = true := by
    obtain ⟨l, op, r, ⟨_ | ⟨_ | _ | _⟩, v⟩, ⟨_ | ⟨_ | _ | _⟩, w⟩, x | _⟩ := k <;> rfl
  have hroles : k.branchSegments.all (fun a => (chosen a.piece.role).isNone) = true := by
    obtain ⟨l, op, r, ⟨_ | m, v⟩, ⟨_ | m', w⟩, x | _⟩ := k <;> rfl
  have hmarks : Piece.tokens Role.markCategory 0 (k.branchSegments.map piece) = [] := by
    obtain ⟨l, op, r, ⟨_ | m, v⟩, ⟨_ | m', w⟩, x | _⟩ := k <;> rfl
  rw [hpasses, runPasses_append, runPasses_of_quiet barren_literals (by decide) (by decide) Piece.isDry_untouched isUsual_untouched
    fun a _ => quiet_of_kinds (by decide) a, runPasses_append, runPasses_of_quiet barren_expressions (by decide) (by decide)
    Piece.isDry_untouched isUsual_untouched (List.all_eq_true.1 hquestions), runPasses_of_quiet barren_pointers (by decide) (by decide)
    Piece.isDry_untouched isUsual_untouched fun a _ => quiet_of_kinds (by decide) a, hmarks]
  refine Piece.work_congr fun p hp => ?_
  obtain ⟨a, ha, rfl⟩ := List.mem_map.1 hp
  exact (Option.isNone_iff_eq_none.1 (List.all_eq_true.1 hroles a ha)).symm

theorem symbols_expression (k : Choice) : Token.symbols ((ofDialect .cFamily).tokenize k.expression.toList) =
    (categories k.expressionSegments).map (ofDialect .cFamily).alphabet.symbol := by
  rw [Stmt.symbols_write, symbols_classes k.text_expression k.fits_expressionSegments k.runPasses_expression]

theorem symbols_branches (k : Choice) : Token.symbols ((ofDialect .cFamily).tokenize k.branches.toList) =
    (categories k.branchSegments).map (ofDialect .cFamily).alphabet.symbol := by
  rw [Stmt.symbols_write, symbols_classes k.text_branches k.fits_branchSegments k.runPasses_branches]

/-- **Conditional expressions and branches.** Both texts of a choice have the same symbols if and only if the choice agrees: an
assigned value behind the question mark has no sign, and neither has a returned value behind the colon. -/
theorem symbols_expression_iff (k : Choice) : Token.symbols ((ofDialect .cFamily).tokenize k.expression.toList) =
    Token.symbols ((ofDialect .cFamily).tokenize k.branches.toList) ↔ k.agrees = true := by
  rw [symbols_expression, symbols_branches]
  constructor
  · intro h
    have hlength := congrArg List.length h
    rw [List.length_map, List.length_map] at hlength
    obtain ⟨l, op, r, ⟨_ | ⟨_ | _ | _⟩, v⟩, ⟨_ | ⟨_ | _ | _⟩, w⟩, x | _⟩ := k <;> first
      | rfl
      | exact absurd hlength (Nat.ne_of_beq_eq_false rfl)
  · intro h
    refine congrArg _ ?_
    obtain ⟨l, op, r, ⟨_ | ⟨_ | _ | _⟩, v⟩, ⟨_ | ⟨_ | _ | _⟩, w⟩, x | _⟩ := k <;> first | rfl | exact Bool.noConfusion h

/-- A sign behind a question mark is recorded as an operator. -/
theorem symbols_expression_minus_ne :
    let a : Value := { whole := { text := "a" } }
    let b : Value := { whole := { text := "b" } }
    let k : Choice := ⟨a, .above, b, { unary := some .minus, value := a }, { value := b }, .assign { text := "x" }⟩
    Token.symbols ((ofDialect .cFamily).tokenize k.expression.toList) ≠ Token.symbols ((ofDialect .cFamily).tokenize k.branches.toList) := by
  decide +kernel

end Choice

end SourceLikeness.Tokenizer
