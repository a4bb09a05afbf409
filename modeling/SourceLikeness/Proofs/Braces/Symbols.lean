import SourceLikeness.Proofs.Braces.Markers
import SourceLikeness.Proofs.Tokenizer.Default

/-!
# Statements with and without braces have the same symbols

The passes for the C family are gone through one after the other on the pieces of a statement.

* `Item.tokens_run` : what is recorded, if the pass for bodies leaves the marks of the pieces;
* `Item.symbols_classes` : so the stream has the categories of the pieces in their order;
* `Stmt.symbols_print` : a statement whose bodies can be found has the same symbols with braces and without.
-/

namespace SourceLikeness.Tokenizer
open Lexeme (word sign spots)

/-- The passes for the C family when nothing is said. -/
abbrev cDefault : List Pass := cPasses (.ofDialect .cFamily)

/-! ## Passes that find nothing -/

/-- What the passes before the one for bodies need. -/
def inertLeads : Leads := ⟨["import".toList, "use".toList, "package".toList], [], "\"'\x60/#?*".toList, [], false⟩

def switchLeads : Leads := ⟨["switch".toList], [], [], [], false⟩

/-- What the passes between conditionals and comparisons need. -/
def operatorLeads : Leads := ⟨cWords.map String.toList, [], "(*+-/%&|!~^<>".toList, [], false⟩

theorem barren_inert : (cDefault.take 7).all (·.action.barren inertLeads) = true := by decide +kernel

theorem barren_operators : ((cDefault.take 33).drop 13).all (·.action.barren operatorLeads) = true := by decide +kernel

namespace Item
variable {as : List Item} {T : List (Token Category)}

/-- The passes for loops and conditionals. -/
def headerPasses : List Pass :=
  [.construct "loops" Header.cLoop .loop, .construct "do_loops" (Pattern.word ["do"]) .loop,
    .erasing "do_while_tails" Header.doTail WorkingCopy.masked, ⟨"switch", .switches⟩,
    .construct "conditionals" Header.cConditional .conditional]

/-- What is recorded of the headers of some pieces. -/
def headerTokens (as : List Item) : List (Token Category) :=
  Piece.tokens (Piece.only (· == .loop) .loop) 0 (as.map piece) ++ (Piece.tokens (Piece.only (· == .doWord) .loop) 0 (as.map piece) ++
    Piece.tokens (Piece.only (· == .conditional) .conditional) 0 (as.map piece))

theorem quiet_switchLeads (a : Item) : a.quiet switchLeads tailsDone = true := by
  cases a with
  | ifHead chained c => cases chained <;> rfl
  | _ => rfl

theorem quiet_inertLeads (a : Item) : a.quiet inertLeads untouched = true := by
  cases a with
  | ifHead chained c => cases chained <;> rfl
  | _ => rfl

theorem quiet_operatorLeads (a : Item) : a.quiet operatorLeads conditionalsDone = true := by
  cases a with
  | ifHead chained c => cases chained <;> rfl
  | _ => rfl

theorem runPasses_headers (hfits : Fits as) : runPasses headerPasses (Piece.work untouched (as.map piece) T) =
    Piece.work conditionalsDone (as.map piece) (T ++ headerTokens as) := by
  have hloops : ∀ T, (Pass.construct "loops" Header.cLoop .loop).apply (Piece.work untouched (as.map piece) T) =
      Piece.work loopsDone (as.map piece) (T ++ Piece.tokens (Piece.only (· == .loop) .loop) 0 (as.map piece)) :=
    fun T => Piece.classify_steps (steps_loops hfits) (by decide) (by decide) (sound_map as) Piece.isDry_untouched (Piece.free_of_eq rfl)
  have hdos : ∀ T, (Pass.construct "do_loops" (Pattern.word ["do"]) .loop).apply (Piece.work loopsDone (as.map piece) T) =
      Piece.work dosDone (as.map piece) (T ++ Piece.tokens (Piece.only (· == .doWord) .loop) 0 (as.map piece)) :=
    fun T => Piece.classify_steps (steps_dos as) (by decide) (by decide) (sound_map as) isDry_loopsDone (Piece.free_of_eq rfl)
  have htails : ∀ T, (Pass.erasing "do_while_tails" Header.doTail WorkingCopy.masked).apply (Piece.work dosDone (as.map piece) T) =
      Piece.work tailsDone (as.map piece) T :=
    fun T => Piece.erase_work (sound_map as) (Piece.free_of_eq rfl) (by decide)
      (Piece.map_token_hits (by decide) (by decide) (sound_map as) isDry_dosDone (steps_tails as))
  have hswitches : ∀ T, (⟨"switch", .switches⟩ : Pass).apply (Piece.work tailsDone (as.map piece) T) =
      Piece.work tailsDone (as.map piece) T := by
    intro T
    refine Action.apply_eq_self (x := switchLeads) (by decide) ?_
    rw [Piece.text_work]
    exact lacks (by decide) rfl quiet_switchLeads isDry_tailsDone as
  have hconditionals : ∀ T, (Pass.construct "conditionals" Header.cConditional .conditional).apply
      (Piece.work tailsDone (as.map piece) T) = Piece.work conditionalsDone (as.map piece)
        (T ++ Piece.tokens (Piece.only (· == .conditional) .conditional) 0 (as.map piece)) :=
    fun T => Piece.classify_steps (steps_conditionals hfits) (by decide) (by decide) (sound_map as) isDry_tailsDone (Piece.free_of_eq rfl)
  rw [headerPasses, runPasses_cons, hloops, runPasses_cons, hdos, runPasses_cons, htails, runPasses_cons, hswitches,
    runPasses_cons, hconditionals, headerTokens, List.append_assoc, List.append_assoc]
  rfl

/-- The passes from comparisons on. -/
def closingPasses : List Pass :=
  [.operator "comparison" Operator.comparison .compare,
    ⟨"initializers", .classify Operator.initializer .assign WorkingCopy.operator true⟩,
    .operator "assignments" Operator.assignment .assign, .construct "open_braces" (Pattern.text "\x7b") .openBrace,
    .construct "close_braces" (Pattern.text "\x7d") .closeBrace]

/-- What is recorded of the assignments and the braces of some pieces. -/
def closingTokens (as : List Item) : List (Token Category) :=
  Piece.tokens (Piece.only (· == .assign) .assign) 0 (as.map piece) ++
    (Piece.tokens (Piece.only (· == .openBrace) .openBrace) 0 (as.map piece) ++
      Piece.tokens (Piece.only (· == .closeBrace) .closeBrace) 0 (as.map piece))

theorem steps_comparison (as : List Item) : Piece.Steps Operator.comparison (shown conditionalsDone as) equalsLeads
    conditionalsDone (fun _ => false) 0 (as.map piece) :=
  steps_equals rfl (fun _ h => Bool.noConfusion h) (by
    intro s w o hs _ _
    exact hitOf_comparison_eq_none hs) as

theorem steps_initializers (as : List Item) : Piece.Steps Operator.initializer (shown conditionalsDone as) equalsLeads
    conditionalsDone (fun _ => false) 0 (as.map piece) :=
  steps_equals rfl (fun _ h => Bool.noConfusion h) (by
    intro s w o hs hw _
    exact hitOf_initializer_eq_none hs hw) as

theorem steps_assignments (as : List Item) : Piece.Steps Operator.assignment (shown conditionalsDone as) equalsLeads
    conditionalsDone (· == .assign) 0 (as.map piece) :=
  steps_equals rfl (fun _ h => beq_iff_eq.1 h) (by
    intro s w o hs _ hbefore
    exact hitOf_assignment hs hbefore) as

/-- The passes from comparisons on record the assignments and the braces of pieces, if the searches find these and nothing
else. -/
theorem tokens_runPasses_closing {ρ : Type} [BEq ρ] [LawfulBEq ρ] {φ φ₁ φ₂ : Inks ρ} {ps : List (Piece ρ)} {assign opened closed : ρ}
    (hps : Piece.Sound ps) (hφ : Piece.IsDry φ) (hfree : φ assign = none ∧ φ₁ opened = none ∧ φ₂ closed = none)
    (hφ₁ : φ₁ = φ.add (· == assign) ⟨WorkingCopy.operator, true⟩) (hφ₂ : φ₂ = φ₁.add (· == opened) ⟨WorkingCopy.masked, true⟩)
    (hcomparison : Piece.Steps Operator.comparison (Lexeme.text (Piece.page φ ps)) equalsLeads φ (fun _ => false) 0 ps)
    (hinitializers : Piece.Steps Operator.initializer (Lexeme.text (Piece.page φ ps)) equalsLeads φ (fun _ => false) 0 ps)
    (hassigns : Piece.Steps Operator.assignment (Lexeme.text (Piece.page φ ps)) equalsLeads φ (· == assign) 0 ps)
    (hopens : Piece.Steps { pattern := Pattern.text "\x7b" } (Lexeme.text (Piece.page φ₁ ps)) openLeads φ₁ (· == opened) 0 ps)
    (hcloses : Piece.Steps { pattern := Pattern.text "\x7d" } (Lexeme.text (Piece.page φ₂ ps)) closeLeads φ₂ (· == closed) 0 ps) :
    (runPasses closingPasses (Piece.work φ ps T)).tokens = T ++ Piece.tokens (Piece.only (· == assign) .assign) 0 ps ++
      Piece.tokens (Piece.only (· == opened) .openBrace) 0 ps ++ Piece.tokens (Piece.only (· == closed) .closeBrace) 0 ps := by
  have hdry₁ : Piece.IsDry φ₁ := by
    rw [hφ₁]
    exact hφ.add Piece.sound_operator
  have hdry₂ : Piece.IsDry φ₂ := by
    rw [hφ₂]
    exact hdry₁.add Piece.sound_masked
  obtain ⟨hfreeAssign, hfreeOpen, hfreeClose⟩ := hfree
  have hcomparison' : ∀ T, (Pass.operator "comparison" Operator.comparison .compare).apply (Piece.work φ ps T) = Piece.work φ ps T :=
    fun T => classify_eq_self (Piece.hits_eq_nil hcomparison (by decide) (by decide) hps hφ)
  have hinitializers' : ∀ T, (⟨"initializers", .classify Operator.initializer .assign WorkingCopy.operator true⟩ : Pass).apply
      (Piece.work φ ps T) = Piece.work φ ps T :=
    fun T => classify_eq_self (Piece.hits_eq_nil hinitializers (by decide) (by decide) hps hφ)
  have hassigns' : ∀ T, (Pass.operator "assignments" Operator.assignment .assign).apply (Piece.work φ ps T) =
      Piece.work φ₁ ps (T ++ Piece.tokens (Piece.only (· == assign) .assign) 0 ps) := by
    rw [hφ₁]
    exact fun T => Piece.classify_steps hassigns (by decide) (by decide) hps hφ (Piece.free_of_eq hfreeAssign)
  have hopens' : ∀ T, (Pass.construct "open_braces" (Pattern.text "\x7b") .openBrace).apply (Piece.work φ₁ ps T) =
      Piece.work φ₂ ps (T ++ Piece.tokens (Piece.only (· == opened) .openBrace) 0 ps) := by
    rw [hφ₂]
    exact fun T => Piece.classify_steps hopens (by decide) (by decide) hps hdry₁ (Piece.free_of_eq hfreeOpen)
  have hcloses' : ∀ T, ((Pass.construct "close_braces" (Pattern.text "\x7d") .closeBrace).apply (Piece.work φ₂ ps T)).tokens =
      T ++ Piece.tokens (Piece.only (· == closed) .closeBrace) 0 ps :=
    fun T => congrArg WorkingCopy.tokens (Piece.classify_steps hcloses (by decide) (by decide) hps hdry₂ (Piece.free_of_eq hfreeClose))
  rw [closingPasses, runPasses_cons, hcomparison', runPasses_cons, hinitializers', runPasses_cons, hassigns', runPasses_cons,
    hopens', runPasses_cons]
  exact hcloses' _

theorem runPasses_closing : (runPasses closingPasses (Piece.work conditionalsDone (as.map piece) T)).tokens = T ++ closingTokens as := by
  have htokens := tokens_runPasses_closing (T := T) (sound_map as) isDry_conditionalsDone ⟨rfl, rfl, rfl⟩ rfl rfl (steps_comparison as)
    (steps_initializers as) (steps_assignments as) (steps_openBraces as) (steps_closeBraces as)
  rw [htokens, closingTokens, List.append_assoc, List.append_assoc]

/-! ## All passes -/

/-- What the passes record, if the pass for bodies finds the marks of the pieces. -/
theorem tokens_run (hfits : Fits as)
    (hbodies : BareBody.apply (Piece.work untouched (as.map piece) []) = Piece.work untouched (as.map piece) T) :
    ((ofDialect .cFamily).run (text as)).tokens = T ++ headerTokens as ++ closingTokens as := by
  have hpasses : (ofDialect .cFamily).passes = cDefault.take 7 ++ (⟨"missing_braces", .bareBodies⟩ :: (headerPasses ++
      ((cDefault.take 33).drop 13 ++ closingPasses))) := rfl
  have hinert : runPasses (cDefault.take 7) (Piece.work untouched (as.map piece) []) = Piece.work untouched (as.map piece) [] := by
    refine runPasses_eq_self barren_inert ?_
    rw [Piece.text_work]
    exact lacks (by decide) rfl quiet_inertLeads Piece.isDry_untouched as
  have hoperators : ∀ T, runPasses ((cDefault.take 33).drop 13) (Piece.work conditionalsDone (as.map piece) T) =
      Piece.work conditionalsDone (as.map piece) T := by
    intro T
    refine runPasses_eq_self barren_operators ?_
    rw [Piece.text_work]
    exact lacks (by decide) rfl quiet_operatorLeads isDry_conditionalsDone as
  have hbody : (⟨"missing_braces", .bareBodies⟩ : Pass).apply (Piece.work untouched (as.map piece) []) =
      Piece.work untouched (as.map piece) T := hbodies
  rw [run, hpasses, text, Piece.ofSource_text (sound_map as), runPasses_append, hinert, runPasses_cons, hbody, runPasses_append, runPasses_headers hfits,
    runPasses_append, hoperators, runPasses_closing]

/-- What is recorded is what the pieces have, in another order. -/
theorem recorded_perm (hT : T.Perm (markTokens 0 as)) :
    (T ++ headerTokens as ++ closingTokens as).Perm (Piece.tokens Role.category 0 (as.map piece)) := by
  rw [headerTokens, closingTokens]
  simp only [← List.append_assoc]
  have hall := Piece.append_perm_tokens (d := Piece.only (· == .closeBrace) .closeBrace)
    (Piece.append_perm_tokens (d := Piece.only (· == .openBrace) .openBrace)
      (Piece.append_perm_tokens (d := Piece.only (· == .assign) .assign)
        (Piece.append_perm_tokens (d := Piece.only (· == .conditional) .conditional)
          (Piece.append_perm_tokens (d := Piece.only (· == .doWord) .loop)
            (Piece.append_perm_tokens (d := Piece.only (· == .loop) .loop) hT ?_) ?_) ?_) ?_) ?_) ?_
  · refine hall.trans (List.Perm.of_eq ?_)
    congr 1
    funext r
    cases r <;> rfl
  all_goals
    intro r
    cases r <;> first | exact Or.inl rfl | exact Or.inr rfl

/-- **The stream of pieces.** It has the categories of the pieces in their order. -/
theorem symbols_classes (hfits : Fits as) (hcalm : Calm as)
    (hbodies : BareBody.apply (Piece.work untouched (as.map piece) []) = Piece.work untouched (as.map piece) T)
    (hT : T.Perm (markTokens 0 as)) : Token.symbols ((ofDialect .cFamily).classes (text as)) = categories as := by
  have hbody : ∀ q ∈ as.map piece, ∀ l ∈ q.body, l.Sound := by
    intro q hq l hl
    exact (sound_map as).lexeme l (List.mem_flatMap.2 ⟨q, hq, List.mem_append_left _ (List.mem_append_right _ hl)⟩)
  have hstream : (ofDialect .cFamily).classes (text as) = Piece.tokens Role.category 0 (as.map piece) := by
    rw [classes, tokens_run hfits hbodies]
    exact Piece.stream_eq_tokens (recorded_perm hT) fun n => Or.inl fun s hs t ht hspan hspan' =>
      hcalm.map.eq_of_span_eq hbody hs ht hspan hspan'
  rw [hstream, Piece.symbols_tokens, categories, List.filterMap_map]
  rfl

end Item

/-! ## Statements -/

namespace Stmt
open Item

theorem symbols_write (t : Tokenizer) (source : List Char) :
    Token.symbols (t.tokenize source) = (Token.symbols (t.classes source)).map t.alphabet.symbol := by
  rw [tokenize, write, Token.symbols, Token.symbols, List.map_map, List.map_map]
  rfl

theorem markTokens_braced (s : Stmt) (chained : Bool) (o : Nat) : markTokens o (s.braced chained) = [] := by
  have hmarks := s.not_isMark_braced chained
  revert o hmarks
  induction s.braced chained with
  | nil => exact fun _ _ => rfl
  | cons a as ih =>
    intro o hmarks
    obtain ⟨ha, has⟩ := List.forall_mem_cons.1 hmarks
    have hnone : markCategory a.piece.role = none := by
      cases a with
      | openMark | closeMark => exact Bool.noConfusion ha
      | ifHead chained c => cases chained <;> rfl
      | _ => rfl
    rw [markTokens, List.map_cons, Piece.tokens, hnone]
    exact ih _ has

/-- **Braces around bodies.** A statement whose bodies can be found has the same symbols without braces and with them. -/
theorem symbols_print {s : Stmt} (h : s.findable = true) :
    Token.symbols ((ofDialect .cFamily).tokenize (s.print false).toList) =
      Token.symbols ((ofDialect .cFamily).tokenize (s.print true).toList) := by
  rcases starless_of_findable h with hstarless | ⟨x, e, rfl⟩
  · have hbare : text (s.bare false 0) = (s.print false).toList := text_bare hstarless false 0
    have hbraced : text (s.braced false) = (s.print true).toList := text_braced hstarless false
    have hbounded := bounded_bare h false
    obtain ⟨T, hT, happly⟩ := apply_work_of_bounded (T := []) (s.fits_bare false 0) hbounded
    have hleft := symbols_classes (s.fits_bare false 0) (s.calm_bare false 0) happly (hT.trans (marks_bare h false 0))
    have hright := symbols_classes (s.fits_braced false) (s.calm_braced false)
      (apply_work_of_blocked (s.fits_braced false) (s.blocked_braced false)) (List.Perm.of_eq (s.markTokens_braced false 0).symm)
    rw [symbols_write, symbols_write, ← hbare, ← hbraced, hleft, hright, categories_bare h]
  · rfl

/-- A chain of conditionals with loops in it. -/
theorem symbols_print_chain :
    let x : Name := { text := "x" }
    let n : Value := { whole := { text := "n" } }
    let c : Condition := .compare n .atMost { whole := { text := "2" }, fraction := some { text := "5" } }
    let s : Stmt := .ifElse c (.forDo x n (.doWhile (.assign false x n) c))
      (.ifElse (.value n) (.whileDo c (.assign false x n)) (.assign false x n))
    s.findable = true ∧ Token.symbols ((ofDialect .cFamily).tokenize (s.print false).toList) =
      Token.symbols ((ofDialect .cFamily).tokenize (s.print true).toList) := by
  intro x n c s
  exact ⟨rfl, symbols_print (s := s) rfl⟩

/-- The body of a loop stops in front of an `else`. -/
theorem symbols_print_else_ne :
    let x : Name := { text := "x" }
    let e : Value := { whole := { text := "1" } }
    let s : Stmt := .whileDo (.value e) (.ifElse (.value e) (.assign false x e) (.assign false x e))
    s.clear = true ∧ Token.symbols ((ofDialect .cFamily).tokenize (s.print false).toList) ≠
      Token.symbols ((ofDialect .cFamily).tokenize (s.print true).toList) := by
  decide +kernel

end Stmt
end SourceLikeness.Tokenizer
