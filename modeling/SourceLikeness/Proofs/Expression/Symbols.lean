import SourceLikeness.Proofs.Braces.Symbols
import SourceLikeness.Proofs.Choice.Expression
import SourceLikeness.Proofs.Expression.Steps
import SourceLikeness.Proofs.Pattern.Carried

/-!
# One symbol for each operator

The passes for the C family are gone through on the pieces of a statement with an expression.

* `Formula.Foreign` : signs that never stand side by side, which comments, compound assignments and increments need;
* `Formula.tokens_runPasses` : what is recorded;
* `Formula.classes_text` : so the stream has the tokens of the pieces in their order;
* `Formula.symbols_text` : and the symbols are those that are recorded for each operator and each operand;
* `Formula.symbols_text_of_clear` : one for each operator and for each `!` and `~`, if the statement is clear.
-/

namespace SourceLikeness

namespace Tokenizer
open Lexeme (word sign)
open Text (isAsciiWord)
open Item (keyword)

namespace Formula
open Chunk
variable {s : Formula} {φ : Inks Chunk.Role} {rs : List Chunk.Role} {T : List (Token Category)} {t u : List Char}

/-! ## Signs that never stand side by side -/

/-- Two or more signs that are in none of the operators. -/
structure Foreign (t : List Char) : Prop where
  two : 2 ≤ t.length
  other : ∀ c ∈ t, isAsciiWord c = false ∧ c ∉ [' ', ';', '.']
  binary : ∀ op : Binary, ¬ t <:+: op.text.toList

namespace Foreign
variable (ht : Foreign t)
include ht

theorem not_mem (c : Char) (hc : c ∈ [' ', ';', '.']) : c ∉ t := fun h => (ht.other c h).2 hc

theorem not_infix_of_length (hu : u.length ≤ 1) : ¬ t <:+: u := fun h =>
  absurd (Nat.le_trans ht.two (Nat.le_trans h.length_le hu)) (by decide)

/-- They are in no text of names and numbers. -/
theorem not_infix_of_words (hu : ∀ c ∈ u, isAsciiWord c = true ∨ c = '.') : ¬ t <:+: u := by
  intro h
  obtain ⟨c, v, rfl⟩ := List.exists_cons_of_ne_nil (List.ne_nil_of_length_pos (Nat.le_trans (by decide) ht.two))
  obtain ⟨hword, hpoint⟩ := ht.other c List.mem_cons_self
  rcases hu c (h.subset List.mem_cons_self) with hc | rfl
  · exact Bool.noConfusion (hc.symm.trans hword)
  · exact hpoint (by decide)

/-- They are in no operand. -/
theorem not_infix_term (x : Term) : ¬ t <:+: x.text.toList := by
  obtain ⟨front, v⟩ := x
  have hvalue : ∀ c ∈ v.text.toList, isAsciiWord c = true ∨ c = '.' := fun c hc => Choice.mem_text_value hc
  cases front with
  | none => exact ht.not_infix_of_words (by simpa [Term.text] using hvalue)
  | some f =>
    have htext : Term.text ⟨some f, v⟩ = String.singleton f.char ++ v.text := rfl
    rw [htext, String.toList_append, String.toList_singleton, List.singleton_append, List.infix_cons_iff]
    rintro (⟨w, hw⟩ | h)
    · obtain ⟨c, d, u, rfl⟩ : ∃ c d u, t = c :: d :: u := by
        rcases t with _ | ⟨c, _ | ⟨d, u⟩⟩
        · exact absurd ht.two (by decide)
        · exact absurd rfl (Nat.ne_of_gt ht.two)
        · exact ⟨c, d, u, rfl⟩
      obtain ⟨-, hrest⟩ := List.cons.inj hw
      obtain ⟨hword, hpoint⟩ := ht.other d (by simp)
      rcases hvalue d (by rw [← hrest]; exact List.mem_cons_self) with hd | rfl
      · exact Bool.noConfusion (hd.symm.trans hword)
      · exact hpoint (by decide)
    · exact ht.not_infix_of_words hvalue h

/-- They are in no text of operators and operands. -/
theorem not_infix_tail (hu : ¬ t <:+: u) (rest : List (Binary × Term)) : ¬ t <:+: u ++ (tail rest).toList := by
  induction rest generalizing u with
  | nil =>
    intro h
    rcases infix_of_separated (ht.not_mem ';' (by decide)) h with h | h
    · exact hu h
    · exact ht.not_infix_of_length (by decide) h
  | cons l rest ih =>
    have htail : (tail (l :: rest)).toList = ' ' :: (l.1.text.toList ++ ' ' :: (l.2.text.toList ++ (tail rest).toList)) := by
      simp [tail]
    have hblank := ht.not_mem ' ' (by decide)
    intro h
    rw [htail] at h
    rcases infix_of_separated hblank h with h | h
    · exact hu h
    · rcases infix_of_separated hblank h with h | h
      · exact ht.binary l.1 h
      · exact ih (ht.not_infix_term l.2) h

/-- They are in no statement, be its `return` done with or not. -/
theorem not_infix_remains (hrs : ∀ r ∈ rs, r = .give) (s : Formula) : ¬ t <:+: s.left rs := by
  have hopen : ∀ r, r ≠ Chunk.Role.give → inks rs r = none := fun r hr => inks_of_not_mem fun hmem => hr (hrs r hmem)
  have hblank := ht.not_mem ' ' (by decide)
  have hlead : ¬ t <:+: Lexeme.text ((lead s.use).piece.lexemes (inks rs)) := by
    cases s.use with
    | assign x =>
      have htext : Lexeme.text ((target x).piece.lexemes (inks rs)) = x.chars ++ ' ' :: ['='] := by
        rw [Piece.lexemes_of_none (p := (target x).piece) (hopen _ nofun)]
        simp [piece, Lexeme.chars]
      rw [lead, htext]
      intro h
      rcases infix_of_separated hblank h with h | h
      · exact ht.not_infix_of_words (fun c hc => Or.inl (x.isWord.2 c hc)) h
      · exact ht.not_infix_of_length (by decide) h
    | give =>
      refine ht.not_infix_of_words ?_
      by_cases hgive : Chunk.Role.give ∈ rs
      · rw [lead, Piece.lexemes_of_some (p := giveWord.piece) (inks_of_mem hgive)]
        decide
      · rw [lead, Piece.lexemes_of_none (p := giveWord.piece) (inks_of_not_mem hgive)]
        decide
  have htext : s.left rs = Lexeme.text ((lead s.use).piece.lexemes (inks rs)) ++
      ' ' :: (s.first.text.toList ++ (tail s.rest).toList) := by
    rw [left, chunks, remains_cons, remains_cons, text_term hopen, remains_tailChunks hopen]
    rfl
  rw [htext]
  intro h
  rcases infix_of_separated hblank h with h | h
  · exact hlead h
  · exact ht.not_infix_tail (ht.not_infix_term s.first) s.rest h

end Foreign

/-! ## Passes that find nothing -/

/-- What has become of a statement when the pieces of some roles are done with. -/
abbrev work (s : Formula) (rs : List Chunk.Role) (T : List (Token Category)) : Work :=
  Piece.work (inks rs) (s.chunks.map piece) T

/-- What the passes need that look for more than operators, returns, comments and braces. -/
def otherLeads : Leads :=
  ⟨(cWords.map String.toList).filter (· != "return".toList), ["else".toList], "\"'\x60#?(".toList, [], false⟩

def braceLeads : Leads := ⟨[], [], ['\x7b', '\x7d'], [], false⟩

theorem barren_literals : (cDefault.take 1).all (·.action.barren otherLeads) = true := by decide

theorem barren_constructs : ((cDefault.take 19).drop 2).all (·.action.barren otherLeads) = true := by decide

theorem barren_declarations : ((cDefault.take 25).drop 20).all (·.action.barren otherLeads) = true := by decide

theorem barren_braces : (cDefault.drop 36).all (·.action.barren braceLeads) = true := by decide

/-- Passes that need none of the signs of a statement leave it as it is. -/
theorem runPasses_of_signs {x : Leads} {passes : List Pass} (hpasses : passes.all (·.action.barren x) = true)
    (hx : Name.covers x = true) (htight : x.tight = []) (hsigns : signs.all (fun c => !(sign c).leads x) = true)
    (hgive : Chunk.Role.give ∉ rs → (keyword "return").leads x = false) (hinks : ∀ r ∈ rs, (sign r.ink.fill).leads x = false) :
    runPasses passes (s.work rs T) = s.work rs T := by
  refine runPasses_eq_self hpasses ?_
  rw [Piece.text_work]
  refine s.sound_chunks.lacks (isDry_inks rs) (fun p hp => ?_) (fun p _ => Lexeme.tightly_of_forall fun l _ => ?_)
    (by rw [htight]; rfl)
  · obtain ⟨a, -, rfl⟩ := List.mem_map.1 hp
    refine not_leads_of_quiet hx (quiet_of_signs hsigns (fun h => hgive fun hmem => ?_) fun ink hink => ?_)
    · cases (inks_of_mem hmem).symm.trans h
    · by_cases hmem : a.piece.role ∈ rs
      · obtain rfl := Option.some.inj ((inks_of_mem hmem).symm.trans hink)
        exact hinks _ hmem
      · cases (inks_of_not_mem hmem).symm.trans hink
  · cases l with
    | word w => rfl
    | sign c => rw [Lexeme.isTight, htight]; rfl

/-- What every comment has. -/
def commentSigns : List (List Char) := [['/', '/'], ['/', '*']]

/-- What every compound assignment has. -/
def compoundSigns : List (List Char) :=
  [['<', '<', '='], ['>', '>', '='], ['*', '='], ['/', '='], ['&', '='], ['^', '='], ['|', '='], ['+', '='], ['-', '='],
    ['%', '=']]

/-- What every increment and every decrement has. -/
def stepSigns : List (List Char) := [['+', '+'], ['-', '-']]

theorem foreign_of_mem : ∀ t ∈ commentSigns ++ compoundSigns ++ stepSigns, Foreign t := by
  have htwo : ∀ t ∈ commentSigns ++ compoundSigns ++ stepSigns, 2 ≤ t.length := by decide
  have hother : ∀ t ∈ commentSigns ++ compoundSigns ++ stepSigns, ∀ c ∈ t, isAsciiWord c = false ∧ c ∉ [' ', ';', '.'] := by
    decide
  have hbinary : ∀ op : Binary, ∀ t ∈ commentSigns ++ compoundSigns ++ stepSigns, ¬ t <:+: op.text.toList := by
    intro op
    cases op <;> decide
  exact fun t ht => ⟨htwo t ht, hother t ht, fun op => hbinary op t ht⟩

/-- Nothing is found that has signs that are in no statement. -/
theorem hits_eq_nil {f : Finder} (ts : List (List Char)) (hf : f.pattern.carries ts = true)
    (hts : ∀ t ∈ ts, t ∈ commentSigns ++ compoundSigns ++ stepSigns) (hrs : ∀ r ∈ rs, r = .give) :
    f.hits (s.work rs T).text = [] := by
  rw [Piece.text_work]
  exact Finder.hitsWhere_eq_nil_of_carries hf fun t ht => (foreign_of_mem t (hts t ht)).not_infix_remains hrs s

theorem apply_comments : (Pass.erasing "comments" Inert.cComment WorkingCopy.blank).apply (s.work [] T) =
    s.work [] T := by
  have hhits : ({ pattern := Inert.cComment } : Finder).hits (s.work [] T).text = [] :=
    hits_eq_nil commentSigns (by decide) (by decide) (List.forall_mem_nil _)
  change erase _ _ _ = _
  rw [erase, hhits, List.foldl_nil]

theorem apply_compounds : (⟨"compound_assignment", .compoundAssignments⟩ : Pass).apply
    (s.work [.give] T) = s.work [.give] T := by
  have hhits : CompoundAssignment.compound.readings (s.work [.give] T).text = [] :=
    hits_eq_nil compoundSigns (by decide) (by decide) (List.forall_mem_singleton.2 rfl)
  change CompoundAssignment.apply _ = _
  rw [CompoundAssignment.apply, hhits, List.foldl_nil]

theorem apply_increments : (Pass.construct "increments" Operator.increment .math).apply
    (s.work [.give] T) = s.work [.give] T :=
  classify_eq_self (hits_eq_nil stepSigns (by decide) (by decide) (List.forall_mem_singleton.2 rfl))

/-! ## Passes that record -/

/-- The tokens of the pieces of a role. -/
def tokensOf (s : Formula) (r : Chunk.Role) : List (Token Category) :=
  Piece.tokens (fun r' => if r' = r then r.category else none) 0 (s.chunks.map piece)

/-- A pass that finds the pieces of a role records them. -/
theorem classify_role {f : Finder} {x : Leads} {r : Chunk.Role} {category : Category}
    (hsteps : Piece.Steps f (s.left r.searched) x (inks r.searched) (· == r) 0 (s.chunks.map piece))
    (hled : f.pattern.led x false false = true) (hsolid : f.pattern.solid = true) (hr : r ∉ r.searched)
    (hcategory : r.category = some category) :
    Tokenizer.classify f category r.ink.fill false (s.work r.searched T) =
      s.work (r :: r.searched) (T ++ s.tokensOf r) := by
  have hink : r.ink = ⟨r.ink.fill, true⟩ := by cases r <;> rfl
  have htokens : s.tokensOf r = Piece.tokens (Piece.only (· == r) category) 0 (s.chunks.map piece) := by
    rw [tokensOf]
    congr 1
    funext r'
    by_cases h : r' = r
    · rw [if_pos h, Piece.only, if_pos (beq_iff_eq.2 h), hcategory]
    · rw [if_neg h, Piece.only, if_neg (by rwa [beq_iff_eq])]
  rw [htokens, work, work, ← inks_cons, hink]
  exact Piece.classify_steps hsteps hled hsolid s.sound_chunks (isDry_inks _) (Piece.free_of_eq (inks_of_not_mem hr))

/-- The passes up to that for returns. -/
theorem runPasses_openings (s : Formula) : runPasses (cDefault.take 20) (s.work [] []) =
    s.work [.give] (s.tokensOf .give) := by
  have hpasses : cDefault.take 20 = cDefault.take 1 ++ (.erasing "comments" Inert.cComment WorkingCopy.blank ::
      ((cDefault.take 19).drop 2 ++ [.construct "returns" (Pattern.word ["return"]) .return])) := rfl
  have hgives : ∀ T, (Pass.construct "returns" (Pattern.word ["return"]) .return).apply (s.work [] T) =
      s.work [.give] (T ++ s.tokensOf .give) :=
    fun T => classify_role (r := .give) s.steps_gives (by decide) (by decide) (by decide) rfl
  have hnone : ∀ {passes : List Pass} {T}, passes.all (·.action.barren otherLeads) = true →
      runPasses passes (s.work [] T) = s.work [] T :=
    fun h => runPasses_of_signs h (by decide) rfl (by decide) (fun _ => by decide +kernel) (List.forall_mem_nil _)
  rw [hpasses, runPasses_append, hnone barren_literals, runPasses_cons, apply_comments, runPasses_append,
    hnone barren_constructs, runPasses_cons, hgives, List.nil_append]
  rfl

/-- The passes for operators. -/
theorem runPasses_operators (s : Formula) : runPasses ((cDefault.take 33).drop 20) (s.work [.give] T) =
    s.work Chunk.Role.compare.searched (T ++ s.tokensOf (.joined .star) ++ s.tokensOf (.joined .minus) ++
      s.tokensOf .logic ++ s.tokensOf .negation ++ s.tokensOf (.joined .ampersand) ++ s.tokensOf .complement) := by
  have hpasses : (cDefault.take 33).drop 20 = (cDefault.take 25).drop 20 ++ (⟨"compound_assignment", .compoundAssignments⟩ ::
      .construct "increments" Operator.increment .math :: .operator "multiplication" Operator.multiplication .math ::
      .operator "arithmetic" Operator.arithmetic .math ::
      .operator "logic" { pattern := Pattern.any [Pattern.text "&&", Pattern.text "||"] } .logic ::
      .operator "negation" Operator.negation .logic :: .operator "bitwise" Operator.bitwise .shift ::
      [.operator "complement" { pattern := Pattern.text "~" } .shift]) := rfl
  have hdeclarations : runPasses ((cDefault.take 25).drop 20) (s.work [.give] T) =
      s.work [.give] T :=
    runPasses_of_signs barren_declarations (by decide) rfl (by decide) (fun h => absurd (by decide) h)
      (by decide)
  have hstars : ∀ T, (Pass.operator "multiplication" Operator.multiplication .math).apply (s.work [.give] T) =
      s.work (Unary.searched .minus) (T ++ s.tokensOf (.joined .star)) :=
    fun T => classify_role (r := .joined .star) (s.steps_joined .star) (by decide) (by decide) (by decide) rfl
  have hminuses : ∀ T, (Pass.operator "arithmetic" Operator.arithmetic .math).apply
      (s.work (Unary.searched .minus) T) =
        s.work Chunk.Role.logic.searched (T ++ s.tokensOf (.joined .minus)) :=
    fun T => classify_role (r := .joined .minus) (s.steps_joined .minus) (by decide) (by decide) (by decide) rfl
  have hlogic : ∀ T, (Pass.operator "logic" { pattern := Pattern.any [Pattern.text "&&", Pattern.text "||"] } .logic).apply
      (s.work Chunk.Role.logic.searched T) =
        s.work Chunk.Role.negation.searched (T ++ s.tokensOf .logic) :=
    fun T => classify_role (r := .logic) s.steps_logic (by decide) (by decide) (by decide) rfl
  have hnegations : ∀ T, (Pass.operator "negation" Operator.negation .logic).apply
      (s.work Chunk.Role.negation.searched T) =
        s.work (Unary.searched .ampersand) (T ++ s.tokensOf .negation) :=
    fun T => classify_role (r := .negation) s.steps_negation (by decide) (by decide) (by decide) rfl
  have hampersands : ∀ T, (Pass.operator "bitwise" Operator.bitwise .shift).apply
      (s.work (Unary.searched .ampersand) T) =
        s.work Chunk.Role.complement.searched (T ++ s.tokensOf (.joined .ampersand)) :=
    fun T => classify_role (r := .joined .ampersand) (s.steps_joined .ampersand) (by decide) (by decide) (by decide) rfl
  have hcomplements : ∀ T, (Pass.operator "complement" { pattern := Pattern.text "~" } .shift).apply
      (s.work Chunk.Role.complement.searched T) =
        s.work Chunk.Role.compare.searched (T ++ s.tokensOf .complement) :=
    fun T => classify_role (r := .complement) s.steps_complement (by decide) (by decide) (by decide) rfl
  rw [hpasses, runPasses_append, hdeclarations, runPasses_cons, apply_compounds, runPasses_cons, apply_increments,
    runPasses_cons, hstars, runPasses_cons, hminuses, runPasses_cons, hlogic, runPasses_cons, hnegations, runPasses_cons,
    hampersands, runPasses_cons, hcomplements]
  rfl

/-- The passes from comparisons on. -/
theorem runPasses_closing (s : Formula) : runPasses Item.closingPasses (s.work Chunk.Role.compare.searched T) =
    s.work Chunk.Role.still.searched (T ++ s.tokensOf .compare ++ s.tokensOf .assign) := by
  have hpasses : Item.closingPasses = .operator "comparison" Operator.comparison .compare ::
      ⟨"initializers", .classify Operator.initializer .assign WorkingCopy.operator true⟩ ::
      .operator "assignments" Operator.assignment .assign :: cDefault.drop 36 := rfl
  have hcomparison : ∀ T, (Pass.operator "comparison" Operator.comparison .compare).apply
      (s.work Chunk.Role.compare.searched T) =
        s.work Chunk.Role.assign.searched (T ++ s.tokensOf .compare) :=
    fun T => classify_role (r := .compare) s.steps_comparison (by decide) (by decide) (by decide) rfl
  have hinitializers : ∀ T, (⟨"initializers", .classify Operator.initializer .assign WorkingCopy.operator true⟩ : Pass).apply
      (s.work Chunk.Role.assign.searched T) =
        s.work Chunk.Role.assign.searched T :=
    fun T => classify_eq_self (Piece.hits_eq_nil s.steps_initializers (by decide) (by decide) s.sound_chunks (isDry_inks _))
  have hassigns : ∀ T, (Pass.operator "assignments" Operator.assignment .assign).apply
      (s.work Chunk.Role.assign.searched T) =
        s.work Chunk.Role.still.searched (T ++ s.tokensOf .assign) :=
    fun T => classify_role (r := .assign) s.steps_assigns (by decide) (by decide) (by decide) rfl
  have hbraces : ∀ T, runPasses (cDefault.drop 36) (s.work Chunk.Role.still.searched T) =
      s.work Chunk.Role.still.searched T :=
    fun T => runPasses_of_signs barren_braces (by decide) rfl (by decide) (fun h => absurd (by decide) h) (by decide)
  rw [hpasses, runPasses_cons, hcomparison, runPasses_cons, hinitializers, runPasses_cons, hassigns, hbraces]

/-! ## The stream -/

/-- The roles in the order in which they are recorded. -/
def roles : List Chunk.Role :=
  [.give, .joined .star, .joined .minus, .logic, .negation, .joined .ampersand, .complement, .compare, .assign]

/-- **What is recorded.** The tokens of the pieces, role by role. -/
theorem tokens_runPasses (s : Formula) : (runPasses cDefault (s.work [] [])).tokens =
    roles.flatMap s.tokensOf := by
  have hpasses : cDefault = cDefault.take 20 ++ ((cDefault.take 33).drop 20 ++ Item.closingPasses) := rfl
  rw [hpasses, runPasses_append, runPasses_openings, runPasses_append, runPasses_operators, runPasses_closing, roles]
  simp only [List.flatMap_cons, List.flatMap_nil, List.append_assoc, List.append_nil]
  rfl

/-- The tokens of some roles are those of the pieces that have them, in another order. -/
theorem flatMap_tokensOf_perm (s : Formula) (rs : List Chunk.Role) (h : rs.Nodup) : (rs.flatMap s.tokensOf).Perm
    (Piece.tokens (fun r => if r ∈ rs then r.category else none) 0 (s.chunks.map piece)) := by
  induction rs with
  | nil => exact List.Perm.of_eq (Piece.tokens_none 0 _).symm
  | cons r rs ih =>
    obtain ⟨hr, hrs⟩ := List.nodup_cons.1 h
    have hdisjoint : ∀ r', (if r' ∈ rs then r'.category else none) = none ∨ (if r' = r then r.category else none) = none := by
      intro r'
      by_cases hr' : r' = r
      · rw [hr', if_neg hr]
        exact Or.inl rfl
      · exact Or.inr (if_neg hr')
    rw [List.flatMap_cons]
    refine List.perm_append_comm.trans ((Piece.append_perm_tokens (ih hrs) hdisjoint).trans (List.Perm.of_eq ?_))
    congr 1
    funext r'
    by_cases hr' : r' = r
    · rw [hr', if_neg hr, if_pos rfl, if_pos List.mem_cons_self, Option.none_or]
    · rw [if_neg hr', Option.or_none]
      simp only [List.mem_cons, hr', false_or]

/-- The body of a piece is empty only if it has no token. -/
theorem category_of_empty {a : Chunk} (h : Lexeme.text a.piece.body = []) : a.piece.role.category = none := by
  cases a with
  | binary op seen => cases op <;> exact absurd h (List.cons_ne_nil _ _)
  | target _ | giveWord | front _ _ _ | angle _ _ => exact absurd h (List.cons_ne_nil _ _)
  | _ => rfl

/-- **The stream of a statement.** It has the tokens of the pieces in their order. -/
theorem classes_text (s : Formula) : (ofDialect .cFamily).classes s.text.toList =
    Piece.tokens Chunk.Role.category 0 (s.chunks.map piece) := by
  have hperm := s.flatMap_tokensOf_perm roles (by decide)
  have hcategory : (fun r => if r ∈ roles then r.category else none) = Chunk.Role.category := by
    funext r
    rcases r with _ | _ | ⟨_ | _ | _⟩ | _ | _ | _ | _ | _ <;> rfl
  rw [hcategory] at hperm
  have hmarkers : ∀ n, (Piece.tokens Chunk.Role.category 0 (s.chunks.map piece)).filter (·.span == ⟨n, n⟩) = [] := by
    intro n
    rw [Piece.filter_tokens_congr (d := fun _ => none) ?_, Piece.tokens_none, List.filter_nil]
    intro p hp hbody
    obtain ⟨a, -, rfl⟩ := List.mem_map.1 hp
    exact category_of_empty hbody
  have hpasses : (ofDialect .cFamily).passes = cDefault := rfl
  rw [classes, run, hpasses, ← remains_chunks, Piece.ofSource_text s.sound_chunks, ← inks_nil, tokens_runPasses]
  refine Piece.stream_eq_tokens hperm fun n => Or.inl fun t ht _ _ hspan _ => ?_
  have hmem : t ∈ (Piece.tokens Chunk.Role.category 0 (s.chunks.map piece)).filter (·.span == ⟨n, n⟩) :=
    List.mem_filter.2 ⟨ht, beq_iff_eq.2 hspan⟩
  rw [hmarkers n] at hmem
  exact absurd hmem List.not_mem_nil

/-! ## Symbols -/

theorem filterMap_term (joins : Bool) (x : Term) : [term joins x].filterMap (·.piece.role.category) = x.recorded joins := by
  obtain ⟨_ | ⟨m⟩ | _ | _, v⟩ := x <;> cases joins <;> rfl

theorem filterMap_operator (op : Binary) (x : Term) : (operator op x).filterMap (·.piece.role.category) = op.recorded x := by
  rw [operator, Binary.recorded]
  split_ifs <;> cases op <;> first | rfl | simp_all [Binary.onBits, Binary.unary?]

/-- The pieces have the categories that are recorded for the operators and the operands. -/
theorem filterMap_chunks (s : Formula) : s.chunks.filterMap (·.piece.role.category) = s.recorded.flatten := by
  have hlead : [lead s.use].filterMap (·.piece.role.category) = [s.use.category] := by cases s.use <;> rfl
  have htail : ∀ rest : List (Binary × Term), (tailChunks rest).filterMap (·.piece.role.category) =
      (rest.flatMap fun l => [l.1.recorded l.2, l.2.recorded false]).flatten := by
    intro rest
    induction rest with
    | nil => rfl
    | cons l rest ih =>
      rw [tailChunks_cons, List.filterMap_append, ← List.singleton_append (l := tailChunks rest), List.filterMap_append,
        filterMap_operator, filterMap_term, ih, List.flatMap_cons, List.flatten_append]
      simp
  rw [chunks, ← List.singleton_append, List.filterMap_append, hlead, ← List.singleton_append (l := tailChunks s.rest),
    List.filterMap_append, filterMap_term, htail, recorded, List.flatten_cons, List.flatten_cons]

/-- **Symbols of statements.** They are those that are recorded for each operator and each operand. -/
theorem symbols_text (s : Formula) : Token.symbols ((ofDialect .cFamily).tokenize s.text.toList) =
    s.recorded.flatten.map (ofDialect .cFamily).alphabet.symbol := by
  rw [Stmt.symbols_write, classes_text, Piece.symbols_tokens, List.filterMap_map, ← filterMap_chunks]
  rfl

/-- The symbols of what should be recorded are those that should be written. -/
theorem map_symbol_claimed (s : Formula) : s.claimed.flatten.map (ofDialect .cFamily).alphabet.symbol = s.symbols := by
  have huse : (ofDialect .cFamily).alphabet.symbol s.use.category = s.use.symbol := by cases s.use <;> rfl
  have hterm : ∀ x : Term, x.claimed.map (ofDialect .cFamily).alphabet.symbol = x.symbols := by
    rintro ⟨_ | ⟨m⟩ | _ | _, v⟩ <;> rfl
  have hbinary : ∀ op : Binary, (ofDialect .cFamily).alphabet.symbol op.category = op.symbol := by
    rintro ⟨⟩ <;> rfl
  have hrest : ∀ rest : List (Binary × Term), (rest.flatMap fun l => [[l.1.category], l.2.claimed]).flatten.map
      (ofDialect .cFamily).alphabet.symbol = rest.flatMap fun l => l.1.symbol :: l.2.symbols := by
    intro rest
    induction rest with
    | nil => rfl
    | cons l rest ih =>
      rw [List.flatMap_cons, List.flatMap_cons, List.flatten_append, List.map_append, ih, ← hterm, ← hbinary]
      simp
  rw [claimed, symbols, List.flatten_cons, List.flatten_cons, List.map_append, List.map_append, hterm, hrest,
    List.map_singleton, huse]
  rfl

/-- **One symbol for each operator.** A clear statement has the symbol of its use, and then one for each operator and for
each `!` and `~`, in the order of the text. -/
theorem symbols_text_of_clear {s : Formula} (h : s.clear = true) :
    Token.symbols ((ofDialect .cFamily).tokenize s.text.toList) = s.symbols := by
  rw [symbols_text, recorded_eq_iff.2 h, map_symbol_claimed]

/-- A statement with signs on both sides of its operators. -/
theorem symbols_text_signs :
    let a : Value := { whole := { text := "a" } }
    let b : Value := { whole := { text := "b" } }
    let s : Formula := ⟨.assign { text := "x" }, ⟨some (.unary .minus), a⟩,
      [(.times, ⟨some .negation, b⟩), (.bitAnd, ⟨some .complement, a⟩), (.both, ⟨some (.unary .star), b⟩),
        (.shiftLeft, ⟨none, a⟩), (.unequal, ⟨some (.unary .ampersand), b⟩)]⟩
    s.clear = true ∧ Token.symbols ((ofDialect .cFamily).tokenize s.text.toList) = "AMLUULUE".toList := by
  intro a b s
  exact ⟨rfl, symbols_text_of_clear (s := s) rfl⟩

/-- An operator on bits is not found in front of a `!`. -/
theorem symbols_text_negation_ne :
    let s : Formula := ⟨.assign { text := "x" }, ⟨none, { whole := { text := "a" } }⟩,
      [(.bitAnd, ⟨some .negation, { whole := { text := "b" } }⟩)]⟩
    s.text = "x = a & !b;" ∧ s.symbols = "AUL".toList ∧
      Token.symbols ((ofDialect .cFamily).tokenize s.text.toList) ≠ s.symbols := by
  decide +kernel

end Formula
end Tokenizer
end SourceLikeness
