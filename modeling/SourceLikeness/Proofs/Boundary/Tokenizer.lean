import SourceLikeness.Proofs.Boundary.ConditionalExpression
import SourceLikeness.Proofs.Boundary.Statement
import SourceLikeness.Proofs.Tokenizer.Invariants

/-!
# Tokens start and stop where characters do

* `Action.keeps fills a` : the pass cuts no character, whatever the fills that claimed cells of one hold by then;
* `solid_runPasses` : neither do any number of such passes;
* `keeps_declarationPasses` : the passes for declarations, with any keywords;
* `solid_cPasses`, `solid_pyPasses` : all passes of a dialect;
* `isBoundary_tokenize` : the offsets of a stream are boundaries, and what stands between two of them are characters;
* `not_isBoundary_template` : a template literal that starts in a comment and goes on behind it.
-/

namespace SourceLikeness.Tokenizer
open Pattern WorkingCopy
variable {w : Work} {source fills : List Char} {passes : List Pass} {p : Pass} {a : Action}

/-! ## Keywords -/

namespace Statement

theorem partless_keyword (k : Keyword) : (keyword k).partless = true := by
  fun_induction keyword k with
  | case1 => rfl
  | case2 w => exact partless_chars w
  | case3 w ws _ ih => exact Bool.and_eq_true_iff.2 ⟨partless_chars w, Bool.and_eq_true_iff.2 ⟨rfl, ih⟩⟩

theorem partless_keywords (ks : List Keyword) {ps : List Pattern} (hps : ∀ p ∈ ps, p.partless = true) :
    (any (ks.map keyword ++ ps)).partless = true :=
  partless_any (List.forall_mem_append.2 ⟨List.forall_mem_map.2 fun k _ => partless_keyword k, hps⟩)

end Statement

/-! ## The passes -/

/-- The pass cuts no character. Claimed cells of one may hold the fills. -/
def Action.keeps (fills : List Char) : Action → Bool
  | .erase f fill => f.sparesHits && openFills.contains fill && (fills.isEmpty || fills.contains fill)
  | .classify f _ fill swallows => f.sparesTokens && f.solid && fills.contains fill && (!swallows || f.sparesHits)
  | .docstrings => fills.isEmpty
  | .conditionalExpressions => false
  | .bareBodies => fills.all (· == masked)
  | .switches => fills == closedFills
  | .compoundAssignments => fills.contains WorkingCopy.operator

theorem Action.solid_apply (hplain : a.IsPlain) (ha : a.keeps fills = true) (hw : w.Solid source fills) :
    (a.apply w).Solid source fills := by
  cases a with
  | erase f fill =>
    simp only [keeps, Bool.and_eq_true, Bool.or_eq_true, List.contains_iff_mem, List.isEmpty_iff] at ha
    exact (intact_erase ha.1.1 ha.1.2 ha.2.symm hplain hw).solid
  | classify f category fill swallows =>
    simp only [keeps, Bool.and_eq_true, Bool.or_eq_true, List.contains_iff_mem, Bool.not_eq_true'] at ha
    obtain ⟨⟨⟨htokens, hsolid⟩, hfill⟩, hswallows⟩ := ha
    refine (intact_classify htokens hsolid category swallows (fun h => ?_) hfill hplain hw).solid
    exact hswallows.resolve_left fun hnot => Bool.noConfusion (hnot.symm.trans h)
  | docstrings =>
    obtain rfl := List.isEmpty_iff.1 ha
    exact (Docstring.intact_apply hw).solid
  | conditionalExpressions => exact Bool.noConfusion ha
  | bareBodies => exact (BareBody.intact_apply (fun x hx => beq_iff_eq.1 (List.all_eq_true.1 ha x hx)) hw).solid
  | switches =>
    obtain rfl := beq_iff_eq.1 ha
    exact (SwitchStatement.intact_apply hw).solid
  | compoundAssignments => exact (CompoundAssignment.intact_apply (List.contains_iff_mem.1 ha) hw).solid

/-- The pass for increments: its pattern may start inside of a literal. -/
def increments : Pass := .construct "increments" Operator.increment .math

theorem solid_increments (hw : w.Solid source closedFills) : (increments.apply w).Solid source closedFills :=
  (Increment.intact_classify .math (by decide) isAscii_masked hw).solid

/-- **Passes cut no character**, if each of them keeps them whole. -/
theorem solid_runPasses (h : ∀ p ∈ passes, ∀ w : Work, w.Solid source fills → (p.apply w).Solid source fills)
    (hw : w.Solid source fills) : (runPasses passes w).Solid source fills := by
  induction passes generalizing w with
  | nil => exact hw
  | cons p passes ih =>
    obtain ⟨hp, hpasses⟩ := List.forall_mem_cons.1 h
    exact ih hpasses (hp w hw)

/-- The token of a declaration stands between the edge of a word and a sign. -/
theorem keeps_declaration {body : Pattern} (hbody : body.partless = true) (hsolid : body.solid = true) (name : String)
    (category : Category) :
    (Pass.construct name (all [wordEdge, part .token body, Shape.declarationEnd]) category).action.keeps closedFills = true := by
  have htokens : Finder.sparesTokens { pattern := all [wordEdge, part .token body, Shape.declarationEnd] } = true := by
    refine List.all_eq_true.2 fun x hx => ?_
    have hend : ∀ x ∈ openFills, ∀ r, (Seam.between x).stops Shape.declarationEnd r = true := by decide
    have hpiece : ∀ r, (Seam.between x).tidy .token (part .token body) true ((Seam.between x).stops Shape.declarationEnd r) =
        true := fun r => by
      rw [hend x hx]
      refine Bool.and_eq_true_iff.2 ⟨?_, Seam.tidy_of_partless hbody⟩
      exact Bool.or_eq_true_iff.2 (Or.inr (Bool.and_eq_true_iff.2 ⟨rfl, Bool.or_true _⟩))
    exact Bool.and_eq_true_iff.2 ⟨Bool.and_eq_true_iff.2 ⟨rfl, Bool.and_eq_true_iff.2 ⟨hpiece _, rfl⟩⟩, rfl⟩
  have hpieces : (all [wordEdge, part .token body, Shape.declarationEnd]).bodies .token = [body] := by
    change (body :: body.bodies .token) ++ [] = [body]
    rw [bodies_of_partless hbody, List.append_nil]
  have hall : Finder.solid { pattern := all [wordEdge, part .token body, Shape.declarationEnd] } = true := by
    refine Bool.and_eq_true_iff.2 ⟨Bool.or_eq_true_iff.2 (Or.inr (Bool.or_eq_true_iff.2 (Or.inl hsolid))), ?_⟩
    rw [hpieces, List.all_cons, hsolid]
    rfl
  simp only [Pass.construct, Action.keeps, htokens, hall]
  rfl

theorem keeps_pointerDeclaration (types : List String) (name : String) (category : Category) :
    (Pass.construct name (Statement.pointerDeclaration types) category).action.keeps closedFills = true := by
  have hkeywords := Statement.partless_keywords (Statement.keywords types) (List.forall_mem_singleton.2 (partless_chars "void".toList))
  refine keeps_declaration ?_ ?_ name category
  · exact Bool.and_eq_true_iff.2 ⟨hkeywords, rfl⟩
  · exact Bool.or_eq_true_iff.2 (Or.inr rfl)

theorem keeps_numberDeclaration (types : List String) (name : String) (category : Category) :
    (Pass.construct name (Statement.declaration types) category).action.keeps closedFills = true := by
  have hkeywords := Statement.partless_keywords (Statement.keywords types) (List.forall_mem_nil _)
  rw [List.append_nil] at hkeywords
  refine keeps_declaration ?_ ?_ name category
  · exact Bool.and_eq_true_iff.2 ⟨hkeywords, rfl⟩
  · exact Bool.or_eq_true_iff.2 (Or.inr rfl)

theorem keeps_declarationPasses (s : Settings) : ∀ p ∈ declarationPasses s, p.action.keeps closedFills = true := by
  unfold declarationPasses
  simp only [List.forall_mem_append]
  refine ⟨⟨⟨?_, ?_⟩, ?_⟩, ?_⟩ <;> split_ifs <;> simp [keeps_pointerDeclaration, keeps_numberDeclaration]

/-! ## The passes of a dialect -/

/-- The passes of the C family behind the masking passes and those for conditional expressions. -/
theorem exists_cPasses (s : Settings) : ∃ early late : List Pass,
    cPasses s = maskingPasses ++ ⟨"ternary", .conditionalExpressions⟩ :: (early ++ late) ∧
      (∀ p ∈ early, p.action.keeps [masked] = true) ∧ ∀ p ∈ late, p.action.keeps closedFills = true ∨ p = increments := by
  obtain ⟨front, control, first, others, assignments, hpasses, hfront, hearly, hlate⟩ :
      ∃ (front control : List Pass) (first : Pass) (others assignments : List Pass),
        cPasses s = front ++ declarationPasses s ++ control ++ first :: increments :: others ++ assignments ++ bracePasses ∧
          front = maskingPasses ++ ⟨"ternary", .conditionalExpressions⟩ :: front.drop 5 ∧
            ((front.drop 5).take 3).all (·.action.keeps [masked]) = true ∧
              ((front.drop 5).drop 3 ++ control ++ first :: others ++ assignments ++ bracePasses).all
                (·.action.keeps closedFills) = true :=
    ⟨_, _, _, _, _, rfl, rfl, by decide +kernel, by decide +kernel⟩
  refine ⟨(front.drop 5).take 3, (front.drop 5).drop 3 ++ (declarationPasses s ++ (control ++ first :: increments :: others ++
    assignments ++ bracePasses)), ?_, List.all_eq_true.1 hearly, ?_⟩
  · rw [← List.append_assoc (List.take 3 _), List.take_append_drop, hpasses]
    conv_lhs => rw [hfront]
    simp only [List.append_assoc, List.cons_append]
  · simp only [List.all_append, List.all_cons, Bool.and_eq_true, List.all_eq_true] at hlate
    obtain ⟨⟨⟨⟨hrest, hcontrol⟩, hfirst, hothers⟩, hassignments⟩, hbraces⟩ := hlate
    simp only [List.forall_mem_append, List.forall_mem_cons]
    exact ⟨fun p hp => Or.inl (hrest p hp), fun p hp => Or.inl (keeps_declarationPasses s p hp),
      ⟨⟨fun p hp => Or.inl (hcontrol p hp), Or.inl hfirst, Or.inr trivial, fun p hp => Or.inl (hothers p hp)⟩,
        fun p hp => Or.inl (hassignments p hp)⟩, fun p hp => Or.inl (hbraces p hp)⟩

/-- What the passes keep, for all passes of a tokenizer. -/
theorem solid_apply_of_mem {s : Settings} (hp : p ∈ s.passes) (hkeeps : p.action.keeps fills = true) (hw : w.Solid source fills) :
    (p.apply w).Solid source fills := Action.solid_apply (isPlain_of_mem_passes hp) hkeeps hw

theorem solid_cPasses {s : Settings} (hs : s.dialect = .cFamily) (hled : LiteralsLed source (visible source).text) :
    (runPasses s.passes (.ofSource source)).Solid source closedFills := by
  have hpasses : s.passes = cPasses s := by rw [Settings.passes, hs]
  obtain ⟨early, late, hsplit, hearly, hlate⟩ := exists_cPasses s
  have hmem : ∀ p, p ∈ early ∨ p ∈ late → p ∈ s.passes := fun p hp => by
    rw [hpasses, hsplit]
    exact List.mem_append_right _ (List.mem_cons_of_mem _ (List.mem_append.2 hp))
  have hfirst := (ConditionalExpression.intact_apply (fresh_visible source) hled).solid
  have hmiddle := solid_runPasses (fun p hp w hw => solid_apply_of_mem (hmem p (Or.inl hp)) (hearly p hp) hw) hfirst
  rw [hpasses, hsplit, runPasses_append, runPasses_cons, runPasses_append]
  refine solid_runPasses (fun p hp w hw => ?_) (hmiddle.mono (by decide))
  rcases hlate p hp with hkeeps | rfl
  · exact solid_apply_of_mem (hmem p (Or.inr hp)) hkeeps hw
  · exact solid_increments hw

theorem solid_pyPasses {s : Settings} (hs : s.dialect = .python) :
    (runPasses s.passes (.ofSource source)).Solid source closedFills := by
  have hpasses : s.passes = pyPasses := by rw [Settings.passes, hs]
  have hsplit : s.passes = pyPasses.take 4 ++ pyPasses.drop 4 := hpasses.trans (List.take_append_drop 4 _).symm
  have hmasking : (pyPasses.take 4).all (·.action.keeps []) = true := by decide +kernel
  have hrest : (pyPasses.drop 4).all (·.action.keeps closedFills) = true := by decide +kernel
  have hfirst := solid_runPasses (fun p hp w hw => solid_apply_of_mem (s := s) (hsplit ▸ List.mem_append_left _ hp)
    (List.all_eq_true.1 hmasking p hp) hw) (Solid.ofSource source)
  rw [hsplit, runPasses_append]
  exact solid_runPasses (fun p hp w hw => solid_apply_of_mem (s := s) (hsplit ▸ List.mem_append_right _ hp)
    (List.all_eq_true.1 hrest p hp) hw) (hfirst.mono (List.nil_subset _))

/-! ## The stream -/

/-- The offsets where tokens start and stop. -/
def offsets {α : Type} (tokens : List (Token α)) : List Nat := tokens.flatMap fun k => [k.start, k.stop]

/-- **Token offsets are boundaries of characters.** Every token starts and stops at one, and what stands between two offsets
are characters of the source. In the C family the literals have to be led: in a template literal that starts in a comment and
goes on behind it a character may be torn (`not_isBoundary_template`). -/
theorem isBoundary_tokenize (t : Tokenizer) (source : List Char)
    (hled : t.settings.dialect = .cFamily → LiteralsLed source (visible source).text) :
    (∀ p ∈ offsets (t.tokenize source), IsBoundary source p) ∧
      ∀ p ∈ offsets (t.tokenize source), ∀ q ∈ offsets (t.tokenize source), p ≤ q →
        ∃ m, Span.slice ⟨p, q⟩ (utf8 source) = utf8 m := by
  have hsolid : (t.run source).Solid source closedFills := by
    cases hdialect : t.settings.dialect with
    | cFamily => exact solid_cPasses hdialect (hled hdialect)
    | python => exact solid_pyPasses hdialect
  have hall : ∀ p ∈ offsets (t.tokenize source), IsBoundary source p := by
    intro p hp
    obtain ⟨k, hk, hp⟩ := List.mem_flatMap.1 hp
    obtain ⟨k', hk', rfl⟩ := List.mem_map.1 ((tokenize_perm t source).subset hk)
    have haligned := hsolid.tokens k' hk'
    rcases List.mem_pair.1 hp with rfl | rfl
    · exact haligned.start
    · exact haligned.stop
  exact ⟨hall, fun p hp q hq hle => exists_slice_utf8 (hall p hp) (hall q hq) hle⟩

/-- A literal in code has its quote before it, also behind the end of a line. -/
theorem isBoundary_tokenize_literals :
    let source := "é > 1 ? \x60ü\nö\x60 : x; // ß".toList
    LiteralsLed source (visible source).text ∧
      (∀ p ∈ offsets ((ofDialect .cFamily).tokenize source), IsBoundary source p) ∧
      ∀ p ∈ offsets ((ofDialect .cFamily).tokenize source), ∀ q ∈ offsets ((ofDialect .cFamily).tokenize source), p ≤ q →
        ∃ m, Span.slice ⟨p, q⟩ (utf8 source) = utf8 m := by
  intro source
  have hled : LiteralsLed source (visible source).text := by decide +kernel
  exact ⟨hled, isBoundary_tokenize (ofDialect .cFamily) source fun _ => hled⟩

/-- The condition is taken to start at the second byte of the character, which is claimed then, so the increment stops between
the two. -/
theorem not_isBoundary_template :
    let source := "++//\x60\né\x60>b?c:d;".toList
    ⟨'M', 0, 7⟩ ∈ (ofDialect .cFamily).tokenize source ∧ ¬ IsBoundary source 7 := by decide +kernel

end SourceLikeness.Tokenizer
