import SourceLikeness.Proofs.Braces.Pieces

/-!
# The passes over the pieces of a statement

What each pass of the C family finds in the pieces of a statement, with braces or without.

* `loopsDone`, …, `openBracesDone` : what has become of the pieces behind each pass that finds some;
* `steps_loops`, `steps_dos`, `steps_tails`, `steps_conditionals`, `steps_assignments`, `steps_openBraces`,
  `steps_closeBraces` : these passes find the pieces that they should, and nothing else.
-/

namespace SourceLikeness.Tokenizer
open Lexeme (word sign spots)
open Text (isAsciiWord isBlank)
open Finder (start)
open Item (piece Fits keyword bracketed)
variable {as bs : List Item} {s : List Char} {o : Nat}

/-! ## What has become of the pieces -/

abbrev loopsDone : Inks Role := untouched.add (· == .loop) ⟨WorkingCopy.masked, true⟩

abbrev dosDone : Inks Role := loopsDone.add (· == .doWord) ⟨WorkingCopy.masked, true⟩

abbrev tailsDone : Inks Role := dosDone.add (· == .doTail) ⟨WorkingCopy.masked, false⟩

abbrev conditionalsDone : Inks Role := tailsDone.add (· == .conditional) ⟨WorkingCopy.masked, true⟩

abbrev assignmentsDone : Inks Role := conditionalsDone.add (· == .assign) ⟨WorkingCopy.operator, true⟩

abbrev openBracesDone : Inks Role := assignmentsDone.add (· == .openBrace) ⟨WorkingCopy.masked, true⟩

theorem isDry_loopsDone : Piece.IsDry loopsDone := Piece.IsDry.add Piece.isDry_untouched Piece.sound_masked

theorem isDry_dosDone : Piece.IsDry dosDone := Piece.IsDry.add isDry_loopsDone Piece.sound_masked

theorem isDry_tailsDone : Piece.IsDry tailsDone := Piece.IsDry.add isDry_dosDone Piece.sound_masked

theorem isDry_conditionalsDone : Piece.IsDry conditionalsDone := Piece.IsDry.add isDry_tailsDone Piece.sound_masked

theorem isDry_assignmentsDone : Piece.IsDry assignmentsDone :=
  Piece.IsDry.add isDry_conditionalsDone Piece.sound_operator

theorem isDry_openBracesDone : Piece.IsDry openBracesDone := Piece.IsDry.add isDry_assignmentsDone Piece.sound_masked

theorem isOpen_add {φ : Inks Role} {wanted : Role → Bool} {claimed : Bool} (hφ : Item.IsOpen φ) :
    Item.IsOpen (φ.add wanted ⟨WorkingCopy.masked, claimed⟩) := by
  intro r other hother
  rw [Inks.add] at hother
  split_ifs at hother
  · obtain rfl := Option.some.inj hother
    rfl
  · exact hφ r other hother

theorem isOpen_untouched : Item.IsOpen untouched := by
  intro r ink h
  cases h

theorem isOpen_tailsDone : Item.IsOpen tailsDone := isOpen_add (isOpen_add (isOpen_add isOpen_untouched))

/-- The text of some pieces of which so much is done. -/
abbrev shown (φ : Inks Role) (as : List Item) : List Char := Lexeme.text (Piece.page φ (as.map piece))

/-! ## Loops -/

def loopLeads : Leads := ⟨["while".toList, "for".toList], [], [], [], false⟩

section Loops
variable (hascii : ∀ c ∈ s, IsAscii c) (hopens : Opens (shown untouched bs))
include hascii hopens

theorem step_whileHead (c : Condition) (hs : Stands s o (Piece.page untouched ((Item.whileHead c :: bs).map piece))) :
    Piece.Step { pattern := Header.cLoop } s loopLeads untouched (· == .loop) o (Item.whileHead c).piece := by
  have htext : s.drop o = "while".toList ++ (" (".toList ++ c.text.toList ++ ')' :: ([' '] ++ shown untouched bs)) := by
    rw [hs.text]
    simp [piece, Piece.lexemes, Ink.cover, Lexeme.chars, keyword, Item.text_bracketed, Condition.text_lexemes]
  obtain ⟨hit, hhit, htoken⟩ := hitOf_while htext (hs.atWordEdge hascii) c.text_ne_nil c.plain_text c.close_not_mem hopens
  refine Piece.step_of_spot [] (keyword "while") (bracketed c.lexemes ++ [sign ' ']) rfl rfl ?_
    (List.forall_mem_nil _) (by decide) (Item.not_leads_bracketed ⟨rfl, rfl⟩ (c.not_leads (by decide) (by decide))) hhit ?_
  · simp [piece, Piece.lexemes, Ink.cover]
  · rw [htoken]
    simp [piece, Piece.span, Lexeme.chars, keyword, Item.text_bracketed, Condition.text_lexemes]

theorem step_forHead (i : Name) (n : Value) (hs : Stands s o (Piece.page untouched ((Item.forHead i n :: bs).map piece))) :
    Piece.Step { pattern := Header.cLoop } s loopLeads untouched (· == .loop) o (Item.forHead i n).piece := by
  have htext : s.drop o = "for".toList ++ (" (".toList ++ ((i.text.toList ++ " = 0".toList) ++ ';' ::
      (" ".toList ++ i.text.toList ++ " < ".toList ++ n.text.toList ++ ';' :: (" ".toList ++ i.text.toList ++ "++".toList ++
        ')' :: ' ' :: shown untouched bs)))) := by
    rw [hs.text]
    simp [piece, Piece.lexemes, Ink.cover, Lexeme.chars, keyword, Item.text_bracketed, Item.counting, Value.text_lexemes, Name.chars]
  have hclose : ')' ∉ " ".toList ++ i.text.toList ++ "++".toList := by simpa using i.close_not_mem
  have hplain : ∀ v : String, Plain v.toList → Plain (v.toList ++ i.text.toList) := fun v hv => hv.append i.plain_text
  obtain ⟨hit, hhit, htoken⟩ := hitOf_for htext (hs.atWordEdge hascii) (i.plain_text.append (by decide))
    (((hplain " " (by decide)).append (by decide)).append n.plain_text) ((hplain " " (by decide)).append (by decide)) hclose
    hopens
  refine Piece.step_of_spot [] (keyword "for") (bracketed (Item.counting i n) ++ [sign ' ']) rfl rfl ?_ (List.forall_mem_nil _)
    (by decide) (Item.not_leads_bracketed ⟨rfl, rfl⟩ (Item.not_leads_counting (by decide) ⟨rfl, rfl⟩ (by decide) i n)) hhit ?_
  · simp [piece, Piece.lexemes, Ink.cover]
  · rw [htoken]
    simp [piece, Piece.span, Lexeme.chars, keyword, Item.text_bracketed, Item.counting, Value.text_lexemes, Name.chars]

end Loops

theorem steps_loops (h : Fits as) :
    Piece.Steps { pattern := Header.cLoop } (shown untouched as) loopLeads untouched (· == .loop) 0 (as.map piece) := by
  refine Piece.steps_of_forall (Item.sound_map as) Piece.isDry_untouched fun o a bs hbs hs hascii => ?_
  have hquiet : ∀ {a : Item}, a.quiet loopLeads untouched = true → (a.piece.role == Role.loop) = false →
      Piece.Step { pattern := Header.cLoop } (shown untouched as) loopLeads untouched (· == .loop) o a.piece :=
    fun hq hr => Item.step_of_quiet (by decide) hq hr
  cases a with
  | whileHead c => exact step_whileHead hascii (Item.opens_next isOpen_untouched (h.follows hbs)) c hs
  | forHead i n => exact step_forHead hascii (Item.opens_next isOpen_untouched (h.follows hbs)) i n hs
  | doTail c =>
    have htext : (shown untouched as).drop (o + 1) = "while".toList ++ (" (".toList ++ c.text.toList ++
        ')' :: ';' :: Lexeme.text (Piece.page untouched (bs.map piece))) := by
      rw [← List.drop_drop, hs.text]
      simp [piece, Piece.lexemes, Ink.cover, Lexeme.chars, keyword, Item.text_bracketed, Condition.text_lexemes]
    refine Piece.step_of_spot_none [sign ' '] (keyword "while") (bracketed c.lexemes ++ [sign ';']) rfl ?_ (by decide) (by decide)
      (Item.not_leads_bracketed ⟨rfl, rfl⟩ (c.not_leads (by decide) (by decide))) (hitOf_cLoop_eq_none htext ?_)
    · simp [piece, Piece.lexemes, Ink.cover]
    · simpa using c.close_not_mem
  | ifHead chained c => cases chained <;> exact hquiet rfl rfl
  | _ => exact hquiet rfl rfl

def doLeads : Leads := ⟨["do".toList], [], [], [], false⟩

theorem steps_dos (as : List Item) :
    Piece.Steps { pattern := Pattern.word ["do"] } (shown loopsDone as) doLeads loopsDone (· == .doWord) 0 (as.map piece) := by
  refine Piece.steps_of_forall (Item.sound_map as) isDry_loopsDone fun o a bs _ hs hascii => ?_
  have hquiet : ∀ {a : Item}, a.quiet doLeads loopsDone = true → (a.piece.role == Role.doWord) = false →
      Piece.Step { pattern := Pattern.word ["do"] } (shown loopsDone as) doLeads loopsDone (· == .doWord) o a.piece :=
    fun hq hr => Item.step_of_quiet (by decide) hq hr
  cases a with
  | doWord =>
    obtain ⟨hit, hhit, htoken⟩ := hitOf_word "do" hs.text (hs.atWordEdge hascii) rfl
    exact Piece.step_of_spot [] (keyword "do") ([sign ' ']) rfl rfl rfl (List.forall_mem_nil _) (by decide)
      (by decide) hhit htoken
  | ifHead chained c => cases chained <;> exact hquiet rfl rfl
  | _ => exact hquiet rfl rfl

def tailLeads : Leads := ⟨["while".toList], [], [], [], false⟩

theorem steps_tails (as : List Item) :
    Piece.Steps { pattern := Header.doTail } (shown dosDone as) tailLeads dosDone (· == .doTail) 0 (as.map piece) := by
  refine Piece.steps_of_forall (Item.sound_map as) isDry_dosDone fun o a bs _ hs hascii => ?_
  have hquiet : ∀ {a : Item}, a.quiet tailLeads dosDone = true → (a.piece.role == Role.doTail) = false →
      Piece.Step { pattern := Header.doTail } (shown dosDone as) tailLeads dosDone (· == .doTail) o a.piece :=
    fun hq hr => Item.step_of_quiet (by decide) hq hr
  cases a with
  | doTail c =>
    have htext : (shown dosDone as).drop (o + 1) = "while".toList ++ (" (".toList ++ c.text.toList ++
        ')' :: ';' :: Lexeme.text (Piece.page dosDone (bs.map piece))) := by
      rw [← List.drop_drop, hs.text]
      simp [piece, Piece.lexemes, Ink.cover, Inks.add, Lexeme.chars, keyword, Item.text_bracketed, Condition.text_lexemes]
    obtain ⟨hit, hhit, htoken⟩ := hitOf_doTail htext (hs.tail.atWordEdge hascii) c.text_ne_nil c.plain_text
    refine Piece.step_of_spot [sign ' '] (keyword "while") (bracketed c.lexemes ++ [sign ';']) rfl rfl ?_
      (by decide) (by decide) (Item.not_leads_bracketed ⟨rfl, rfl⟩ (c.not_leads (by decide) (by decide))) hhit ?_
    · simp [piece, Piece.lexemes, Ink.cover, Inks.add]
    · rw [htoken]
      simp [piece, Piece.span, Lexeme.chars, keyword, Item.text_bracketed, Condition.text_lexemes]
  | ifHead chained c => cases chained <;> exact hquiet rfl rfl
  | _ => exact hquiet rfl rfl

/-! ## Conditionals -/

def conditionalLeads : Leads := ⟨["if".toList, "else".toList], [], [], [], false⟩

section Conditionals
variable (hascii : ∀ c ∈ s, IsAscii c)
include hascii

theorem step_ifHead (c : Condition) (hopens : Opens (shown tailsDone bs))
    (hs : Stands s o (Piece.page tailsDone ((Item.ifHead false c :: bs).map piece))) :
    Piece.Step { pattern := Header.cConditional } s conditionalLeads tailsDone (· == .conditional) o (Item.ifHead false c).piece := by
  have htext : s.drop o = "if".toList ++ (" (".toList ++ c.text.toList ++ ')' :: ([' '] ++ shown tailsDone bs)) := by
    rw [hs.text]
    simp [piece, Piece.lexemes, Ink.cover, Inks.add, Lexeme.chars, keyword, Item.text_bracketed, Condition.text_lexemes]
  obtain ⟨hit, hhit, htoken⟩ := hitOf_if htext (hs.atWordEdge hascii) c.text_ne_nil c.plain_text c.close_not_mem hopens
  refine Piece.step_of_spot [] (keyword "if") (bracketed c.lexemes ++ [sign ' ']) rfl rfl ?_
    (List.forall_mem_nil _) (by decide) (Item.not_leads_bracketed ⟨rfl, rfl⟩ (c.not_leads (by decide) (by decide))) hhit ?_
  · simp [piece, Piece.lexemes, Ink.cover, Inks.add]
  · rw [htoken]
    simp [piece, Piece.span, Lexeme.chars, keyword, Item.text_bracketed, Condition.text_lexemes]

/-- The `if` behind an `else` belongs to the same header. -/
theorem step_elseIf (c : Condition) (hopens : Opens (shown tailsDone bs))
    (hs : Stands s o (Piece.page tailsDone ((Item.ifHead true c :: bs).map piece))) :
    Piece.Step { pattern := Header.cConditional } s conditionalLeads tailsDone (· == .conditional) o (Item.ifHead true c).piece := by
  have htext : s.drop (o + 1) = "else".toList ++ (' ' :: "if".toList ++ (" (".toList ++ c.text.toList ++
      ')' :: ([' '] ++ shown tailsDone bs))) := by
    rw [← List.drop_drop, hs.text]
    simp [piece, Piece.lexemes, Ink.cover, Inks.add, Lexeme.chars, keyword, Item.text_bracketed, Condition.text_lexemes]
  have hlexemes : (Item.ifHead true c).piece.lexemes tailsDone = sign ' ' :: keyword "else" :: sign ' ' :: keyword "if" ::
      (bracketed c.lexemes ++ [sign ' ']) := by simp [piece, Piece.lexemes, Ink.cover, Inks.add]
  have hspots : spots conditionalLeads o ((Item.ifHead true c).piece.lexemes tailsDone) = [o + 1, o + 6] := by
    rw [hlexemes]
    simp only [spots]
    rw [Lexeme.spots_eq_nil (Item.not_leads_bracketed ⟨rfl, rfl⟩ (c.not_leads (by decide) (by decide)))]
    rfl
  obtain ⟨hit, hhit, htoken⟩ :=
    hitOf_elseIf htext (hs.tail.atWordEdge hascii) c.text_ne_nil c.plain_text c.close_not_mem hopens
  have hspan : hit.token = (Item.ifHead true c).piece.span o := by
    rw [htoken]
    simp [piece, Piece.span, Lexeme.chars, keyword, Item.text_bracketed, Condition.text_lexemes]
  have hresume : Finder.resume { pattern := Header.cConditional } hit = o + (Item.ifHead true c).piece.size := by
    change hit.token.stop = _
    rw [hspan]
    simp [Piece.span, Piece.size, piece, Nat.add_assoc]
  refine Piece.step_of_hit [] (o + 1) [o + 6] rfl hspots (List.forall_mem_nil _) (Nat.le_succ o) hhit hspan
    (List.forall_mem_singleton.2 ?_) (Nat.le_of_eq hresume)
  rw [hresume]
  simp only [Piece.size, piece, Lexeme.text_append, Lexeme.text_cons, Lexeme.chars, keyword, List.length_append]
  simp
  omega

/-- No `if` follows a lone `else`. -/
theorem step_elseWord (hnext : (Item.next bs).any (fun b => b.starts && !b.isIfHead) = true)
    (hs : Stands s o (Piece.page tailsDone ((Item.elseWord :: bs).map piece))) :
    Piece.Step { pattern := Header.cConditional } s conditionalLeads tailsDone (· == .conditional) o Item.elseWord.piece := by
  have hopens : Opens (shown tailsDone bs) := Item.opens_next isOpen_tailsDone (by
    obtain ⟨b, hb, hb'⟩ := (Option.any_eq_true _ _).1 hnext
    exact (Option.any_eq_true _ _).2 ⟨b, hb, (Bool.and_eq_true_iff.1 hb').1⟩)
  obtain ⟨b, v, hw, -, hblank⟩ := hopens
  obtain ⟨hit, hhit, htoken⟩ := hitOf_else (s := s) (o := o + 1) (w := shown tailsDone bs)
    (by rw [← List.drop_drop, hs.text]; rfl) (hs.tail.atWordEdge hascii) (by rw [hw]; exact hblank)
    (Item.not_if_next isOpen_tailsDone hnext)
  exact Piece.step_of_spot [sign ' '] (keyword "else") ([sign ' ']) rfl rfl rfl (by decide) (by decide) (by decide) hhit htoken

end Conditionals

theorem steps_conditionals (h : Fits as) :
    Piece.Steps { pattern := Header.cConditional } (shown tailsDone as) conditionalLeads tailsDone (· == .conditional) 0
      (as.map piece) := by
  refine Piece.steps_of_forall (Item.sound_map as) isDry_tailsDone fun o a bs hbs hs hascii => ?_
  have hquiet : ∀ {a : Item}, a.quiet conditionalLeads tailsDone = true → (a.piece.role == Role.conditional) = false →
      Piece.Step { pattern := Header.cConditional } (shown tailsDone as) conditionalLeads tailsDone (· == .conditional) o a.piece :=
    fun hq hr => Item.step_of_quiet (by decide) hq hr
  cases a with
  | ifHead chained c =>
    have hopens := Item.opens_next isOpen_tailsDone (h.follows hbs)
    cases chained with
    | false => exact step_ifHead hascii c hopens hs
    | true => exact step_elseIf hascii c hopens hs
  | elseWord => exact step_elseWord hascii (h.follows hbs) hs
  | _ => exact hquiet rfl rfl

/-! ## Assignments -/

def equalsLeads : Leads := ⟨[], [], ['=', '!', '<', '>'], [], false⟩

/-- Where the equals sign of an assignment stands, and what stands around it. -/
theorem equals_of_stands {n : Name} {e : Value}
    (hs : Stands s o (Piece.page conditionalsDone ((Item.assign n e :: bs).map piece))) :
    ∃ w, s.drop (o + (Lexeme.text [word n.chars, sign ' ']).length) = '=' :: ' ' :: w ∧
      (∃ b v, w = b :: v ∧ isBlank b = false ∧ b ≠ '\x7b') ∧
      Text.charBefore s (o + (Lexeme.text [word n.chars, sign ' ']).length) = some ' ' := by
  have hpage : Piece.page conditionalsDone ((Item.assign n e :: bs).map piece) =
      [word n.chars, sign ' '] ++ (sign '=' :: sign ' ' :: e.lexemes ++ (sign ';' :: Piece.page conditionalsDone (bs.map piece))) := by
    simp [piece, Piece.lexemes, Ink.cover, Inks.add]
  rw [hpage] at hs
  obtain ⟨b, u, hu⟩ := List.exists_cons_of_ne_nil e.whole.isWord.1
  have hb : isAsciiWord b = true := e.whole.isWord.2 b (by rw [hu]; exact List.mem_cons_self)
  obtain ⟨v, hv⟩ : ∃ v, Lexeme.text (e.lexemes ++ sign ';' :: Piece.page conditionalsDone (bs.map piece)) = b :: v := by
    rw [Value.lexemes, hu]
    exact ⟨_, rfl⟩
  refine ⟨_, hs.append.text, ⟨b, v, hv, Text.isBlank_eq_false_of_isAsciiWord hb, fun h => ?_⟩, ?_⟩
  · rw [h] at hb
    exact absurd hb (by decide)
  · have hblank := hs.tail.getElem? (k := 0) Nat.one_pos
    simpa [Lexeme.chars, Text.charBefore, ← Nat.add_assoc] using hblank

theorem not_leads_value (e : Value) : ∀ l ∈ sign ' ' :: e.lexemes ++ [sign ';'], l.leads equalsLeads = false := by
  have hvalue := e.not_leads (x := equalsLeads) (by decide) (by decide)
  simpa [or_imp, forall_and, Lexeme.leads, equalsLeads] using hvalue

theorem steps_equals {f : Finder} {wanted : Role → Bool} (hconsumes : f.consumes = false)
    (hwanted : ∀ r, wanted r = true → r = .assign)
    (h : ∀ {s w : List Char} {o : Nat}, s.drop o = '=' :: ' ' :: w → (∃ b v, w = b :: v ∧ isBlank b = false ∧ b ≠ '\x7b') →
      Text.charBefore s o = some ' ' → if wanted .assign then ∃ h : Hit, f.hitOf (fun _ => true) s o = some h ∧ h.token = ⟨o, o + 1⟩
        else f.hitOf (fun _ => true) s o = none) (as : List Item) :
    Piece.Steps f (shown conditionalsDone as) equalsLeads conditionalsDone wanted 0 (as.map piece) := by
  refine Piece.steps_of_forall (Item.sound_map as) isDry_conditionalsDone fun o a bs _ hs hascii => ?_
  have hquiet : ∀ {a : Item}, a.quiet equalsLeads conditionalsDone = true → a.piece.role ≠ .assign →
      Piece.Step f (shown conditionalsDone as) equalsLeads conditionalsDone wanted o a.piece :=
    fun hq hr => Item.step_of_quiet (by decide) hq (by
      rw [← Bool.not_eq_true]
      exact fun hw => hr (hwanted _ hw))
  cases a with
  | assign n e =>
    obtain ⟨w, hdrop, hw, hbefore⟩ := equals_of_stands hs
    have hhit := h hdrop hw hbefore
    have hlexemes : (Item.assign n e).piece.lexemes conditionalsDone =
        [word n.chars, sign ' '] ++ sign '=' :: (sign ' ' :: e.lexemes ++ [sign ';']) := by
      simp [piece, Piece.lexemes, Ink.cover, Inks.add]
    have hlead : ∀ m ∈ [word n.chars, sign ' '], m.leads equalsLeads = false := by
      simp [Lexeme.leads, equalsLeads]
    split_ifs at hhit with hassign
    · obtain ⟨hit, hhit, htoken⟩ := hhit
      exact Piece.step_of_spot _ _ _ hassign hconsumes hlexemes hlead (by decide) (not_leads_value e) hhit htoken
    · rw [Bool.not_eq_true] at hassign
      exact Piece.step_of_spot_none _ _ _ hassign hlexemes hlead (by decide) (not_leads_value e) hhit
  | ifHead chained c => cases chained <;> exact hquiet rfl (fun h => by cases h)
  | _ => exact hquiet rfl (fun h => by cases h)

/-! ## Braces -/

def openLeads : Leads := ⟨[], [], ['\x7b'], [], false⟩

theorem steps_openBraces (as : List Item) :
    Piece.Steps { pattern := Pattern.text "\x7b" } (shown assignmentsDone as) openLeads assignmentsDone (· == .openBrace) 0
      (as.map piece) := by
  refine Piece.steps_of_forall (Item.sound_map as) isDry_assignmentsDone fun o a bs _ hs hascii => ?_
  have hquiet : ∀ {a : Item}, a.quiet openLeads assignmentsDone = true → (a.piece.role == Role.openBrace) = false →
      Piece.Step { pattern := Pattern.text "\x7b" } (shown assignmentsDone as) openLeads assignmentsDone (· == .openBrace) o a.piece :=
    fun hq hr => Item.step_of_quiet (by decide) hq hr
  cases a with
  | openBrace =>
    exact Piece.step_of_spot [] (sign '\x7b') ([sign ' ']) rfl rfl rfl (List.forall_mem_nil _) (by decide)
      (by decide) (hitOf_text hs.text) rfl
  | ifHead chained c => cases chained <;> exact hquiet rfl rfl
  | _ => exact hquiet rfl rfl

def closeLeads : Leads := ⟨[], [], ['\x7d'], [], false⟩

theorem steps_closeBraces (as : List Item) :
    Piece.Steps { pattern := Pattern.text "\x7d" } (shown openBracesDone as) closeLeads openBracesDone (· == .closeBrace) 0
      (as.map piece) := by
  refine Piece.steps_of_forall (Item.sound_map as) isDry_openBracesDone fun o a bs _ hs hascii => ?_
  have hquiet : ∀ {a : Item}, a.quiet closeLeads openBracesDone = true → (a.piece.role == Role.closeBrace) = false →
      Piece.Step { pattern := Pattern.text "\x7d" } (shown openBracesDone as) closeLeads openBracesDone (· == .closeBrace) o a.piece :=
    fun hq hr => Item.step_of_quiet (by decide) hq hr
  cases a with
  | closeBrace =>
    have htext : (shown openBracesDone as).drop (o + 1) = "\x7d".toList ++ Lexeme.text (Piece.page openBracesDone (bs.map piece)) := by
      rw [← List.drop_drop, hs.text]
      rfl
    exact Piece.step_of_spot [sign ' '] (sign '\x7d') ([]) rfl rfl rfl (by decide) (by decide)
      (List.forall_mem_nil _) (hitOf_text htext) rfl
  | ifHead chained c => cases chained <;> exact hquiet rfl rfl
  | _ => exact hquiet rfl rfl

end SourceLikeness.Tokenizer
