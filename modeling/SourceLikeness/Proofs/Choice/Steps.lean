import SourceLikeness.Proofs.Braces.Bodies
import SourceLikeness.Proofs.Braces.Steps
import SourceLikeness.Proofs.Choice.Signs

/-!
# The passes over the pieces of a choice

What each pass of the C family finds in the pieces of a choice, from the search for bodies on.

* `chosen`, …, `openBracesDone` : what has become of the pieces behind each pass that finds some;
* `bodies_shown` : all bodies are blocks;
* `steps_headers`, `steps_gives`, `steps_comparison`, `steps_initializers`, `steps_assigns`, `steps_openBraces`,
  `steps_closeBraces` : these passes find the pieces that they should, and nothing else.
-/

namespace SourceLikeness.Tokenizer.Segment
open Lexeme (word sign spots)
open Text (isAsciiWord isBlank)
open Finder (start)
open Item (keyword bracketed)
variable {φ : Inks Role} {a : Segment} {as bs : List Segment} {c : Condition} {s : List Char} {o : Nat}

/-! ## What has become of the pieces -/

/-- The pieces of a conditional expression are done with. -/
abbrev chosen : Inks Role :=
  (((untouched.add (· == .carried) ⟨WorkingCopy.masked, true⟩).add (· == .condition) ⟨WorkingCopy.masked, true⟩).add
    (· == .question) ⟨WorkingCopy.masked, true⟩).add (· == .colon) ⟨WorkingCopy.terminator, true⟩

abbrev headersDone : Inks Role := chosen.add (· == .header) ⟨WorkingCopy.masked, true⟩

abbrev givesDone : Inks Role := headersDone.add (· == .give) ⟨WorkingCopy.masked, true⟩

abbrev starsDone : Inks Role := givesDone.add (· == .unary .star true) ⟨WorkingCopy.operator, true⟩

abbrev minusesDone : Inks Role := starsDone.add (· == .unary .minus true) ⟨WorkingCopy.operator, true⟩

abbrev ampersandsDone : Inks Role := minusesDone.add (· == .unary .ampersand true) ⟨WorkingCopy.operator, true⟩

abbrev assignsDone : Inks Role := ampersandsDone.add (· == .assign) ⟨WorkingCopy.operator, true⟩

abbrev openBracesDone : Inks Role := assignsDone.add (· == .openBrace) ⟨WorkingCopy.masked, true⟩

open Piece (sound_masked sound_operator isDry_untouched)

theorem isDry_chosen : Piece.IsDry chosen :=
  (((Piece.IsDry.add isDry_untouched sound_masked).add sound_masked).add sound_masked).add ⟨by decide, by decide, by decide⟩

theorem isDry_headersDone : Piece.IsDry headersDone := Piece.IsDry.add isDry_chosen sound_masked

theorem isDry_givesDone : Piece.IsDry givesDone := Piece.IsDry.add isDry_headersDone sound_masked

theorem isDry_starsDone : Piece.IsDry starsDone := Piece.IsDry.add isDry_givesDone sound_operator

theorem isDry_minusesDone : Piece.IsDry minusesDone := Piece.IsDry.add isDry_starsDone sound_operator

theorem isDry_ampersandsDone : Piece.IsDry ampersandsDone := Piece.IsDry.add isDry_minusesDone sound_operator

theorem isDry_assignsDone : Piece.IsDry assignsDone := Piece.IsDry.add isDry_ampersandsDone sound_operator

theorem isDry_openBracesDone : Piece.IsDry openBracesDone := Piece.IsDry.add isDry_assignsDone sound_masked

/-! ## What comes next -/

theorem text_of_isBrace {spaced : Bool} {b : Segment} (hb : b.isBrace spaced = true) (hφ : φ .openBrace = none) :
    ∃ v, Lexeme.text (b.piece.lexemes φ) = (if spaced then " \x7b".toList else "\x7b".toList) ++ v := by
  cases b with
  | openBrace s =>
    obtain rfl := beq_iff_eq.1 hb
    cases s <;> exact ⟨[], by simp [piece, Piece.lexemes, hφ, Ink.cover, Lexeme.chars]⟩
  | _ => exact Bool.noConfusion hb

/-- A block comes behind a header. -/
theorem shown_of_isBrace {spaced : Bool} (h : bs.head?.any (isBrace spaced) = true) (hφ : φ .openBrace = none) :
    ∃ v, shown φ bs = (if spaced then " \x7b".toList else "\x7b".toList) ++ v := by
  obtain ⟨b, hb, hbrace⟩ := (Option.any_eq_true _ _).1 h
  obtain ⟨bs, rfl⟩ := List.head?_eq_some_iff.1 hb
  obtain ⟨v, hv⟩ := text_of_isBrace hbrace hφ
  exact ⟨v ++ shown φ bs, by rw [shown_cons, hv, List.append_assoc]⟩

/-- A value comes with the blank before it. -/
theorem shown_of_isOperand {joins : Bool} (h : bs.head?.any (isOperand joins) = true) :
    ∃ v, shown φ bs = ' ' :: v := by
  obtain ⟨b, hb, hoperand⟩ := (Option.any_eq_true _ _).1 h
  obtain ⟨bs, rfl⟩ := List.head?_eq_some_iff.1 hb
  rw [shown_cons]
  cases b with
  | plain v =>
    refine ⟨Lexeme.text v.lexemes ++ shown φ bs, ?_⟩
    cases hink : φ .still <;> simp [piece, Piece.lexemes, hink, Ink.cover, Lexeme.chars]
  | signed j m v => exact ⟨_, rfl⟩
  | _ => exact Bool.noConfusion hoperand

/-! ## Bodies -/

open Item (elseLeads headLeads headedToken)

theorem drop_ifHead (hs : Stands s o (Piece.page chosen ((ifHead c :: bs).map piece))) :
    s.drop (o + 1) = "if".toList ++ (" (".toList ++ c.text.toList ++ ')' :: ([' '] ++ shown chosen bs)) := by
  rw [← List.drop_drop, hs.text]
  simp [piece, Piece.lexemes, Ink.cover, Inks.add, Lexeme.chars, keyword, Item.text_bracketed, Condition.text_lexemes]

theorem drop_elseWord (hs : Stands s o (Piece.page chosen ((elseWord :: bs).map piece))) :
    s.drop (o + 1) = "else".toList ++ shown chosen bs := by
  rw [← List.drop_drop, hs.text]
  rfl

theorem lexemes_ifHead (c : Condition) :
    (ifHead c).piece.lexemes chosen = [sign ' '] ++ keyword "if" :: (bracketed c.lexemes ++ [sign ' ']) := by
  simp [piece, Piece.lexemes, Ink.cover, Inks.add]

/-- A block comes behind each `else`. -/
theorem steps_elseBody (h : Fits as) : Piece.Steps (Pattern.reader BareBody.elseBody) (shown chosen as) elseLeads chosen (fun _ => false) 0
    (as.map piece) := by
  refine Piece.steps_of_forall (sound_map as) isDry_chosen fun o a bs hbs hs _ => ?_
  have hquiet : ∀ {a : Segment}, a.quiet elseLeads chosen = true →
      Piece.Step (Pattern.reader BareBody.elseBody) (shown chosen as) elseLeads chosen (fun _ => false) o a.piece :=
    fun hq => step_of_quiet (by decide) hq rfl
  cases a with
  | elseWord =>
    obtain ⟨v, hv⟩ := shown_of_isBrace (φ := chosen) (follows_of_suffix h hbs) rfl
    have htext := drop_elseWord hs
    rw [hv] at htext
    exact Piece.step_of_spot_none [sign ' '] (keyword "else") [] rfl rfl (by decide) (by decide) (List.forall_mem_nil _)
      (elseBody_eq_none (u := [' ']) htext (by decide))
  | openBrace spaced => cases spaced <;> exact hquiet rfl
  | target carried x | giveWord carried => cases carried <;> exact hquiet rfl
  | signed joins m v => cases m <;> exact hquiet rfl
  | _ => exact hquiet rfl

/-- A block comes behind each header. -/
theorem sweeps_headed (h : Fits as) (hbs : a :: bs <:+ as) (hs : Stands (shown chosen as) o (Piece.page chosen ((a :: bs).map piece))) :
    Piece.Sweeps (Pattern.reader (Pattern.word BareBody.headed)) (shown chosen as) headLeads chosen piece
      (headedToken (shown chosen as)) (fun _ _ _ => []) o a bs := by
  have hquiet : ∀ {a : Segment}, a.quiet headLeads chosen = true →
      Piece.Sweeps (Pattern.reader (Pattern.word BareBody.headed)) (shown chosen as) headLeads chosen piece
        (headedToken (shown chosen as)) (fun _ _ _ => []) o a bs :=
    fun hq => Piece.sweeps_of_not_leads (not_leads_of_quiet (by decide) hq) rfl
  cases a with
  | ifHead c =>
    obtain ⟨v, hv⟩ := shown_of_isBrace (φ := chosen) (follows_of_suffix h hbs) rfl
    have htext := drop_ifHead hs
    have hcondition : ∀ l ∈ bracketed c.lexemes ++ [sign ' '], l.leads headLeads = false :=
      Item.not_leads_bracketed ⟨rfl, rfl⟩ (c.not_leads (by decide) (by decide))
    have hspots : spots headLeads o ((ifHead c).piece.lexemes chosen) = [o + 1] := by
      rw [lexemes_ifHead]
      exact Lexeme.spots_one (by decide) (by decide) hcondition o
    have hedge := hs.tail.atWordEdge ((sound_map as).isAscii isDry_chosen)
    have hheaded : "if" ∈ BareBody.headed := by decide
    refine Or.inr ⟨o + 1, hspots, Or.inr ⟨_, hitOf_headed hheaded htext hedge rfl, ?_, fun j hj => ?_⟩⟩
    · have hplain : Plain ("if (".toList ++ c.text.toList ++ ") ".toList) :=
        ((by decide : Plain "if (".toList).append c.plain_text).append (by decide)
      have happend : (shown chosen as).drop (o + 1) = ("if (".toList ++ c.text.toList ++ ") ".toList) ++ '\x7b' :: v := by
        rw [htext, hv]
        simp
      rw [headedToken, happend, headedBody_eq_none_of_brace hplain]
      rfl
    · have hle := Lexeme.le_of_mem_spots hj
      have hsize : 1 + "if".toList.length ≤ (ifHead c).piece.size := by
        have hkeyword : "if".toList.length ≤ (Lexeme.text (keyword "if" :: (bracketed c.lexemes ++ [sign ' ']))).length := by
          rw [Lexeme.text_cons, List.length_append]
          exact Nat.le_add_right _ _
        rw [← Piece.length_lexemes (φ := chosen), lexemes_ifHead, Lexeme.text_append, List.length_append]
        exact Nat.add_le_add_left hkeyword 1
      change o + 1 + "if".toList.length ≤ j
      omega
  | openBrace spaced => cases spaced <;> exact hquiet rfl
  | target carried x | giveWord carried => cases carried <;> exact hquiet rfl
  | signed joins m v => cases m <;> exact hquiet rfl
  | _ => exact hquiet rfl

/-- What the other searches for bodies need. -/
def bodyLeads : Leads := ⟨["do".toList, "for".toList], [], [], [], false⟩

theorem quiet_bodyLeads (a : Segment) : a.quiet bodyLeads chosen = true := by
  cases a with
  | openBrace spaced => cases spaced <;> rfl
  | target carried x | giveWord carried => cases carried <;> rfl
  | signed joins m v => cases m <;> rfl
  | _ => rfl

/-- All bodies are blocks. -/
theorem bodies_shown (h : Fits as) : BareBody.bodies (shown chosen as) = [] := by
  have hlacks : bodyLeads.Lacks (shown chosen as) :=
    lacks (by decide) (List.forall_mem_nil _) isDry_chosen (fun _ _ _ => List.not_mem_nil) fun a _ => quiet_bodyLeads a
  have helse : BareBody.elseBody.readings (shown chosen as) = [] := by
    have hhits := Piece.hits_eq_nil (T := []) (steps_elseBody h) (by decide) (by decide) (sound_map as) isDry_chosen
    rwa [Piece.text_work] at hhits
  have hdo : BareBody.doBody.readings (shown chosen as) = [] := readings_eq_nil (by decide) hlacks
  have hfor : BareBody.withoutHeaders (shown chosen as) = shown chosen as := by
    rw [BareBody.withoutHeaders, readings_eq_nil (p := BareBody.forHeader) (by decide) hlacks]
    rfl
  have hheaded : BareBody.headedBodies (shown chosen as) = [] :=
    (Piece.filterMap_hits (by decide) (by decide) (sound_map as) isDry_chosen fun o a bs hbs hs => sweeps_headed h hbs hs).trans
      (Piece.collect_eq_nil fun _ _ _ _ => rfl)
  rw [BareBody.bodies, helse, hdo, hfor, hheaded]
  rfl

/-! ## Headers and returns -/

def headerLeads : Leads := ⟨["if".toList, "else".toList], [], [], [], false⟩

theorem steps_headers (h : Fits as) :
    Piece.Steps { pattern := Header.cConditional } (shown chosen as) headerLeads chosen (· == .header) 0 (as.map piece) := by
  refine Piece.steps_of_forall (sound_map as) isDry_chosen fun o a bs hbs hs hascii => ?_
  have hquiet : ∀ {a : Segment}, a.quiet headerLeads chosen = true → (a.piece.role == Role.header) = false →
      Piece.Step { pattern := Header.cConditional } (shown chosen as) headerLeads chosen (· == .header) o a.piece :=
    fun hq hr => step_of_quiet (by decide) hq hr
  have hfollows := follows_of_suffix h hbs
  cases a with
  | ifHead c =>
    obtain ⟨v, hv⟩ := shown_of_isBrace (φ := chosen) hfollows rfl
    obtain ⟨hit, hhit, htoken⟩ := hitOf_if (drop_ifHead hs) (hs.tail.atWordEdge hascii) c.text_ne_nil c.plain_text c.close_not_mem
      ⟨_, _, hv, by decide, by decide⟩
    refine Piece.step_of_spot [sign ' '] (keyword "if") (bracketed c.lexemes ++ [sign ' ']) rfl rfl (lexemes_ifHead c) (by decide)
      (by decide) (Item.not_leads_bracketed ⟨rfl, rfl⟩ (c.not_leads (by decide) (by decide))) hhit ?_
    rw [htoken]
    simp [piece, Piece.span, Lexeme.chars, keyword, Item.text_bracketed, Condition.text_lexemes]
  | elseWord =>
    obtain ⟨v, hv⟩ := shown_of_isBrace (φ := chosen) hfollows rfl
    have htext : (shown chosen as).drop (o + 1) = "else".toList ++ ' ' :: '\x7b' :: v :=
      (drop_elseWord hs).trans (congrArg ("else".toList ++ ·) hv)
    obtain ⟨hit, hhit, htoken⟩ := hitOf_else htext (hs.tail.atWordEdge hascii) rfl
      (fun w hw => absurd (List.cons.inj hw).1 (by decide))
    exact Piece.step_of_spot [sign ' '] (keyword "else") [] rfl rfl rfl (by decide) (by decide) (List.forall_mem_nil _) hhit htoken
  | openBrace spaced => cases spaced <;> exact hquiet rfl rfl
  | target carried x | giveWord carried => cases carried <;> exact hquiet rfl rfl
  | signed joins m v => cases m <;> exact hquiet rfl rfl
  | _ => exact hquiet rfl rfl

def giveLeads : Leads := ⟨["return".toList], [], [], [], false⟩

theorem steps_gives (h : Fits as) :
    Piece.Steps { pattern := Pattern.word ["return"] } (shown headersDone as) giveLeads headersDone (· == .give) 0 (as.map piece) := by
  refine Piece.steps_of_forall (sound_map as) isDry_headersDone fun o a bs hbs hs hascii => ?_
  have hquiet : ∀ {a : Segment}, a.quiet giveLeads headersDone = true → (a.piece.role == Role.give) = false →
      Piece.Step { pattern := Pattern.word ["return"] } (shown headersDone as) giveLeads headersDone (· == .give) o a.piece :=
    fun hq hr => step_of_quiet (by decide) hq hr
  have hfollows := follows_of_suffix h hbs
  cases a with
  | giveWord carried =>
    cases carried with
    | true => exact hquiet rfl rfl
    | false =>
      obtain ⟨v, hv⟩ := shown_of_isOperand (φ := headersDone) hfollows
      have htext : (shown headersDone as).drop (o + 1) = "return".toList ++ ' ' :: v := by
        rw [← List.drop_drop, hs.text]
        exact congrArg ("return".toList ++ ·) hv
      obtain ⟨hit, hhit, htoken⟩ := hitOf_word "return" htext (hs.tail.atWordEdge hascii) rfl
      exact Piece.step_of_spot [sign ' '] (keyword "return") [] rfl rfl rfl (by decide) (by decide) (List.forall_mem_nil _) hhit htoken
  | openBrace spaced => cases spaced <;> exact hquiet rfl rfl
  | target carried x => cases carried <;> exact hquiet rfl rfl
  | signed joins m v => cases m <;> exact hquiet rfl rfl
  | _ => exact hquiet rfl rfl

/-! ## Assignments -/

/-- A value whose sign does not join starts behind its blank with something to be read, and with no brace. -/
theorem shown_of_assigned (h : bs.head?.any (isOperand false) = true) :
    ∃ b w, shown ampersandsDone bs = ' ' :: b :: w ∧ isBlank b = false ∧ b ≠ '\x7b' := by
  obtain ⟨b, hb, hoperand⟩ := (Option.any_eq_true _ _).1 h
  obtain ⟨bs, rfl⟩ := List.head?_eq_some_iff.1 hb
  cases b with
  | plain v =>
    obtain ⟨c, u, hu⟩ := List.exists_cons_of_ne_nil v.whole.isWord.1
    have hc : isAsciiWord c = true := v.whole.isWord.2 c (by rw [hu]; exact List.mem_cons_self)
    refine ⟨c, u ++ (Lexeme.text (v.fraction.elim [] fun n => [sign '.', word n.chars]) ++ shown ampersandsDone bs), ?_,
      Text.isBlank_eq_false_of_isAsciiWord hc, ?_⟩
    · rw [shown_cons, Piece.lexemes_of_none (p := (plain v).piece) rfl]
      simp [piece, Value.lexemes, hu, Lexeme.chars]
    · rintro rfl
      exact Bool.noConfusion hc
  | signed j m v =>
    obtain rfl := beq_iff_eq.1 hoperand
    cases m <;> exact ⟨_, _, rfl, by decide, by decide⟩
  | _ => exact Bool.noConfusion hoperand

/-- A search for equals signs looks at those that assign. -/
theorem steps_equals {f : Finder} {wanted : Role → Bool} (hconsumes : f.consumes = false) (hwanted : ∀ r, wanted r = true → r = .assign)
    (h : ∀ {s w : List Char} {o : Nat}, s.drop o = '=' :: ' ' :: w → (∃ b v, w = b :: v ∧ isBlank b = false ∧ b ≠ '\x7b') →
      Text.charBefore s o = some ' ' → if wanted .assign then ∃ h : Hit, f.hitOf (fun _ => true) s o = some h ∧ h.token = ⟨o, o + 1⟩
        else f.hitOf (fun _ => true) s o = none) (hfits : Fits as) :
    Piece.Steps f (shown ampersandsDone as) equalsLeads ampersandsDone wanted 0 (as.map piece) := by
  refine Piece.steps_of_forall (sound_map as) isDry_ampersandsDone fun o a bs hbs hs _ => ?_
  have hquiet : ∀ {a : Segment}, a.quiet equalsLeads ampersandsDone = true → a.piece.role ≠ .assign →
      Piece.Step f (shown ampersandsDone as) equalsLeads ampersandsDone wanted o a.piece :=
    fun hq hr => step_of_quiet (by decide) hq (by
      rw [← Bool.not_eq_true]
      exact fun hw => hr (hwanted _ hw))
  cases a with
  | target carried x =>
    cases carried with
    | true => exact hquiet rfl (fun h => by cases h)
    | false =>
      have hlexemes : (target false x).piece.lexemes ampersandsDone = [sign ' ', word x.chars, sign ' '] ++ sign '=' :: [] := rfl
      obtain ⟨b, w, hw, hblank, hbrace⟩ := shown_of_assigned (follows_of_suffix hfits hbs)
      rw [List.map_cons, Piece.page_cons, hlexemes, List.append_assoc] at hs
      have hdrop : (shown ampersandsDone as).drop (o + (Lexeme.text [sign ' ', word x.chars, sign ' ']).length) = '=' :: ' ' :: b :: w := by
        rw [hs.append.text, ← hw]
        rfl
      have hbefore : Text.charBefore (shown ampersandsDone as) (o + (Lexeme.text [sign ' ', word x.chars, sign ' ']).length) = some ' ' := by
        have hplace : o + (Lexeme.text [sign ' ', word x.chars, sign ' ']).length = o + 1 + x.chars.length + 1 := by
          simp [Lexeme.chars]
          omega
        rw [hplace]
        exact hs.tail.tail.getElem? (k := 0) Nat.one_pos
      have hlead : ∀ l ∈ [sign ' ', word x.chars, sign ' '], l.leads equalsLeads = false := by
        simp [Lexeme.leads, equalsLeads]
      have hhit := h hdrop ⟨b, w, rfl, hblank, hbrace⟩ hbefore
      split_ifs at hhit with hassign
      · obtain ⟨hit, hhit, htoken⟩ := hhit
        exact Piece.step_of_spot _ _ _ hassign hconsumes hlexemes hlead (by decide) (List.forall_mem_nil _) hhit htoken
      · rw [Bool.not_eq_true] at hassign
        exact Piece.step_of_spot_none _ _ _ hassign hlexemes hlead (by decide) (List.forall_mem_nil _) hhit
  | openBrace spaced => cases spaced <;> exact hquiet rfl (fun h => by cases h)
  | giveWord carried => cases carried <;> exact hquiet rfl (fun h => by cases h)
  | signed joins m v => cases joins <;> cases m <;> exact hquiet rfl (fun h => by cases h)
  | _ => exact hquiet rfl (fun h => by cases h)

theorem steps_comparison (h : Fits as) : Piece.Steps Operator.comparison (shown ampersandsDone as) equalsLeads ampersandsDone
    (fun _ => false) 0 (as.map piece) :=
  steps_equals rfl (fun _ h => Bool.noConfusion h) (by
    intro s w o hs _ _
    exact hitOf_comparison_eq_none hs) h

theorem steps_initializers (h : Fits as) : Piece.Steps Operator.initializer (shown ampersandsDone as) equalsLeads ampersandsDone
    (fun _ => false) 0 (as.map piece) :=
  steps_equals rfl (fun _ h => Bool.noConfusion h) (by
    intro s w o hs hw _
    exact hitOf_initializer_eq_none hs hw) h

theorem steps_assigns (h : Fits as) : Piece.Steps Operator.assignment (shown ampersandsDone as) equalsLeads ampersandsDone
    (· == .assign) 0 (as.map piece) :=
  steps_equals rfl (fun _ h => beq_iff_eq.1 h) (by
    intro s w o hs _ hbefore
    exact hitOf_assignment hs hbefore) h

/-! ## Braces -/

theorem steps_openBraces (as : List Segment) : Piece.Steps { pattern := Pattern.text "\x7b" } (shown assignsDone as) openLeads assignsDone
    (· == .openBrace) 0 (as.map piece) := by
  refine Piece.steps_of_forall (sound_map as) isDry_assignsDone fun o a bs _ hs _ => ?_
  have hquiet : ∀ {a : Segment}, a.quiet openLeads assignsDone = true → (a.piece.role == Role.openBrace) = false →
      Piece.Step { pattern := Pattern.text "\x7b" } (shown assignsDone as) openLeads assignsDone (· == .openBrace) o a.piece :=
    fun hq hr => step_of_quiet (by decide) hq hr
  cases a with
  | openBrace spaced =>
    cases spaced with
    | false =>
      exact Piece.step_of_spot [] (sign '\x7b') [] rfl rfl rfl (List.forall_mem_nil _) (by decide) (List.forall_mem_nil _)
        (hitOf_text hs.text) rfl
    | true =>
      have htext : (shown assignsDone as).drop (o + 1) = "\x7b".toList ++ shown assignsDone bs := by
        rw [← List.drop_drop, hs.text]
        rfl
      exact Piece.step_of_spot [sign ' '] (sign '\x7b') [] rfl rfl rfl (by decide) (by decide) (List.forall_mem_nil _)
        (hitOf_text htext) rfl
  | target carried x | giveWord carried => cases carried <;> exact hquiet rfl rfl
  | signed joins m v => cases joins <;> cases m <;> exact hquiet rfl rfl
  | _ => exact hquiet rfl rfl

theorem steps_closeBraces (as : List Segment) : Piece.Steps { pattern := Pattern.text "\x7d" } (shown openBracesDone as) closeLeads
    openBracesDone (· == .closeBrace) 0 (as.map piece) := by
  refine Piece.steps_of_forall (sound_map as) isDry_openBracesDone fun o a bs _ hs _ => ?_
  have hquiet : ∀ {a : Segment}, a.quiet closeLeads openBracesDone = true → (a.piece.role == Role.closeBrace) = false →
      Piece.Step { pattern := Pattern.text "\x7d" } (shown openBracesDone as) closeLeads openBracesDone (· == .closeBrace) o a.piece :=
    fun hq hr => step_of_quiet (by decide) hq hr
  cases a with
  | closeBrace =>
    have htext : (shown openBracesDone as).drop (o + 1) = "\x7d".toList ++ shown openBracesDone bs := by
      rw [← List.drop_drop, hs.text]
      rfl
    exact Piece.step_of_spot [sign ' '] (sign '\x7d') [] rfl rfl rfl (by decide) (by decide) (List.forall_mem_nil _)
      (hitOf_text htext) rfl
  | openBrace spaced => cases spaced <;> exact hquiet rfl rfl
  | target carried x | giveWord carried => cases carried <;> exact hquiet rfl rfl
  | signed joins m v => cases joins <;> cases m <;> exact hquiet rfl rfl
  | _ => exact hquiet rfl rfl

end SourceLikeness.Tokenizer.Segment
