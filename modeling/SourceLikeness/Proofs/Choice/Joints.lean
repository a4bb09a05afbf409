import SourceLikeness.Proofs.Choice.Steps

/-!
# The signs of a choice

Which signs the searches for operators find in the pieces of a choice: those behind something that reads as an operand.

* `Unary.Loose` : lexemes among which a search finds nothing; `Unary.hitOf_eq_none_of_loose` : it does not;
* `Segment.Ready` : what has become of the pieces when a search comes;
* `Segment.isOperand_charBefore` : whether an operand stands before a value;
* `Segment.steps_sign` : a search finds the signs that join, and nothing else.
-/

namespace SourceLikeness

namespace Tokenizer
open Lexeme (word sign spots)
open Text (isAsciiWord isBlank)

namespace Unary
variable {m : Unary} {l : Lexeme} {ls ms : List Lexeme} {next : Option Lexeme} {s : List Char} {o : Nat}

/-! ## Lexemes without signs that join -/

/-- What may stand behind a blank so that the search finds nothing there. -/
def settles (m : Unary) : Lexeme → Bool
  | word _ => true
  | sign c => !(isBlank c || m.signs.contains c)

/-- None of the lexemes is a sign, and something else than a sign comes behind each blank. -/
def Loose (m : Unary) (next : Option Lexeme) : List Lexeme → Prop
  | [] => True
  | l :: ls => (l.leads m.leads = true → l = sign ' ' ∧ (ls.head?.or next).all m.settles = true) ∧ Loose m next ls

theorem loose_of_not_leads (h : ∀ l ∈ ls, l.leads m.leads = false) : m.Loose next ls := by
  induction ls with
  | nil => trivial
  | cons l ls ih =>
    obtain ⟨hl, hls⟩ := List.forall_mem_cons.1 h
    exact ⟨fun h => Bool.noConfusion (hl.symm.trans h), ih hls⟩

theorem Loose.blank (h : m.Loose next ls) (hhead : (ls.head?.or next).all m.settles = true) : m.Loose next (sign ' ' :: ls) :=
  ⟨fun _ => ⟨rfl, hhead⟩, h⟩

theorem Loose.cons (h : m.Loose next ls) (hl : l.leads m.leads = false) : m.Loose next (l :: ls) :=
  ⟨fun h => Bool.noConfusion (hl.symm.trans h), h⟩

theorem not_isAsciiWord_of_mem {c : Char} (h : c ∈ m.signs) : isAsciiWord c = false := by
  have hall : ∀ c ∈ m.signs, isAsciiWord c = false := by cases m <;> decide
  exact hall c h

/-- What a lexeme that settles starts with. -/
theorem head_of_settles (hl : l.Sound) (h : m.settles l = true) :
    l.chars.head?.any (fun a => isBlank a || m.signs.contains a) = false := by
  cases l with
  | word w =>
    obtain ⟨b, w, rfl⟩ := List.exists_cons_of_ne_nil hl.1
    have hb := hl.2 b List.mem_cons_self
    change (isBlank b || m.signs.contains b) = false
    rw [Text.isBlank_eq_false_of_isAsciiWord hb, Bool.false_or, ← Bool.not_eq_true, List.contains_iff_mem]
    exact fun hmem => Bool.noConfusion (hb.symm.trans (not_isAsciiWord_of_mem hmem))
  | sign c => rwa [settles, Bool.not_eq_true'] at h

theorem hitOf_eq_none_of_loose (h : m.Loose ms.head? ls) (hs : Stands s o (ls ++ ms)) :
    ∀ i ∈ spots m.leads o ls, m.finder.hitOf (fun _ => true) s i = none := by
  induction ls generalizing o with
  | nil => exact fun i hi => absurd hi List.not_mem_nil
  | cons l ls ih =>
    intro i hi
    rcases List.mem_append.1 hi with hi | hi
    · split_ifs at hi with hlead
      swap
      · exact absurd hi List.not_mem_nil
      obtain rfl := List.mem_singleton.1 hi
      obtain ⟨rfl, hhead⟩ := h.1 hlead
      refine hitOf_eq_none_of_next hs.drop ?_
      change (Lexeme.text (ls ++ ms)).head?.any _ = false
      rw [← List.head?_append] at hhead
      have hsound : ∀ l ∈ ls ++ ms, l.Sound := hs.tail.sound
      cases hrest : ls ++ ms with
      | nil => rfl
      | cons k ks =>
        rw [hrest] at hhead hsound
        have hk := hsound k List.mem_cons_self
        rw [Lexeme.text_cons, List.head?_append_of_ne_nil _ (List.ne_nil_of_length_pos (Lexeme.length_pos hk))]
        exact head_of_settles hk hhead
    · exact ih h.2 hs.tail i hi

end Unary

namespace Segment
variable {m : Unary} {φ : Inks Role} {a b d : Segment} {as bs cs : List Segment} {s : List Char} {o : Nat}

/-! ## When the searches come -/

/-- What has become of the pieces when the search for a sign comes. -/
structure Ready (m : Unary) (φ : Inks Role) : Prop where
  done : ∀ r, (∀ m' joins, r ≠ .unary m' joins) → φ r = givesDone r
  own : ∀ joins, φ (.unary m joins) = none
  other : ∀ m' joins ink, φ (.unary m' joins) = some ink → ink.fill = WorkingCopy.operator

theorem ready_givesDone : Ready .star givesDone where
  done _ _ := rfl
  own _ := rfl
  other _ _ _ h := by cases h

theorem ready_starsDone : Ready .minus starsDone where
  done r hr := if_neg fun h => hr _ _ (beq_iff_eq.1 h)
  own _ := rfl
  other m' joins ink h := by
    cases m' <;> cases joins <;> first | (obtain rfl := Option.some.inj h; rfl) | cases h

theorem ready_minusesDone : Ready .ampersand minusesDone where
  done r hr := (if_neg fun h => hr _ _ (beq_iff_eq.1 h)).trans (if_neg fun h => hr _ _ (beq_iff_eq.1 h))
  own _ := rfl
  other m' joins ink h := by
    cases m' <;> cases joins <;> first | (obtain rfl := Option.some.inj h; rfl) | cases h

variable (hφ : Ready m φ)
include hφ

theorem Ready.isDry : Piece.IsDry φ := by
  intro r ink h
  by_cases hr : ∀ m' joins, r ≠ .unary m' joins
  · rw [hφ.done r hr] at h
    exact isDry_givesDone r ink h
  · simp only [not_forall, not_not] at hr
    obtain ⟨m', joins, rfl⟩ := hr
    rw [hφ.other m' joins ink h]
    exact Piece.sound_operator

/-- Behind a question mark and behind a `return` a sign joins, behind an equals sign and behind a colon it does not. -/
theorem isOperand_of_follows {joins : Bool} {m' : Unary} {v : Value} (h : follows (some d) (some (signed joins m' v)) = true) :
    ∃ c, (Lexeme.text (d.piece.lexemes φ)).getLast? = some c ∧ Operator.isOperand (some c) = joins := by
  have hnone : ∀ {p : Prop}, (Option.all (fun b => !isOperand true b && !isOperand false b) (some (signed joins m' v))) = true → p := by
    intro p h
    cases joins <;> exact Bool.noConfusion h
  have hjoins : ∀ {j : Bool}, (joins == j) = true → joins = j := fun h => beq_iff_eq.1 h
  have hgive : φ .give = some ⟨WorkingCopy.masked, true⟩ := hφ.done _ nofun
  have hassign : φ .assign = none := hφ.done _ nofun
  have hquestion : φ .question = some ⟨WorkingCopy.masked, true⟩ := hφ.done _ nofun
  have hcolon : φ .colon = some ⟨WorkingCopy.terminator, true⟩ := hφ.done _ nofun
  cases d with
  | target carried x =>
    cases carried with
    | true => exact hnone h
    | false =>
      obtain rfl := hjoins h
      have hlexemes : (target false x).piece.lexemes φ = [sign ' ', word x.chars, sign ' '] ++ [sign '='] :=
        Piece.lexemes_of_none hassign
      refine ⟨'=', ?_, rfl⟩
      rw [hlexemes, Lexeme.text_append]
      exact List.getLast?_concat
  | giveWord carried =>
    cases carried with
    | true => exact hnone h
    | false =>
      obtain rfl := hjoins h
      refine ⟨WorkingCopy.masked, ?_, by decide⟩
      rw [Piece.lexemes_of_some (p := (giveWord false).piece) hgive]
      rfl
  | question =>
    obtain rfl := hjoins h
    refine ⟨WorkingCopy.masked, ?_, by decide⟩
    rw [Piece.lexemes_of_some (p := question.piece) hquestion]
    rfl
  | colon =>
    obtain rfl := hjoins h
    refine ⟨WorkingCopy.terminator, ?_, by decide⟩
    rw [Piece.lexemes_of_some (p := colon.piece) hcolon]
    rfl
  | ifHead c => exact Bool.noConfusion h
  | elseWord => exact Bool.noConfusion h
  | gap => exact Bool.noConfusion h
  | mark c => exact Bool.noConfusion h
  | _ => exact hnone h

/-- What stands before a value. -/
theorem isOperand_charBefore {joins : Bool} {m' : Unary} {v : Value} (h : Fits as) (has : signed joins m' v :: bs <:+ as)
    (hs : Stands (shown φ as) o (Piece.page φ ((signed joins m' v :: bs).map piece))) :
    Operator.isOperand (Text.charBefore (shown φ as) o) = joins := by
  rcases exists_before h has with ⟨-, hfollows⟩ | ⟨cs, d, rfl, hfollows⟩
  · cases joins <;> exact Bool.noConfusion hfollows
  · obtain ⟨c, hc, hjoins⟩ := isOperand_of_follows hφ hfollows
    have htext : shown φ (cs ++ d :: signed joins m' v :: bs) = (shown φ cs ++ Lexeme.text (d.piece.lexemes φ)) ++
        Lexeme.text (Piece.page φ ((signed joins m' v :: bs).map piece)) := by
      rw [shown_append, shown_cons, List.append_assoc]
    have hne : Lexeme.text (Piece.page φ ((signed joins m' v :: bs).map piece)) ≠ [] := List.cons_ne_nil _ _
    rw [Text.charBefore_of_drop htext hs.text hne, List.getLast?_append, hc]
    exact hjoins

/-- What comes behind a gap settles. -/
theorem settles_of_rest (ha : ∀ c, follows (some a) c = c.any isRest) (h : fitsBehind (some a) bs = true) :
    (Piece.page φ (bs.map piece)).head?.all m.settles = true := by
  have hsigns : ∀ c ∈ ['.', ';'], m.settles (sign c) = true := by cases m <;> decide
  have hquestion : φ .question = some ⟨WorkingCopy.masked, true⟩ := hφ.done _ nofun
  have hcolon : φ .colon = some ⟨WorkingCopy.terminator, true⟩ := hφ.done _ nofun
  induction bs generalizing a with
  | nil => rfl
  | cons b bs ih =>
    obtain ⟨hb, h⟩ := Bool.and_eq_true_iff.1 h
    rw [ha] at hb
    rw [List.map_cons, Piece.page_cons]
    cases b with
    | mark category =>
      have hlexemes : (mark category).piece.lexemes φ = [] := by
        cases hink : φ (.mark category) with
        | none => exact Piece.lexemes_of_none hink
        | some ink => exact Piece.lexemes_of_some hink
      rw [hlexemes]
      exact ih (fun _ => rfl) h
    | question =>
      rw [Piece.lexemes_of_some (p := question.piece) hquestion]
      exact hsigns '.' (by decide)
    | colon =>
      rw [Piece.lexemes_of_some (p := colon.piece) hcolon]
      exact hsigns ';' (by decide)
    | semicolon =>
      have hstill : φ semicolon.piece.role = none := hφ.done _ nofun
      rw [Piece.lexemes_of_none hstill]
      exact hsigns ';' (by decide)
    | _ => exact Bool.noConfusion hb

/-! ## What the searches find -/

omit hφ

/-- The signs that no search looks for, and that do not go on a blank. -/
def stillSigns : List Char := ['\x7b', '\x7d', '=', ';', '.', WorkingCopy.operator]

theorem not_leads_of_stillSign : ∀ c ∈ stillSigns, (sign c).leads m.leads = false := by
  cases m <;> decide

theorem settles_of_stillSign : ∀ c ∈ stillSigns, m.settles (sign c) = true := by
  cases m <;> decide

/-- A search finds nothing in a piece whose body is done with. -/
theorem loose_filled {p : Piece Role} {ink : Ink} {next : Option Lexeme} (hink : φ p.role = some ink) (hfill : ink.fill ∈ stillSigns)
    (hlead : p.lead = [] ∨ p.lead = [sign ' '] ∧ Lexeme.text p.body ≠ []) (htrail : p.trail = []) :
    m.Loose next (p.lexemes φ) := by
  have hbody : m.Loose next (List.replicate (Lexeme.text p.body).length (sign ink.fill)) :=
    Unary.loose_of_not_leads fun l hl => by
      obtain rfl := List.eq_of_mem_replicate hl
      exact not_leads_of_stillSign _ hfill
  rw [Piece.lexemes_of_some hink, htrail, List.append_nil]
  rcases hlead with hlead | ⟨hlead, hne⟩
  · rwa [hlead, List.nil_append]
  · obtain ⟨n, hn⟩ := Nat.exists_eq_succ_of_ne_zero fun h => hne (List.length_eq_zero_iff.1 h)
    rw [hlead]
    refine hbody.blank ?_
    rw [hn, List.replicate_succ]
    exact settles_of_stillSign _ hfill

include hφ

/-- A search finds nothing in a piece that has none of its signs. -/
theorem loose_piece {next : Option Lexeme} (ha : ∀ joins v, a ≠ signed joins m v)
    (hnext : (∀ c, follows (some a) c = c.any isRest) → next.all m.settles = true) : m.Loose next (a.piece.lexemes φ) := by
  have hone : ∀ {c : Char}, c ∈ stillSigns → m.Loose next [sign c] :=
    fun hc => Unary.loose_of_not_leads (List.forall_mem_singleton.2 (not_leads_of_stillSign _ hc))
  have hblank : ∀ {c : Char}, c ∈ stillSigns → m.Loose next [sign ' ', sign c] :=
    fun hc => (hone hc).blank (settles_of_stillSign _ hc)
  have hvalue : ∀ v : Value, ∀ l ∈ v.lexemes, l.leads m.leads = false := fun v =>
    v.not_leads rfl (not_leads_of_stillSign '.' (by decide))
  have hdone : ∀ {a : Segment}, (∀ m' joins, a.piece.role ≠ .unary m' joins) → φ a.piece.role = givesDone a.piece.role :=
    fun hr => hφ.done _ hr
  cases a with
  | openBrace spaced =>
    cases spaced with
    | false =>
      rw [Piece.lexemes_of_none (p := (openBrace false).piece) (hdone nofun)]
      exact hone (by decide)
    | true =>
      rw [Piece.lexemes_of_none (p := (openBrace true).piece) (hdone nofun)]
      exact hblank (by decide)
  | closeBrace =>
    rw [Piece.lexemes_of_none (p := closeBrace.piece) (hdone nofun)]
    exact hblank (by decide)
  | ifHead c =>
    exact loose_filled (p := (ifHead c).piece) (hdone nofun) (by decide) (Or.inr ⟨rfl, List.cons_ne_nil _ _⟩) rfl
  | elseWord =>
    exact loose_filled (p := elseWord.piece) (hdone nofun) (by decide) (Or.inr ⟨rfl, List.cons_ne_nil _ _⟩) rfl
  | target carried x =>
    cases carried with
    | false =>
      rw [Piece.lexemes_of_none (p := (target false x).piece) (hdone nofun)]
      exact ((hblank (by decide)).cons rfl).blank rfl
    | true =>
      rw [Piece.lexemes_of_some (p := (target true x).piece) (hdone nofun)]
      exact ((hblank (by decide)).cons rfl).blank rfl
  | giveWord carried =>
    cases carried with
    | false => exact loose_filled (p := (giveWord false).piece) (hdone nofun) (by decide) (Or.inr ⟨rfl, List.cons_ne_nil _ _⟩) rfl
    | true => exact loose_filled (p := (giveWord true).piece) (hdone nofun) (by decide) (Or.inr ⟨rfl, List.cons_ne_nil _ _⟩) rfl
  | condition c => exact loose_filled (p := (condition c).piece) (hdone nofun) (by decide) (Or.inl rfl) rfl
  | question =>
    rw [Piece.lexemes_of_some (p := question.piece) (hdone nofun)]
    exact hone (by decide)
  | gap =>
    rw [Piece.lexemes_of_none (p := gap.piece) (hdone nofun)]
    exact Unary.Loose.blank trivial (hnext fun _ => rfl)
  | colon =>
    rw [Piece.lexemes_of_some (p := colon.piece) (hdone nofun)]
    exact hone (by decide)
  | plain v =>
    rw [Piece.lexemes_of_none (p := (plain v).piece) (hdone nofun)]
    change m.Loose next (_ ++ [] ++ [])
    rw [List.append_nil, List.append_nil]
    exact (Unary.loose_of_not_leads (hvalue v)).blank rfl
  | signed joins m' v =>
    have hm : m' ≠ m := fun h => ha joins v (by rw [h])
    have hrest : ∀ c, (sign c).leads m.leads = false → m.settles (sign c) = true →
        m.Loose next ([sign ' '] ++ [sign c] ++ v.lexemes) :=
      fun c hc hc' => ((Unary.loose_of_not_leads (hvalue v)).cons hc).blank hc'
    cases hink : φ (signed joins m' v).piece.role with
    | none =>
      rw [Piece.lexemes_of_none hink]
      refine hrest _ ?_ ?_
      all_goals cases m <;> cases m' <;> first | rfl | exact absurd rfl hm
    | some ink =>
      rw [Piece.lexemes_of_some hink, hφ.other m' joins ink hink]
      exact hrest _ (not_leads_of_stillSign _ (by decide)) (settles_of_stillSign _ (by decide))
  | semicolon =>
    rw [Piece.lexemes_of_none (p := semicolon.piece) (hdone nofun)]
    exact hone (by decide)
  | mark category =>
    cases hink : φ (mark category).piece.role with
    | none => exact (Piece.lexemes_of_none hink).symm ▸ trivial
    | some ink => exact (Piece.lexemes_of_some hink).symm ▸ trivial

/-- A search finds the signs that join, and nothing else. -/
theorem steps_sign (h : Fits as) : Piece.Steps m.finder (shown φ as) m.leads φ (· == .unary m true) 0 (as.map piece) := by
  refine Piece.steps_of_forall (sound_map as) hφ.isDry fun o a bs hbs hs _ => ?_
  by_cases ha : ∃ joins v, a = signed joins m v
  · obtain ⟨joins, v, rfl⟩ := ha
    have hlexemes : (signed joins m v).piece.lexemes φ = sign ' ' :: sign m.char :: v.lexemes :=
      Piece.lexemes_of_none (hφ.own joins)
    have hblank : (sign ' ').leads m.leads = true := by cases m <;> rfl
    have hchar : (sign m.char).leads m.leads = true := by cases m <;> decide
    have hspots : spots m.leads o ((signed joins m v).piece.lexemes φ) = [o, o + 1] := by
      have hvalue := v.not_leads (x := m.leads) rfl (by cases m <;> decide)
      rw [hlexemes, spots, spots, hblank, hchar, Lexeme.spots_eq_nil hvalue]
      rfl
    have hdrop : (shown φ as).drop o = ' ' :: m.char :: (Lexeme.text v.lexemes ++ shown φ bs) := by
      rw [hs.text, List.map_cons, Piece.page_cons, hlexemes, Lexeme.text_append]
      rfl
    have hbefore := isOperand_charBefore hφ h hbs hs
    cases joins with
    | true =>
      have hword : (Lexeme.text v.lexemes ++ shown φ bs).head?.any isAsciiWord = true := by
        obtain ⟨b, u, hu⟩ := List.exists_cons_of_ne_nil v.whole.isWord.1
        rw [Value.lexemes, hu]
        exact v.whole.isWord.2 b (by rw [hu]; exact List.mem_cons_self)
      obtain ⟨hit, hhit, htoken⟩ := Unary.hitOf_sign hdrop hword hbefore
      have hresume : m.finder.resume hit = o + 2 := by
        cases m <;> exact congrArg Span.stop htoken
      refine Piece.step_of_hit [] o [o + 1] (beq_self_eq_true _) hspots (List.forall_mem_nil _) (Nat.le_refl o) hhit htoken
        (List.forall_mem_singleton.2 ?_) ?_
      · rw [hresume]
        exact Nat.lt_succ_self _
      · rw [hresume]
        exact Nat.add_le_add_left (Nat.le_add_right 2 _) o
    | false =>
      have hrole : (signed false m v).piece.role ≠ .unary m true := by
        rintro ⟨⟩
      refine Piece.step_of_none (beq_false_of_ne hrole) fun i hi => ?_
      rw [hspots] at hi
      have hafter : Text.charBefore (shown φ as) (o + 1) = some ' ' := by
        rw [List.map_cons, Piece.page_cons, hlexemes] at hs
        exact hs.getElem? (k := 0) Nat.one_pos
      refine hitOf_eq_none_of_before ?_
      rw [Unary.before_finder]
      rcases List.mem_cons.1 hi with rfl | hi
      · exact hbefore
      · obtain rfl := List.mem_singleton.1 hi
        rw [hafter]
        rfl
  · have hother : ∀ joins v, a ≠ signed joins m v := fun joins v h => ha ⟨joins, v, h⟩
    refine Piece.step_of_none ?_ (Unary.hitOf_eq_none_of_loose (loose_piece hφ hother fun hrest => ?_) hs)
    · rw [← Bool.not_eq_true, beq_iff_eq]
      intro hr
      cases a with
      | openBrace spaced => cases spaced <;> cases hr
      | target carried x | giveWord carried => cases carried <;> cases hr
      | signed joins m' v =>
        cases hr
        exact hother _ _ rfl
      | _ => cases hr
    · exact settles_of_rest hφ hrest (fitsBehind_of_suffix h hbs)

end Segment
end Tokenizer
end SourceLikeness
