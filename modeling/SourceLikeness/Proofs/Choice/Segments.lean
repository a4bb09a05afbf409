import SourceLikeness.Proofs.Braces.Pieces
import SourceLikeness.Proofs.Choice.Statement

/-!
# The pieces of a choice

* `Segment.sound_map` : the pieces are sound, whatever their order;
* `Choice.text_expression`, `Choice.text_branches` : the pieces make up the two texts;
* `Segment.quiet` : nothing in a piece is a lead; `Segment.lacks` : a text of such pieces lacks the leads;
* `Segment.Fits` : what stands directly behind a piece; `Segment.exists_before` : and so what stands before it.
-/

namespace SourceLikeness

namespace Lexeme

/-- Parts none of which starts with a word have no words that touch. -/
theorem apart_flatMap_of_head {ι : Type} {g : ι → List Lexeme} {as : List ι} (h : ∀ a ∈ as, Apart (g a))
    (hhead : ∀ a ∈ as, ∀ l ∈ (g a).head?, l.isWord = false) : Apart (as.flatMap g) := by
  have hfirst : ∀ {as : List ι}, (∀ a ∈ as, ∀ l ∈ (g a).head?, l.isWord = false) →
      ∀ l ∈ (as.flatMap g).head?, l.isWord = false := by
    intro as hhead l hl
    induction as with
    | nil => cases hl
    | cons a as ih =>
      obtain ⟨ha, has⟩ := List.forall_mem_cons.1 hhead
      rw [List.flatMap_cons] at hl
      cases hg : g a with
      | nil => exact ih has (by rwa [hg] at hl)
      | cons m ms =>
        rw [hg] at hl ha
        exact ha l hl
  induction as with
  | nil => exact List.isChain_nil
  | cons a as ih =>
    obtain ⟨ha, has⟩ := List.forall_mem_cons.1 h
    obtain ⟨-, hrest⟩ := List.forall_mem_cons.1 hhead
    rw [List.flatMap_cons]
    exact List.isChain_append.2 ⟨ha, ih has hrest, fun _ _ m hm => by rw [hfirst hrest m hm, Bool.and_false]⟩

end Lexeme

namespace Tokenizer
namespace Segment
open Lexeme (word sign Apart tightly)
open Item (keyword bracketed)
variable {x : Leads} {φ : Inks Role} {a b : Segment} {as bs : List Segment} {l : Lexeme}

/-! ## Soundness -/

theorem sound_keyword : ∀ w ∈ ["if", "else", "return"], (keyword w).Sound := by
  simp only [List.forall_mem_cons]
  exact ⟨⟨by decide, by decide⟩, ⟨by decide, by decide⟩, ⟨by decide, by decide⟩, List.forall_mem_nil _⟩

theorem sound_sign : ∀ c ∈ [' ', '(', ')', '=', ';', ':', '?', '\x7b', '\x7d'], (sign c).Sound := by
  have hall : ∀ c ∈ [' ', '(', ')', '=', ';', ':', '?', '\x7b', '\x7d'], Text.isAsciiWord c = false ∧ IsAscii c ∧ c ≠ '\n' := by
    decide
  exact hall

theorem sound_unary (m : Unary) : (sign m.char).Sound := by
  cases m <;> exact ⟨by decide, by decide, by decide⟩

theorem sound_piece (a : Segment) : ∀ l ∈ a.piece.lexemes untouched, l.Sound := by
  have hname : ∀ n : Name, (word n.chars).Sound := Name.isWord
  have hvalue := Value.sound
  have hcondition := Condition.sound
  have hunary := sound_unary
  have hkeywords := sound_keyword
  have hsigns := sound_sign
  simp only [List.forall_mem_cons] at hkeywords hsigns
  cases a with
  | openBrace spaced => cases spaced <;> simp [piece, Piece.lexemes, Ink.cover, hsigns]
  | ifHead c | condition c =>
    simpa [piece, Piece.lexemes, Ink.cover, bracketed, or_imp, forall_and, hkeywords, hsigns] using hcondition c
  | plain v | signed joins m v =>
    simpa [piece, Piece.lexemes, Ink.cover, or_imp, forall_and, hsigns, hunary] using hvalue v
  | _ => simp [piece, Piece.lexemes, Ink.cover, hkeywords, hsigns, hname]

theorem apart_piece (a : Segment) : Apart (a.piece.lexemes untouched) ∧ ∀ l ∈ (a.piece.lexemes untouched).head?, l.isWord = false := by
  cases a with
  | openBrace spaced => cases spaced <;> simp [piece, Piece.lexemes, Ink.cover, Lexeme.isWord]
  | ifHead c => simp [piece, Piece.lexemes, Ink.cover, bracketed, keyword, Lexeme.isWord, c.apart]
  | condition c => simp [piece, Piece.lexemes, Ink.cover, Lexeme.isWord, c.apart]
  | plain v | signed joins m v => simp [piece, Piece.lexemes, Ink.cover, Lexeme.isWord, v.apart]
  | _ => simp [piece, Piece.lexemes, Ink.cover, keyword, Lexeme.isWord]

/-- Pieces are sound in any order. -/
theorem sound_map (as : List Segment) : Piece.Sound (as.map piece) :=
  .of_flatMap (fun a _ => sound_piece a) (Lexeme.apart_flatMap_of_head (fun a _ => (apart_piece a).1) fun a _ => (apart_piece a).2)

/-! ## Texts -/

/-- The text of some pieces of which so much is done. -/
abbrev shown (φ : Inks Role) (as : List Segment) : List Char := Lexeme.text (Piece.page φ (as.map piece))

theorem shown_nil (φ : Inks Role) : shown φ [] = [] := rfl

theorem shown_cons (φ : Inks Role) (a : Segment) (as : List Segment) :
    shown φ (a :: as) = Lexeme.text (a.piece.lexemes φ) ++ shown φ as := Lexeme.text_append _ _

theorem shown_append (φ : Inks Role) (as bs : List Segment) : shown φ (as ++ bs) = shown φ as ++ shown φ bs := by
  rw [shown, List.map_append, Piece.page_append, Lexeme.text_append]

theorem chars_openBrace (spaced : Bool) : (openBrace spaced).chars = if spaced then " \x7b".toList else "\x7b".toList := by
  cases spaced <;> rfl

theorem chars_ifHead (c : Condition) : (ifHead c).chars = " if (".toList ++ c.text.toList ++ ") ".toList := by
  simp [chars, piece, Piece.lexemes, Ink.cover, keyword, Lexeme.chars, Item.text_bracketed, Condition.text_lexemes]

theorem chars_lead (carried : Bool) (use : Use) : (lead carried use).chars = " ".toList ++ use.text.toList := by
  cases use with
  | assign x => simp [lead, Use.text, chars, piece, Piece.lexemes, Ink.cover, Lexeme.chars, Name.chars]
  | give => rfl

theorem chars_condition (c : Condition) : (condition c).chars = " ".toList ++ c.text.toList ++ " ".toList := by
  simp [chars, piece, Piece.lexemes, Ink.cover, Lexeme.chars, Condition.text_lexemes]

theorem chars_operand (joins : Bool) (u : Operand) : (operand joins u).chars = " ".toList ++ u.text.toList := by
  obtain ⟨_ | m, v⟩ := u <;>
    simp [operand, Operand.text, chars, piece, Piece.lexemes, Ink.cover, Lexeme.chars, Value.text_lexemes]

end Segment

namespace Choice
open Segment

/-- The pieces of a conditional expression make up its text. -/
theorem text_expression (k : Choice) : Segment.shown untouched k.expressionSegments = k.expression.toList := by
  have hmarks : Segment.shown untouched k.openMarks = [] := rfl
  have hchars : ∀ a : Segment, Lexeme.text (a.piece.lexemes untouched) = a.chars := fun _ => rfl
  delta expression
  simp only [expressionSegments, List.cons_append, shown_nil, shown_cons, shown_append, hmarks, hchars, chars_openBrace, chars_lead,
    chars_condition, chars_operand, String.toList_append, List.append_assoc]
  rfl

/-- The pieces of a choice with `if` and `else` make up its text. -/
theorem text_branches (k : Choice) : Segment.shown untouched k.branchSegments = k.branches.toList := by
  have hchars : ∀ a : Segment, Lexeme.text (a.piece.lexemes untouched) = a.chars := fun _ => rfl
  delta branches
  simp only [branchSegments, block, List.cons_append, List.nil_append, shown_nil, shown_cons, hchars, chars_openBrace, chars_lead,
    chars_ifHead, chars_operand, String.toList_append, List.append_assoc]
  rfl

end Choice

namespace Segment
open Lexeme (word sign tightly)
open Item (keyword bracketed)
variable {x : Leads} {φ : Inks Role} {a b : Segment} {as bs : List Segment} {l : Lexeme}

/-! ## Pieces without leads -/

/-- The words and signs in the body of a piece that are not its names. -/
def fixedBody : Segment → List Lexeme
  | openBrace _ => [sign '\x7b']
  | closeBrace => [sign '\x7d']
  | ifHead _ => keyword "if" :: sign '(' :: sign ')' :: Condition.signs.map sign
  | elseWord => [keyword "else"]
  | target _ _ => [sign '=']
  | giveWord _ => [keyword "return"]
  | condition _ => Condition.signs.map sign
  | question => [sign '?']
  | colon => [sign ':']
  | signed _ m _ => [sign m.char]
  | _ => []

/-- The signs around the body of a piece. -/
def fixedAround : Segment → List Lexeme
  | openBrace false | condition _ | question | colon | mark _ => []
  | plain _ | signed _ _ _ => [sign ' ', sign '.']
  | semicolon => [sign ';']
  | _ => [sign ' ']

/-- What holds of names and of the signs of a body holds of the whole body. -/
theorem forall_mem_body {P : Lexeme → Prop} (hname : ∀ n : Name, P (word n.chars)) (h : ∀ l ∈ a.fixedBody, P l) :
    ∀ l ∈ a.piece.body, P l := by
  have hcondition : ∀ c : Condition, (∀ l ∈ Condition.signs.map sign, P l) → ∀ l ∈ c.lexemes, P l :=
    fun c hsigns => c.forall_mem_lexemes hname (List.forall_mem_map.1 hsigns)
  have hblank : sign ' ' ∈ Condition.signs.map sign := by decide
  cases a with
  | openBrace spaced => cases spaced <;> exact h
  | ifHead c =>
    simp only [fixedBody, List.forall_mem_cons] at h
    have hc := hcondition c h.2.2.2
    simp_all [piece, bracketed, or_imp]
  | condition c =>
    have hc := hcondition c h
    simp_all [piece, fixedBody, or_imp]
  | _ => exact h

/-- What holds of names and of the signs around a body holds of all that is around it. -/
theorem forall_mem_around {P : Lexeme → Prop} (hname : ∀ n : Name, P (word n.chars)) (h : ∀ l ∈ a.fixedAround, P l) :
    (∀ l ∈ a.piece.lead, P l) ∧ ∀ l ∈ a.piece.trail, P l := by
  cases a with
  | openBrace spaced => cases spaced <;> simp_all [piece, fixedAround]
  | plain v | signed joins m v =>
    have hv := v.forall_mem_lexemes hname (h _ (by simp [fixedAround]))
    simp_all [piece, fixedAround, or_imp]
  | _ => simp_all [piece, fixedAround]

/-- Nothing that is left to be read of a piece is a lead. -/
def quiet (x : Leads) (φ : Inks Role) (a : Segment) : Bool := Piece.quiet x (φ a.piece.role) a.fixedAround a.fixedBody

theorem not_leads_of_quiet (hx : Name.covers x = true) (h : a.quiet x φ = true) :
    ∀ l ∈ a.piece.lexemes φ, l.leads x = false :=
  Piece.not_leads_of_quiet (forall_mem_around fun n => n.not_leads hx) (forall_mem_body fun n => n.not_leads hx) h

/-- The inks are none of the signs that a word has to come behind. -/
def IsLoose (x : Leads) (φ : Inks Role) : Prop := ∀ r ink, φ r = some ink → ink.fill ∉ x.tight

/-- A word comes behind each parenthesis that opens and behind each sign of an operand. -/
theorem tightly_piece (hx : ∀ c ∈ x.tight, c ∈ ['(', '-', '*', '&']) (hφ : IsLoose x φ) (a : Segment) :
    tightly x (a.piece.lexemes φ) = true := by
  have hloose : ∀ c ∉ ['(', '-', '*', '&'], (sign c).isTight x = false := by
    intro c hc
    rw [Lexeme.isTight, ← Bool.not_eq_true, List.contains_iff_mem]
    exact fun hmem => hc (hx c hmem)
  have hname : ∀ n : Name, (word n.chars).isTight x = false := fun n => Lexeme.isTight_word x n.chars
  have hvalue : ∀ v : Value, ∀ l ∈ v.lexemes, l.isTight x = false :=
    fun v => v.forall_mem_lexemes hname (hloose '.' (by decide))
  have hcondition : ∀ c : Condition, ∀ l ∈ c.lexemes, l.isTight x = false := by
    have hsigns : ∀ b ∈ Condition.signs, b ∉ ['(', '-', '*', '&'] := by decide
    exact fun c => c.forall_mem_lexemes hname fun b hb => hloose b (hsigns b hb)
  have hcover : ∀ ink ls, (∃ r, φ r = some ink) → ∀ l ∈ Ink.cover (some ink) ls, l.isTight x = false := by
    rintro ink ls ⟨r, hr⟩ l hl
    obtain rfl := List.eq_of_mem_replicate hl
    rw [Lexeme.isTight, ← Bool.not_eq_true, List.contains_iff_mem]
    exact hφ r ink hr
  have haround : (∀ l ∈ a.piece.lead, l.isTight x = false) ∧ ∀ l ∈ a.piece.trail, l.isTight x = false := by
    refine forall_mem_around hname ?_
    cases a with
    | openBrace spaced => cases spaced <;> simp [fixedAround, hloose]
    | _ => simp [fixedAround, hloose]
  have hplain : (∀ l ∈ a.piece.body, l.isTight x = false) → tightly x (a.piece.lead ++ a.piece.body ++ a.piece.trail) = true :=
    fun hbody => Lexeme.tightly_append (Lexeme.tightly_append (Lexeme.tightly_of_forall haround.1)
      (Lexeme.tightly_of_forall hbody)) (Lexeme.tightly_of_forall haround.2)
  cases hink : φ a.piece.role with
  | some ink =>
    rw [Piece.lexemes, hink]
    exact Lexeme.tightly_append (Lexeme.tightly_append (Lexeme.tightly_of_forall haround.1)
      (Lexeme.tightly_of_forall (hcover ink _ ⟨_, hink⟩))) (Lexeme.tightly_of_forall haround.2)
  | none =>
    rw [Piece.lexemes, hink, Ink.cover, Option.elim_none]
    cases a with
    | ifHead c =>
      obtain ⟨n, ls, hn⟩ := c.exists_name
      have hafter : tightly x (c.lexemes ++ [sign ')', sign ' ']) = true := by
        refine Lexeme.tightly_append (Lexeme.tightly_of_forall (hcondition c)) (Lexeme.tightly_of_forall ?_)
        simp [hloose]
      rw [hn, List.cons_append] at hafter
      simp only [piece, bracketed, keyword, hn, List.cons_append, List.nil_append, List.append_assoc, List.append_nil]
      exact Lexeme.tightly_cons (hloose ' ' (by decide)) (Lexeme.tightly_cons rfl (Lexeme.tightly_cons (hloose ' ' (by decide))
        (Lexeme.tightly_sign_word hafter)))
    | signed joins m v =>
      exact Lexeme.tightly_cons (hloose ' ' (by decide)) (Lexeme.tightly_sign_word (Lexeme.tightly_of_forall (hvalue v)))
    | openBrace spaced => cases spaced <;> exact hplain (forall_mem_body hname (by simp [fixedBody, hloose]))
    | condition c => exact hplain (forall_mem_body hname (by simp [fixedBody, Condition.signs, hloose]))
    | _ => exact hplain (forall_mem_body hname (by simp [fixedBody, keyword, hloose, Lexeme.isTight_word]))

/-- A text of quiet pieces lacks the leads. -/
theorem lacks (hx : Name.covers x = true) (htight : ∀ c ∈ x.tight, c ∈ ['(', '-', '*', '&']) (hφ : Piece.IsDry φ)
    (hφ' : IsLoose x φ) (h : ∀ a ∈ as, a.quiet x φ = true) : x.Lacks (shown φ as) := by
  refine (sound_map as).lacks hφ (fun p hp => ?_) (fun p hp => ?_) (List.all_eq_true.2 fun c hc => ?_)
  · obtain ⟨a, ha, rfl⟩ := List.mem_map.1 hp
    exact not_leads_of_quiet hx (h a ha)
  · obtain ⟨a, -, rfl⟩ := List.mem_map.1 hp
    exact tightly_piece htight hφ' a
  · have hsigns : ∀ c ∈ ['(', '-', '*', '&'], (!Text.isAsciiWord c) = true := by decide
    exact hsigns c (htight c hc)

/-- A search finds nothing in a quiet piece. -/
theorem step_of_quiet {f : Finder} {s : List Char} {o : Nat} {wanted : Role → Bool} (hx : Name.covers x = true)
    (h : a.quiet x φ = true) (hwanted : wanted a.piece.role = false) : Piece.Step f s x φ wanted o a.piece :=
  Piece.step_of_not_leads hwanted (not_leads_of_quiet hx h)

/-! ## What stands next to a piece -/

def isBrace (spaced : Bool) : Segment → Bool
  | openBrace s => s == spaced
  | _ => false

/-- A value, whose sign joins or does not. -/
def isOperand (joins : Bool) : Segment → Bool
  | plain _ => true
  | signed j _ _ => j == joins
  | _ => false

/-- A mark, or a sign that a mark may stand in front of. -/
def isRest : Segment → Bool
  | mark _ | question | colon | semicolon => true
  | _ => false

/-- What may stand directly behind a piece, or at the start of a text. -/
def follows : Option Segment → Option Segment → Bool
  | some (ifHead _), b => b.any (isBrace false)
  | some elseWord, b => b.any (isBrace true)
  | some (target false _), b | some colon, b => b.any (isOperand false)
  | some (giveWord false), b | some question, b => b.any (isOperand true)
  | some gap, b | some (mark _), b => b.any isRest
  | _, b => b.all fun b => !b.isOperand true && !b.isOperand false

/-- Every piece has behind it what should be there. -/
def fitsBehind (a : Option Segment) : List Segment → Bool
  | [] => follows a none
  | b :: bs => follows a (some b) && fitsBehind (some b) bs

abbrev Fits (as : List Segment) : Prop := fitsBehind none as = true

theorem fitsBehind_of_suffix {c : Option Segment} (h : fitsBehind c as = true) (has : a :: bs <:+ as) :
    fitsBehind (some a) bs = true := by
  induction as generalizing c with
  | nil => exact absurd (List.suffix_nil.1 has) (List.cons_ne_nil a bs)
  | cons b as ih =>
    obtain ⟨-, h⟩ := Bool.and_eq_true_iff.1 h
    rcases List.suffix_cons_iff.1 has with heq | has
    · obtain ⟨rfl, rfl⟩ := List.cons.inj heq
      exact h
    · exact ih h has

theorem follows_of_suffix {c : Option Segment} (h : fitsBehind c as = true) (has : a :: bs <:+ as) :
    follows (some a) bs.head? = true := by
  have hbehind := fitsBehind_of_suffix h has
  cases bs with
  | nil => exact hbehind
  | cons b bs => exact (Bool.and_eq_true_iff.1 hbehind).1

/-- What stands before a value. -/
theorem exists_before {c : Option Segment} (h : fitsBehind c as = true) (has : a :: bs <:+ as) :
    (as = a :: bs ∧ follows c (some a) = true) ∨ ∃ cs d, as = cs ++ d :: a :: bs ∧ follows (some d) (some a) = true := by
  induction as generalizing c with
  | nil => exact absurd (List.suffix_nil.1 has) (List.cons_ne_nil a bs)
  | cons b as ih =>
    obtain ⟨hb, h⟩ := Bool.and_eq_true_iff.1 h
    rcases List.suffix_cons_iff.1 has with heq | has
    · obtain ⟨rfl, rfl⟩ := List.cons.inj heq
      exact Or.inl ⟨rfl, hb⟩
    · rcases ih h has with ⟨rfl, hfollows⟩ | ⟨cs, d, rfl, hfollows⟩
      · exact Or.inr ⟨[], b, rfl, hfollows⟩
      · exact Or.inr ⟨b :: cs, d, rfl, hfollows⟩

end Segment

namespace Choice
open Segment

theorem fits_expressionSegments (k : Choice) : Fits k.expressionSegments := by
  obtain ⟨l, op, r, ⟨_ | m, v⟩, ⟨_ | m', w⟩, x | _⟩ := k <;> rfl

theorem fits_branchSegments (k : Choice) : Fits k.branchSegments := by
  obtain ⟨l, op, r, ⟨_ | m, v⟩, ⟨_ | m', w⟩, x | _⟩ := k <;> rfl

end Choice
end Tokenizer
end SourceLikeness
