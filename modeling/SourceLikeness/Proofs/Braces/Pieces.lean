import SourceLikeness.Proofs.Braces.Header
import SourceLikeness.Proofs.Braces.Items
import SourceLikeness.Proofs.Piece.Passes

/-!
# Leads in pieces

Which pieces a pass can find anything in, and what stands behind a header.

* `Item.quiet` : nothing in a piece is a lead; `Item.lacks` : a text of such pieces lacks the leads;
* `Item.opens_next` : a statement or a block comes behind a header, whatever was written over it;
* `Item.not_if_next` : and no `if` behind a lone `else`.
-/

namespace SourceLikeness
open Lexeme (word sign spots)
open Text (isAsciiWord isBlank)

namespace Tokenizer

/-! ## Conditions in headers -/

theorem Condition.plain_text (c : Condition) : Plain c.text.toList := by
  have hsigns : ∀ a ∈ signs, plain.holds a = true := by decide
  intro a ha
  rw [← c.text_lexemes] at ha
  exact (mem_text ha).elim plain_of_isAsciiWord (hsigns a)

theorem Condition.close_not_mem (c : Condition) : ')' ∉ c.text.toList := by
  intro hmem
  rw [← c.text_lexemes] at hmem
  exact absurd (mem_text hmem) (by decide)

theorem Condition.text_ne_nil (c : Condition) : c.text.toList ≠ [] := by
  obtain ⟨n, ls, hn⟩ := c.exists_name
  rw [← c.text_lexemes, hn, Lexeme.text_cons]
  exact List.append_ne_nil_of_left_ne_nil n.isWord.1 _

theorem Name.plain_text (n : Name) : Plain n.text.toList := fun a ha => plain_of_isAsciiWord (n.isWord.2 a ha)

theorem Name.close_not_mem (n : Name) : ')' ∉ n.text.toList := fun h => absurd (n.isWord.2 _ h) (by decide)

theorem Value.plain_text (v : Value) : Plain v.text.toList := (Condition.value v).plain_text

namespace Item
variable {x : Leads} {φ : Inks Role} {a : Item} {as : List Item} {l : Lexeme} {s : List Char} {o : Nat}

/-! ## Pieces without leads -/

/-- The words and signs in the body of a piece that are not its names. -/
def fixedBody : Item → List Lexeme
  | whileHead _ => keyword "while" :: sign '(' :: sign ')' :: Condition.signs.map sign
  | forHead _ _ => [keyword "for", keyword "0", sign '(', sign ')', sign ';', sign '+'] ++ Condition.signs.map sign
  | ifHead false _ => keyword "if" :: sign '(' :: sign ')' :: Condition.signs.map sign
  | ifHead true _ => keyword "else" :: keyword "if" :: sign '(' :: sign ')' :: Condition.signs.map sign
  | elseWord => [keyword "else"]
  | doWord => [keyword "do"]
  | doTail _ => keyword "while" :: sign '(' :: sign ')' :: sign ';' :: Condition.signs.map sign
  | assign _ _ => [sign '=']
  | openMark | closeMark => []
  | openBrace => [sign '\x7b']
  | closeBrace => [sign '\x7d']

/-- The signs around the body of a piece. -/
def fixedAround : Item → List Lexeme
  | assign _ _ => [sign ' ', sign '.', sign ';']
  | openMark | closeMark => []
  | _ => [sign ' ']

/-- What holds of names and of the signs of a body holds of the whole body. -/
theorem forall_mem_body {P : Lexeme → Prop} (hname : ∀ n : Name, P (word n.chars)) (h : ∀ l ∈ a.fixedBody, P l) :
    ∀ l ∈ a.piece.body, P l := by
  have hcondition : ∀ c : Condition, (∀ l ∈ Condition.signs.map sign, P l) → ∀ l ∈ c.lexemes, P l :=
    fun c hsigns => c.forall_mem_lexemes hname (List.forall_mem_map.1 hsigns)
  have hblank : sign ' ' ∈ Condition.signs.map sign := by decide
  have hequals : sign '=' ∈ Condition.signs.map sign := by decide
  have hless : sign '<' ∈ Condition.signs.map sign := by decide
  cases a with
  | ifHead chained c =>
    cases chained with
    | false =>
      simp only [fixedBody, List.forall_mem_cons] at h
      have hc := hcondition c h.2.2.2
      simp_all [piece, bracketed, or_imp]
    | true =>
      simp only [fixedBody, List.forall_mem_cons] at h
      have hc := hcondition c h.2.2.2.2
      simp_all [piece, bracketed, or_imp]
  | whileHead c =>
    simp only [fixedBody, List.forall_mem_cons] at h
    have hc := hcondition c h.2.2.2
    simp_all [piece, bracketed, or_imp]
  | doTail c =>
    simp only [fixedBody, List.forall_mem_cons] at h
    have hc := hcondition c h.2.2.2.2
    simp_all [piece, bracketed, or_imp]
  | forHead i n =>
    simp only [fixedBody, List.forall_mem_cons, List.forall_mem_append] at h
    have hn := hcondition (.value n) h.2
    simp_all [piece, bracketed, counting, or_imp, Condition.lexemes]
  | _ => exact h

/-- What holds of names and of the signs around a body holds of all that is around it. -/
theorem forall_mem_around {P : Lexeme → Prop} (hname : ∀ n : Name, P (word n.chars)) (h : ∀ l ∈ a.fixedAround, P l) :
    (∀ l ∈ a.piece.lead, P l) ∧ ∀ l ∈ a.piece.trail, P l := by
  cases a with
  | ifHead chained c => cases chained <;> simp_all [piece, fixedAround]
  | assign v e =>
    have he := e.forall_mem_lexemes hname (h _ (by simp [fixedAround]))
    simp_all [piece, fixedAround, or_imp, forall_and]
  | _ => simp_all [piece, fixedAround]

/-- Nothing that is left to be read of a piece is a lead. -/
def quiet (x : Leads) (φ : Inks Role) (a : Item) : Bool := Piece.quiet x (φ a.piece.role) a.fixedAround a.fixedBody

theorem not_leads_of_quiet (hx : Name.covers x = true) (h : a.quiet x φ = true) :
    ∀ l ∈ a.piece.lexemes φ, l.leads x = false :=
  Piece.not_leads_of_quiet (forall_mem_around fun n => n.not_leads hx) (forall_mem_body fun n => n.not_leads hx) h

/-- A text of quiet pieces lacks the leads. -/
theorem lacks (hx : Name.covers x = true) (htight : x.tight = []) (h : ∀ a, quiet x φ a = true) (hφ : Piece.IsDry φ)
    (as : List Item) : x.Lacks (Lexeme.text (Piece.page φ (as.map piece))) := by
  refine (sound_map as).lacks hφ (fun p hp => ?_) (fun p _ => Lexeme.tightly_of_forall fun l _ => ?_) (by rw [htight]; rfl)
  · obtain ⟨a, -, rfl⟩ := List.mem_map.1 hp
    exact not_leads_of_quiet hx (h a)
  · cases l with
    | word w => rfl
    | sign c => simp [Lexeme.isTight, htight]

/-- A search finds nothing in a quiet piece. -/
theorem step_of_quiet {f : Finder} {wanted : Role → Bool} (hx : Name.covers x = true) (h : a.quiet x φ = true)
    (hwanted : wanted a.piece.role = false) : Piece.Step f s x φ wanted o a.piece :=
  Piece.step_of_not_leads hwanted (not_leads_of_quiet hx h)

/-- Nothing in parentheses behind a header is a lead if no sign is. -/
theorem not_leads_bracketed {ls : List Lexeme} {c : Char} (hx : x.signs = [] ∧ x.gaps = false) (h : ∀ l ∈ ls, l.leads x = false) :
    ∀ l ∈ bracketed ls ++ [sign c], l.leads x = false := by
  have hsign : ∀ d, (sign d).leads x = false := fun d => by simp [Lexeme.leads, hx]
  simpa [bracketed, or_imp, forall_and, hsign] using h

/-- Nothing between the parentheses of a `for` is a lead if no sign is. -/
theorem not_leads_counting (hcovers : Name.covers x = true) (hx : x.signs = [] ∧ x.gaps = false)
    (hzero : (keyword "0").leads x = false) (i : Name) (n : Value) : ∀ l ∈ Item.counting i n, l.leads x = false := by
  have hname : ∀ n : Name, (word n.chars).leads x = false := fun n => n.not_leads hcovers
  have hsign : ∀ c, (sign c).leads x = false := fun c => by simp [Lexeme.leads, hx]
  have hvalue := n.not_leads hcovers (hsign '.')
  simpa [Item.counting, or_imp, forall_and, hname, hsign, hzero] using hvalue

/-! ## What a header is followed by -/

/-- The first character of a piece that starts with its body. -/
theorem text_lexemes_of_body {b : Char} {v : List Char} (hlead : a.piece.lead = []) (hbody : Lexeme.text a.piece.body = b :: v) :
    ∃ v', Lexeme.text (a.piece.lexemes φ) = (Ink.cell (φ a.piece.role) b).char :: v' := by
  rw [Piece.lexemes, hlead, List.nil_append, Lexeme.text_append, Piece.text_cover, hbody]
  exact ⟨_, rfl⟩

/-- The inks are such that a header can stand before them. -/
def IsOpen (φ : Inks Role) : Prop := ∀ r ink, φ r = some ink → ink.fill = WorkingCopy.masked

theorem opens_of_body {b : Char} {v : List Char} (hφ : IsOpen φ) (hlead : a.piece.lead = [])
    (hbody : Lexeme.text a.piece.body = b :: v) (hb : openers.holds b = true) (hblank : isBlank b = false) (z : List Char) :
    Opens (Lexeme.text (a.piece.lexemes φ) ++ z) := by
  obtain ⟨v', hv'⟩ := text_lexemes_of_body (φ := φ) hlead hbody
  refine ⟨_, _, by rw [hv', List.cons_append], ?_⟩
  cases hink : φ a.piece.role with
  | none => exact ⟨hb, hblank⟩
  | some ink =>
    have hfill := hφ _ ink hink
    simp only [Ink.cell, Option.elim_some, hfill]
    decide

theorem text_assign (n : Name) (e : Value) (φ : Inks Role) :
    ∃ z, Lexeme.text ((assign n e).piece.lexemes φ) = n.chars ++ ' ' :: z := by
  simp only [piece, Piece.lexemes, Lexeme.text_append, Lexeme.text_cons, Lexeme.text_nil, List.append_assoc]
  exact ⟨_, rfl⟩

theorem opens_of_starts (hφ : IsOpen φ) (h : a.starts = true) (z : List Char) :
    Opens (Lexeme.text (a.piece.lexemes φ) ++ z) := by
  cases a with
  | ifHead chained c =>
    cases chained with
    | false => exact opens_of_body hφ rfl rfl (by decide) (by decide) z
    | true => exact Bool.noConfusion h
  | whileHead _ | forHead _ _ | doWord | openBrace => exact opens_of_body hφ rfl rfl (by decide) (by decide) z
  | assign v e =>
    obtain ⟨b, u, hu⟩ := List.exists_cons_of_ne_nil v.isWord.1
    have hb : isAsciiWord b = true := v.isWord.2 b (by rw [hu]; exact List.mem_cons_self)
    obtain ⟨v', hv'⟩ := text_assign v e φ
    refine ⟨b, u ++ ' ' :: v' ++ z, by rw [hv', hu]; rfl, ?_, Text.isBlank_eq_false_of_isAsciiWord hb⟩
    simp [CharSet.holds, CharSet.Entry.holds, Text.isWord_eq_isAsciiWord (Text.isAscii_of_isAsciiWord hb), hb]
  | _ => exact Bool.noConfusion h

/-- Marks leave nothing to be read. -/
theorem text_of_next (φ : Inks Role) (h : next as = some a) :
    ∃ z, Lexeme.text (Piece.page φ (as.map piece)) = Lexeme.text (a.piece.lexemes φ) ++ z := by
  induction as with
  | nil => cases h
  | cons b as ih =>
    rw [List.map_cons, Piece.page_cons, Lexeme.text_append]
    cases hb : b.isMark with
    | false =>
      have hfirst : next (b :: as) = some b := List.find?_cons_of_pos (by rw [hb]; rfl)
      obtain rfl := Option.some.inj (hfirst.symm.trans h)
      exact ⟨_, rfl⟩
    | true =>
      have hskip : next (b :: as) = next as := List.find?_cons_of_neg (by rw [hb]; exact Bool.false_ne_true)
      have hnil : Lexeme.text (b.piece.lexemes φ) = [] := by
        cases b with
        | openMark | closeMark =>
          rw [← List.length_eq_zero_iff, Piece.length_lexemes]
          rfl
        | _ => exact Bool.noConfusion hb
      rw [hskip] at h
      rw [hnil]
      exact ih h

theorem opens_next (hφ : IsOpen φ) (h : (next as).any starts = true) : Opens (Lexeme.text (Piece.page φ (as.map piece))) := by
  obtain ⟨b, hb, hstarts⟩ := (Option.any_eq_true _ _).1 h
  obtain ⟨z, htext⟩ := text_of_next φ hb
  rw [htext]
  exact opens_of_starts hφ hstarts z

/-- What stands behind a lone `else` is no `if`. -/
theorem not_if_next (hφ : IsOpen φ) (h : (next as).any (fun b => b.starts && !b.isIfHead) = true) (v : List Char)
    (hv : Lexeme.text (Piece.page φ (as.map piece)) = "if".toList ++ v) : v.head?.any isAsciiWord = true := by
  obtain ⟨b, hb, hstarts⟩ := (Option.any_eq_true _ _).1 h
  obtain ⟨z, htext⟩ := text_of_next φ hb
  rw [htext] at hv
  have hbody : ∀ {c : Char} {u : List Char}, b.piece.lead = [] → Lexeme.text b.piece.body = c :: u → c ≠ 'i' →
      v.head?.any isAsciiWord = true := by
    intro c u hlead hbody hc
    obtain ⟨v', hv'⟩ := text_lexemes_of_body (φ := φ) hlead hbody
    rw [hv', List.cons_append] at hv
    have hhead := (List.cons.inj hv).1
    cases hink : φ b.piece.role with
    | none =>
      rw [hink] at hhead
      exact absurd hhead hc
    | some ink =>
      have hfill := hφ _ ink hink
      simp only [hink, Ink.cell, Option.elim_some, hfill] at hhead
      exact absurd hhead (by decide)
  cases b with
  | whileHead _ | forHead _ _ | doWord | openBrace => exact hbody rfl rfl (by decide)
  | assign n e =>
    obtain ⟨z', hz'⟩ := text_assign n e φ
    rw [hz', List.append_assoc] at hv
    rcases hn : n.chars with _ | ⟨c₁, _ | ⟨c₂, rest⟩⟩
    · exact absurd hn n.isWord.1
    · rw [hn] at hv
      exact absurd (List.cons.inj (List.cons.inj hv).2).1 (by decide)
    · rw [hn, show "if".toList = ['i', 'f'] from rfl] at hv
      simp only [List.cons_append, List.nil_append, List.cons.injEq] at hv
      obtain ⟨rfl, rfl, hv⟩ := hv
      cases rest with
      | nil => exact absurd (by rw [hn]; decide) n.not_reserved
      | cons r rest =>
        rw [← hv]
        exact n.isWord.2 r (by rw [hn]; simp)
  | ifHead chained c => cases chained <;> exact Bool.noConfusion hstarts
  | _ => exact Bool.noConfusion hstarts

end Item
end Tokenizer
end SourceLikeness
