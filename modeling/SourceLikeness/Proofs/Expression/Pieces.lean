import SourceLikeness.Proofs.Choice.Segments
import SourceLikeness.Proofs.Expression.Statement

/-!
# The pieces of a statement with an expression

* `Formula.sound_chunks` : the pieces are sound; `Formula.remains_chunks` : they make up the text;
* `Chunk.follows` : what stands directly behind a piece; `Formula.follows_next`, `Formula.follows_before` : and so what
  stands on both sides of it;
* `Chunk.quiet` : pieces without leads; `Chunk.quiet_of_signs` : those of which neither the signs nor the fill are leads.
-/

namespace SourceLikeness.Tokenizer
open Lexeme (word sign Apart)
open Item (keyword)

namespace Chunk
open Lexeme (spots)
variable {x : Leads} {φ : Inks Role} {a b : Chunk} {as bs : List Chunk} {l : Lexeme}

/-! ## Lexemes -/

/-- The signs of the text. -/
def signs : List Char := " =;.<>!&|^+-*/%~".toList

theorem char_mem_signs (f : Front) : f.char ∈ signs := by
  rcases f with m | _ | _
  · cases m <;> decide
  all_goals decide

theorem mem_signs_of_binary {op : Binary} {c : Char} (hc : c ∈ op.text.toList) : c ∈ signs := by
  have hall : ∀ c ∈ op.text.toList, c ∈ signs := by cases op <;> decide
  exact hall c hc

/-- The signs around the body of a piece. -/
def around : Chunk → List Char
  | plain _ | front _ _ _ => [' ', '.']
  | giveWord | angle false _ => []
  | semicolon => [';']
  | _ => [' ']

theorem mem_signs_of_around {c : Char} (hc : c ∈ a.around) : c ∈ signs := by
  have hall : a.around.all signs.contains = true := by
    cases a with
    | angle spaced left => cases spaced <;> rfl
    | _ => rfl
  exact List.contains_iff_mem.1 (List.all_eq_true.1 hall c hc)

/-- What holds of names and of the signs around a body holds of all that is around it. -/
theorem forall_mem_around {P : Lexeme → Prop} (hname : ∀ n : Name, P (word n.chars)) (h : ∀ l ∈ a.around.map sign, P l) :
    (∀ l ∈ a.piece.lead, P l) ∧ ∀ l ∈ a.piece.trail, P l := by
  cases a with
  | angle spaced left => cases spaced <;> simp_all [piece, around]
  | plain v | front f joins v =>
    have hv := v.forall_mem_lexemes hname (h _ (by simp [around]))
    simp_all [piece, around, or_imp]
  | _ => simp_all [piece, around]

/-- What is left to be read of the body of a piece is some of the signs of the text, or a `return`. -/
theorem forall_mem_body {P : Lexeme → Prop} (hsigns : ∀ c ∈ signs, P (sign c)) (hgive : a = giveWord → P (keyword "return")) :
    ∀ l ∈ a.piece.body, P l := by
  cases a with
  | giveWord => exact List.forall_mem_singleton.2 (hgive rfl)
  | target x => exact List.forall_mem_singleton.2 (hsigns '=' (by decide))
  | front f joins v => exact List.forall_mem_singleton.2 (hsigns _ (char_mem_signs f))
  | angle spaced left => cases left <;> exact List.forall_mem_singleton.2 (hsigns _ (by decide))
  | binary op seen =>
    intro l hl
    obtain ⟨c, hc, rfl⟩ := List.mem_map.1 hl
    exact hsigns c (mem_signs_of_binary hc)
  | _ => exact List.forall_mem_nil _

/-! ## Pieces without leads -/

/-- Nothing that is left to be read of a piece is a lead. -/
def quiet (x : Leads) (φ : Inks Role) (a : Chunk) : Bool := Piece.quiet x (φ a.piece.role) (a.around.map sign) a.piece.body

theorem not_leads_of_quiet (hx : Name.covers x = true) (h : a.quiet x φ = true) : ∀ l ∈ a.piece.lexemes φ, l.leads x = false :=
  Piece.not_leads_of_quiet (forall_mem_around fun n => n.not_leads hx) id h

/-- A piece is quiet if neither the signs of the text nor what it was filled with are leads. -/
theorem quiet_of_signs (hsigns : signs.all (fun c => !(sign c).leads x) = true)
    (hgive : φ .give = none → (keyword "return").leads x = false)
    (hink : ∀ ink, φ a.piece.role = some ink → (sign ink.fill).leads x = false) : a.quiet x φ = true := by
  have hall : ∀ c ∈ signs, (!(sign c).leads x) = true := List.all_eq_true.1 hsigns
  refine Bool.and_eq_true_iff.2 ⟨List.all_eq_true.2 fun l hl => ?_, ?_⟩
  · obtain ⟨c, hc, rfl⟩ := List.mem_map.1 hl
    exact hall c (mem_signs_of_around hc)
  · cases hrole : φ a.piece.role with
    | some ink =>
      rw [Option.elim_some, hink ink hrole]
      rfl
    | none =>
      refine List.all_eq_true.2 (forall_mem_body hall ?_)
      rintro rfl
      rw [hgive hrole]
      rfl

/-- A search finds nothing in a quiet piece. -/
theorem step_of_quiet {f : Finder} {s : List Char} {o : Nat} {wanted : Role → Bool} (hx : Name.covers x = true)
    (h : a.quiet x φ = true) (hwanted : wanted a.piece.role = false) : Piece.Step f s x φ wanted o a.piece :=
  Piece.step_of_not_leads hwanted (not_leads_of_quiet hx h)

/-! ## Soundness -/

theorem sound_piece (a : Chunk) : ∀ l ∈ a.piece.lexemes untouched, l.Sound := by
  have hsigns : ∀ c ∈ signs, Text.isAsciiWord c = false ∧ IsAscii c ∧ c ≠ '\n' := by decide
  have haround : ∀ l ∈ a.around.map sign, l.Sound := fun l hl => by
    obtain ⟨c, hc, rfl⟩ := List.mem_map.1 hl
    exact hsigns c (mem_signs_of_around hc)
  obtain ⟨hlead, htrail⟩ := forall_mem_around Name.isWord haround
  rw [Piece.lexemes_of_none rfl, List.forall_mem_append, List.forall_mem_append]
  exact ⟨⟨hlead, forall_mem_body hsigns fun _ => ⟨by decide, by decide⟩⟩, htrail⟩

theorem apart_signs (cs : List Char) : Apart (cs.map sign) := by
  induction cs with
  | nil => exact List.isChain_nil
  | cons c cs ih => exact Lexeme.apart_sign_cons.2 ih

/-- The pieces behind the first one start with a sign. -/
def isInner : Chunk → Bool
  | target _ | giveWord => false
  | _ => true

theorem apart_piece (a : Chunk) : Apart (a.piece.lexemes untouched) := by
  cases a with
  | angle spaced left => cases spaced <;> simp [piece, Piece.lexemes, Ink.cover]
  | plain v | front f joins v => simp [piece, Piece.lexemes, Ink.cover, v.apart]
  | binary op seen => simp [piece, Piece.lexemes, Ink.cover, apart_signs]
  | _ => simp [piece, Piece.lexemes, Ink.cover, keyword]

theorem head_of_isInner (h : a.isInner = true) : ∀ l ∈ (a.piece.lexemes untouched).head?, l.isWord = false := by
  cases a with
  | target _ | giveWord => cases h
  | angle spaced left => cases spaced <;> simp [piece, Piece.lexemes, Ink.cover, Lexeme.isWord]
  | _ => simp [piece, Piece.lexemes, Ink.cover, Lexeme.isWord]

/-! ## What comes next -/

/-- A value, whose sign joins or does not. -/
def isTerm (joins : Bool) : Chunk → Bool
  | plain _ => true
  | front _ j _ => j == joins
  | _ => false

/-- What may stand behind a value. -/
def isJoint : Chunk → Bool
  | binary _ _ | angle true _ | semicolon => true
  | _ => false

/-- Whether an operator on bits is found in front of the value. -/
def settles : Chunk → Bool
  | plain _ => true
  | front f _ _ => f == .complement
  | _ => false

/-- What stands directly behind a piece, or at the start of the text. -/
def follows : Option Chunk → Option Chunk → Bool
  | none, b => b.any fun b => !b.isInner
  | some (target _), b => b.any (isTerm false)
  | some giveWord, b => b.any (isTerm true)
  | some (plain _), b | some (front _ _ _), b => b.any isJoint
  | some (binary op seen), b =>
    b.any fun b => b.isTerm false && (seen == (!op.onBits || b.settles)) && (seen || !op.isShift)
  | some (angle true left), b => b.any fun | angle false l => l == left | _ => false
  | some (angle false _), b => b.any fun b => b.isTerm false && !b.settles
  | some semicolon, b => b.isNone

theorem isTerm_term (joins : Bool) (u : Term) : (term joins u).isTerm joins = true := by
  obtain ⟨_ | f, v⟩ := u
  · rfl
  · exact beq_self_eq_true joins

theorem settles_term (joins : Bool) (u : Term) : (term joins u).settles = u.settles := by
  obtain ⟨_ | f, v⟩ := u <;> rfl

theorem follows_of_isTerm {joins : Bool} (ha : a.isTerm joins = true) (b : Option Chunk) :
    follows (some a) b = b.any isJoint := by
  cases a with
  | plain v => rfl
  | front f j v => rfl
  | _ => cases ha

/-! ## Texts -/

/-- The text of some pieces of which so much is done. -/
abbrev remains (φ : Inks Role) (as : List Chunk) : List Char := Lexeme.text (Piece.page φ (as.map piece))

theorem remains_nil (φ : Inks Role) : remains φ [] = [] := rfl

theorem remains_cons (φ : Inks Role) (a : Chunk) (as : List Chunk) :
    remains φ (a :: as) = Lexeme.text (a.piece.lexemes φ) ++ remains φ as := Lexeme.text_append _ _

theorem remains_append (φ : Inks Role) (as bs : List Chunk) : remains φ (as ++ bs) = remains φ as ++ remains φ bs := by
  rw [remains, List.map_append, Piece.page_append, Lexeme.text_append]

theorem text_signs (cs : List Char) : Lexeme.text (cs.map sign) = cs := by
  induction cs with
  | nil => rfl
  | cons c cs ih => exact congrArg (c :: ·) ih

theorem text_binary {op : Binary} {seen : Bool} (h : φ (op.role seen) = none) :
    Lexeme.text ((binary op seen).piece.lexemes φ) = ' ' :: op.text.toList := by
  rw [Piece.lexemes_of_none (p := (binary op seen).piece) h]
  simp [piece, Lexeme.chars, text_signs]

theorem text_term {joins : Bool} {u : Term} (h : ∀ r, r ≠ .give → φ r = none) :
    Lexeme.text ((term joins u).piece.lexemes φ) = ' ' :: u.text.toList := by
  obtain ⟨_ | f, v⟩ := u
  · rw [term, Piece.lexemes_of_none (p := (plain v).piece) (h _ nofun)]
    simp [piece, Lexeme.chars, Term.text, Value.text_lexemes]
  · have hrole : f.role joins ≠ .give := by
      rcases f with m | _ | _ <;> cases joins <;> rintro ⟨⟩
    rw [term, Piece.lexemes_of_none (p := (front f joins v).piece) (h _ hrole)]
    simp [piece, Lexeme.chars, Term.text, Value.text_lexemes]

theorem role_ne_give (op : Binary) (seen : Bool) : op.role seen ≠ .give := by
  cases op <;> cases seen <;> exact of_decide_eq_true rfl

theorem remains_operator {op : Binary} {u : Term} (h : ∀ r, r ≠ .give → φ r = none) :
    remains φ (operator op u) = ' ' :: op.text.toList := by
  have hone : ∀ seen, remains φ [binary op seen] = ' ' :: op.text.toList := fun seen => by
    rw [remains_cons, text_binary (h _ (role_ne_give op seen)), remains_nil, List.append_nil]
  unfold operator
  split_ifs with hbits hshift
  · rw [remains_cons, remains_cons, Piece.lexemes_of_none (p := (angle true (op == .shiftLeft)).piece) (h _ nofun),
      Piece.lexemes_of_none (p := (angle false (op == .shiftLeft)).piece) (h _ nofun)]
    cases op <;> first | rfl | cases hshift
  · exact hone false
  · exact hone true

end Chunk

namespace Formula
open Chunk
variable {φ : Inks Chunk.Role} {a : Chunk} {as bs cs : List Chunk}

theorem tailChunks_cons (l : Binary × Term) (rest : List (Binary × Term)) :
    tailChunks (l :: rest) = operator l.1 l.2 ++ term false l.2 :: tailChunks rest := by simp [tailChunks]

theorem isInner_of_mem_tailChunks {rest : List (Binary × Term)} (h : a ∈ tailChunks rest) : a.isInner = true := by
  have hterm : ∀ u : Term, (term false u).isInner = true := by
    rintro ⟨_ | f, v⟩ <;> rfl
  have hoperator : ∀ (op : Binary) (u : Term), ∀ a ∈ operator op u, a.isInner = true := by
    intro op u
    unfold operator
    split_ifs <;> simp [isInner]
  rcases List.mem_append.1 h with h | h
  · obtain ⟨l, -, hl⟩ := List.mem_flatMap.1 h
    rcases List.mem_append.1 hl with hl | hl
    · exact hoperator _ _ a hl
    · rw [List.mem_singleton.1 hl]
      exact hterm _
  · rw [List.mem_singleton.1 h]
    rfl

/-- The pieces of a statement are sound. -/
theorem sound_chunks (s : Formula) : Piece.Sound (s.chunks.map piece) where
  lexeme l hl := by
    obtain ⟨p, hp, hl⟩ := List.mem_flatMap.1 hl
    obtain ⟨a, -, rfl⟩ := List.mem_map.1 hp
    exact sound_piece a l hl
  apart := by
    have hinner : ∀ a ∈ term s.use.joins s.first :: tailChunks s.rest, a.isInner = true := by
      refine List.forall_mem_cons.2 ⟨?_, fun a ha => isInner_of_mem_tailChunks ha⟩
      obtain ⟨use, ⟨_ | f, v⟩, rest⟩ := s <;> rfl
    have hheads := fun a ha => head_of_isInner (hinner a ha)
    have hrest := Lexeme.apart_flatMap_of_head (fun a _ => apart_piece a) hheads
    rw [chunks, List.map_cons, Piece.page_cons]
    refine List.isChain_append.2 ⟨apart_piece _, by rwa [Piece.page, List.flatMap_map], fun l _ m hm => ?_⟩
    have hhead : ∀ m ∈ (Piece.page untouched ((term s.use.joins s.first :: tailChunks s.rest).map piece)).head?,
        m.isWord = false := by
      obtain ⟨use, ⟨_ | f, v⟩, rest⟩ := s <;>
      · rintro m hm
        obtain rfl := Option.some.inj hm
        rfl
    rw [hhead m hm, Bool.and_false]

/-! ## Texts -/

theorem remains_tailChunks (h : ∀ r, r ≠ .give → φ r = none) (rest : List (Binary × Term)) :
    remains φ (tailChunks rest) = (tail rest).toList := by
  induction rest with
  | nil =>
    have hsemicolon : φ semicolon.piece.role = none := h _ nofun
    rw [tailChunks, List.flatMap_nil, List.nil_append, remains_cons, Piece.lexemes_of_none hsemicolon]
    rfl
  | cons l rest ih =>
    rw [tailChunks_cons, remains_append, remains_cons, ih, remains_operator h, text_term h, tail]
    simp

/-- The pieces make up the text. -/
theorem remains_chunks (s : Formula) : remains untouched s.chunks = s.text.toList := by
  have hlead : Lexeme.text ((lead s.use).piece.lexemes untouched) = s.use.text.toList := by
    cases s.use with
    | assign x => simp [lead, Use.text, piece, Piece.lexemes, Ink.cover, Lexeme.chars, Name.chars]
    | give => rfl
  rw [chunks, remains_cons, remains_cons, remains_tailChunks (fun _ _ => rfl), text_term (fun _ _ => rfl), hlead, text]
  simp

/-! ## What stands next to a piece -/

theorem isChain_tailChunks {joins : Bool} (ha : a.isTerm joins = true) (rest : List (Binary × Term)) :
    (some a :: ((tailChunks rest).map some ++ [none])).IsChain fun a b => follows a b = true := by
  induction rest generalizing a joins with
  | nil => exact List.isChain_cons_cons.2 ⟨follows_of_isTerm ha _, List.isChain_cons_cons.2 ⟨rfl, List.isChain_singleton _⟩⟩
  | cons l rest ih =>
    obtain ⟨op, u⟩ := l
    have hterm := isTerm_term false u
    have hsettles := settles_term false u
    have hrest := ih hterm
    have hbinary : ∀ {seen}, (seen == (!op.onBits || u.settles)) = true → (seen || !op.isShift) = true →
        follows (some (binary op seen)) (some (term false u)) = true := by
      intro seen hseen hshift
      rw [follows, Option.any_some, hterm, hsettles, hseen, hshift]
      rfl
    have hangle : ∀ left, u.settles = false → follows (some (angle false left)) (some (term false u)) = true := by
      intro left hu
      rw [follows, Option.any_some, hterm, hsettles, hu]
      rfl
    rw [tailChunks_cons]
    unfold operator
    split_ifs with hbits hshift
    · rw [Bool.and_eq_true, Bool.not_eq_true'] at hbits
      exact List.isChain_cons_cons.2 ⟨follows_of_isTerm ha _, List.isChain_cons_cons.2 ⟨beq_self_eq_true (op == .shiftLeft),
        List.isChain_cons_cons.2 ⟨hangle _ hbits.2, hrest⟩⟩⟩
    · rw [Bool.and_eq_true, Bool.not_eq_true'] at hbits
      refine List.isChain_cons_cons.2 ⟨follows_of_isTerm ha _, List.isChain_cons_cons.2 ⟨hbinary ?_ ?_, hrest⟩⟩
      · rw [hbits.1, hbits.2]
        rfl
      · rw [Bool.false_or, Bool.not_eq_true', ← Bool.not_eq_true]
        exact hshift
    · refine List.isChain_cons_cons.2 ⟨follows_of_isTerm ha _, List.isChain_cons_cons.2 ⟨hbinary ?_ rfl, hrest⟩⟩
      rw [Bool.not_eq_true, Bool.and_eq_false_iff, Bool.not_eq_false'] at hbits
      rcases hbits with hbits | hbits <;> simp [hbits]

theorem isChain_chunks (s : Formula) : (none :: (s.chunks.map some ++ [none])).IsChain fun a b => follows a b = true := by
  have hterm := isTerm_term s.use.joins s.first
  have hrest := isChain_tailChunks hterm s.rest
  refine List.isChain_cons_cons.2 ⟨?_, List.isChain_cons_cons.2 ⟨?_, hrest⟩⟩
  · cases s.use <;> rfl
  · cases huse : s.use <;> (rw [huse] at hterm; exact hterm)

/-- What stands directly behind a piece. -/
theorem follows_next {s : Formula} (h : a :: bs <:+ s.chunks) : follows (some a) bs.head? = true := by
  obtain ⟨cs, hcs⟩ := h
  have hchain := s.isChain_chunks
  rw [← hcs, List.map_append, List.append_assoc, ← List.cons_append] at hchain
  have hnext := (List.isChain_append.1 hchain).2.1
  cases bs with
  | nil => exact (List.isChain_cons_cons.1 hnext).1
  | cons b bs => exact (List.isChain_cons_cons.1 hnext).1

/-- What stands directly before a piece. -/
theorem follows_before {s : Formula} (h : s.chunks = cs ++ a :: bs) : follows cs.getLast? (some a) = true := by
  have hchain := s.isChain_chunks
  rw [h, List.map_append, List.append_assoc, ← List.cons_append] at hchain
  refine (List.isChain_append.1 hchain).2.2 _ ?_ _ rfl
  rw [List.getLast?_cons, List.getLast?_map]
  cases cs.getLast? <;> rfl

end Formula
end SourceLikeness.Tokenizer
