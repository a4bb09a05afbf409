import SourceLikeness.Proofs.Choice.Joints
import SourceLikeness.Proofs.Expression.Pieces
import SourceLikeness.Proofs.Expression.Signs

/-!
# Operators that join operands

Which pieces the searches for products, for sums and for operators on bits find: the operators behind an operand, and the
signs behind something that reads as one.

* `Chunk.inks` : what has become of the pieces when those of some roles are done with;
* `Chunk.remains_of_isTerm` : what an operand starts with; `Formula.isOperand_before` : what stands before a piece;
* `Unary.searched` : what is done with when the search for a sign comes;
* `Formula.steps_joined` : the search finds the pieces that it should, and nothing else.
-/

namespace SourceLikeness.Tokenizer
open Lexeme (word sign spots)
open Text (isAsciiWord isBlank)
open Item (keyword)

namespace Chunk
variable {rs : List Role} {a b d : Chunk} {as bs cs : List Chunk} {c : Char} {joins : Bool}

/-! ## What has become of the pieces -/

/-- What a piece is filled with. -/
def Role.ink : Role → Ink
  | give => ⟨WorkingCopy.masked, true⟩
  | _ => ⟨WorkingCopy.operator, true⟩

/-- The pieces of some roles are done with. -/
def inks (rs : List Role) : Inks Role := fun r => if r ∈ rs then some r.ink else none

theorem inks_of_mem {r : Role} (h : r ∈ rs) : inks rs r = some r.ink := if_pos h

theorem inks_of_not_mem {r : Role} (h : r ∉ rs) : inks rs r = none := if_neg h

theorem inks_nil : inks [] = untouched := funext fun _ => inks_of_not_mem List.not_mem_nil

theorem inks_cons (r : Role) (rs : List Role) : (inks rs).add (· == r) r.ink = inks (r :: rs) := by
  funext r'
  by_cases hr : r' = r
  · rw [hr, inks_of_mem List.mem_cons_self, Inks.add, if_pos (beq_self_eq_true r)]
  · rw [Inks.add, if_neg (by rwa [beq_iff_eq])]
    by_cases hmem : r' ∈ rs
    · rw [inks_of_mem hmem, inks_of_mem (List.mem_cons_of_mem r hmem)]
    · rw [inks_of_not_mem hmem, inks_of_not_mem fun h => (List.mem_cons.1 h).elim hr hmem]

theorem isDry_inks (rs : List Role) : Piece.IsDry (inks rs) := by
  intro r ink h
  by_cases hmem : r ∈ rs
  · obtain rfl := Option.some.inj ((inks_of_mem hmem).symm.trans h)
    cases r with
    | give => exact Piece.sound_masked
    | _ => exact Piece.sound_operator
  · cases (inks_of_not_mem hmem).symm.trans h

/-! ## What an operand starts with -/

/-- The character behind the blank of an operand. -/
def Opens (rs : List Role) (c : Char) : Chunk → Prop
  | plain _ => isAsciiWord c = true
  | front f joins _ => c = if f.role joins ∈ rs then WorkingCopy.operator else f.char
  | _ => False

theorem Opens.not_blank (h : Opens rs c a) : isBlank c = false ∧ c ≠ '\x7b' := by
  cases a with
  | plain v =>
    refine ⟨Text.isBlank_eq_false_of_isAsciiWord h, ?_⟩
    rintro rfl
    cases h
  | front f joins v =>
    obtain rfl : c = _ := h
    split_ifs
    · decide
    · rcases f with m | _ | _
      · cases m <;> decide
      all_goals decide
  | _ => cases h

theorem exists_word_of_value (v : Value) : ∃ b u, Lexeme.text v.lexemes = b :: u ∧ isAsciiWord b = true := by
  obtain ⟨b, u, hu⟩ := List.exists_cons_of_ne_nil v.whole.isWord.1
  refine ⟨b, u ++ Lexeme.text (v.fraction.elim [] fun n => [sign '.', word n.chars]), ?_, v.whole.isWord.2 b ?_⟩
  · rw [Value.lexemes, Lexeme.text_cons, Lexeme.chars, hu]
    rfl
  · rw [hu]
    exact List.mem_cons_self

/-- What is left to be read of a sign in front of an operand. -/
theorem text_front (rs : List Role) (f : Front) (joins : Bool) (v : Value) : (front f joins v).piece.lexemes (inks rs) =
    sign ' ' :: sign (if f.role joins ∈ rs then WorkingCopy.operator else f.char) :: v.lexemes := by
  split_ifs with h
  · rw [Piece.lexemes_of_some (p := (front f joins v).piece) (inks_of_mem h)]
    rcases f with m | _ | _ <;> cases joins <;> rfl
  · rw [Piece.lexemes_of_none (p := (front f joins v).piece) (inks_of_not_mem h)]
    rfl

theorem text_plain (v : Value) (hstill : Role.still ∉ rs) : (plain v).piece.lexemes (inks rs) = sign ' ' :: v.lexemes := by
  rw [Piece.lexemes_of_none (p := (plain v).piece) (inks_of_not_mem hstill)]
  simp [piece]

theorem remains_of_isTerm (hstill : Role.still ∉ rs) (h : b.isTerm joins = true) (bs : List Chunk) :
    ∃ c w, remains (inks rs) (b :: bs) = ' ' :: c :: w ∧ Opens rs c b := by
  rw [remains_cons]
  cases b with
  | plain v =>
    obtain ⟨c, u, hu, hc⟩ := exists_word_of_value v
    exact ⟨c, u ++ remains (inks rs) bs, by rw [text_plain v hstill, Lexeme.text_cons, hu]; rfl, hc⟩
  | front f j v => exact ⟨_, Lexeme.text v.lexemes ++ remains (inks rs) bs, by rw [text_front]; rfl, rfl⟩
  | _ => cases h

/-! ## What a piece ends with -/

/-- Whether what is left of a piece reads as an operand. -/
def isWhole : Chunk → Bool
  | giveWord | plain _ | front _ _ _ => true
  | _ => false

theorem isOperand_of_isAsciiWord (hc : isAsciiWord c = true) : Operator.isOperand (some c) = true := by
  have hc : (c.isAlphanum || c == '_') = true := hc
  rw [Operator.isOperand, Option.any_some, Bool.or_eq_true, decide_eq_true_eq]
  exact (Bool.or_eq_true_iff.1 hc).imp_right fun h => by rw [beq_iff_eq.1 h]; exact List.mem_cons_self

theorem exists_getLast_of_value (v : Value) (u : List Char) :
    ∃ c, (u ++ Lexeme.text v.lexemes).getLast? = some c ∧ isAsciiWord c = true := by
  have hword : ∀ (n : Name) (u : List Char), ∃ c, (u ++ n.chars).getLast? = some c ∧ isAsciiWord c = true := fun n u =>
    ⟨n.chars.getLast n.isWord.1, by rw [List.getLast?_append, List.getLast?_eq_some_getLast n.isWord.1]; rfl,
      n.isWord.2 _ (List.getLast_mem n.isWord.1)⟩
  obtain ⟨n, fraction⟩ := v
  cases fraction with
  | none =>
    have htext : Lexeme.text (Value.lexemes ⟨n, none⟩) = n.chars := List.append_nil _
    rw [htext]
    exact hword n u
  | some m =>
    have htext : Lexeme.text (Value.lexemes ⟨n, some m⟩) = (n.chars ++ ['.']) ++ m.chars := by
      simp [Value.lexemes, Lexeme.chars]
    rw [htext, ← List.append_assoc]
    exact hword m _

theorem not_isOperand_of_binary (op : Binary) : ∀ c ∈ op.text.toList, Operator.isOperand (some c) = false := by
  cases op <;> decide

theorem not_isOperand_of_front (f : Front) : Operator.isOperand (some f.char) = false := by
  rcases f with m | _ | _
  · cases m <;> rfl
  all_goals rfl

/-- What is left of an operator, and of the sign in front of an operand, reads as no operand. -/
theorem exists_getLast (hgive : Role.give ∈ rs) (hstill : Role.still ∉ rs) (a : Chunk) :
    ∃ c, (Lexeme.text (a.piece.lexemes (inks rs))).getLast? = some c ∧ Operator.isOperand (some c) = a.isWhole := by
  have hsigns : ∀ (r : Role) (ks : List Lexeme) (cs : List Char), r ≠ .give → cs ≠ [] →
      (∀ c ∈ cs, Operator.isOperand (some c) = false) →
      ∃ c, (Lexeme.text ((⟨r, ks, cs.map sign, []⟩ : Piece Role).lexemes (inks rs))).getLast? = some c ∧
        Operator.isOperand (some c) = false := by
    intro r ks cs hr hne hcs
    obtain rfl | ⟨u, c, rfl⟩ := List.eq_nil_or_concat cs
    · exact absurd rfl hne
    refine ⟨(Ink.cell (inks rs r) c).char, ?_, ?_⟩
    · rw [Piece.lexemes, List.append_nil, Lexeme.text_append, Piece.text_cover, text_signs, List.getLast?_append,
        List.getLast?_map, List.concat_eq_append, List.getLast?_concat]
      rfl
    · by_cases hmem : r ∈ rs
      · rw [inks_of_mem hmem]
        cases r <;> first | rfl | exact absurd rfl hr
      · rw [inks_of_not_mem hmem]
        exact hcs c (by simp)
  cases a with
  | target x => exact hsigns _ [word x.chars, sign ' '] ['='] (by rintro ⟨⟩) (List.cons_ne_nil _ _) (by decide)
  | giveWord =>
    refine ⟨WorkingCopy.masked, ?_, rfl⟩
    rw [Piece.lexemes_of_some (p := giveWord.piece) (inks_of_mem hgive)]
    rfl
  | plain v =>
    obtain ⟨c, hc, hword⟩ := exists_getLast_of_value v [' ']
    exact ⟨c, by rw [text_plain v hstill]; exact hc, isOperand_of_isAsciiWord hword⟩
  | front f joins v =>
    obtain ⟨c, hc, hword⟩ := exists_getLast_of_value v [' ', if f.role joins ∈ rs then WorkingCopy.operator else f.char]
    exact ⟨c, by rw [text_front]; exact hc, isOperand_of_isAsciiWord hword⟩
  | binary op seen =>
    exact hsigns _ [sign ' '] op.text.toList (role_ne_give op seen) (by cases op <;> exact List.cons_ne_nil _ _)
      (not_isOperand_of_binary op)
  | angle spaced left =>
    exact hsigns _ (if spaced then [sign ' '] else []) [angleChar left] (by rintro ⟨⟩) (List.cons_ne_nil _ _) (by cases left <;> decide)
  | semicolon =>
    refine ⟨';', ?_, rfl⟩
    rw [Piece.lexemes_of_none (p := semicolon.piece) (inks_of_not_mem hstill)]
    rfl

/-! ## What stands next to a piece -/

theorem isWhole_of_front {f : Front} {v : Value} (h : follows (some d) (some (front f joins v)) = true) :
    d.isWhole = joins := by
  have hjoins : ∀ {j : Bool}, (joins == j) = true → j = joins := fun h => (beq_iff_eq.1 h).symm
  cases d with
  | target x => exact hjoins h
  | giveWord => exact hjoins h
  | binary op seen => exact hjoins (Bool.and_eq_true_iff.1 (Bool.and_eq_true_iff.1 h).1).1
  | angle spaced left =>
    cases spaced with
    | false => exact hjoins (Bool.and_eq_true_iff.1 h).1
    | true => cases h
  | _ => cases h

theorem not_isWhole_of_angle {left : Bool} (h : follows (some d) (some (angle false left)) = true) : d.isWhole = false := by
  cases d <;> first | rfl | cases h

theorem isWhole_of_isJoint (ha : a.isJoint = true) (h : follows (some d) (some a) = true) : d.isWhole = true := by
  have hterm : ∀ {j : Bool}, a.isTerm j = true → false = true := by
    intro j hj
    cases a <;> first | exact Bool.noConfusion ha | exact Bool.noConfusion hj
  cases d with
  | target x => exact hterm h
  | binary op seen => exact hterm (Bool.and_eq_true_iff.1 (Bool.and_eq_true_iff.1 h).1).1
  | angle spaced left =>
    cases spaced with
    | false => exact hterm (Bool.and_eq_true_iff.1 h).1
    | true =>
      rcases a with _ | _ | _ | _ | _ | ⟨_ | _, _⟩ | _ <;> first | exact Bool.noConfusion ha | exact Bool.noConfusion h
  | semicolon => cases h
  | _ => rfl

end Chunk

namespace Formula
open Chunk
variable {s : Formula} {rs : List Chunk.Role} {m : Unary} {a b d : Chunk} {bs cs : List Chunk} {o : Nat} {joins : Bool}

/-- What is left to be read of a statement when the pieces of some roles are done with. -/
abbrev left (s : Formula) (rs : List Chunk.Role) : List Char := remains (inks rs) s.chunks

/-- Something stands before each piece behind the first one. -/
theorem exists_before (h : a :: bs <:+ s.chunks) (ha : a.isInner = true) :
    ∃ cs d, s.chunks = cs ++ d :: a :: bs ∧ follows (some d) (some a) = true := by
  obtain ⟨cs, hcs⟩ := h
  have hbefore := follows_before hcs.symm
  obtain rfl | ⟨ds, d, rfl⟩ := List.eq_nil_or_concat cs
  · have hinner : (!a.isInner) = true := hbefore
    rw [ha] at hinner
    exact Bool.noConfusion hinner
  · rw [List.concat_eq_append] at hbefore hcs
    rw [List.getLast?_concat] at hbefore
    exact ⟨ds, d, by rw [← hcs, List.append_assoc]; rfl, hbefore⟩

/-- What stands before a piece is the last of the one before it. -/
theorem charBefore_eq (h : a :: bs <:+ s.chunks) (ha : a.isInner = true)
    (hs : Stands (s.left rs) o (Piece.page (inks rs) ((a :: bs).map piece)))
    (hne : remains (inks rs) (a :: bs) ≠ []) : ∃ cs d, follows (some d) (some a) = true ∧
      Text.charBefore (s.left rs) o = (remains (inks rs) cs ++ Lexeme.text (d.piece.lexemes (inks rs))).getLast? := by
  obtain ⟨cs, d, hcs, hfollows⟩ := exists_before h ha
  have htext : s.left rs = (remains (inks rs) cs ++ Lexeme.text (d.piece.lexemes (inks rs))) ++
      remains (inks rs) (a :: bs) := by
    rw [left, hcs, remains_append, remains_cons, List.append_assoc]
  exact ⟨cs, d, hfollows, Text.charBefore_of_drop htext hs.text hne⟩

/-- What stands before a piece reads as an operand if it is one. -/
theorem isOperand_before (hgive : Chunk.Role.give ∈ rs) (hstill : Chunk.Role.still ∉ rs) (h : a :: bs <:+ s.chunks)
    (ha : a.isInner = true) (hs : Stands (s.left rs) o (Piece.page (inks rs) ((a :: bs).map piece)))
    (hne : remains (inks rs) (a :: bs) ≠ []) : ∃ d, follows (some d) (some a) = true ∧
      Operator.isOperand (Text.charBefore (s.left rs) o) = d.isWhole := by
  obtain ⟨cs, d, hfollows, hbefore⟩ := charBefore_eq h ha hs hne
  obtain ⟨c, hc, hoperand⟩ := exists_getLast hgive hstill d
  refine ⟨d, hfollows, ?_⟩
  rw [hbefore, List.getLast?_append, hc]
  exact hoperand

theorem exists_head_of_any {P : Chunk → Bool} (h : bs.head?.any P = true) : ∃ b ds, bs = b :: ds ∧ P b = true := by
  cases bs with
  | nil => cases h
  | cons b ds => exact ⟨b, ds, rfl, h⟩

end Formula

/-! ## What the searches find -/

/-- What is done with when the search for a sign comes. -/
def Unary.searched : Unary → List Chunk.Role
  | star => [.give]
  | minus => [.joined .star, .give]
  | ampersand => [.negation, .logic, .joined .minus, .joined .star, .give]

namespace Unary
variable {m : Unary} {a : Chunk} {bs : List Chunk} {s w cs : List Char} {ls ms : List Lexeme} {o i : Nat}

/-- The search finds nothing at a sign behind a blank or behind another sign. -/
theorem hitOf_eq_none_of_signs (hcs : ∀ c ∈ cs, Operator.isOperand (some c) = false) (hs : s.drop o = ' ' :: (cs ++ w))
    (hi : o < i) (hi' : i < o + 1 + cs.length) : m.finder.hitOf (fun _ => true) s i = none := by
  refine hitOf_eq_none_of_before ?_
  rw [before_finder]
  obtain ⟨k, rfl⟩ := Nat.exists_eq_add_of_lt hi
  have hk : k < (' ' :: cs).length := by
    rw [List.length_cons]
    omega
  have hget : s[o + k]? = some (' ' :: cs)[k] := by
    rw [← List.getElem?_drop, hs, ← List.cons_append, List.getElem?_append_left hk, List.getElem?_eq_getElem hk]
  change Operator.isOperand s[o + k]? = false
  rw [hget]
  rcases List.mem_cons.1 (List.getElem_mem hk) with hc | hc
  · rw [hc]
    decide
  · exact hcs _ hc

/-- A search that finds nothing at the blank before some signs finds nothing at the signs. -/
theorem step_of_blank {φ : Inks Chunk.Role} {p : Piece Chunk.Role} {wanted : Chunk.Role → Bool}
    (hlexemes : p.lexemes φ = sign ' ' :: (cs.map sign ++ ms)) (hcs : ∀ c ∈ cs, Operator.isOperand (some c) = false)
    (hms : ∀ l ∈ ms, l.leads m.leads = false) (hs : Stands s o (p.lexemes φ ++ ls)) (hwanted : wanted p.role = false)
    (hnone : m.finder.hitOf (fun _ => true) s o = none) : Piece.Step m.finder s m.leads φ wanted o p := by
  rw [hlexemes] at hs
  have hsound : ∀ l ∈ cs.map sign, l.Sound := fun l hl =>
    hs.sound l (List.mem_append_left ls (List.mem_cons_of_mem _ (List.mem_append_left ms hl)))
  have hdrop : s.drop o = ' ' :: (cs ++ Lexeme.text (ms ++ ls)) := by
    rw [hs.text, List.cons_append, Lexeme.text_cons, List.append_assoc, Lexeme.text_append, Chunk.text_signs]
    rfl
  refine Piece.step_of_none hwanted fun i hi => ?_
  rw [hlexemes, spots, Lexeme.spots_append, Lexeme.spots_eq_nil hms, List.append_nil] at hi
  rcases List.mem_append.1 hi with hi | hi
  · split_ifs at hi
    · rwa [List.mem_singleton.1 hi]
    · exact absurd hi List.not_mem_nil
  · have hlt := Lexeme.lt_of_mem_spots hsound hi
    rw [Chunk.text_signs] at hlt
    exact hitOf_eq_none_of_signs hcs hdrop (Nat.lt_of_succ_le (Lexeme.le_of_mem_spots hi)) hlt

theorem give_mem_searched (m : Unary) : Chunk.Role.give ∈ m.searched := by cases m <;> decide

theorem not_mem_searched (m : Unary) : ∀ r ∈ [Chunk.Role.assign, .still, .compare, .complement, .joined m], r ∉ m.searched := by
  cases m <;> decide

end Unary

/-- An operand that settles is what an operator on bits wants behind it. -/
theorem Chunk.startsOperand_of_opens {b : Chunk} {c : Char} (hb : b.isTerm false = true)
    (h : Chunk.Opens (Unary.searched .ampersand) c b) : Operator.startsOperand (some c) = b.settles := by
  cases b with
  | plain v => exact Bool.or_eq_true_iff.2 (Or.inl (Chunk.isOperand_of_isAsciiWord h))
  | front f joins v =>
    obtain rfl : joins = false := beq_iff_eq.1 hb
    obtain rfl : c = _ := h
    rcases f with m | _ | _
    · cases m <;> rfl
    all_goals rfl
  | _ => cases hb

namespace Binary
variable {op : Binary} {m : Unary} {s w : List Char} {o : Nat} {c : Char} {seen : Bool}

theorem of_role_eq_joined (h : op.role seen = .joined m) : op.unary? = some m ∧ seen = true := by
  rw [role] at h
  cases hop : op.unary? with
  | none =>
    rw [hop] at h
    dsimp only at h
    split_ifs at h
  | some m' =>
    rw [hop] at h
    cases seen <;> cases h
    exact ⟨rfl, rfl⟩

/-- The search for a sign finds nothing at an operator of another search, and nothing at one on bits that has no operand
behind it. -/
theorem hitOf_eq_none (hseen : seen = true ∨ op.onBits = true) (hrole : op.role seen ≠ .joined m)
    (hsearched : op.role seen ∉ m.searched) (hs : s.drop o = ' ' :: (op.text.toList ++ ' ' :: c :: w)) (hc : isBlank c = false)
    (hafter : m = .ampersand → seen = false → Operator.startsOperand (some c) = false) :
    m.finder.hitOf (fun _ => true) s o = none := by
  have hnext : (op.text.toList ++ ' ' :: c :: w).head?.any (fun a => isBlank a || m.signs.contains a) = false →
      m.finder.hitOf (fun _ => true) s o = none := Unary.hitOf_eq_none_of_next hs
  cases m with
  | star | minus =>
    refine hnext ?_
    cases hbits : op.onBits with
    | true => cases op <;> first | rfl | cases hbits
    | false =>
      obtain rfl := hseen.resolve_right (by rw [hbits]; exact Bool.false_ne_true)
      cases op <;> first | rfl | exact absurd rfl hrole
  | ampersand =>
    cases op with
    | times | plus | minus | divide | remainder => exact hnext rfl
    | bitAnd | bitOr | bitXor | shiftLeft | shiftRight =>
      cases seen with
      | true => exact absurd rfl hrole
      | false => exact hitOf_finder_eq_none rfl hs hc (hafter rfl rfl)
    | both | either => cases seen <;> exact absurd (by decide) hsearched
    | _ => exact hitOf_eq_none_of_compare rfl hs

end Binary

namespace Formula
open Chunk
variable {s : Formula} {m : Unary} {bs : List Chunk} {o : Nat}

/-- What is left of an operator is signs. -/
theorem lexemes_binary (rs : List Chunk.Role) (op : Binary) (seen : Bool) : (binary op seen).piece.lexemes (inks rs) =
    sign ' ' :: (if op.role seen ∈ rs then op.text.toList.map fun _ => WorkingCopy.operator else op.text.toList).map sign := by
  split_ifs with h
  · have hink : (op.role seen).ink.fill = WorkingCopy.operator := by
      cases hrole : op.role seen <;> first | rfl | exact absurd hrole (role_ne_give op seen)
    rw [Piece.lexemes_of_some (p := (binary op seen).piece) (inks_of_mem h)]
    change [sign ' '] ++ List.replicate (Lexeme.text (op.text.toList.map sign)).length (sign (op.role seen).ink.fill) ++ [] = _
    rw [hink, text_signs, List.map_map, List.append_nil]
    exact congrArg (sign ' ' :: ·) (List.map_const' (l := op.text.toList)).symm
  · rw [Piece.lexemes_of_none (p := (binary op seen).piece) (inks_of_not_mem h)]
    exact List.append_nil _

theorem hitOf_eq_none_of_next {c : Char} {w : List Char} (hdrop : (s.left m.searched).drop o = ' ' :: c :: w)
    (hc : (isBlank c || m.signs.contains c) = false) : m.finder.hitOf (fun _ => true) (s.left m.searched) o = none :=
  Unary.hitOf_eq_none_of_next hdrop hc

/-- A sign in front of an operand is found if it joins, and if it is one of those searched for. -/
theorem step_front {f : Front} {joins : Bool} {v : Value} (hbs : front f joins v :: bs <:+ s.chunks)
    (hs : Stands (s.left m.searched) o (Piece.page (inks m.searched) ((front f joins v :: bs).map piece))) :
    Piece.Step m.finder (s.left m.searched) m.leads (inks m.searched) (· == .joined m) o (front f joins v).piece := by
  have hnot := m.not_mem_searched
  have hlexemes := text_front m.searched f joins v
  have hvalue : ∀ l ∈ v.lexemes, l.leads m.leads = false := v.not_leads rfl (by cases m <;> rfl)
  obtain ⟨d, hfollows, hbefore⟩ := isOperand_before m.give_mem_searched (hnot .still (by simp)) hbs rfl hs
    (by rw [remains_cons, hlexemes]; exact List.cons_ne_nil _ _)
  rw [isWhole_of_front hfollows] at hbefore
  rw [List.map_cons, Piece.page_cons] at hs
  have hdrop : (s.left m.searched).drop o =
      ' ' :: (if f.role joins ∈ m.searched then WorkingCopy.operator else f.char) ::
        (Lexeme.text v.lexemes ++ remains (inks m.searched) bs) := by
    rw [hs.text, hlexemes, Lexeme.text_append]
    rfl
  have hsign : Operator.isOperand (some (if f.role joins ∈ m.searched then WorkingCopy.operator else f.char)) = false := by
    split_ifs
    · rfl
    · exact not_isOperand_of_front f
  have hnone : f.role joins ≠ .joined m → m.finder.hitOf (fun _ => true) (s.left m.searched) o = none →
      Piece.Step m.finder (s.left m.searched) m.leads (inks m.searched) (· == .joined m) o (front f joins v).piece :=
    fun hrole hnone => Unary.step_of_blank hlexemes (List.forall_mem_singleton.2 hsign) hvalue hs
      (beq_false_of_ne hrole) hnone
  cases joins with
  | false =>
    refine hnone (by cases f <;> nofun) (hitOf_eq_none_of_before ?_)
    rw [Unary.before_finder, hbefore]
  | true =>
    by_cases hf : f = .unary m
    · subst hf
      have hrole : ¬(Front.unary m).role true ∈ m.searched := hnot (.joined m) (by simp)
      rw [if_neg hrole] at hlexemes hdrop
      rw [hlexemes] at hs
      obtain ⟨b, u, hu, hb⟩ := exists_word_of_value v
      obtain ⟨h, hhit, htoken⟩ := Unary.hitOf_sign hdrop (by rw [hu]; exact hb) hbefore
      have hsound : (sign m.char).Sound := hs.sound _ (by simp [Front.char])
      exact Piece.step_of_stop [] (sign ' ') [sign m.char] v.lexemes (beq_self_eq_true _) (by cases m <;> rfl) hlexemes
        (List.forall_mem_nil _) (by cases m <;> rfl) (List.forall_mem_singleton.2 hsound) hvalue hhit htoken rfl
    · refine hnone (fun h => hf ?_) (hitOf_eq_none_of_next hdrop ?_)
      · rcases f with m' | _ | _ <;> cases h
        rfl
      · rcases f with m' | _ | _
        · cases m <;> cases m' <;> first | rfl | exact absurd rfl hf
        all_goals cases m <;> rfl

/-- An operator is found if it is one of those searched for, and if it is seen. -/
theorem step_binary {op : Binary} {seen : Bool} (hbs : binary op seen :: bs <:+ s.chunks)
    (hs : Stands (s.left m.searched) o (Piece.page (inks m.searched) ((binary op seen :: bs).map piece))) :
    Piece.Step m.finder (s.left m.searched) m.leads (inks m.searched) (· == .joined m) o (binary op seen).piece := by
  have hnot := m.not_mem_searched
  have hstill : Chunk.Role.still ∉ m.searched := hnot _ (by simp)
  have hlexemes := lexemes_binary m.searched op seen
  obtain ⟨b, ds, rfl, hb⟩ := exists_head_of_any (follows_next hbs)
  rw [Bool.and_eq_true, Bool.and_eq_true, beq_iff_eq] at hb
  obtain ⟨⟨hterm, hseen⟩, -⟩ := hb
  obtain ⟨c, w, hremains, hopens⟩ := remains_of_isTerm hstill hterm ds
  have hblank := hopens.not_blank.1
  obtain ⟨e, he, hwhole⟩ := isOperand_before m.give_mem_searched hstill hbs rfl hs
    (by rw [remains_cons, hlexemes]; exact List.cons_ne_nil _ _)
  rw [isWhole_of_isJoint rfl he] at hwhole
  rw [List.map_cons, Piece.page_cons] at hs
  have hdrop : (s.left m.searched).drop o =
      ' ' :: ((if op.role seen ∈ m.searched then op.text.toList.map fun _ => WorkingCopy.operator else op.text.toList) ++
        ' ' :: c :: w) := by
    rw [hs.text, hlexemes, Lexeme.text_append, Lexeme.text_cons, text_signs, ← hremains]
    rfl
  have hnone : ∀ {cs : List Char}, (∀ c ∈ cs, Operator.isOperand (some c) = false) →
      (binary op seen).piece.lexemes (inks m.searched) = sign ' ' :: cs.map sign → op.role seen ≠ .joined m →
      m.finder.hitOf (fun _ => true) (s.left m.searched) o = none →
      Piece.Step m.finder (s.left m.searched) m.leads (inks m.searched) (· == .joined m) o (binary op seen).piece :=
    fun hcs hlexemes hrole hnone => Unary.step_of_blank (by rw [List.append_nil, hlexemes]) hcs (List.forall_mem_nil _) hs
      (beq_false_of_ne hrole) hnone
  by_cases hsearched : op.role seen ∈ m.searched
  · rw [if_pos hsearched] at hlexemes hdrop
    refine hnone ?_ hlexemes (fun h => hnot (.joined m) (by simp) (h ▸ hsearched))
      (Unary.hitOf_eq_none_of_next hdrop ?_)
    · intro c hc
      obtain ⟨-, -, rfl⟩ := List.mem_map.1 hc
      rfl
    · cases m <;> cases op <;> rfl
  rw [if_neg hsearched] at hlexemes hdrop
  by_cases hrole : op.role seen = .joined m
  · obtain ⟨hop, rfl⟩ := Binary.of_role_eq_joined hrole
    have hafter : m = .ampersand → Operator.startsOperand (some c) = true := by
      rintro rfl
      rw [Binary.onBits, hop] at hseen
      rw [startsOperand_of_opens hterm hopens]
      exact hseen.symm
    obtain ⟨h, hhit, htoken⟩ := Binary.hitOf_finder hop hdrop hblank hwhole hafter
    refine Piece.step_of_stop [] (sign ' ') (op.text.toList.map sign) [] (beq_iff_eq.2 hrole) (by cases m <;> rfl)
      (by rw [List.append_nil]; exact hlexemes) (List.forall_mem_nil _) (by cases m <;> rfl) (fun l hl => hs.sound l ?_)
      (List.forall_mem_nil _) hhit ?_ rfl
    · rw [hlexemes]
      exact List.mem_append_left _ (List.mem_cons_of_mem _ hl)
    · rw [htoken, Piece.span]
      change _ = Span.mk (o + 1) (o + 1 + (Lexeme.text (op.text.toList.map sign)).length)
      rw [text_signs]
  · refine hnone (not_isOperand_of_binary op) hlexemes hrole (Binary.hitOf_eq_none ?_ hrole hsearched hdrop hblank ?_)
    · rw [hseen]
      cases op.onBits <;> simp
    · rintro rfl rfl
      rw [startsOperand_of_opens hterm hopens]
      exact (Bool.or_eq_false_iff.1 hseen.symm).2

/-- Half of a shift is not found. -/
theorem step_angle {spaced left : Bool} (hbs : angle spaced left :: bs <:+ s.chunks)
    (hs : Stands (s.left m.searched) o (Piece.page (inks m.searched) ((angle spaced left :: bs).map piece))) :
    Piece.Step m.finder (s.left m.searched) m.leads (inks m.searched) (· == .joined m) o (angle spaced left).piece := by
  have hnot := m.not_mem_searched
  have hstill : Chunk.Role.still ∉ m.searched := hnot _ (by simp)
  have hcompare : Chunk.Role.compare ∉ m.searched := hnot _ (by simp)
  have hbefore := isOperand_before m.give_mem_searched hstill hbs rfl hs
  rw [List.map_cons, Piece.page_cons] at hs
  cases spaced with
  | false =>
    have hlexemes : (angle false left).piece.lexemes (inks m.searched) = [sign (angleChar left)] :=
      Piece.lexemes_of_none (inks_of_not_mem hcompare)
    obtain ⟨d, hd, hwhole⟩ := hbefore (by rw [remains_cons, hlexemes]; exact List.cons_ne_nil _ _)
    rw [not_isWhole_of_angle hd] at hwhole
    refine Piece.step_of_none rfl fun i hi => ?_
    rw [hlexemes] at hi
    obtain rfl : i = o := by
      rcases List.mem_append.1 hi with hi | hi
      · split_ifs at hi
        · exact List.mem_singleton.1 hi
        · exact absurd hi List.not_mem_nil
      · exact absurd hi List.not_mem_nil
    exact hitOf_eq_none_of_before (by rw [Unary.before_finder, hwhole])
  | true =>
    have hlexemes : (angle true left).piece.lexemes (inks m.searched) = sign ' ' :: ([angleChar left].map sign ++ []) :=
      Piece.lexemes_of_none (inks_of_not_mem hcompare)
    have hsigns : ∀ c ∈ [angleChar left], Operator.isOperand (some c) = false := by cases left <;> decide
    refine Unary.step_of_blank hlexemes hsigns (List.forall_mem_nil _) hs rfl ?_
    obtain ⟨op, hop, htext, hrole⟩ : ∃ op : Binary, op.onBits = true ∧ op.text.toList = [angleChar left, angleChar left] ∧
        op.role false = .still := by
      cases left
      · exact ⟨.shiftRight, rfl, rfl, rfl⟩
      · exact ⟨.shiftLeft, rfl, rfl, rfl⟩
    obtain ⟨b, cs, rfl, hb⟩ := exists_head_of_any (follows_next hbs)
    obtain rfl : b = angle false left := by
      rcases b with _ | _ | _ | _ | _ | ⟨_ | _, l⟩ | _ <;>
        first | exact congrArg _ (beq_iff_eq.1 hb) | exact Bool.noConfusion hb
    obtain ⟨d, ds, rfl, hd⟩ := exists_head_of_any (follows_next ((List.suffix_cons _ _).trans hbs))
    obtain ⟨hterm, hsettles⟩ := Bool.and_eq_true_iff.1 hd
    obtain ⟨c, w, hremains, hopens⟩ := remains_of_isTerm hstill hterm ds
    have hsecond : (angle false left).piece.lexemes (inks m.searched) = [sign (angleChar left)] :=
      Piece.lexemes_of_none (inks_of_not_mem hcompare)
    have hrest : remains (inks m.searched) (angle false left :: d :: ds) = angleChar left :: ' ' :: c :: w := by
      rw [remains_cons, hsecond, hremains]
      rfl
    have hdrop : (s.left m.searched).drop o = ' ' :: (op.text.toList ++ ' ' :: c :: w) := by
      rw [hs.text, hlexemes, Lexeme.text_append, htext]
      exact congrArg (' ' :: angleChar left :: ·) hrest
    refine Binary.hitOf_eq_none (Or.inr hop) (by rw [hrole]; exact nofun) (by rwa [hrole]) hdrop hopens.not_blank.1 ?_
    rintro rfl -
    rwa [startsOperand_of_opens hterm hopens, ← Bool.not_eq_true']

/-- The search for a sign takes the signs that join and its operators for tokens, and nothing else. -/
theorem steps_joined (s : Formula) (m : Unary) : Piece.Steps m.finder (s.left m.searched) m.leads (inks m.searched)
    (· == .joined m) 0 (s.chunks.map piece) := by
  have hnot := m.not_mem_searched
  simp only [List.forall_mem_cons] at hnot
  obtain ⟨hassign, hstill, hcompare, hcomplement, hown, -⟩ := hnot
  refine Piece.steps_of_forall s.sound_chunks (isDry_inks _) fun o a bs hbs hs _ => ?_
  have hblank : (sign ' ').leads m.leads = true := by cases m <;> rfl
  have hquiet : (∀ l ∈ a.piece.lexemes (inks m.searched), l.leads m.leads = false) → (a.piece.role == .joined m) = false →
      Piece.Step m.finder (s.left m.searched) m.leads (inks m.searched) (· == .joined m) o a.piece := by
    intro hleads hrole
    refine Piece.step_of_none hrole fun i hi => ?_
    rw [Lexeme.spots_eq_nil hleads] at hi
    exact absurd hi List.not_mem_nil
  cases a with
  | front f joins v => exact step_front hbs hs
  | binary op seen => exact step_binary hbs hs
  | angle spaced left => exact step_angle hbs hs
  | target x =>
    have hlexemes : (target x).piece.lexemes (inks m.searched) = [word x.chars] ++ sign ' ' :: [sign '='] :=
      Piece.lexemes_of_none (inks_of_not_mem hassign)
    rw [List.map_cons, Piece.page_cons, hlexemes, List.append_assoc] at hs
    have hlead : (word x.chars).leads m.leads = false := x.not_leads rfl
    have hequals : (sign '=').leads m.leads = false := by cases m <;> rfl
    refine Piece.step_of_spot_none _ _ _ rfl hlexemes (List.forall_mem_singleton.2 hlead) hblank
      (List.forall_mem_singleton.2 hequals) (Unary.hitOf_eq_none_of_next hs.append.text ?_)
    cases m <;> rfl
  | plain v =>
    obtain ⟨c, u, hu, hc⟩ := exists_word_of_value v
    have hdrop : (s.left m.searched).drop o = ' ' :: c :: (u ++ remains (inks m.searched) bs) := by
      rw [hs.text, List.map_cons, Piece.page_cons, text_plain v hstill, Lexeme.text_append, Lexeme.text_cons, hu]
      rfl
    refine Piece.step_of_spot_none [] (sign ' ') v.lexemes rfl (text_plain v hstill) (List.forall_mem_nil _) hblank
      (v.not_leads rfl (by cases m <;> rfl)) (hitOf_eq_none_of_next hdrop ?_)
    rw [Text.isBlank_eq_false_of_isAsciiWord hc, Bool.false_or, ← Bool.not_eq_true, List.contains_iff_mem]
    exact fun hmem => Bool.noConfusion (hc.symm.trans (Unary.not_isAsciiWord_of_mem hmem))
  | giveWord =>
    refine hquiet ?_ rfl
    rw [Piece.lexemes_of_some (p := giveWord.piece) (inks_of_mem m.give_mem_searched)]
    simp only [piece, List.nil_append, List.append_nil]
    intro l hl
    rw [List.eq_of_mem_replicate hl]
    cases m <;> rfl
  | semicolon =>
    refine hquiet ?_ rfl
    rw [Piece.lexemes_of_none (p := semicolon.piece) (inks_of_not_mem hstill)]
    cases m <;> decide

end Formula
end SourceLikeness.Tokenizer
