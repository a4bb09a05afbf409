import SourceLikeness.Proofs.Expression.Joints

/-!
# The passes over a statement with an expression

What each pass finds in the pieces of a statement, beside those for signs that join.

* `Chunk.Role.searched` : what is done with when a pass comes;
* `Formula.drop_front`, `Formula.drop_binary` : what is left to be read from a sign on;
* `Formula.steps_gives`, `Formula.steps_logic`, `Formula.steps_negation`, `Formula.steps_complement`,
  `Formula.steps_comparison`, `Formula.steps_initializers`, `Formula.steps_assigns` : these passes find the pieces that they
  should, and nothing else.
-/

namespace SourceLikeness.Tokenizer
open Lexeme (word sign spots)
open Text (isAsciiWord isBlank)
open Item (keyword)

/-- What is done with when the pass comes that looks for the pieces of a role. -/
def Chunk.Role.searched : Chunk.Role → List Chunk.Role
  | give => []
  | joined m => m.searched
  | logic => [.joined .minus, .joined .star, .give]
  | negation => [.logic, .joined .minus, .joined .star, .give]
  | complement => [.joined .ampersand, .negation, .logic, .joined .minus, .joined .star, .give]
  | compare => [.complement, .joined .ampersand, .negation, .logic, .joined .minus, .joined .star, .give]
  | assign => [.compare, .complement, .joined .ampersand, .negation, .logic, .joined .minus, .joined .star, .give]
  | still => [.assign, .compare, .complement, .joined .ampersand, .negation, .logic, .joined .minus, .joined .star, .give]

namespace Formula
open Chunk
variable {s : Formula} {rs : List Chunk.Role} {bs : List Chunk} {o : Nat}

/-! ## What is left from a sign on -/

theorem lexemes_front {f : Front} {joins : Bool} {v : Value} (hrole : f.role joins ∉ rs) :
    (front f joins v).piece.lexemes (inks rs) = [sign ' '] ++ sign f.char :: v.lexemes := by
  rw [text_front, if_neg hrole]
  rfl

/-- A word stands behind the sign of an operand. -/
theorem drop_front {f : Front} {joins : Bool} {v : Value} (hrole : f.role joins ∉ rs)
    (hs : Stands (s.left rs) o (Piece.page (inks rs) ((front f joins v :: bs).map piece))) :
    ∃ b w, (s.left rs).drop (o + 1) = f.char :: b :: w ∧ isAsciiWord b = true := by
  obtain ⟨b, u, hu, hb⟩ := exists_word_of_value v
  refine ⟨b, u ++ remains (inks rs) bs, ?_, hb⟩
  have htext : Lexeme.text ([sign ' '] ++ sign f.char :: v.lexemes) = ' ' :: f.char :: b :: u := by rw [← hu]; rfl
  rw [← List.drop_drop, hs.text, List.map_cons, Piece.page_cons, lexemes_front hrole, Lexeme.text_append, htext]
  rfl

theorem lexemes_binary_of_not_mem {op : Binary} {seen : Bool} (hrole : op.role seen ∉ rs) :
    (binary op seen).piece.lexemes (inks rs) = [sign ' '] ++ op.text.toList.map sign := by
  rw [lexemes_binary, if_neg hrole]
  rfl

/-- A shift is an operator that is seen. -/
theorem not_isShift_of_suffix {op : Binary} {seen : Bool} (hbs : binary op seen :: bs <:+ s.chunks) :
    (seen || !op.isShift) = true := by
  obtain ⟨b, ds, rfl, hb⟩ := exists_head_of_any (follows_next hbs)
  exact (Bool.and_eq_true_iff.1 hb).2

/-- A blank stands behind an operator. -/
theorem drop_binary {op : Binary} {seen : Bool} (hrole : op.role seen ∉ rs) (hstill : Chunk.Role.still ∉ rs)
    (hbs : binary op seen :: bs <:+ s.chunks)
    (hs : Stands (s.left rs) o (Piece.page (inks rs) ((binary op seen :: bs).map piece))) :
    ∃ w, (s.left rs).drop (o + 1) = op.text.toList ++ ' ' :: w := by
  obtain ⟨b, ds, rfl, hb⟩ := exists_head_of_any (follows_next hbs)
  rw [Bool.and_eq_true, Bool.and_eq_true] at hb
  obtain ⟨c, w, hremains, -⟩ := remains_of_isTerm hstill hb.1.1 ds
  refine ⟨c :: w, ?_⟩
  rw [← List.drop_drop, hs.text, List.map_cons, Piece.page_cons, lexemes_binary_of_not_mem hrole, Lexeme.text_append,
    Lexeme.text_append, text_signs, ← hremains]
  rfl

theorem lexemes_target {x : Name} (hassign : Chunk.Role.assign ∉ rs) :
    (target x).piece.lexemes (inks rs) = [word x.chars, sign ' '] ++ sign '=' :: [] :=
  Piece.lexemes_of_none (inks_of_not_mem hassign)

/-- The equals sign of an assignment has blanks on both sides, and an operand behind it. -/
theorem drop_target {x : Name} (hassign : Chunk.Role.assign ∉ rs) (hstill : Chunk.Role.still ∉ rs)
    (hbs : target x :: bs <:+ s.chunks) (hs : Stands (s.left rs) o (Piece.page (inks rs) ((target x :: bs).map piece))) :
    ∃ b w, (s.left rs).drop (o + (Lexeme.text [word x.chars, sign ' ']).length) = '=' :: ' ' :: b :: w ∧
      (isBlank b = false ∧ b ≠ '\x7b') ∧
      Text.charBefore (s.left rs) (o + (Lexeme.text [word x.chars, sign ' ']).length) = some ' ' := by
  obtain ⟨a, ds, rfl, ha⟩ := exists_head_of_any (follows_next hbs)
  obtain ⟨b, w, hremains, hopens⟩ := remains_of_isTerm hstill ha ds
  rw [List.map_cons, Piece.page_cons, lexemes_target hassign, List.append_assoc] at hs
  refine ⟨b, w, ?_, hopens.not_blank, ?_⟩
  · rw [hs.append.text, ← hremains]
    rfl
  · have hplace : o + (Lexeme.text [word x.chars, sign ' ']).length = o + x.chars.length + 1 := by
      simp [Lexeme.chars]
      omega
    rw [hplace]
    exact hs.tail.getElem? (k := 0) Nat.one_pos

/-- A search for texts finds an operator that is the first of them to be read. -/
theorem step_of_found {f : Finder} {x : Leads} {wanted : Chunk.Role → Bool} {op : Binary} {seen : Bool} (ts : List String)
    (hf : f.pattern = Pattern.any (ts.map Pattern.text)) (hbarred : f.barred = []) (hconsumes : f.consumes = false)
    (hbefore : f.before (some ' ') = true) (hafter : f.after (some ' ') = true)
    (hfind : ∀ w, ts.find? (·.toList.isPrefixOf (op.text.toList ++ ' ' :: w)) = some op.text)
    (hwanted : wanted (op.role seen) = true) (hblank : (sign ' ').leads x = false)
    (hlead : op.text.toList.head?.any (fun c => (sign c).leads x) = true)
    (hrole : op.role seen ∉ rs) (hstill : Chunk.Role.still ∉ rs) (hbs : binary op seen :: bs <:+ s.chunks)
    (hs : Stands (s.left rs) o (Piece.page (inks rs) ((binary op seen :: bs).map piece))) :
    Piece.Step f (s.left rs) x (inks rs) wanted o (binary op seen).piece := by
  obtain ⟨w, hdrop⟩ := drop_binary hrole hstill hbs hs
  have hlexemes := lexemes_binary_of_not_mem hrole
  obtain ⟨c, hc, hlead⟩ := (Option.any_eq_true _ _).1 hlead
  obtain ⟨cs, hcs⟩ := List.head?_eq_some_iff.1 hc
  have hspace : Text.charBefore (s.left rs) (o + 1) = some ' ' := by
    rw [List.map_cons, Piece.page_cons, hlexemes] at hs
    exact hs.getElem? (k := 0) Nat.one_pos
  obtain ⟨hit, hhit, htoken⟩ := hitOf_any_text (o := o + 1) hf hbarred (by rw [hspace, hbefore]) (by rw [hdrop]; exact hfind w)
    (by rw [hdrop, List.drop_left]; exact hafter)
  have hspan : (binary op seen).piece.span o = ⟨o + 1, o + 1 + op.text.toList.length⟩ := by
    rw [Piece.span, piece, text_signs]
    rfl
  rw [List.map_cons, Piece.page_cons, hlexemes] at hs
  rw [hcs] at hlexemes hs
  refine Piece.step_of_stop [sign ' '] (sign c) (cs.map sign) [] hwanted hconsumes (by rw [List.append_nil]; exact hlexemes)
    (List.forall_mem_singleton.2 hblank) hlead (fun l hl => hs.sound l ?_) (List.forall_mem_nil _) hhit
    (by rw [htoken, hspan]) ?_
  · exact List.mem_append_left _ (List.mem_cons_of_mem _ (List.mem_cons_of_mem _ hl))
  · rw [hspan, hcs, text_signs, List.length_cons]
    change o + 1 + (cs.length + 1) = o + 1 + 1 + cs.length
    omega

/-- A search for the sign in front of an operand finds it. -/
theorem step_of_front {f : Finder} {x : Leads} {wanted : Chunk.Role → Bool} {t : String} {a : Front} {joins : Bool} {v : Value}
    (hf : f.pattern = Pattern.text t) (hbarred : f.barred = []) (hconsumes : f.consumes = false) (ht : t.toList = [a.char])
    (hbefore : ∀ c, f.before c = true) (hafter : ∀ b, isAsciiWord b = true → f.after (some b) = true)
    (hwanted : wanted (a.role joins) = true) (hblank : (sign ' ').leads x = false) (hlead : (sign a.char).leads x = true)
    (hvalue : ∀ l ∈ v.lexemes, l.leads x = false) (hrole : a.role joins ∉ rs)
    (hs : Stands (s.left rs) o (Piece.page (inks rs) ((front a joins v :: bs).map piece))) :
    Piece.Step f (s.left rs) x (inks rs) wanted o (front a joins v).piece := by
  obtain ⟨b, w, hdrop, hb⟩ := drop_front hrole hs
  have hfind : [t].find? (·.toList.isPrefixOf ((s.left rs).drop (o + 1))) = some t := by
    refine List.find?_cons_of_pos (List.isPrefixOf_iff_prefix.2 ?_)
    rw [hdrop, ht]
    exact List.prefix_append [a.char] (b :: w)
  obtain ⟨hit, hhit, htoken⟩ := hitOf_any_text hf hbarred (hbefore _) hfind (by rw [hdrop, ht]; exact hafter b hb)
  exact Piece.step_of_spot [sign ' '] (sign a.char) v.lexemes hwanted hconsumes (lexemes_front hrole)
    (List.forall_mem_singleton.2 hblank) hlead hvalue hhit (by rw [htoken, ht]; rfl)

/-! ## Returns -/

theorem steps_gives (s : Formula) : Piece.Steps { pattern := Pattern.word ["return"] } (s.left Chunk.Role.give.searched)
    Segment.giveLeads (inks Chunk.Role.give.searched) (· == .give) 0 (s.chunks.map piece) := by
  refine Piece.steps_of_forall s.sound_chunks (isDry_inks _) fun o a bs hbs hs hascii => ?_
  cases a with
  | giveWord =>
    obtain ⟨b, ds, rfl, hb⟩ := exists_head_of_any (follows_next hbs)
    have hstill : Chunk.Role.still ∉ Chunk.Role.give.searched := by decide
    obtain ⟨c, w, hremains, -⟩ := remains_of_isTerm hstill hb ds
    have htext : (s.left Chunk.Role.give.searched).drop o = "return".toList ++ ' ' :: c :: w := by
      rw [← hremains, hs.text]
      rfl
    obtain ⟨hit, hhit, htoken⟩ := hitOf_word "return" htext (hs.atWordEdge hascii) rfl
    exact Piece.step_of_spot [] (keyword "return") [] rfl rfl rfl (List.forall_mem_nil _) (by decide) (List.forall_mem_nil _)
      hhit htoken
  | front f joins v =>
    rcases f with m | _ | _
    · cases joins <;> exact step_of_quiet rfl rfl rfl
    all_goals exact step_of_quiet rfl rfl rfl
  | binary op seen => cases op <;> cases seen <;> exact step_of_quiet rfl rfl rfl
  | angle spaced left => cases spaced <;> exact step_of_quiet rfl rfl rfl
  | _ => exact step_of_quiet rfl rfl rfl

/-! ## Logic -/

def logicLeads : Leads := ⟨[], [], ['&', '|'], [], false⟩

/-- A sign in front of another one is none of the two operators. -/
theorem hitOf_logic_eq_none {u w : List Char} {c d : Char} (hu : u.drop o = c :: d :: w) (hne : c ≠ d) :
    ({ pattern := Pattern.any [Pattern.text "&&", Pattern.text "||"] } : Finder).hitOf (fun _ => true) u o = none := by
  have hnot : ∀ a, ¬ [a, a].isPrefixOf (c :: d :: w) = true := by
    intro a
    rw [List.isPrefixOf_iff_prefix, List.cons_prefix_cons, List.cons_prefix_cons]
    rintro ⟨rfl, rfl, -⟩
    exact hne rfl
  refine hitOf_eq_none_of_texts ["&&", "||"] rfl (List.find?_eq_none.2 ?_)
  rw [hu, List.forall_mem_cons, List.forall_mem_singleton]
  exact ⟨hnot '&', hnot '|'⟩

theorem steps_logic (s : Formula) : Piece.Steps { pattern := Pattern.any [Pattern.text "&&", Pattern.text "||"] }
    (s.left Chunk.Role.logic.searched) logicLeads (inks Chunk.Role.logic.searched) (· == .logic) 0 (s.chunks.map piece) := by
  refine Piece.steps_of_forall s.sound_chunks (isDry_inks _) fun o a bs hbs hs _ => ?_
  cases a with
  | front f joins v =>
    by_cases hf : f = .unary .ampersand
    · subst hf
      have hrole : (Front.unary .ampersand).role joins ∉ Chunk.Role.logic.searched := by cases joins <;> decide
      obtain ⟨b, w, hdrop, hb⟩ := drop_front hrole hs
      refine Piece.step_of_spot_none _ _ _ (by cases joins <;> rfl) (lexemes_front hrole) (by decide) rfl (v.not_leads rfl rfl)
        (hitOf_logic_eq_none hdrop ?_)
      rintro rfl
      cases hb
    · rcases f with m | _ | _
      · cases m <;> cases joins <;> first | exact step_of_quiet rfl rfl rfl | exact absurd rfl hf
      all_goals exact step_of_quiet rfl rfl rfl
  | binary op seen =>
    cases op with
    | both | either =>
      exact step_of_found ["&&", "||"] rfl rfl rfl rfl rfl (fun _ => rfl) rfl rfl rfl (by cases seen <;> decide)
        (by decide) hbs hs
    | bitAnd | bitOr =>
      obtain ⟨w, hdrop⟩ := drop_binary (by cases seen <;> decide) (by decide) hbs hs
      exact Piece.step_of_spot_none _ _ _ (by cases seen <;> rfl) (lexemes_binary_of_not_mem (by cases seen <;> decide))
        (by decide) rfl (List.forall_mem_nil _) (hitOf_logic_eq_none hdrop (by decide))
    | _ => cases seen <;> exact step_of_quiet rfl rfl rfl
  | angle spaced left => cases spaced <;> cases left <;> exact step_of_quiet rfl rfl rfl
  | _ => exact step_of_quiet rfl rfl rfl

/-! ## Signs in front of operands -/

def negationLeads : Leads := ⟨[], [], ['!'], [], false⟩

theorem steps_negation (s : Formula) : Piece.Steps Operator.negation (s.left Chunk.Role.negation.searched) negationLeads
    (inks Chunk.Role.negation.searched) (· == .negation) 0 (s.chunks.map piece) := by
  refine Piece.steps_of_forall s.sound_chunks (isDry_inks _) fun o a bs hbs hs _ => ?_
  have hafter : ∀ b, isAsciiWord b = true → Operator.negation.after (some b) = true := by
    intro b hb
    change (!decide (b ∈ ['='])) = true
    rw [Bool.not_eq_true', decide_eq_false_iff_not, List.mem_singleton]
    rintro rfl
    cases hb
  cases a with
  | front f joins v =>
    rcases f with m | _ | _
    · cases m <;> cases joins <;> exact step_of_quiet rfl rfl rfl
    · exact step_of_front (t := "!") rfl rfl rfl rfl (fun _ => rfl) hafter rfl rfl rfl (v.not_leads rfl rfl)
        (show Chunk.Role.negation ∉ Chunk.Role.negation.searched by decide) hs
    · exact step_of_quiet rfl rfl rfl
  | binary op seen =>
    by_cases hop : op = .unequal
    · subst hop
      obtain ⟨w, hdrop⟩ := drop_binary (by cases seen <;> decide) (by decide) hbs hs
      exact Piece.step_of_spot_none [sign ' '] (sign '!') [sign '='] (by cases seen <;> rfl)
        (lexemes_binary_of_not_mem (by cases seen <;> decide)) (by decide) rfl (by decide)
        (hitOf_eq_none_of_after (f := Operator.negation) (Pattern.run_text (t := "!") hdrop) rfl)
    · cases op <;> first | exact absurd rfl hop | (cases seen <;> exact step_of_quiet rfl rfl rfl)
  | angle spaced left => cases spaced <;> cases left <;> exact step_of_quiet rfl rfl rfl
  | _ => exact step_of_quiet rfl rfl rfl

def complementLeads : Leads := ⟨[], [], ['~'], [], false⟩

theorem steps_complement (s : Formula) : Piece.Steps { pattern := Pattern.text "~" } (s.left Chunk.Role.complement.searched)
    complementLeads (inks Chunk.Role.complement.searched) (· == .complement) 0 (s.chunks.map piece) := by
  refine Piece.steps_of_forall s.sound_chunks (isDry_inks _) fun o a bs _ hs _ => ?_
  cases a with
  | front f joins v =>
    rcases f with m | _ | _
    · cases m <;> cases joins <;> exact step_of_quiet rfl rfl rfl
    · exact step_of_quiet rfl rfl rfl
    · exact step_of_front (t := "~") rfl rfl rfl rfl (fun _ => rfl) (fun _ _ => rfl) rfl rfl rfl (v.not_leads rfl rfl)
        (show Chunk.Role.complement ∉ Chunk.Role.complement.searched by decide) hs
  | binary op seen => cases op <;> cases seen <;> exact step_of_quiet rfl rfl rfl
  | angle spaced left => cases spaced <;> cases left <;> exact step_of_quiet rfl rfl rfl
  | _ => exact step_of_quiet rfl rfl rfl

/-! ## Comparisons -/

theorem lexemes_angle {spaced left : Bool} (hcompare : Chunk.Role.compare ∉ rs) :
    (angle spaced left).piece.lexemes (inks rs) = (if spaced then [sign ' '] else []) ++ sign (angleChar left) :: [] :=
  (Piece.lexemes_of_none (p := (angle spaced left).piece) (inks_of_not_mem hcompare)).trans (List.append_nil _)

/-- An angle is read by itself in front of another one and in front of a blank. -/
theorem hitOf_angle {u w : List Char} {left : Bool} {b d : Char} (hd : d ∈ [angleChar left, ' '])
    (hu : u.drop o = angleChar left :: d :: w) (hb : Text.charBefore u o = some b) (hb' : b ∈ [angleChar left, ' ']) :
    ∃ h : Hit, Operator.comparison.hitOf (fun _ => true) u o = some h ∧ h.token = ⟨o, o + 1⟩ := by
  have hbefore : Operator.comparison.before (Text.charBefore u o) = true := by
    have hall : ∀ b ∈ [angleChar left, ' '], Operator.comparison.before (some b) = true := by cases left <;> decide
    rw [hb, hall b hb']
  have hfind : ["===", "!==", "==", "!=", "<=", ">=", "<", ">"].find? (·.toList.isPrefixOf (angleChar left :: d :: w)) =
      some (String.singleton (angleChar left)) := by
    simp only [List.mem_cons, List.not_mem_nil, or_false] at hd
    cases left <;> rcases hd with rfl | rfl <;> rfl
  rw [← hu] at hfind
  obtain ⟨h, hhit, htoken⟩ := hitOf_any_text (f := Operator.comparison) rfl rfl hbefore hfind rfl
  exact ⟨h, hhit, htoken.trans (by cases left <;> rfl)⟩

theorem step_angle_found {spaced left : Bool} (hcompare : Chunk.Role.compare ∉ rs) (hstill : Chunk.Role.still ∉ rs)
    (hbs : angle spaced left :: bs <:+ s.chunks)
    (hs : Stands (s.left rs) o (Piece.page (inks rs) ((angle spaced left :: bs).map piece))) :
    Piece.Step Operator.comparison (s.left rs) equalsLeads (inks rs) (· == .compare) o (angle spaced left).piece := by
  have hlead : (sign (angleChar left)).leads equalsLeads = true := by cases left <;> rfl
  cases spaced with
  | true =>
    obtain ⟨b, ds, rfl, hb⟩ := exists_head_of_any (follows_next hbs)
    obtain rfl : b = angle false left := by
      rcases b with _ | _ | _ | _ | _ | ⟨_ | _, l⟩ | _ <;>
        first | exact congrArg _ (beq_iff_eq.1 hb) | exact Bool.noConfusion hb
    rw [List.map_cons, Piece.page_cons, lexemes_angle hcompare, List.append_assoc] at hs
    have hrest : remains (inks rs) (angle false left :: ds) = angleChar left :: remains (inks rs) ds := by
      rw [remains_cons, lexemes_angle hcompare]
      rfl
    have hdrop : (s.left rs).drop (o + 1) = angleChar left :: angleChar left :: remains (inks rs) ds := by
      rw [← hrest]
      exact hs.tail.text
    obtain ⟨h, hhit, htoken⟩ := hitOf_angle List.mem_cons_self hdrop (hs.getElem? (k := 0) Nat.one_pos) (by simp)
    exact Piece.step_of_spot [sign ' '] _ [] rfl rfl (lexemes_angle hcompare) (by decide) hlead (List.forall_mem_nil _) hhit
      htoken
  | false =>
    obtain ⟨b, ds, rfl, hb⟩ := exists_head_of_any (follows_next hbs)
    obtain ⟨c, w, hremains, -⟩ := remains_of_isTerm hstill (Bool.and_eq_true_iff.1 hb).1 ds
    have htext : remains (inks rs) (angle false left :: b :: ds) = angleChar left :: ' ' :: c :: w := by
      rw [remains_cons, lexemes_angle hcompare, hremains]
      rfl
    obtain ⟨cs, d, hd, hbefore⟩ := charBefore_eq hbs rfl hs (by rw [htext]; exact List.cons_ne_nil _ _)
    obtain rfl : d = angle true left := by
      rcases d with _ | _ | _ | _ | _ | ⟨_ | _, l⟩ | _ <;>
        first | exact congrArg _ (beq_iff_eq.1 hd).symm | exact Bool.noConfusion hd
    rw [lexemes_angle hcompare, Lexeme.text_append, ← List.append_assoc] at hbefore
    obtain ⟨h, hhit, htoken⟩ := hitOf_angle (by simp) (hs.text.trans htext) (hbefore.trans List.getLast?_concat)
      List.mem_cons_self
    exact Piece.step_of_spot [] _ [] rfl rfl (lexemes_angle hcompare) (List.forall_mem_nil _) hlead (List.forall_mem_nil _)
      hhit htoken

theorem steps_comparison (s : Formula) : Piece.Steps Operator.comparison (s.left Chunk.Role.compare.searched) equalsLeads
    (inks Chunk.Role.compare.searched) (· == .compare) 0 (s.chunks.map piece) := by
  refine Piece.steps_of_forall s.sound_chunks (isDry_inks _) fun o a bs hbs hs _ => ?_
  cases a with
  | target x =>
    obtain ⟨b, w, hdrop, -, -⟩ := drop_target (by decide) (by decide) hbs hs
    exact Piece.step_of_spot_none _ _ _ rfl (lexemes_target (by decide)) (by simp [Lexeme.leads, equalsLeads]) rfl
      (List.forall_mem_nil _) (hitOf_comparison_eq_none hdrop)
  | front f joins v =>
    rcases f with m | _ | _
    · cases m <;> cases joins <;> exact step_of_quiet rfl rfl rfl
    all_goals exact step_of_quiet rfl rfl rfl
  | binary op seen =>
    have hshift := not_isShift_of_suffix hbs
    cases op with
    | equal | unequal | below | above | atMost | atLeast =>
      exact step_of_found _ rfl rfl rfl rfl rfl (fun _ => rfl) (by cases seen <;> rfl) rfl rfl (by cases seen <;> decide)
        (by decide) hbs hs
    | _ => cases seen <;> first | exact step_of_quiet rfl rfl rfl | cases hshift
  | angle spaced left => exact step_angle_found (by decide) (by decide) hbs hs
  | _ => exact step_of_quiet rfl rfl rfl

/-! ## Assignments -/

/-- Behind the search for comparisons, a search for equals signs looks at those that assign. -/
theorem steps_equals {f : Finder} {wanted : Chunk.Role → Bool} (hconsumes : f.consumes = false)
    (hwanted : ∀ r, wanted r = true → r = .assign)
    (h : ∀ {u w : List Char} {i : Nat}, u.drop i = '=' :: ' ' :: w → (∃ b v, w = b :: v ∧ isBlank b = false ∧ b ≠ '\x7b') →
      Text.charBefore u i = some ' ' →
      if wanted .assign then ∃ h : Hit, f.hitOf (fun _ => true) u i = some h ∧ h.token = ⟨i, i + 1⟩
      else f.hitOf (fun _ => true) u i = none) (s : Formula) :
    Piece.Steps f (s.left Chunk.Role.assign.searched) equalsLeads (inks Chunk.Role.assign.searched) wanted 0
      (s.chunks.map piece) := by
  refine Piece.steps_of_forall s.sound_chunks (isDry_inks _) fun o a bs hbs hs _ => ?_
  have hquiet : ∀ {a : Chunk}, a.quiet equalsLeads (inks Chunk.Role.assign.searched) = true → a.piece.role ≠ .assign →
      Piece.Step f (s.left Chunk.Role.assign.searched) equalsLeads (inks Chunk.Role.assign.searched) wanted o a.piece :=
    fun hq hr => step_of_quiet (by decide) hq (by
      rw [← Bool.not_eq_true]
      exact fun hw => hr (hwanted _ hw))
  cases a with
  | target x =>
    obtain ⟨b, w, hdrop, hopens, hbefore⟩ := drop_target (by decide) (by decide) hbs hs
    have hlead : ∀ l ∈ [word x.chars, sign ' '], l.leads equalsLeads = false := by simp [Lexeme.leads, equalsLeads]
    have hhit := h hdrop ⟨b, w, rfl, hopens⟩ hbefore
    split_ifs at hhit with hassign
    · obtain ⟨hit, hhit, htoken⟩ := hhit
      exact Piece.step_of_spot _ _ _ hassign hconsumes (lexemes_target (by decide)) hlead rfl (List.forall_mem_nil _) hhit
        htoken
    · rw [Bool.not_eq_true] at hassign
      exact Piece.step_of_spot_none _ _ _ hassign (lexemes_target (by decide)) hlead rfl (List.forall_mem_nil _) hhit
  | front f joins v =>
    rcases f with m | _ | _
    · cases m <;> cases joins <;> exact hquiet rfl (by rintro ⟨⟩)
    all_goals exact hquiet rfl (by rintro ⟨⟩)
  | binary op seen =>
    have hshift := not_isShift_of_suffix hbs
    cases op <;> cases seen <;> first | exact hquiet rfl (by rintro ⟨⟩) | cases hshift
  | angle spaced left => cases spaced <;> cases left <;> exact hquiet rfl (by rintro ⟨⟩)
  | _ => exact hquiet rfl (by rintro ⟨⟩)

theorem steps_initializers (s : Formula) : Piece.Steps Operator.initializer (s.left Chunk.Role.assign.searched) equalsLeads
    (inks Chunk.Role.assign.searched) (fun _ => false) 0 (s.chunks.map piece) :=
  steps_equals rfl (fun _ h => Bool.noConfusion h) (by
    intro u w i hu hw _
    exact hitOf_initializer_eq_none hu hw) s

theorem steps_assigns (s : Formula) : Piece.Steps Operator.assignment (s.left Chunk.Role.assign.searched) equalsLeads
    (inks Chunk.Role.assign.searched) (· == .assign) 0 (s.chunks.map piece) :=
  steps_equals rfl (fun _ h => beq_iff_eq.1 h) (by
    intro u w i hu _ hbefore
    exact hitOf_assignment hu hbefore) s

end Formula
end SourceLikeness.Tokenizer
