import SourceLikeness.Proofs.Braces.Statement
import SourceLikeness.Proofs.Piece.Stream

/-!
# The pieces of a statement

* `Item.sound_map` : the pieces are sound, whatever their order;
* `Stmt.text_bare`, `Stmt.text_braced` : the pieces make up the two texts;
* `Stmt.categories_bare` : both have the same categories in the same order;
* `Item.Fits` : a statement or a block comes behind each header; `Item.Calm` : marks of one place are all the same.
-/

namespace SourceLikeness

/-! ## Lexemes that nothing can touch -/

namespace Lexeme

/-- The lexemes do not stop with a word, so that anything may come behind them. -/
structure Shut (ls : List Lexeme) : Prop where
  apart : Apart ls
  last : ∀ l ∈ ls.getLast?, l.isWord = false

theorem Shut.append {ls ms : List Lexeme} (h : Shut ls) (hms : Apart ms) : Apart (ls ++ ms) :=
  List.isChain_append.2 ⟨h.apart, hms, fun l hl m _ => by rw [h.last l hl, Bool.false_and]⟩

theorem apart_flatMap {ι : Type} {g : ι → List Lexeme} {as : List ι} (h : ∀ a ∈ as, Shut (g a)) : Apart (as.flatMap g) := by
  induction as with
  | nil => exact List.isChain_nil
  | cons a as ih =>
    rw [List.flatMap_cons]
    exact (h a List.mem_cons_self).append (ih fun b hb => h b (List.mem_cons_of_mem a hb))

end Lexeme

namespace Tokenizer
namespace Item
open Lexeme (Shut)

/-- Words and signs of the pieces. -/
theorem sound_keyword : ∀ w ∈ ["while", "for", "if", "else", "do", "0"], (keyword w).Sound := by
  have hall : ["while", "for", "if", "else", "do", "0"].all (fun w => !w.toList.isEmpty && w.toList.all Text.isAsciiWord) = true := by
    decide
  intro w hw
  have h := List.all_eq_true.1 hall w hw
  rw [Bool.and_eq_true, Bool.not_eq_true', List.isEmpty_eq_false_iff, List.all_eq_true] at h
  exact h

theorem sound_sign : ∀ c ∈ [' ', '(', ')', '=', ';', '<', '+', '\x7b', '\x7d'], (Lexeme.sign c).Sound := by
  have hall : [' ', '(', ')', '=', ';', '<', '+', '\x7b', '\x7d'].all
      (fun c => !Text.isAsciiWord c && decide (IsAscii c) && c != '\n') = true := by
    decide
  intro c hc
  have h := List.all_eq_true.1 hall c hc
  rw [Bool.and_eq_true, Bool.and_eq_true, Bool.not_eq_true', decide_eq_true_eq, bne_iff_ne] at h
  exact ⟨h.1.1, h.1.2, h.2⟩

theorem sound_piece (a : Item) : ∀ l ∈ a.piece.lexemes (fun _ => none), l.Sound := by
  have hname : ∀ n : Name, (Lexeme.word n.chars).Sound := Name.isWord
  have hvalue := Value.sound
  have hcondition := Condition.sound
  have hkeywords := sound_keyword
  have hsigns := sound_sign
  simp only [List.forall_mem_cons] at hkeywords hsigns
  cases a with
  | ifHead chained c =>
    cases chained <;>
      simpa [piece, Piece.lexemes, Ink.cover, bracketed, or_imp, forall_and, hkeywords, hsigns] using hcondition c
  | whileHead c | doTail c =>
    simpa [piece, Piece.lexemes, Ink.cover, bracketed, or_imp, forall_and, hkeywords, hsigns] using hcondition c
  | forHead i n =>
    simpa [piece, Piece.lexemes, Ink.cover, bracketed, counting, or_imp, forall_and, hkeywords, hsigns, hname] using hvalue n
  | assign x e => simpa [piece, Piece.lexemes, Ink.cover, or_imp, forall_and, hkeywords, hsigns, hname] using hvalue e
  | _ => simp [piece, Piece.lexemes, Ink.cover, hkeywords, hsigns]

theorem shut_piece (a : Item) : Shut (a.piece.lexemes fun _ => none) := by
  cases a with
  | ifHead chained c =>
    cases chained <;> constructor <;> simp [piece, Piece.lexemes, Ink.cover, bracketed, keyword, Lexeme.isWord, List.getLast?_cons, c.apart]
  | whileHead c | doTail c =>
    constructor <;> simp [piece, Piece.lexemes, Ink.cover, bracketed, keyword, Lexeme.isWord, List.getLast?_cons, c.apart]
  | forHead i n =>
    constructor <;> simp [piece, Piece.lexemes, Ink.cover, bracketed, counting, keyword, Lexeme.isWord, List.getLast?_cons, n.apart]
  | assign x e => constructor <;> simp [piece, Piece.lexemes, Ink.cover, Lexeme.isWord, List.getLast?_cons, e.apart]
  | _ => constructor <;> simp [piece, Piece.lexemes, Ink.cover, keyword, Lexeme.isWord]

/-- Pieces are sound in any order. -/
theorem sound_map (as : List Item) : Piece.Sound (as.map piece) :=
  .of_flatMap (fun a _ => sound_piece a) (Lexeme.apart_flatMap fun a _ => shut_piece a)

/-! ## Texts -/

/-- The text of some pieces. -/
def text (as : List Item) : List Char := Lexeme.text (Piece.page (fun _ => none) (as.map piece))

@[simp] theorem text_nil : text [] = [] := rfl

@[simp] theorem text_cons (a : Item) (as : List Item) : text (a :: as) = a.chars ++ text as := Lexeme.text_append _ _

@[simp] theorem text_append (as bs : List Item) : text (as ++ bs) = text as ++ text bs := by
  rw [text, List.map_append, Piece.page_append, Lexeme.text_append]
  rfl

/-- The text of something in parentheses. -/
theorem text_bracketed (ls : List Lexeme) : Lexeme.text (bracketed ls) = " (".toList ++ Lexeme.text ls ++ ")".toList := by
  rw [bracketed, Lexeme.text_append]
  rfl

@[simp] theorem chars_whileHead (c : Condition) : (whileHead c).chars = "while (".toList ++ c.text.toList ++ ") ".toList := by
  simp [chars, piece, Piece.lexemes, Ink.cover, keyword, Lexeme.chars, text_bracketed, Condition.text_lexemes]

@[simp] theorem chars_forHead (i : Name) (n : Value) : (forHead i n).chars = "for (".toList ++ i.text.toList ++
    " = 0; ".toList ++ i.text.toList ++ " < ".toList ++ n.text.toList ++ "; ".toList ++ i.text.toList ++ "++) ".toList := by
  simp [chars, piece, Piece.lexemes, Ink.cover, keyword, Lexeme.chars, text_bracketed, counting, Value.text_lexemes, Name.chars]

@[simp] theorem chars_ifHead (chained : Bool) (c : Condition) :
    (ifHead chained c).chars = (if chained then " else ".toList else []) ++ "if (".toList ++ c.text.toList ++ ") ".toList := by
  cases chained <;>
    simp [chars, piece, Piece.lexemes, Ink.cover, keyword, Lexeme.chars, text_bracketed, Condition.text_lexemes]

@[simp] theorem chars_elseWord : elseWord.chars = " else ".toList := rfl

@[simp] theorem chars_doWord : doWord.chars = "do ".toList := rfl

@[simp] theorem chars_doTail (c : Condition) : (doTail c).chars = " while (".toList ++ c.text.toList ++ ");".toList := by
  simp [chars, piece, Piece.lexemes, Ink.cover, keyword, Lexeme.chars, text_bracketed, Condition.text_lexemes]

@[simp] theorem chars_assign (x : Name) (e : Value) :
    (assign x e).chars = x.text.toList ++ " = ".toList ++ e.text.toList ++ ";".toList := by
  simp [chars, piece, Piece.lexemes, Ink.cover, Lexeme.chars, Value.text_lexemes, Name.chars]

@[simp] theorem chars_openMark : openMark.chars = [] := rfl

@[simp] theorem chars_closeMark : closeMark.chars = [] := rfl

@[simp] theorem chars_openBrace : openBrace.chars = "\x7b ".toList := rfl

@[simp] theorem chars_closeBrace : closeBrace.chars = " \x7d".toList := rfl

@[simp] theorem text_replicate_closeMark (n : Nat) : text (List.replicate n closeMark) = [] := by
  induction n with
  | zero => rfl
  | succ n ih => rw [List.replicate_succ, text_cons, ih]; rfl

/-! ## Categories -/

/-- The categories that the pieces are recorded with. -/
def categories (as : List Item) : List Category := as.filterMap fun a => a.piece.role.category

@[simp] theorem categories_nil : categories [] = [] := rfl

@[simp] theorem categories_cons (a : Item) (as : List Item) :
    categories (a :: as) = a.piece.role.category.toList ++ categories as := by
  rw [categories, List.filterMap_cons]
  cases a.piece.role.category <;> rfl

@[simp] theorem categories_append (as bs : List Item) : categories (as ++ bs) = categories as ++ categories bs :=
  List.filterMap_append

@[simp] theorem role_ifHead (chained : Bool) (c : Condition) : (ifHead chained c).piece.role = .conditional := by
  cases chained <;> rfl

theorem categories_replicate_closeMark (n : Nat) :
    categories (List.replicate n closeMark) = List.replicate n .closeBrace := by
  induction n with
  | zero => rfl
  | succ n ih => rw [List.replicate_succ, List.replicate_succ, ← ih]; rfl

end Item

namespace Stmt
open Item (text categories)
variable {s : Stmt} {fors dos : Bool}

/-- No assignment in the statement has a star. -/
def starless : Stmt → Bool
  | assign starred _ _ => !starred
  | ifThen _ s => s.starless
  | ifElse _ s t => s.starless && t.starless
  | whileDo _ s => s.starless
  | forDo _ _ s => s.starless
  | doWhile s _ => s.starless

theorem starless_of_single (h : s.single fors dos = true) : s.starless = true := by
  induction s generalizing fors dos with
  | assign starred x e => exact h
  | ifThen c s ih | whileDo c s ih => exact ih h
  | ifElse c s t => exact Bool.noConfusion h
  | forDo i n s ih => exact ih (Bool.and_eq_true_iff.1 h).2
  | doWhile s c ih => exact ih (Bool.and_eq_true_iff.1 h).2

theorem starless_of_findable (h : s.findable = true) : s.starless = true ∨ ∃ x e, s = .assign true x e := by
  induction s with
  | assign starred x e =>
    cases starred with
    | false => exact Or.inl rfl
    | true => exact Or.inr ⟨x, e, rfl⟩
  | ifThen c s | whileDo c s | forDo i n s | doWhile s c => exact Or.inl (starless_of_single (s := s) h)
  | ifElse c s t _ iht =>
    rw [findable, Bool.and_eq_true] at h
    refine Or.inl (Bool.and_eq_true_iff.2 ⟨starless_of_single h.1, ?_⟩)
    cases ht : t.isIf with
    | false =>
      rw [ht, if_neg Bool.false_ne_true] at h
      exact starless_of_single h.2
    | true =>
      rw [ht, if_pos rfl] at h
      rcases iht h.2 with hstar | ⟨x, e, rfl⟩
      · exact hstar
      · exact Bool.noConfusion ht

/-- What stands before a statement that is chained. -/
def link (chained : Bool) (s : Stmt) : List Char := if chained && s.isIf then " else ".toList else []

theorem link_false (s : Stmt) : s.link false = [] := rfl

theorem link_of_isIf (h : s.isIf = true) (chained : Bool) : s.link chained = if chained then " else ".toList else [] := by
  rw [link, h, Bool.and_true]

theorem link_of_not_isIf (h : s.isIf = false) (chained : Bool) : s.link chained = [] := by
  rw [link, h, Bool.and_false, if_neg Bool.false_ne_true]

theorem block_false (body : String) : block false body = body := rfl

theorem block_true (body : String) : block true body = "\x7b " ++ body ++ " \x7d" := rfl

/-- The pieces without braces make up the text without braces. -/
theorem text_bare (h : s.starless = true) (chained : Bool) (n : Nat) :
    text (s.bare chained n) = s.link chained ++ (s.print false).toList := by
  induction s generalizing chained n with
  | assign starred x e =>
    obtain rfl : starred = false := by rwa [starless, Bool.not_eq_true'] at h
    rw [link_of_not_isIf (s := assign false x e) rfl]
    simp only [bare, print, String.toList_append, Item.text_cons, Item.chars_assign,
      Item.text_replicate_closeMark, List.append_nil, List.nil_append, Bool.false_eq_true, if_false]
    rfl
  | ifThen c s ih =>
    rw [link_of_isIf (s := ifThen c s) rfl]
    simp only [bare, print, String.toList_append, Item.text_cons, ih h, link_false, block_false, Item.chars_ifHead, Item.chars_openMark,
      List.append_assoc, List.nil_append]
  | ifElse c s t ihs iht =>
    obtain ⟨hs, ht⟩ := Bool.and_eq_true_iff.1 h
    rw [link_of_isIf (s := ifElse c s t) rfl]
    cases hif : t.isIf with
    | true =>
      simp only [bare, print, String.toList_append, hif, Item.text_append, Item.text_cons, ihs hs, iht ht, link_false, link_of_isIf hif,
        block_false, Item.chars_ifHead, Item.chars_openMark, if_true, List.append_assoc, List.nil_append]
    | false =>
      simp only [bare, print, String.toList_append, hif, Item.text_append, Item.text_cons, ihs hs, iht ht, link_false, block_false,
        Item.chars_ifHead, Item.chars_openMark, Item.chars_elseWord, Bool.false_eq_true, if_false, List.append_assoc,
        List.nil_append]
  | whileDo c s ih =>
    rw [link_of_not_isIf (s := whileDo c s) rfl]
    simp only [bare, print, String.toList_append, Item.text_cons, ih h, link_false, block_false, Item.chars_whileHead, Item.chars_openMark,
      List.append_assoc, List.nil_append]
  | forDo i m s ih =>
    rw [link_of_not_isIf (s := forDo i m s) rfl]
    simp only [bare, print, String.toList_append, Item.text_cons, ih h, link_false, block_false, Item.chars_forHead, Item.chars_openMark,
      List.append_assoc, List.nil_append]
  | doWhile s c ih =>
    rw [link_of_not_isIf (s := doWhile s c) rfl]
    simp only [bare, print, String.toList_append, Item.text_append, Item.text_cons, Item.text_nil, ih h, link_false, block_false,
      Item.chars_doWord, Item.chars_doTail, Item.chars_openMark, List.append_assoc, List.nil_append, List.append_nil]

/-- The pieces with braces make up the text with braces. -/
theorem text_braced (h : s.starless = true) (chained : Bool) :
    text (s.braced chained) = s.link chained ++ (s.print true).toList := by
  induction s generalizing chained with
  | assign starred x e =>
    obtain rfl : starred = false := by rwa [starless, Bool.not_eq_true'] at h
    rw [link_of_not_isIf (s := assign false x e) rfl]
    simp only [braced, print, String.toList_append, Item.text_cons, Item.text_nil, Item.chars_assign,
      List.append_nil, List.nil_append, Bool.false_eq_true, if_false]
    rfl
  | ifThen c s ih =>
    rw [link_of_isIf (s := ifThen c s) rfl]
    simp only [braced, print, String.toList_append, Item.text_append, Item.text_cons, Item.text_nil, ih h, link_false, block_true,
      Item.chars_ifHead, Item.chars_openBrace, Item.chars_closeBrace, List.append_assoc, List.nil_append, List.append_nil]
  | ifElse c s t ihs iht =>
    obtain ⟨hs, ht⟩ := Bool.and_eq_true_iff.1 h
    rw [link_of_isIf (s := ifElse c s t) rfl]
    cases hif : t.isIf with
    | true =>
      simp only [braced, print, String.toList_append, hif, Item.text_append, Item.text_cons, ihs hs, iht ht, link_false, link_of_isIf hif,
        block_true, Item.chars_ifHead, Item.chars_openBrace, Item.chars_closeBrace, if_true, List.append_assoc,
        List.nil_append]
    | false =>
      simp only [braced, print, String.toList_append, hif, Item.text_append, Item.text_cons, Item.text_nil, ihs hs, iht ht, link_false,
        block_true, Item.chars_ifHead, Item.chars_openBrace, Item.chars_closeBrace, Item.chars_elseWord,
        Bool.false_eq_true, if_false, List.append_assoc, List.nil_append, List.append_nil]
  | whileDo c s ih =>
    rw [link_of_not_isIf (s := whileDo c s) rfl]
    simp only [braced, print, String.toList_append, Item.text_append, Item.text_cons, Item.text_nil, ih h, link_false, block_true,
      Item.chars_whileHead, Item.chars_openBrace, Item.chars_closeBrace, List.append_assoc, List.nil_append,
      List.append_nil]
  | forDo i m s ih =>
    rw [link_of_not_isIf (s := forDo i m s) rfl]
    simp only [braced, print, String.toList_append, Item.text_append, Item.text_cons, Item.text_nil, ih h, link_false, block_true,
      Item.chars_forHead, Item.chars_openBrace, Item.chars_closeBrace, List.append_assoc, List.nil_append, List.append_nil]
  | doWhile s c ih =>
    rw [link_of_not_isIf (s := doWhile s c) rfl]
    simp only [braced, print, String.toList_append, Item.text_append, Item.text_cons, Item.text_nil, ih h, link_false, block_true,
      Item.chars_doWord, Item.chars_doTail, Item.chars_openBrace, Item.chars_closeBrace, List.append_assoc,
      List.nil_append, List.append_nil]

/-- A body that stops behind a mark has the categories of one between braces. -/
theorem categories_block {a b : Item} {as bs : List Item} {n : Nat} (hrole : a.piece.role = b.piece.role)
    (h : categories as = categories bs ++ List.replicate (n + 1) .closeBrace) :
    categories (a :: .openMark :: as) =
      categories (b :: .openBrace :: bs ++ [.closeBrace]) ++ List.replicate n .closeBrace := by
  rw [List.replicate_succ] at h
  simp only [Item.categories_cons, Item.categories_append, Item.categories_nil, h, hrole, List.append_assoc]
  rfl

/-- Behind a single assignment, all bodies stop that it is in. -/
theorem categories_bare_of_single (h : s.single fors dos = true) (chained : Bool) (n : Nat) :
    categories (s.bare chained n) = categories (s.braced chained) ++ List.replicate n .closeBrace := by
  induction s generalizing fors dos chained n with
  | assign starred x e => exact congrArg (Category.assign :: ·) (Item.categories_replicate_closeMark n)
  | ifElse c s t => exact Bool.noConfusion h
  | ifThen c s ih => exact categories_block rfl (ih h false (n + 1))
  | whileDo c s ih => exact categories_block rfl (ih h false (n + 1))
  | forDo i m s ih => exact categories_block rfl (ih (Bool.and_eq_true_iff.1 h).2 false (n + 1))
  | doWhile s c ih =>
    have hblock := categories_block (a := .doWord) rfl (ih (Bool.and_eq_true_iff.1 h).2 false (n + 1))
    have htail : categories [.doTail c] = [] := rfl
    rw [bare, Item.categories_append, htail, List.append_nil, hblock, braced,
      show [Item.closeBrace, .doTail c] = [.closeBrace] ++ [.doTail c] from rfl, ← List.append_assoc,
      Item.categories_append _ [.doTail c], htail, List.append_nil]

/-- **Equal categories.** If the bodies can be found, the pieces with braces and those without have the same categories. -/
theorem categories_bare (h : s.findable = true) (chained : Bool) :
    categories (s.bare chained 0) = categories (s.braced chained) := by
  have hsingle : ∀ {s : Stmt} (f d chained : Bool), s.single f d = true →
      categories (s.bare chained 0) = categories (s.braced chained) := fun _ _ chained hs =>
    (categories_bare_of_single hs chained 0).trans (List.append_nil _)
  have hblock : ∀ {a : Item} {s : Stmt} (f d : Bool), s.single f d = true →
      categories (a :: .openMark :: s.bare false 1) = categories (a :: .openBrace :: s.braced false ++ [.closeBrace]) :=
    fun _ _ hs => (categories_block rfl (categories_bare_of_single hs false 1)).trans (List.append_nil _)
  induction s generalizing chained with
  | assign starred x e => rfl
  | ifThen c s => exact hsingle (s := ifThen c s) true true chained h
  | whileDo c s => exact hsingle (s := whileDo c s) true true chained h
  | forDo i n s => exact hsingle (s := forDo i n s) true true chained h
  | doWhile s c => exact hsingle (s := doWhile s c) true true chained h
  | ifElse c s t _ iht =>
    obtain ⟨hs, ht⟩ := Bool.and_eq_true_iff.1 h
    have hthen := hblock (a := .ifHead chained c) true true hs
    have helse : categories (if t.isIf then t.bare true 0 else .elseWord :: .openMark :: t.bare false 1) =
        categories (if t.isIf then t.braced true else .elseWord :: .openBrace :: t.braced false ++ [.closeBrace]) := by
      split_ifs at ht ⊢
      · exact iht ht true
      · exact hblock false true ht
    rw [bare, Item.categories_append, hthen, helse, ← Item.categories_append, braced, List.append_assoc]
    rfl

end Stmt

/-! ## What stands behind a piece -/

namespace Item

/-- Whether a statement or a block starts with the piece. -/
def starts : Item → Bool
  | whileHead _ | forHead _ _ | ifHead false _ | doWord | assign _ _ | openBrace => true
  | _ => false

def isIfHead : Item → Bool
  | ifHead _ _ => true
  | _ => false

/-- The first of some pieces that is no mark. -/
def next (as : List Item) : Option Item := as.find? fun a => !a.isMark

/-- A statement or a block comes behind a header, and none that starts with `if` behind a lone `else`. -/
def Follows (as : List Item) : Item → Prop
  | whileHead _ | forHead _ _ | ifHead _ _ => (next as).any starts = true
  | elseWord => (next as).any (fun b => b.starts && !b.isIfHead) = true
  | _ => True

/-- Every piece has behind it what should be there. -/
def Fits : List Item → Prop
  | [] => True
  | a :: as => Follows as a ∧ Fits as

/-- Marks of one place are all the same. -/
def Calm (as : List Item) : Prop := as.IsChain fun a b => a.isMark = true → b.isMark = true → a = b

variable {a : Item} {as bs : List Item}

theorem Follows.append (h : Follows as a) (bs : List Item) : Follows (as ++ bs) a := by
  have hnext : ∀ {g : Item → Bool}, (next as).any g = true → (next (as ++ bs)).any g = true := by
    intro g hg
    obtain ⟨b, hb, hgb⟩ := (Option.any_eq_true _ _).1 hg
    rw [next] at hb
    rw [next, List.find?_append, hb]
    exact hgb
  cases a with
  | whileHead _ | forHead _ _ | ifHead _ _ | elseWord => exact hnext h
  | _ => trivial

theorem Fits.append (h : Fits as) (h' : Fits bs) : Fits (as ++ bs) := by
  induction as with
  | nil => exact h'
  | cons a as ih => exact ⟨h.1.append bs, ih h.2⟩

theorem Fits.follows (h : Fits bs) (has : a :: as <:+ bs) : Follows as a := by
  induction bs with
  | nil => exact absurd (List.suffix_nil.1 has) (List.cons_ne_nil a as)
  | cons b bs ih =>
    rcases List.suffix_cons_iff.1 has with heq | has
    · obtain ⟨rfl, rfl⟩ := List.cons.inj heq
      exact h.1
    · exact ih h.2 has

theorem Calm.append (h : Calm as) (h' : Calm bs) (hb : ∀ b ∈ bs.head?, b.isMark = false) : Calm (as ++ bs) := by
  refine List.isChain_append.2 ⟨h, h', fun a _ b hb' _ hmark => ?_⟩
  rw [hb b hb'] at hmark
  exact Bool.noConfusion hmark

theorem Calm.cons (h : Calm as) (ha : a.isMark = false ∨ ∀ b ∈ as.head?, b.isMark = false) : Calm (a :: as) := by
  refine List.isChain_cons.2 ⟨fun b hb hmark hmark' => ?_, h⟩
  rcases ha with ha | has
  · rw [ha] at hmark
    exact Bool.noConfusion hmark
  · rw [has b hb] at hmark'
    exact Bool.noConfusion hmark'

theorem isMark_of_size (h : a.piece.size = 0) : a.isMark = true := by
  cases a with
  | openMark | closeMark => rfl
  | ifHead chained c => cases chained <;> simp [piece, Piece.size, keyword, Lexeme.chars] at h
  | _ => simp [piece, Piece.size, keyword, Lexeme.chars] at h

theorem size_of_body (h : a.piece.body = []) : a.piece.size = 0 := by
  cases a with
  | openMark | closeMark => rfl
  | ifHead chained c => cases chained <;> exact absurd h (List.cons_ne_nil _ _)
  | _ => exact absurd h (List.cons_ne_nil _ _)

theorem Calm.map (h : Calm as) : Piece.Calm (as.map piece) where
  touching := by
    refine List.isChain_map_of_isChain piece (fun a b hab ha hb => ?_) h
    rw [hab (isMark_of_size ha) (isMark_of_size hb)]
  body p hp := by
    obtain ⟨a, -, rfl⟩ := List.mem_map.1 hp
    exact size_of_body

end Item

namespace Stmt
open Item (Fits Calm Follows next)

/-- The first piece of a statement. -/
theorem exists_head (s : Stmt) (chained : Bool) (n : Nat) : ∃ a as bs, s.bare chained n = a :: as ∧
    s.braced chained = a :: bs ∧ a.isMark = false ∧ a.isIfHead = s.isIf ∧ (chained = false → a.starts = true) := by
  cases s with
  | assign _ x e => exact ⟨_, _, _, rfl, rfl, rfl, rfl, fun _ => rfl⟩
  | ifThen c s | ifElse c s t => exact ⟨_, _, _, rfl, rfl, rfl, rfl, fun h => by rw [h]; rfl⟩
  | whileDo c s | forDo i m s | doWhile s c => exact ⟨_, _, _, rfl, rfl, rfl, rfl, fun _ => rfl⟩

theorem next_mark (s : Stmt) (n : Nat) (as : List Item) : (next (.openMark :: s.bare false n ++ as)).any Item.starts = true ∧
    (s.isIf = false → (next (.openMark :: s.bare false n ++ as)).any (fun b => b.starts && !b.isIfHead) = true) := by
  obtain ⟨a, as', bs, hbare, -, hmark, hif, hstarts⟩ := s.exists_head false n
  have hnext : next (.openMark :: s.bare false n ++ as) = some a := by
    have hfirst : next (a :: (as' ++ as)) = some a := List.find?_cons_of_pos (by rw [hmark]; rfl)
    rw [hbare]
    exact hfirst
  rw [hnext, Option.any_some, Option.any_some, hstarts rfl, hif]
  exact ⟨rfl, fun h => by rw [h]; rfl⟩

theorem fits_replicate (n : Nat) : Fits (List.replicate n .closeMark) := by
  induction n with
  | zero => trivial
  | succ n ih => exact ⟨trivial, ih⟩

theorem fits_bare (s : Stmt) (chained : Bool) (n : Nat) : Fits (s.bare chained n) := by
  induction s generalizing chained n with
  | assign _ x e => exact ⟨trivial, fits_replicate n⟩
  | ifThen c s ih | whileDo c s ih | forDo i m s ih =>
    refine ⟨?_, trivial, ih false (n + 1)⟩
    have hnext := (s.next_mark (n + 1) []).1
    rwa [List.append_nil] at hnext
  | ifElse c s t ihs iht =>
    refine @Fits.append (.ifHead chained c :: .openMark :: s.bare false (n + 1)) _ ⟨?_, trivial, ihs false (n + 1)⟩ ?_
    · have hnext := (s.next_mark (n + 1) []).1
      rwa [List.append_nil] at hnext
    · cases hif : t.isIf with
      | true => exact iht true 0
      | false =>
        refine ⟨?_, trivial, iht false 1⟩
        have hnext := (t.next_mark 1 []).2 hif
        rwa [List.append_nil] at hnext
  | doWhile s c ih =>
    exact @Fits.append (.doWord :: .openMark :: s.bare false (n + 1)) _ ⟨trivial, trivial, ih false (n + 1)⟩ ⟨trivial, trivial⟩

theorem fits_braced (s : Stmt) (chained : Bool) : Fits (s.braced chained) := by
  induction s generalizing chained with
  | assign _ x e => exact ⟨trivial, trivial⟩
  | ifThen c s ih | whileDo c s ih | forDo i m s ih =>
    exact ⟨rfl, trivial, (ih false).append ⟨trivial, trivial⟩⟩
  | ifElse c s t ihs iht =>
    refine ⟨rfl, trivial, (ihs false).append ⟨trivial, ?_⟩⟩
    cases hif : t.isIf with
    | true => exact iht true
    | false => exact ⟨rfl, trivial, (iht false).append ⟨trivial, trivial⟩⟩
  | doWhile s c ih => exact ⟨trivial, trivial, (ih false).append ⟨trivial, trivial, trivial⟩⟩

theorem head_bare (s : Stmt) (chained : Bool) (n : Nat) : ∀ a ∈ (s.bare chained n).head?, a.isMark = false := by
  obtain ⟨a, as, bs, hbare, -, hmark, -⟩ := s.exists_head chained n
  rw [hbare]
  rintro b hb
  obtain rfl := Option.some.inj hb
  exact hmark

/-- Marks that touch all stand where bodies stop. -/
theorem calm_bare (s : Stmt) (chained : Bool) (n : Nat) : Calm (s.bare chained n) := by
  have hopen : ∀ {a : Item} {s : Stmt} {n : Nat}, a.isMark = false → Calm (s.bare false n) →
      Calm (a :: .openMark :: s.bare false n) := fun ha hs => (hs.cons (Or.inr (head_bare _ _ _))).cons (Or.inl ha)
  induction s generalizing chained n with
  | assign _ x e => exact Calm.cons (List.isChain_replicate_of_rel n fun _ _ => rfl) (Or.inl rfl)
  | ifThen c s ih | whileDo c s ih | forDo i m s ih => exact hopen rfl (ih false (n + 1))
  | ifElse c s t ihs iht =>
    refine @Calm.append _ (if t.isIf then _ else _) (hopen rfl (ihs false (n + 1))) ?_ ?_
    · split_ifs
      · exact iht true 0
      · exact hopen rfl (iht false 1)
    · split_ifs
      · exact head_bare _ _ _
      · rintro b hb
        obtain rfl := Option.some.inj hb
        rfl
  | doWhile s c ih =>
    refine (hopen rfl (ih false (n + 1))).append (List.isChain_singleton _) ?_
    rintro b hb
    obtain rfl := Option.some.inj hb
    rfl

theorem not_isMark_braced (s : Stmt) (chained : Bool) : ∀ a ∈ s.braced chained, a.isMark = false := by
  induction s generalizing chained with
  | assign _ x e => exact List.forall_mem_singleton.2 rfl
  | ifThen c s ih | whileDo c s ih | forDo i m s ih =>
    simp only [braced, List.forall_mem_cons, List.forall_mem_append]
    exact ⟨⟨rfl, rfl, ih false⟩, rfl, List.forall_mem_nil _⟩
  | ifElse c s t ihs iht =>
    simp only [braced, List.forall_mem_cons, List.forall_mem_append]
    refine ⟨⟨rfl, rfl, ihs false⟩, rfl, ?_⟩
    split_ifs
    · exact iht true
    · simp only [List.forall_mem_cons, List.forall_mem_append]
      exact ⟨⟨rfl, rfl, iht false⟩, rfl, List.forall_mem_nil _⟩
  | doWhile s c ih =>
    simp only [braced, List.forall_mem_cons, List.forall_mem_append]
    exact ⟨⟨rfl, rfl, ih false⟩, rfl, rfl, List.forall_mem_nil _⟩

theorem calm_braced (s : Stmt) (chained : Bool) : Calm (s.braced chained) := by
  have hmarks := s.not_isMark_braced chained
  revert hmarks
  induction s.braced chained with
  | nil => exact fun _ => List.isChain_nil
  | cons a as ih =>
    intro hmarks
    exact (ih fun b hb => hmarks b (List.mem_cons_of_mem a hb)).cons (Or.inl (hmarks a List.mem_cons_self))

end Stmt
end Tokenizer
end SourceLikeness
