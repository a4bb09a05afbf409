import SourceLikeness.Proofs.Tokenizer.Name
import Mathlib.Data.List.Chain

/-!
# Values and conditions

* `Value` : a name or a number, which may have a fraction;
* `Condition` : a value, or two values that are compared;
* `Condition.mem_lexemes` : a condition is made of names and of a few signs;
* `Condition.not_leads`, `Condition.mem_text` : so no pass takes it for anything else, and no bracket stands in it.
-/

namespace SourceLikeness.Tokenizer
open Lexeme (word sign Apart)
open Text (isAsciiWord)

/-- A name or a number. -/
structure Value where
  whole : Name
  fraction : Option Name := none

inductive Comparison where
  | equal | atLeast | atMost | above | below
deriving DecidableEq

inductive Condition where
  | value (v : Value)
  | compare (v : Value) (op : Comparison) (w : Value)

namespace Value

def text (v : Value) : String := v.whole.text ++ v.fraction.elim "" fun f => "." ++ f.text

def lexemes (v : Value) : List Lexeme := word v.whole.chars :: v.fraction.elim [] fun f => [sign '.', word f.chars]

end Value

namespace Comparison

def text : Comparison → String
  | equal => "=="
  | atLeast => ">="
  | atMost => "<="
  | above => ">"
  | below => "<"

def lexemes (op : Comparison) : List Lexeme := op.text.toList.map sign

end Comparison

namespace Condition

def text : Condition → String
  | value v => v.text
  | compare v op w => v.text ++ " " ++ op.text ++ " " ++ w.text

def lexemes : Condition → List Lexeme
  | value v => v.lexemes
  | compare v op w => v.lexemes ++ (sign ' ' :: op.lexemes ++ [sign ' ']) ++ w.lexemes

/-- The signs that stand in conditions. -/
def signs : List Char := [' ', '.', '=', '<', '>']

end Condition

/-! ## Texts -/

theorem Value.text_lexemes (v : Value) : Lexeme.text v.lexemes = v.text.toList := by
  obtain ⟨n, f⟩ := v
  cases f with
  | none => simp [lexemes, text, Lexeme.chars, Name.chars]
  | some f => simp [lexemes, text, Lexeme.chars, Name.chars]

theorem Comparison.text_lexemes (op : Comparison) : Lexeme.text op.lexemes = op.text.toList := by
  cases op <;> rfl

theorem Condition.text_lexemes (c : Condition) : Lexeme.text c.lexemes = c.text.toList := by
  cases c with
  | value v => exact v.text_lexemes
  | compare v op w =>
    simp [lexemes, text, Lexeme.chars, Value.text_lexemes, Comparison.text_lexemes]

/-! ## Names and signs -/

variable {x : Leads} {l : Lexeme}

/-- A value is made of names and points. -/
theorem Value.mem_lexemes {v : Value} (h : l ∈ v.lexemes) : (∃ n : Name, l = word n.chars) ∨ l = sign '.' := by
  rcases List.mem_cons.1 h with rfl | h
  · exact Or.inl ⟨_, rfl⟩
  · cases hf : v.fraction with
    | none => rw [hf] at h; exact absurd h List.not_mem_nil
    | some f =>
      rw [hf] at h
      rcases List.mem_cons.1 h with rfl | h
      · exact Or.inr rfl
      · exact Or.inl ⟨f, List.mem_singleton.1 h⟩

/-- A condition is made of names and of a few signs. -/
theorem Condition.mem_lexemes {c : Condition} (h : l ∈ c.lexemes) :
    (∃ n : Name, l = word n.chars) ∨ ∃ a ∈ signs, l = sign a := by
  have hvalue : ∀ {v : Value}, l ∈ v.lexemes → (∃ n : Name, l = word n.chars) ∨ ∃ a ∈ signs, l = sign a :=
    fun h => (Value.mem_lexemes h).imp_right fun h => ⟨'.', by decide, h⟩
  have hsigns : ∀ op : Comparison, ∀ l ∈ sign ' ' :: op.lexemes ++ [sign ' '], ∃ a ∈ signs, l = sign a := by
    intro op
    cases op <;> decide
  cases c with
  | value v => exact hvalue h
  | compare v op w =>
    rcases List.mem_append.1 h with h | h
    · rcases List.mem_append.1 h with h | h
      · exact hvalue h
      · exact Or.inr (hsigns op l h)
    · exact hvalue h

section Forall
variable {P : Lexeme → Prop} (hname : ∀ n : Name, P (word n.chars))
include hname

/-- What holds of names and of the point holds of all of a value. -/
theorem Value.forall_mem_lexemes (v : Value) (hpoint : P (sign '.')) : ∀ l ∈ v.lexemes, P l := by
  intro l h
  rcases mem_lexemes h with ⟨n, rfl⟩ | rfl
  · exact hname n
  · exact hpoint

/-- What holds of names and of the signs of conditions holds of all of a condition. -/
theorem Condition.forall_mem_lexemes (c : Condition) (hsigns : ∀ a ∈ signs, P (sign a)) : ∀ l ∈ c.lexemes, P l := by
  intro l h
  rcases mem_lexemes h with ⟨n, rfl⟩ | ⟨a, ha, rfl⟩
  · exact hname n
  · exact hsigns a ha

end Forall

theorem Value.sound (v : Value) : ∀ l ∈ v.lexemes, l.Sound :=
  v.forall_mem_lexemes Name.isWord ⟨by decide, by decide, by decide⟩

theorem Condition.sound (c : Condition) : ∀ l ∈ c.lexemes, l.Sound := by
  have hsigns : ∀ a ∈ signs, isAsciiWord a = false ∧ IsAscii a ∧ a ≠ '\n' := by decide
  exact c.forall_mem_lexemes Name.isWord hsigns

/-- A value is none of the words and signs that a pass looks for, if a point is none. -/
theorem Value.not_leads (v : Value) (hx : Name.covers x = true) (hpoint : (sign '.').leads x = false) :
    ∀ l ∈ v.lexemes, l.leads x = false :=
  v.forall_mem_lexemes (fun n => n.not_leads hx) hpoint

/-- A condition is none of the words and signs that a pass looks for, if its signs are none. -/
theorem Condition.not_leads (c : Condition) (hx : Name.covers x = true)
    (hsigns : signs.all (fun a => !(sign a).leads x) = true) : ∀ l ∈ c.lexemes, l.leads x = false := by
  refine c.forall_mem_lexemes (fun n => n.not_leads hx) fun a ha => ?_
  rw [← Bool.not_eq_true']
  exact List.all_eq_true.1 hsigns a ha

/-- Each character of a condition is one of a word or one of the signs. -/
theorem Condition.mem_text {c : Condition} {a : Char} (h : a ∈ Lexeme.text c.lexemes) :
    isAsciiWord a = true ∨ a ∈ signs := by
  obtain ⟨l, hl, ha⟩ := List.mem_flatMap.1 h
  rcases mem_lexemes hl with ⟨n, rfl⟩ | ⟨b, hb, rfl⟩
  · exact Or.inl (n.isWord.2 a ha)
  · obtain rfl := List.mem_singleton.1 ha
    exact Or.inr hb

/-! ## Words at both ends -/

theorem Value.apart (v : Value) : Apart v.lexemes := by
  obtain ⟨n, f⟩ := v
  cases f <;> simp [lexemes, Apart, Lexeme.isWord]

theorem Condition.apart (c : Condition) : Apart c.lexemes := by
  cases c with
  | value v => exact v.apart
  | compare v op w =>
    have hsigns : Apart (sign ' ' :: op.lexemes ++ [sign ' ']) := by
      cases op <;> simp [Apart, Comparison.lexemes, Comparison.text, Lexeme.isWord]
    have hhead : ∀ l ∈ (sign ' ' :: op.lexemes ++ [sign ' ']).head?, l.isWord = false := by
      rintro l hl
      obtain rfl := Option.some.inj hl
      rfl
    have hlast : ∀ l ∈ (v.lexemes ++ (sign ' ' :: op.lexemes ++ [sign ' '])).getLast?, l.isWord = false := by
      rintro l hl
      rw [← List.append_assoc, List.getLast?_concat] at hl
      obtain rfl := Option.some.inj hl
      rfl
    refine List.isChain_append.2 ⟨List.isChain_append.2 ⟨v.apart, hsigns, fun l _ m hm => ?_⟩, w.apart, fun l hl m _ => ?_⟩
    · rw [hhead m hm, Bool.and_false]
    · rw [hlast l hl, Bool.false_and]

/-- A condition starts with a word. -/
theorem Condition.exists_name (c : Condition) : ∃ (n : Name) (ls : List Lexeme), c.lexemes = word n.chars :: ls := by
  cases c with
  | value v => exact ⟨v.whole, _, rfl⟩
  | compare v op w => exact ⟨v.whole, _, rfl⟩

end SourceLikeness.Tokenizer
