import SourceLikeness.Proofs.Braces.Reading
import SourceLikeness.Tokenizer.Operator

/-!
# Headers in a text

What the passes for loops and conditionals find where a header stands that a statement or a block follows.

* `Opens` : what a statement or a block starts with stands at the start of a text;
* `hitOf_while`, `hitOf_for`, `hitOf_word`, `hitOf_doTail` : the parts of loops;
* `hitOf_cLoop_eq_none` : the condition behind the body of a `do` is no header;
* `hitOf_if`, `hitOf_elseIf`, `hitOf_else` : conditionals;
* `hitOf_assignment` : an equals sign between blanks; it is no comparison, and starts no list in braces.
-/

namespace SourceLikeness.Tokenizer
open Pattern
open Text (isAsciiWord isBlank)
open Finder (start)
variable {c d : Cursor} {t u u₁ u₂ u₃ v w : List Char} {s : List Char} {o : Nat}

abbrev openers : CharSet := .only [.char '\x7b', .word, .char '*', .char '(', .char '.']

/-- What a statement or a block starts with stands at the start of the text. -/
def Opens (w : List Char) : Prop := ∃ b v, w = b :: v ∧ openers.holds b = true ∧ isBlank b = false

theorem hitOf_of_run {p : Pattern} (h : p.run (start s o) some = some d) :
    ({ pattern := p } : Finder).hitOf (fun _ => true) s o = some ⟨⟨o, d.offset⟩, d.parts⟩ :=
  Finder.hitOf_of_read rfl rfl rfl h rfl

theorem hitOf_eq_none_of_reads {f : Finder} (h : ∀ d, ¬ f.pattern.Reads (start s o) d) :
    f.hitOf (fun _ => true) s o = none := by
  rw [Option.eq_none_iff_forall_ne_some]
  intro hit hhit
  obtain ⟨d, hd, -⟩ := Finder.read_of_hitOf hhit
  exact h d (reads_of_read hd)

/-- The place behind a header whose first `n` characters are the token, and behind one more character. -/
def behind (s : List Char) (o : Nat) (t w : List Char) : Cursor := (start s o).note .token ((start s o).past t w)

/-! ## Loops -/

theorem hitOf_while (hs : s.drop o = "while".toList ++ (" (".toList ++ u ++ ')' :: ([' '] ++ w)))
    (hedge : (start s o).atWordEdge = true) (hne : u ≠ []) (hu : Plain u) (hu' : ')' ∉ u) (hw : Opens w) :
    ∃ h : Hit, ({ pattern := Header.cLoop } : Finder).hitOf (fun _ => true) s o = some h ∧
      h.token = ⟨o, o + ("while".toList ++ (" (".toList ++ u ++ [')', ' '])).length⟩ := by
  obtain ⟨b, v, rfl, hb, hblank⟩ := hw
  have hrun : Header.cLoop.run (start s o) some =
      some ((behind s o ("while".toList ++ (" (".toList ++ u ++ [')', ' '])) (b :: v)).past [b] v) := by
    have hfor : (text "for").run (start s o) = fun _ : Cursor → Option Cursor => none :=
      funext fun k => run_text_eq_none (b := 'f') rfl (by rw [start, hs]; simp)
    rw [Header.cLoop, run_any_of_none]
    · rw [any, run_all_cons, run_part, run_all_cons, run_wordEdge hedge, run_all_cons, run_text hs]
      refine run_bracketed rfl hne hu hu' (by decide) (by simpa using hblank) ?_
      rw [Cursor.past_past]
      exact run_one rfl hb
    · rw [run_all_cons, run_part, run_all_cons, run_wordEdge hedge, run_all_cons, hfor]
  exact ⟨_, hitOf_of_run hrun, rfl⟩

theorem hitOf_for
    (hs : s.drop o = "for".toList ++ (" (".toList ++ (u₁ ++ ';' :: (u₂ ++ ';' :: (u₃ ++ ')' :: ' ' :: w)))))
    (hedge : (start s o).atWordEdge = true) (hu₁ : Plain u₁) (hu₂ : Plain u₂) (hu₃ : Plain u₃) (hu' : ')' ∉ u₃) (hw : Opens w) :
    ∃ h : Hit, ({ pattern := Header.cLoop } : Finder).hitOf (fun _ => true) s o = some h ∧
      h.token = ⟨o, o + ("for".toList ++ (" (".toList ++ (u₁ ++ ';' :: (u₂ ++ ';' :: (u₃ ++ [')', ' ']))))).length⟩ := by
  obtain ⟨b, v, rfl, hb, hblank⟩ := hw
  have hrun : Header.cLoop.run (start s o) some =
      some ((behind s o ("for".toList ++ (" (".toList ++ (u₁ ++ ';' :: (u₂ ++ ';' :: (u₃ ++ [')', ' '])))))
        (b :: v)).past [b] v) := by
    rw [Header.cLoop]
    refine run_any_of_some ?_
    rw [run_all_cons, run_part, run_all_cons, run_wordEdge hedge, run_all_cons, run_text hs, run_all_cons]
    refine run_many (u := [' ']) rfl (by decide) rfl ?_
    rw [run_all_cons, run_text rfl, run_all_cons]
    refine run_opt_of_some ?_
    rw [run_all_cons]
    refine run_many (u := u₁) rfl hu₁ rfl ?_
    rw [run_all_cons, run_text rfl, run_all_cons]
    refine run_many (u := u₂) rfl hu₂ rfl ?_
    rw [all, run_text rfl, run_all_cons]
    refine run_few (u := u₃) (v := ')' :: ' ' :: b :: v) rfl hu₃ (fun v₁ v₂ hsplit hne => ?_) ?_
    · rw [run_all_cons]
      refine run_text_eq_none (t := ")") rfl fun hhead => hu' ?_
      rw [Cursor.rest_past, List.head?_append_of_ne_nil _ hne] at hhead
      rw [← hsplit]
      exact List.mem_append_right _ (List.mem_of_mem_head? hhead)
    · rw [run_all_cons, run_text rfl, all]
      refine run_many (u := [' ']) rfl (by decide) (by simpa [holds_blank] using hblank) ?_
      refine (run_one rfl hb).trans ?_
      simp [behind, Cursor.past_past]
  exact ⟨_, hitOf_of_run hrun, rfl⟩

/-- The condition behind the body of a `do` is no header, since a semicolon follows it. -/
theorem hitOf_cLoop_eq_none (hs : s.drop o = "while".toList ++ (u ++ ')' :: ';' :: w)) (hu : ')' ∉ u) :
    ({ pattern := Header.cLoop } : Finder).hitOf (fun _ => true) s o = none := by
  have hrest : (start s o).rest = "while".toList ++ (u ++ ')' :: ';' :: w) := by rw [start, hs]
  refine hitOf_eq_none_of_reads fun d h => ?_
  rcases h with ⟨m, ⟨n, ⟨c₁, ⟨-, rfl⟩, c₂, h₂, -⟩, -⟩, -⟩ | ⟨m, ⟨n, ⟨c₁, ⟨-, rfl⟩, c₂, h₂, h₃⟩, rfl⟩, b, rest, hb, hopens, -⟩
  · have hfor : (start s o).rest = "for".toList ++ c₂.rest := reads_chars h₂
    rw [hrest] at hfor
    exact absurd (List.cons.inj hfor).1 (by decide)
  · have hwhile : (start s o).rest = "while".toList ++ c₂.rest := reads_chars h₂
    obtain ⟨t, g, ht, hg, hc₂⟩ := reads_bracketed h₃
    have hb : n.rest = b :: rest := hb
    rw [hrest, hc₂, hb] at hwhile
    obtain rfl := eq_semicolon_of_closes hu ht (fun a ha => plain_of_isBlank (hg a ha)) (List.append_cancel_left hwhile)
    exact absurd hopens (by decide)

/-- A word with a blank behind it. -/
theorem hitOf_word (kw : String) (hs : s.drop o = kw.toList ++ ' ' :: w) (hedge : (start s o).atWordEdge = true)
    (hlast : kw.toList.getLast?.any Text.isWord = true) : ∃ h : Hit, ({ pattern := word [kw] } : Finder).hitOf (fun _ => true) s o =
      some h ∧ h.token = ⟨o, o + kw.toList.length⟩ := by
  have hedge' : ((start s o).past kw.toList (' ' :: w)).atWordEdge = true := by
    obtain ⟨b, hb, hword⟩ := (Option.any_eq_true _ _).1 hlast
    simp only [Cursor.atWordEdge, Cursor.past, hb, Option.some_or, Option.any_some, hword]
    rfl
  have hrun : (word [kw]).run (start s o) some = some ((start s o).past kw.toList (' ' :: w)) := by
    rw [word, run_all_cons, run_wordEdge hedge, run_all_cons, List.map_singleton, any, run_text hs, all]
    exact run_wordEdge hedge'
  exact ⟨_, hitOf_of_run hrun, rfl⟩

theorem hitOf_doTail (hs : s.drop o = "while".toList ++ (" (".toList ++ u ++ ')' :: ';' :: w))
    (hedge : (start s o).atWordEdge = true) (hne : u ≠ []) (hu : Plain u) :
    ∃ h : Hit, ({ pattern := Header.doTail } : Finder).hitOf (fun _ => true) s o = some h ∧
      h.token = ⟨o, o + ("while".toList ++ (" (".toList ++ u ++ [')', ';'])).length⟩ := by
  obtain ⟨a, u, rfl⟩ := List.exists_cons_of_ne_nil hne
  obtain ⟨ha, hu⟩ := List.forall_mem_cons.1 hu
  have hrun : Header.doTail.run (start s o) some =
      some ((start s o).past ("while".toList ++ (" (".toList ++ (a :: u) ++ [')', ';'])) w) := by
    rw [Header.doTail, run_all_cons, run_wordEdge hedge, run_all_cons, run_text hs, run_all_cons]
    refine run_many (u := [' ']) rfl (by decide) rfl ?_
    rw [run_all_cons, run_text rfl, run_all_cons, plus, run_seq, noneOf, run_one rfl ha]
    -- all up to the semicolon is read first, and the parenthesis given back
    refine run_many_back (u := u) (a := ')') (v := ';' :: w) rfl hu (by decide) rfl ?_ ?_
    · rw [run_all_cons]
      exact run_text_eq_none (t := ")") (b := ')') rfl fun h => absurd (Option.some.inj h) (by decide)
    · rw [run_all_cons, run_text rfl, run_all_cons]
      refine run_many (u := []) rfl (List.forall_mem_nil _) rfl ?_
      rw [all, run_text rfl]
      simp [Cursor.past_past]
  exact ⟨_, hitOf_of_run hrun, rfl⟩

/-! ## Conditionals -/

theorem hitOf_if (hs : s.drop o = "if".toList ++ (" (".toList ++ u ++ ')' :: ([' '] ++ w)))
    (hedge : (start s o).atWordEdge = true) (hne : u ≠ []) (hu : Plain u) (hu' : ')' ∉ u) (hw : Opens w) :
    ∃ h : Hit, ({ pattern := Header.cConditional } : Finder).hitOf (fun _ => true) s o = some h ∧
      h.token = ⟨o, o + ("if".toList ++ (" (".toList ++ u ++ [')', ' '])).length⟩ := by
  obtain ⟨b, v, rfl, hb, hblank⟩ := hw
  have hrun : Header.cConditional.run (start s o) some =
      some ((behind s o ("if".toList ++ (" (".toList ++ u ++ [')', ' '])) (b :: v)).past [b] v) := by
    rw [Header.cConditional]
    refine run_any_of_some ?_
    rw [run_all_cons, run_part, run_all_cons, run_wordEdge hedge, run_all_cons, run_opt_of_none]
    · rw [run_all_cons, run_text hs]
      refine run_bracketed rfl hne hu hu' (by decide) (by simpa using hblank) ?_
      rw [Cursor.past_past]
      exact run_one rfl hb
    · rw [run_all_cons]
      exact run_text_eq_none (b := 'e') rfl (by rw [start, hs]; simp)
  exact ⟨_, hitOf_of_run hrun, rfl⟩

theorem hitOf_elseIf (hs : s.drop o = "else".toList ++ (' ' :: "if".toList ++ (" (".toList ++ u ++ ')' :: ([' '] ++ w))))
    (hedge : (start s o).atWordEdge = true) (hne : u ≠ []) (hu : Plain u) (hu' : ')' ∉ u) (hw : Opens w) :
    ∃ h : Hit, ({ pattern := Header.cConditional } : Finder).hitOf (fun _ => true) s o = some h ∧
      h.token = ⟨o, o + ("else".toList ++ (' ' :: "if".toList ++ (" (".toList ++ u ++ [')', ' ']))).length⟩ := by
  obtain ⟨b, v, rfl, hb, hblank⟩ := hw
  have hrun : Header.cConditional.run (start s o) some =
      some ((behind s o ("else".toList ++ (' ' :: "if".toList ++ (" (".toList ++ u ++ [')', ' ']))) (b :: v)).past [b] v) := by
    rw [Header.cConditional]
    refine run_any_of_some ?_
    rw [run_all_cons, run_part, run_all_cons, run_wordEdge hedge, run_all_cons]
    refine run_opt_of_some ?_
    rw [run_all_cons, run_text hs, all, someBlanks, plus, run_seq, run_one rfl (by decide)]
    refine run_many (u := []) rfl (List.forall_mem_nil _) rfl ?_
    rw [run_all_cons, run_text rfl]
    refine run_bracketed rfl hne hu hu' (by decide) (by simpa using hblank) ?_
    simp only [Cursor.past_past]
    exact run_one rfl hb
  exact ⟨_, hitOf_of_run hrun, rfl⟩

/-- An `else` that no `if` with a condition follows stands for itself. -/
theorem hitOf_else (hs : s.drop o = "else".toList ++ ' ' :: w) (hedge : (start s o).atWordEdge = true)
    (hblank : w.head?.any isBlank = false)
    (hif : ∀ v, w = "if".toList ++ v → v.head?.any isAsciiWord = true) :
    ∃ h : Hit, ({ pattern := Header.cConditional } : Finder).hitOf (fun _ => true) s o = some h ∧ h.token = ⟨o, o + 4⟩ := by
  have hrun : Header.cConditional.run (start s o) some = some (behind s o "else".toList (' ' :: w)) := by
    rw [Header.cConditional, run_any_of_none]
    · rw [any, run_part, word, run_all_cons, run_wordEdge hedge, run_all_cons, List.map_singleton, any, run_text hs, all]
      exact run_wordEdge rfl
    · refine run_eq_none fun d h => ?_
      obtain ⟨m, ⟨n, ⟨c₁, ⟨-, rfl⟩, c₂, helse, c₃, h₃, c₄, h₄, c₅, h₅, -⟩, -⟩, -⟩ := h
      have hstart : (start s o).rest = "else".toList ++ ' ' :: w := hs
      have hword : c₂.rest = "if".toList ++ c₃.rest := reads_chars h₃
      obtain ⟨g, hg, hgblank⟩ := reads_many h₄
      have hopen : c₄.rest = '(' :: c₅.rest := reads_chars h₅
      simp only [holds_blank] at hgblank
      -- neither a blank nor a parenthesis is a character of a word
      have hnot : c₃.rest.head?.any isAsciiWord = false := by
        rw [hg, hopen]
        cases g with
        | nil => rfl
        | cons a g =>
          rw [List.cons_append, List.head?_cons, Option.any_some, ← Bool.not_eq_true]
          intro ha
          have hfalse := (hgblank a List.mem_cons_self).symm.trans (Text.isBlank_eq_false_of_isAsciiWord ha)
          exact Bool.noConfusion hfalse
      rcases helse with ⟨c₆, h₆, c₇, ⟨a, rest, ha, hblank', rfl⟩, h₇⟩ | rfl
      · have hbehind : (start s o).rest = "else".toList ++ c₆.rest := reads_chars h₆
        obtain ⟨g', hg', hgblank'⟩ := reads_many h₇
        simp only [holds_blank] at hgblank'
        have hg' : rest = g' ++ c₂.rest := hg'
        rw [hstart, ha, hg'] at hbehind
        obtain ⟨-, hw⟩ := List.cons.inj (List.append_cancel_left hbehind)
        cases g' with
        | nil => rw [hif c₃.rest (hw.trans hword)] at hnot; exact Bool.noConfusion hnot
        | cons b g' =>
          rw [hw, List.cons_append, List.head?_cons, Option.any_some, hgblank' b List.mem_cons_self] at hblank
          exact Bool.noConfusion hblank
      · rw [hstart] at hword
        exact absurd (List.cons.inj hword).1 (by decide)
  exact ⟨_, hitOf_of_run hrun, rfl⟩

/-! ## Signs -/

theorem hitOf_text {t : String} (hs : s.drop o = t.toList ++ w) :
    ({ pattern := text t } : Finder).hitOf (fun _ => true) s o = some ⟨⟨o, o + t.toList.length⟩, []⟩ :=
  hitOf_of_run (d := (start s o).past t.toList w) (run_text hs)

section Equals
variable (hs : s.drop o = '=' :: ' ' :: w) (hw : ∃ b v, w = b :: v ∧ isBlank b = false ∧ b ≠ '\x7b')
include hs

/-- An equals sign between blanks assigns. -/
theorem hitOf_assignment (hbefore : Text.charBefore s o = some ' ') :
    ∃ h : Hit, Operator.assignment.hitOf (fun _ => true) s o = some h ∧ h.token = ⟨o, o + 1⟩ := by
  have hrun : (text "=").read (start s o) = some ((start s o).past "=".toList (' ' :: w)) := run_text hs
  exact ⟨_, Finder.hitOf_of_read (by rw [hbefore]; rfl) rfl rfl hrun rfl, rfl⟩

theorem hitOf_comparison_eq_none : Operator.comparison.hitOf (fun _ => true) s o = none := by
  refine hitOf_eq_none_of_reads fun d h => ?_
  obtain ⟨t, ht, hrest⟩ := reads_any_text h
  have hstart : (start s o).rest = '=' :: ' ' :: w := hs
  have hnot : ∀ t ∈ ["===", "!==", "==", "!=", "<=", ">=", "<", ">"], ¬ t.toList <+: '=' :: ' ' :: w := by
    simp only [List.forall_mem_cons]
    refine ⟨?_, ?_, ?_, ?_, ?_, ?_, ?_, ?_, List.forall_mem_nil _⟩ <;>
      simp [List.cons_prefix_cons]
  rw [hstart] at hrest
  exact hnot t ht ⟨_, hrest.symm⟩

include hw in
theorem hitOf_initializer_eq_none : Operator.initializer.hitOf (fun _ => true) s o = none := by
  refine hitOf_eq_none_of_reads fun d h => ?_
  obtain ⟨_, ⟨m, hm, rfl⟩, n, hn, m', hm', -⟩ := h
  have hstart : (start s o).rest = '=' :: ' ' :: w := hs
  have hequals : (start s o).rest = '=' :: m.rest := reads_chars hm
  obtain ⟨g, hg, hgblank⟩ := reads_many hn
  have hbrace : n.rest = '\x7b' :: m'.rest := reads_chars hm'
  have hg : m.rest = g ++ n.rest := hg
  simp only [holds_blank] at hgblank
  obtain ⟨b, v, rfl, hblank, hb⟩ := hw
  rw [hstart, hg, hbrace] at hequals
  obtain ⟨-, hequals⟩ := List.cons.inj hequals
  cases g with
  | nil => exact absurd (List.cons.inj hequals).1 (by decide)
  | cons a g =>
    obtain ⟨-, hequals⟩ := List.cons.inj hequals
    cases g with
    | nil => exact hb (List.cons.inj hequals).1
    | cons e g =>
      obtain ⟨rfl, -⟩ := List.cons.inj hequals
      rw [hgblank b (by simp)] at hblank
      exact Bool.noConfusion hblank

end Equals

end SourceLikeness.Tokenizer
