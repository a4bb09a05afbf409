import SourceLikeness.Proofs.Silence.Lines

/-!
# Imports on one line

The pass for imports finds a statement where it stands at the start of a line, up to its semicolon, but not beyond the end of
the line.

* `run_import`, `hitOf_import` : what the pass finds;
* `Tokenizer.not_covers_importStatement` : no token starts in the first line of a statement;
* `Tokenizer.covers_importStatement_lines` : the closing brace of a statement on several lines is a token.
-/

namespace SourceLikeness
open WorkingCopy Tokenizer
open Text (charBefore)

namespace Tokenizer.Inert
open Pattern
variable {c d m : Cursor} {k : Cursor → Option Cursor} {s u v : List Char} {a : Nat}

/-- The words that an import starts with. -/
def importWords : List String := ["import", "use", "package"]

theorem exists_importWord {t : String} (ht : t ∈ importWords) :
    ∃ x chars, t.toList = x :: chars ∧ isGap x = false ∧ x ≠ '#' := by
  have hletters : ∀ t ∈ importWords, t.toList.head?.any (fun x => !isGap x && x != '#') = true := by decide
  have hletter := hletters t ht
  cases hchars : t.toList with
  | nil =>
    rw [hchars] at hletter
    exact Bool.noConfusion hletter
  | cons x chars =>
    rw [hchars] at hletter
    obtain ⟨hx, hne⟩ := Bool.and_eq_true_iff.1 hletter
    exact ⟨x, chars, rfl, by simpa using hx, bne_iff_ne.1 hne⟩

/-- No directive starts with one of these words. -/
theorem head?_importWord {t : String} (ht : t ∈ importWords) (v : List Char) :
    ((t.toList ++ v).dropWhile isGap).head? ≠ some '#' := by
  obtain ⟨x, chars, hchars, hx, hne⟩ := exists_importWord ht
  rw [hchars, List.cons_append, List.dropWhile_cons_of_neg (by rw [hx]; exact Bool.false_ne_true)]
  exact fun h => hne (Option.some.inj h)
theorem run_importWord {t : String} (ht : t ∈ importWords) (hrest : c.rest = t.toList ++ v)
    (hk : k (c.past t.toList v) = some d) : (any (importWords.map Pattern.text)).run c k = some d := by
  have hread : (Pattern.text t).run c k = some d := (run_text hrest).trans hk
  have hnot : ∀ {r : String} {b : Char} {w : List Char}, r.toList = b :: w → t.toList.head? ≠ some b → t.toList ≠ [] →
      (Pattern.text r).run c k = none := fun hr hne hnil => by
    refine run_text_eq_none hr ?_
    rwa [hrest, List.head?_append_of_ne_nil _ hnil]
  simp only [importWords, List.mem_cons, List.not_mem_nil, or_false] at ht
  rcases ht with rfl | rfl | rfl
  · exact run_any_of_some hread
  · exact (run_any_of_none (hnot (r := "import") rfl (by decide) (by decide))).trans (run_any_of_some hread)
  · exact (run_any_of_none (hnot (r := "import") rfl (by decide) (by decide))).trans
      ((run_any_of_none (hnot (r := "use") rfl (by decide) (by decide))).trans hread)

theorem run_import {t : String} {e : List Char} (ht : t ∈ importWords) (hu : ∀ x ∈ u, x ≠ ';' ∧ x ≠ '\n')
    (he : e = [] ∧ v.head?.all (· == '\n') = true ∨ e = [';']) (hstart : c.atLineStart = true)
    (hrest : c.rest = t.toList ++ ' ' :: (u ++ (e ++ v))) :
    (all [lineStart, Shape.gap, any (importWords.map Pattern.text), wordEdge, many (noneOf ";\n"), opt (Pattern.text ";")]).run c some =
      some (c.past (t.toList ++ ' ' :: (u ++ e)) v) := by
  have hholds : ∀ x, (CharSet.except (";\n".toList.map .char)).holds x = !(x == ';' || x == '\n') := fun x => by
    rw [holds_noneOf]
    exact congrArg (fun b => !(x == ';' || b)) (Bool.or_false _)
  obtain ⟨x, chars, hchars, hx, -⟩ := exists_importWord ht
  have hedge : (c.past t.toList (' ' :: (u ++ (e ++ v)))).atWordEdge = true := by
    have hlasts : ∀ t ∈ importWords, t.toList.getLast?.any Text.isWord = true := by decide
    have hlast := hlasts t ht
    rw [Cursor.atWordEdge, Cursor.past, Cursor.rest, List.head?_cons]
    cases hget : t.toList.getLast? with
    | none =>
      rw [hget] at hlast
      exact Bool.noConfusion hlast
    | some y =>
      rw [hget] at hlast
      rw [Option.some_or, hlast]
      decide
  rw [run_all_cons, run_lineStart hstart, run_all_cons]
  refine run_gap (u := []) (x := x) (v := chars ++ ' ' :: (u ++ (e ++ v))) (by rw [hrest, hchars]; rfl) (List.forall_mem_nil _) hx ?_
  rw [Cursor.past_nil (by rw [hrest, hchars]; rfl), run_all_cons]
  refine run_importWord ht hrest ?_
  rw [run_all_cons, run_wordEdge hedge, run_all_cons]
  refine run_many (u := ' ' :: u) (v := e ++ v) rfl (fun y hy => ?_) ?_ ?_
  · rw [hholds]
    rcases List.mem_cons.1 hy with rfl | hy
    · rfl
    · simpa using hu y hy
  · rcases he with ⟨rfl, hv⟩ | rfl
    · cases v with
      | nil => rfl
      | cons y v =>
        obtain rfl : y = '\n' := beq_iff_eq.1 hv
        exact hholds '\n'
    · exact hholds ';'
  · rw [Cursor.past_past]
    change (opt (Pattern.text ";")).run _ some = _
    rcases he with ⟨rfl, hv⟩ | rfl
    · rw [run_opt_of_none, List.append_nil, List.nil_append]
      refine run_text_eq_none (b := ';') (u := []) rfl ?_
      cases v with
      | nil =>
        intro h
        cases h
      | cons y v =>
        obtain rfl : y = '\n' := beq_iff_eq.1 hv
        exact fun h => absurd (Option.some.inj h) (by decide)
    · refine run_opt_of_some ((run_text (v := v) rfl).trans ?_)
      rw [Cursor.past_past]
      simp

/-- The pass for imports finds one on a line, up to its semicolon or to the end of the line. -/
theorem hitOf_import {t : String} {e : List Char} (ht : t ∈ importWords) (hu : ∀ x ∈ u, x ≠ ';' ∧ x ≠ '\n')
    (he : e = [] ∨ e = [';']) (hline : IsLine s a (t.toList ++ ' ' :: (u ++ e))) :
    Finder.hitOf { pattern := cImport } (fun _ => true) s a =
      some ⟨⟨a, a + (t.toList ++ ' ' :: (u ++ e)).length⟩, []⟩ := by
  obtain ⟨v, hv, hend⟩ := hline.rest
  have hrest : (Finder.start s a).rest = t.toList ++ ' ' :: (u ++ (e ++ v)) := by
    rw [Finder.start, hv]
    simp only [List.append_assoc, List.cons_append]
  have hdirective : (all [directive (any [Pattern.text "include", Pattern.text "import"]), Shape.restOfLine]).run
      (Finder.start s a) some = none := by
    refine run_eq_none fun d hd => ?_
    obtain ⟨_, ⟨_, ⟨-, rfl⟩, m, hgap, n, hsign, -⟩, -⟩ := hd
    have hdrop := dropWhile_of_gap hgap
    rw [hrest, show m.rest = '#' :: n.rest from reads_chars hsign] at hdrop
    exact absurd (congrArg List.head? hdrop) (head?_importWord ht _)
  have hread : cImport.read (Finder.start s a) = some ((Finder.start s a).past (t.toList ++ ' ' :: (u ++ e)) v) :=
    (run_any_of_none hdirective).trans (run_import ht hu (he.imp_left fun he => ⟨he, hend⟩) hline.lineStart hrest)
  exact (Finder.hitOf_of_read rfl rfl rfl hread rfl).trans rfl

end Tokenizer.Inert

namespace Tokenizer
open Inert
variable {w : Work} {a : Nat}

/-- The passes for imports and directives blank an import up to its semicolon or to the end of its line. -/
theorem blankIn_import {t : String} {u e : List Char} (ht : t ∈ importWords) (hu : ∀ x ∈ u, x ≠ ';' ∧ x ≠ '\n')
    (he : e = [] ∨ e = [';']) (hline : IsLine w.text a (t.toList ++ ' ' :: (u ++ e))) :
    BlankIn ⟨a, a + (t.toList ++ ' ' :: (u ++ e)).length⟩
      (erase { pattern := cDirective } blank (erase { pattern := cImport } blank w)).text := by
  have hhit := hitOf_import ht hu he hline
  refine (blankIn_erase fun i hi => ?_).erase _
  exact (Finder.lined_of_avoids (by decide) w.text).exists_covers (by decide) hline.lineStart (hline.le_length (by simp)) hhit hi

/-! ## Statements -/

variable {t : Tokenizer} {word : String} {before after u e : List Char}

/-- An import statement with its text. -/
def importStatement (word : String) (text : List Char) : List Char := word.toList ++ ' ' :: (text ++ [';'])

/-- No token starts in an import on one line, up to its semicolon or to the end of the line. -/
theorem not_covers_importLine (hd : t.settings.dialect = .cFamily) (hword : word ∈ importWords) (hu : ∀ x ∈ u, x ≠ ';' ∧ x ≠ '\n')
    (he : e = [] ∨ e = [';']) (hbefore : before.getLast?.all (· == '\n') = true) (hafter : after.head?.all (· == '\n') = true)
    (hcode : InCode (before ++ (word.toList ++ ' ' :: (u ++ e)) ++ after) (placed before (word.toList ++ ' ' :: (u ++ e)))) :
    ∀ k ∈ t.tokenize (before ++ (word.toList ++ ' ' :: (u ++ e)) ++ after),
      ¬ (placed before (word.toList ++ ' ' :: (u ++ e))).Covers k.start := by
  have hascii : ∀ word ∈ importWords, ∀ c ∈ word.toList, IsAscii c := by decide
  have htail : ∀ c ∈ e, IsAscii c := by
    rcases he with rfl | rfl
    · exact List.forall_mem_nil _
    · decide
  have htext : (ofSource (word.toList ++ ' ' :: (u ++ e)) : Work).text = word.toList ++ ' ' :: ((ofSource u : Work).text ++ e) := by
    rw [text_ofSource_append, text_ofSource_of_ascii (hascii word hword), text_ofSource_cons, text_ofSource_append,
      text_ofSource_of_ascii htail]
    rfl
  have hsigns : ∀ x ∈ (ofSource u : Work).text, x ≠ ';' ∧ x ≠ '\n' := fun x hx =>
    ⟨fun heq => (hu ';' (Literal.mem_of_mem_text (by decide) (heq ▸ hx))).1 rfl,
      fun heq => (hu '\n' (Literal.mem_of_mem_text (by decide) (heq ▸ hx))).2 rfl⟩
  have hwords : ∀ word ∈ importWords, '\n' ∉ word.toList := by decide
  have hnewline : '\n' ∉ word.toList ++ ' ' :: (u ++ e) := by
    have hend : '\n' ∉ e := by rcases he with rfl | rfl <;> decide
    simp only [List.mem_append, List.mem_cons, not_or]
    exact ⟨hwords word hword, by decide, fun hmem => (hu _ hmem).2 rfl, hend⟩
  have hline := isLine_of_inCode hbefore hnewline hafter hcode
  rw [htext] at hline
  refine not_covers_of_blankIn hd hbefore hafter ?_
  rw [visible_eq, placed, ← Literal.length_text (word.toList ++ ' ' :: (u ++ e)), htext]
  exact blankIn_import hword hsigns he hline

/-- **Imports are masked up to the end of their line.** No token starts in the first line of an import statement that stands in
code at the start of a line, whatever comes in front of it and on the lines behind it. On one line that is all of it. -/
theorem not_covers_importStatement {text : List Char} (hd : t.settings.dialect = .cFamily) (hword : word ∈ importWords)
    (htext : ';' ∉ text) (hbefore : before.getLast?.all (· == '\n') = true) (hafter : after.head?.all (· == '\n') = true)
    (hcode : InCode (before ++ importStatement word text ++ after) (placed before (importStatement word text))) :
    ∀ k ∈ t.tokenize (before ++ importStatement word text ++ after),
      ¬ (placed before ((importStatement word text).takeWhile (· != '\n'))).Covers k.start ∧
        ('\n' ∉ text → ¬ (placed before (importStatement word text)).Covers k.start) := by
  have hwords : ∀ word ∈ importWords, ∀ c ∈ word.toList, (c != '\n') = true := by decide
  have hline : ∀ rest, (word.toList ++ ' ' :: rest).takeWhile (· != '\n') = word.toList ++ ' ' :: rest.takeWhile (· != '\n') :=
    fun rest => by rw [List.takeWhile_append_of_pos (hwords word hword), List.takeWhile_cons_of_pos (by decide)]
  have hkept : ∀ u : List Char, '\n' ∉ u → ∀ x ∈ u, (x != '\n') = true := fun u hu x hx =>
    bne_iff_ne.2 fun heq => hu (heq ▸ hx)
  by_cases hmem : '\n' ∈ text
  · obtain ⟨u, v, rfl, hu⟩ := List.eq_append_cons_of_mem hmem
    have hfirst : (importStatement word (u ++ '\n' :: v)).takeWhile (· != '\n') = word.toList ++ ' ' :: (u ++ []) := by
      rw [importStatement, hline, List.append_assoc, List.takeWhile_append_of_pos (hkept u hu)]
      rfl
    have hsplit : importStatement word (u ++ '\n' :: v) = (word.toList ++ ' ' :: (u ++ [])) ++ '\n' :: (v ++ [';']) := by
      simp [importStatement]
    have hsource : before ++ importStatement word (u ++ '\n' :: v) ++ after =
        before ++ (word.toList ++ ' ' :: (u ++ [])) ++ '\n' :: (v ++ ';' :: after) := by
      simp [importStatement]
    rw [hfirst]
    rw [hsource, hsplit] at hcode
    have hsigns : ∀ x ∈ u, x ≠ ';' ∧ x ≠ '\n' := fun x hx =>
      ⟨fun heq => htext (heq ▸ List.mem_append_left _ hx), fun heq => hu (heq ▸ hx)⟩
    have hnone := not_covers_importLine (t := t) hd hword hsigns (Or.inl rfl) hbefore rfl
      (hcode.mono fun i hi => covers_placed_append hi)
    rw [hsource]
    exact fun k hk => ⟨hnone k hk, fun hnot => absurd hmem hnot⟩
  · have hfirst : (importStatement word text).takeWhile (· != '\n') = importStatement word text := by
      rw [importStatement, hline, List.takeWhile_append_of_pos (hkept text hmem)]
      rfl
    have hnone := not_covers_importLine (t := t) hd hword (fun x hx => ⟨fun heq => htext (heq ▸ hx), fun heq => hmem (heq ▸ hx)⟩)
      (Or.inr rfl) hbefore hafter hcode
    rw [hfirst]
    exact fun k hk => ⟨hnone k hk, fun _ => hnone k hk⟩

/-- A statement with braces, between two others. -/
theorem not_covers_importStatement_braces :
    let before := "f();\n".toList
    let text := "a::\x7b b, c \x7d".toList
    let after := "\nx = 1;".toList
    let source := before ++ importStatement "use" text ++ after
    "use" ∈ importWords ∧ ';' ∉ text ∧ InCode source (placed before (importStatement "use" text)) ∧
      ∀ k ∈ (ofDialect .cFamily).tokenize source,
        ¬ (placed before ((importStatement "use" text).takeWhile (· != '\n'))).Covers k.start ∧
          ('\n' ∉ text → ¬ (placed before (importStatement "use" text)).Covers k.start) := by
  intro before text after source
  have hword : "use" ∈ importWords := by decide
  have htext : ';' ∉ text := by decide +kernel
  have hcode : InCode source (placed before (importStatement "use" text)) :=
    inCode_of_bare ⟨by decide +kernel, by decide +kernel, by decide +kernel⟩ (by decide +kernel)
  refine ⟨hword, htext, hcode, not_covers_importStatement (t := ofDialect .cFamily) rfl hword htext ?_ ?_ hcode⟩
  all_goals decide +kernel

/-- The last line of a statement on several lines is not masked: its brace is a token. -/
theorem covers_importStatement_lines :
    let text := "a::\x7b\n b,\n c\n\x7d".toList
    let source := [] ++ importStatement "use" text ++ "\nx = 1;".toList
    ';' ∉ text ∧ InCode source (placed [] (importStatement "use" text)) ∧
      ¬ ∀ k ∈ (ofDialect .cFamily).tokenize source, ¬ (placed [] (importStatement "use" text)).Covers k.start := by
  intro text source
  have hcode : InCode source (placed [] (importStatement "use" text)) :=
    inCode_of_bare ⟨by decide +kernel, by decide +kernel, by decide +kernel⟩ (by decide +kernel)
  have hmem : ⟨'\x7d', 16, 17⟩ ∈ (ofDialect .cFamily).tokenize source := by decide +kernel
  exact ⟨by decide +kernel, hcode, fun h => h _ hmem (by decide +kernel)⟩

end Tokenizer

end SourceLikeness
