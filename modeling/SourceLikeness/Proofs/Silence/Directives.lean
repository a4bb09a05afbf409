import SourceLikeness.Proofs.Silence.Imports

/-!
# Directives

The pass for directives finds one on each line that starts like one, up to the end of that line: the backslash in front of it
is part of what is read up to there. So of a definition that goes on over several lines those are blanked that start like a
directive themselves.

* `isDirective`, `Directive` : lines that start as a directive does;
* `toLineEnd_of_directive`, `exists_hitOf_directive` : what the pass for directives finds;
* `covers_of_import` : what the pass for imports finds on such a line;
* `Tokenizer.blankIn_definition`, `Tokenizer.mask_definition` : a definition whose lines all start so is masked;
* `Tokenizer.covers_definition` : another line that continues a definition has its tokens.
-/

namespace SourceLikeness
open WorkingCopy Tokenizer
open Text (charBefore inked)

namespace Tokenizer.Inert
open Pattern
variable {c d m : Cursor} {k : Cursor → Option Cursor} {s l v gap gap' word rest : List Char} {hit : Hit} {a p : Nat}

/-- At the end of a line no line that continues it is read. -/
theorem run_continued (hm : m.rest.head?.all (· == '\n') = true) :
    (many (all [text "\\\n", Shape.restOfLine])).run m some = some m := by
  have hnone : ∀ (d : Cursor) (k' : Cursor → Option Cursor), d.rest = m.rest →
      (all [text "\\\n", Shape.restOfLine]).run d k' = none := fun d k' hd => by
    rw [run_all_cons]
    refine run_text_eq_none (b := '\\') (u := ['\n']) rfl fun heq => ?_
    rw [← hd, heq] at hm
    exact absurd hm (by decide)
  change greedily _ m.rest m some = some m
  exact greedily_of_some (u := []) rfl (List.forall_mem_nil _) hnone (by rw [Cursor.past_nil rfl])

theorem avoids_directive {names : Pattern} (hnames : names.avoids '\n' = true) : (directive names).avoids '\n' = true := by
  simp only [directive, all, avoids, hnames, Bool.and_true]
  decide

theorem toLineEnd_of_directive (hhit : Finder.hitOf { pattern := cDirective } (fun _ => true) s a = some hit) :
    ToLineEnd s hit.whole := by
  obtain ⟨d, hd, rfl⟩ := Finder.read_of_hitOf hhit
  have hin := Finder.in_start s a
  rcases orElse_eq_some hd with hdefine | hother
  · exact toLineEnd_of_run (avoids_directive (by decide)) hin (fun m hm => run_continued hm) hdefine
  · exact toLineEnd_of_run (avoids_directive (by decide)) hin (fun m _ => rfl) hother

/-! ## Directives -/

def isSmall (x : Char) : Bool := 'a' ≤ x && x ≤ 'z'

/-- Whether a line starts as a directive does: with a `#` between gaps and a word of small letters. -/
def isDirective (l : List Char) : Bool :=
  match l.dropWhile isGap with
  | '#' :: rest =>
    let named := rest.dropWhile isGap
    (named.takeWhile isSmall != []) && !(named.dropWhile isSmall).head?.any Text.isWord
  | _ => false

/-- What a line that starts as a directive does is made of. -/
structure Directive (l gap gap' word rest : List Char) : Prop where
  eq : l = gap ++ ('#' :: (gap' ++ (word ++ rest)))
  isGap : ∀ x ∈ gap, isGap x = true
  isGap' : ∀ x ∈ gap', Inert.isGap x = true
  isSmall : ∀ x ∈ word, isSmall x = true
  ne_nil : word ≠ []
  edge : rest.head?.any Text.isWord = false

theorem exists_directive (h : isDirective l = true) : ∃ gap gap' word rest, Directive l gap gap' word rest := by
  have hsplit := List.takeWhile_append_dropWhile (p := isGap) (l := l)
  unfold isDirective at h
  generalize l.dropWhile isGap = behind at h hsplit
  split at h
  · rename_i rest
    obtain ⟨hword, hedge⟩ := Bool.and_eq_true_iff.1 h
    refine ⟨l.takeWhile isGap, rest.takeWhile isGap, (rest.dropWhile isGap).takeWhile isSmall,
      (rest.dropWhile isGap).dropWhile isSmall, ?_, List.all_eq_true.1 List.all_takeWhile, List.all_eq_true.1 List.all_takeWhile,
      List.all_eq_true.1 List.all_takeWhile, by simpa using hword, by simpa using hedge⟩
    rw [List.takeWhile_append_dropWhile, List.takeWhile_append_dropWhile, hsplit]
  · exact Bool.noConfusion h

theorem not_gap_of_small {x : Char} (h : isSmall x = true) : isGap x = false := by
  unfold isGap
  rw [Bool.or_eq_false_iff]
  constructor <;>
  · rw [beq_eq_false_iff_ne]
    rintro rfl
    exact absurd h (by decide)
theorem isAscii_of_small {x : Char} (h : isSmall x = true) : IsAscii x := by
  have hle : x ≤ 'z' := of_decide_eq_true (Bool.and_eq_true_iff.1 h).2
  exact Nat.lt_of_le_of_lt (show x.toNat ≤ 122 from hle) (by decide)

theorem isAscii_of_gap {x : Char} (h : isGap x = true) : IsAscii x := by
  rcases Bool.or_eq_true_iff.1 h with h | h <;>
  · rw [beq_iff_eq.1 h]
    decide

theorem isWord_of_small {x : Char} (h : isSmall x = true) : Text.isWord x = true := by
  have halpha : x.isAlpha = true := Bool.or_eq_true_iff.2 (Or.inr h)
  rw [Text.isWord_eq_isAsciiWord (isAscii_of_small h), Text.isAsciiWord, Char.isAlphanum, halpha]
  rfl

/-- The start of a directive, with any name. -/
def anyDirective : Pattern := directive (plus (one (.only [.range 'a' 'z'])))

theorem run_anyDirective (hl : Directive l gap gap' word rest) (hstart : c.atLineStart = true)
    (hrest : c.rest = l ++ v) (hv : v.head?.all (· == '\n') = true)
    (hk : k (c.past (gap ++ ('#' :: (gap' ++ word))) (rest ++ v)) = some d) : anyDirective.run c k = some d := by
  obtain ⟨rfl, hgap, hgap', hsmall, hne, hedge⟩ := hl
  obtain ⟨x, word, rfl⟩ := List.exists_cons_of_ne_nil hne
  obtain ⟨hx, hword⟩ := List.forall_mem_cons.1 hsmall
  have hholds : ∀ z, (CharSet.only [.range 'a' 'z']).holds z = isSmall z := fun z => Bool.or_false _
  have hnotWord : (rest ++ v).head?.any Text.isWord = false := by
    cases rest with
    | nil =>
      cases v with
      | nil => rfl
      | cons y v => rw [List.nil_append, List.head?_cons, Option.any_some, beq_iff_eq.1 hv]; decide
    | cons y rest => exact hedge
  have hnotSmall : (rest ++ v).head?.any isSmall = false := by
    cases hhead : (rest ++ v).head? with
    | none => rfl
    | some y =>
      rw [hhead] at hnotWord
      exact Bool.eq_false_iff.2 fun hy => Bool.noConfusion (hnotWord.symm.trans (isWord_of_small hy))
  rw [anyDirective, directive, run_all_cons, run_lineStart hstart, run_all_cons]
  refine run_gap (u := gap) (x := '#') (v := gap' ++ (x :: (word ++ (rest ++ v)))) (by simp [hrest]) hgap (by decide) ?_
  rw [run_all_cons, run_text (t := "#") (v := gap' ++ (x :: (word ++ (rest ++ v)))) rfl, run_all_cons]
  refine run_gap (u := gap') (x := x) (v := word ++ (rest ++ v)) rfl hgap' (not_gap_of_small hx) ?_
  rw [run_all_cons, plus, run_seq, run_one rfl ((hholds x).trans hx)]
  refine run_many (u := word) (v := rest ++ v) rfl (fun z hz => (hholds z).trans (hword z hz)) ?_ ?_
  · rw [← hnotSmall]
    exact congrArg (Option.any · _) (funext hholds)
  · have hchars : gap ++ "#".toList ++ gap' ++ [x] ++ word = (gap ++ '#' :: gap') ++ (x :: word) := by simp
    have hlast : (x :: word).getLast?.any Text.isWord = true := by
      rw [List.getLast?_eq_some_getLast (List.cons_ne_nil x word), Option.any_some]
      exact isWord_of_small (hsmall _ (List.getLast_mem _))
    have hedge : (c.past ((gap ++ '#' :: gap') ++ (x :: word)) (rest ++ v)).atWordEdge = true := by
      rw [Cursor.atWordEdge, Cursor.past, List.getLast?_append_of_ne_nil _ (List.cons_ne_nil x word), Cursor.rest, hnotWord]
      rw [List.getLast?_eq_some_getLast (List.cons_ne_nil x word)] at hlast ⊢
      rw [Option.some_or, hlast]
      rfl
    simp only [Cursor.past_past]
    rw [hchars, show (all [wordEdge]) = wordEdge from rfl, run_wordEdge hedge, ← hk]
    simp

/-- The pass for directives finds one where it stands. -/
theorem exists_hitOf_directive (hl : Directive l gap gap' word rest) (hline : IsLine s a l) :
    ∃ hit, Finder.hitOf { pattern := cDirective } (fun _ => true) s a = some hit := by
  obtain ⟨v, hv, hend⟩ := hline.rest
  have hread : (cDirective.read (Finder.start s a)).isSome = true := by
    refine isSome_orElse_right _ ?_
    generalize hm : (Finder.start s a).past (gap ++ ('#' :: (gap' ++ word))) (rest ++ v) = m
    obtain ⟨u, v', -, -, -, hrun⟩ := exists_run_restOfLine m
    have hother : anyDirective.run (Finder.start s a) (fun m => Shape.restOfLine.run m some) = some (m.past u v') :=
      run_anyDirective hl hline.lineStart hv hend (by rw [hm]; exact hrun some _ rfl)
    exact Option.isSome_iff_exists.2 ⟨_, hother⟩
  obtain ⟨d, hd⟩ := Option.isSome_iff_exists.1 hread
  exact ⟨_, Finder.hitOf_of_read rfl rfl rfl hd rfl⟩

/-! ## Imports among directives -/

/-- An import starts at the start of a line. -/
theorem lineStart_of_import (hmem : hit ∈ Finder.hits { pattern := cImport } s) :
    (charBefore s hit.whole.start).all (· == '\n') = true := by
  obtain ⟨d, hd, -⟩ := Finder.read_of_hitOf (Finder.hitOf_of_mem hmem)
  rcases reads_of_read hd with ⟨_, ⟨_, ⟨hline, -⟩, -⟩, -⟩ | ⟨_, ⟨hline, -⟩, -⟩
  · exact hline
  · exact hline

/-- An import that has something in common with a directive's line covers all of it. -/
theorem covers_of_import (hl : Directive l gap gap' word rest) (hline : IsLine s a l)
    (hmem : hit ∈ Finder.hits { pattern := cImport } s) (hap : a ≤ p) (hp : p < a + l.length) (hcovers : hit.whole.Covers p) :
    ∀ i, a ≤ i → i < a + l.length → hit.whole.Covers i := by
  have hlined : Finder.Lined { pattern := cImport } s := Finder.lined_of_avoids (by decide) s
  have hstart : hit.whole.start = a := by
    rcases Nat.lt_trichotomy hit.whole.start a with hlt | heq | hgt
    · have hstop := hlined.spares hline.lineStart hit hmem hlt
      exact absurd hcovers.2 (by omega)
    · exact heq
    · obtain ⟨n, hn⟩ := Nat.exists_eq_succ_of_ne_zero (Nat.ne_of_gt (Nat.zero_lt_of_lt hgt))
      have hle := hcovers.1
      obtain ⟨x, hx, hne⟩ := hline.ne_newline (i := n) (by omega) (by omega)
      have hbefore := lineStart_of_import hmem
      rw [hn] at hbefore
      change s[n]?.all _ = true at hbefore
      rw [hx] at hbefore
      exact absurd (beq_iff_eq.1 hbefore) hne
  obtain ⟨d, hd, heq⟩ := Finder.read_of_hitOf (Finder.hitOf_of_mem hmem)
  have hin := Finder.in_start s hit.whole.start
  intro i hai hi
  rcases orElse_eq_some hd with hdirective | hword
  · rw [heq]
    exact hline.covers (toLineEnd_of_run (avoids_directive (by decide)) hin (fun m _ => rfl) hdirective) hstart
      ((reads_of_read (p := cImport) hd).mem hin).2 hai hi
  · -- Behind the gap the line goes on with a `#`, an import with a letter.
    obtain ⟨_, ⟨_, ⟨-, rfl⟩, m, hgap, n, hany, -⟩, -⟩ := reads_of_run hword
    obtain ⟨t, ht, hm⟩ : ∃ t ∈ importWords, m.rest = t.toList ++ n.rest := reads_any_text hany
    obtain ⟨v, hv, -⟩ := hline.rest
    have hdrop := dropWhile_of_gap hgap
    rw [hm, Finder.start, hstart, hv, hl.eq, List.append_assoc, List.dropWhile_append_of_pos hl.isGap] at hdrop
    exact absurd (congrArg List.head? hdrop).symm (head?_importWord ht n.rest)

end Tokenizer.Inert

namespace Tokenizer
open Inert
variable {w : Work} {l gap gap' word rest : List Char} {a : Nat}

/-- The pass for imports keeps the line of a directive as it is or blanks all of it. -/
theorem import_cases (hl : Directive l gap gap' word rest) (hline : IsLine w.text a l) :
    IsLine (erase { pattern := cImport } blank w).text a l ∨
      BlankIn ⟨a, a + l.length⟩ (erase { pattern := cImport } blank w).text := by
  by_cases hhit : ∃ h ∈ Finder.hits { pattern := cImport } w.text, ∃ p, h.whole.Covers p ∧ a ≤ p ∧ p < a + l.length
  · obtain ⟨h, hmem, p, hcovers, hap, hp⟩ := hhit
    exact Or.inr (blankIn_erase fun i hi => ⟨h, hmem, covers_of_import hl hline hmem hap hp hcovers i hi.1 hi.2⟩)
  · refine Or.inl (IsLine.of_getElem? ?_ hline.noNewline (fun i hi => ?_) (all_newline_erase (by decide) _ hline.lineEnd))
    · have hstart := hline.lineStart
      cases a with
      | zero => rfl
      | succ n => exact all_newline_erase (by decide) _ hstart
    · rw [getElem?_text_erase_of_not (by decide) fun h hmem hcovers => hhit ⟨h, hmem, _, hcovers, by omega, by omega⟩,
        hline.getElem? hi]

/-- The passes for imports and directives blank the line of a directive. -/
theorem blankIn_directive (hl : Directive l gap gap' word rest) (hline : IsLine w.text a l) :
    BlankIn ⟨a, a + l.length⟩ (erase { pattern := cDirective } blank (erase { pattern := cImport } blank w)).text := by
  rcases import_cases hl hline with hline | hblank
  · obtain ⟨hit, hhit⟩ := exists_hitOf_directive hl hline
    have hlined : Finder.Lined { pattern := cDirective } (erase { pattern := cImport } blank w).text := fun h hmem =>
      (toLineEnd_of_directive (Finder.hitOf_of_mem hmem)).noNewline
    refine blankIn_erase fun i hi => hlined.exists_covers (by decide) hline.lineStart (hline.le_length ?_) hhit ?_
    · rintro rfl
      exact absurd hi.2 (Nat.not_lt.2 hi.1)
    · exact hline.covers (toLineEnd_of_directive hhit) (Finder.start_of_hitOf hhit) (Finder.start_le_of_hitOf hhit) hi.1 hi.2
  · exact hblank.erase _

/-! ## Lines of a source -/

variable {before after first : List Char} {more : List (List Char)}

/-- Another character behind the word of a directive. -/
theorem Inert.Directive.concat (h : Directive l gap gap' word rest) {x : Char} (hx : Text.isWord x = false) :
    Directive (l ++ [x]) gap gap' word (rest ++ [x]) where
  eq := by rw [h.eq]; simp
  isGap := h.isGap
  isGap' := h.isGap'
  isSmall := h.isSmall
  ne_nil := h.ne_nil
  edge := by
    cases hrest : rest with
    | nil => exact hx
    | cons y rest =>
      have hedge := h.edge
      rw [hrest] at hedge
      exact hedge

/-- A directive stays one as a working text. -/
theorem Inert.Directive.ofSource (h : Directive l gap gap' word rest) :
    Directive (ofSource l : Work).text gap gap' word (ofSource rest : Work).text where
  eq := by
    rw [h.eq, text_ofSource_append, text_ofSource_of_ascii fun x hx => isAscii_of_gap (h.isGap x hx), text_ofSource_cons,
      text_ofSource_append, text_ofSource_of_ascii fun x hx => isAscii_of_gap (h.isGap' x hx), text_ofSource_append,
      text_ofSource_of_ascii fun x hx => isAscii_of_small (h.isSmall x hx)]
    rfl
  isGap := h.isGap
  isGap' := h.isGap'
  isSmall := h.isSmall
  ne_nil := h.ne_nil
  edge := by
    cases hrest : rest with
    | nil => rfl
    | cons y rest =>
      have hedge := h.edge
      rw [hrest] at hedge
      rw [text_ofSource_cons]
      split_ifs
      · exact hedge
      · obtain ⟨n, hn⟩ := Nat.exists_eq_succ_of_ne_zero (Nat.ne_of_gt (Char.utf8Size_pos y))
        rw [hn, List.replicate_succ, List.cons_append, List.head?_cons]
        decide

theorem blankIn_visible (hl : Directive l gap gap' word rest) (hnewline : '\n' ∉ l)
    (hbefore : before.getLast?.all (· == '\n') = true) (hafter : after.head?.all (· == '\n') = true)
    (hcode : InCode (before ++ l ++ after) (placed before l)) :
    BlankIn (placed before l) (visible (before ++ l ++ after)).text := by
  have hline := isLine_of_inCode hbefore hnewline hafter hcode
  rw [visible_eq, placed, ← Literal.length_text l]
  exact blankIn_directive hl.ofSource hline

/-- A definition: its first line and the lines that continue it. There is a backslash in front of each newline. -/
def definition (first : List Char) (more : List (List Char)) : List Char := first ++ more.flatMap ('\\' :: '\n' :: ·)

theorem blankIn_definition (hlines : ∀ l ∈ first :: more, isDirective l = true ∧ '\n' ∉ l)
    (hbefore : before.getLast?.all (· == '\n') = true) (hafter : after.head?.all (· == '\n') = true)
    (hcode : InCode (before ++ definition first more ++ after) (placed before (definition first more))) :
    BlankIn (placed before (definition first more)) (visible (before ++ definition first more ++ after)).text := by
  induction more generalizing before first with
  | nil =>
    obtain ⟨hdirective, hnewline⟩ := hlines first (List.mem_singleton_self first)
    obtain ⟨gap, gap', word, rest, hl⟩ := exists_directive hdirective
    have hfirst : definition first [] = first := List.append_nil first
    rw [hfirst] at hcode ⊢
    exact blankIn_visible hl hnewline hbefore hafter hcode
  | cons l more ih =>
    obtain ⟨⟨hdirective, hnewline⟩, hmore⟩ := List.forall_mem_cons.1 hlines
    obtain ⟨gap, gap', word, rest, hl⟩ := exists_directive hdirective
    have hsplit : definition first (l :: more) = (first ++ ['\\']) ++ '\n' :: definition l more := by
      simp [definition]
    have hsource : before ++ definition first (l :: more) ++ after =
        before ++ (first ++ ['\\']) ++ '\n' :: (definition l more ++ after) := by simp [hsplit]
    have hsource' : before ++ definition first (l :: more) ++ after =
        (before ++ first ++ ['\\', '\n']) ++ definition l more ++ after := by simp [hsplit]
    have hfront : (utf8 (before ++ first ++ ['\\', '\n'])).length = (utf8 before).length + (utf8 (first ++ ['\\'])).length + 1 := by
      rw [length_utf8_append, length_utf8_append, length_utf8_append, Nat.add_assoc, Nat.add_assoc]
      rfl
    have hall : (utf8 (definition first (l :: more))).length =
        (utf8 (first ++ ['\\'])).length + (1 + (utf8 (definition l more)).length) := by
      rw [hsplit, length_utf8_append, length_utf8_cons]
      rfl
    -- The first line with its backslash, and the definition that starts on the next line.
    have hline : BlankIn (placed before (first ++ ['\\'])) (visible (before ++ definition first (l :: more) ++ after)).text := by
      rw [hsource]
      refine blankIn_visible (hl.concat (by decide)) (by simpa using hnewline) hbefore rfl ?_
      rw [← hsource]
      exact hcode.mono fun i hi => hsplit ▸ covers_placed_append hi
    have hrest : BlankIn (placed (before ++ first ++ ['\\', '\n']) (definition l more))
        (visible (before ++ definition first (l :: more) ++ after)).text := by
      rw [hsource']
      refine ih hmore (by simp) ?_
      rw [← hsource']
      refine hcode.mono fun i hi => ?_
      simp only [placed, Span.Covers, hfront, hall] at hi ⊢
      omega
    have hend : (visible (before ++ definition first (l :: more) ++ after)).text[(placed before (first ++ ['\\'])).stop]?.all
        (· == '\n') = true := by
      rw [hsource]
      exact all_newline_visible (lineEnd_placed before _ rfl)
    intro i hi
    rcases Nat.lt_trichotomy i (placed before (first ++ ['\\'])).stop with hlt | rfl | hgt
    · exact hline i ⟨hi.1, hlt⟩
    · exact Option.all_eq_true .. |>.2 fun x hx => Bool.or_eq_true_iff.2 (Or.inr (Option.all_eq_true .. |>.1 hend x hx))
    · refine hrest i ?_
      simp only [placed, Span.Covers, hfront, hall] at hi hgt ⊢
      omega

/-- **Definitions of lines that start like directives are masked.** In a source without quotes and comments before it, a
definition at the start of a line has a blank for each byte but newlines behind the pass for directives, and no token starts in
it, if the lines that continue it start like directives themselves. So without such lines it is always masked. -/
theorem mask_definition {t : Tokenizer} (hd : t.settings.dialect = .cFamily)
    (hlines : ∀ l ∈ first :: more, isDirective l = true ∧ '\n' ∉ l) (hbare : Bare (before ++ definition first more))
    (hbefore : before.getLast?.all (· == '\n') = true) (hafter : after.head?.all (· == '\n') = true) :
    (∀ i, (placed before (definition first more)).Covers i → (visible (before ++ definition first more ++ after)).text[i]? =
        ((ofSource (before ++ definition first more ++ after) : Work).text[i]?).map (inked blank)) ∧
      ∀ k ∈ t.tokenize (before ++ definition first more ++ after), ¬ (placed before (definition first more)).Covers k.start := by
  have hblank := blankIn_definition hlines hbefore hafter (inCode_of_bare hbare hafter)
  exact ⟨fun i hi => getElem?_of_blankIn hblank hi, not_covers_of_blankIn hd hbefore hafter hblank⟩

/-- A definition and another one on the line that continues it. -/
theorem mask_definition_nested :
    let before := "f();\n".toList
    let first := "#define F(a) a = 1; ".toList
    let more := [" # define G b = a;".toList]
    let after := "\nx = 1;".toList
    let source := before ++ definition first more ++ after
    (∀ l ∈ first :: more, isDirective l = true ∧ '\n' ∉ l) ∧ Bare (before ++ definition first more) ∧
      (∀ i, (placed before (definition first more)).Covers i →
        (visible source).text[i]? = ((ofSource source : Work).text[i]?).map (inked blank)) ∧
      ∀ k ∈ (ofDialect .cFamily).tokenize source, ¬ (placed before (definition first more)).Covers k.start := by
  intro before first more after source
  have hlines : ∀ l ∈ first :: more, isDirective l = true ∧ '\n' ∉ l := by decide +kernel
  have hbare : Bare (before ++ definition first more) := ⟨by decide +kernel, by decide +kernel, by decide +kernel⟩
  exact ⟨hlines, hbare, mask_definition (t := ofDialect .cFamily) rfl hlines hbare (by decide +kernel) (by decide +kernel)⟩

/-- Another line that continues a definition is not masked: its assignment is a token. -/
theorem covers_definition :
    let before := "\n".toList
    let first := "#define F(a) a = 1; ".toList
    let more := [" b = a;".toList]
    let source := before ++ definition first more ++ "\nx = 1;".toList
    isDirective first = true ∧ Bare (before ++ definition first more) ∧
      ¬ ∀ k ∈ (ofDialect .cFamily).tokenize source, ¬ (placed before (definition first more)).Covers k.start := by
  intro before first more source
  have hmem : ⟨'A', 26, 27⟩ ∈ (ofDialect .cFamily).tokenize source := by decide +kernel
  exact ⟨by decide +kernel, ⟨by decide +kernel, by decide +kernel, by decide +kernel⟩, fun h => h _ hmem (by decide +kernel)⟩

end Tokenizer

end SourceLikeness
