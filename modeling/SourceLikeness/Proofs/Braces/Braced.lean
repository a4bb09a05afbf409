import SourceLikeness.Proofs.Blocks.Depth
import SourceLikeness.Proofs.Braces.Markers
import SourceLikeness.Proofs.Text.Joined
import SourceLikeness.Proofs.Tokenizer.Places

/-!
# Statements whose body is a block

The body of a statement needs no markers if it is a block already. The pass that sets them finds none for an `if`, a
`while` or a `for`, whatever is nested in their conditions. The condition behind the body of a `do` is read up to the
first parenthesis that closes; what stands behind that, up to the semicolon, is taken for a body.

* `tokens_apply_eq_iff` : markers are recorded if and only if a body is found;
* `Braced`, `Braced.text` : statements with a block for their body;
* `Braced.bodies_guarded`, `Braced.bodies_forDo`, `Braced.bodies_doWhile` : no bodies are found in them, but behind a `do`;
* `Braced.tokens_apply_eq_iff_flat` : which of them get no markers.
-/

namespace SourceLikeness.Tokenizer.BareBody
open Pattern
open Finder (start)
open Leads (IsWord)
open Text (isAsciiWord isBlank isLayout StandsAt StartsAt Without)
variable {s u v : List Char} {w : Work} {f : Finder} {accept : Hit → Bool} {hit : Hit} {i : Nat}

/-! ## Markers and bodies -/

/-- A body gets two markers. -/
theorem exists_wrap {body : Span} (h : body.Within 0 w.size) :
    ∃ p, wrap w body = { w with tokens := w.tokens ++ [⟨.openBrace, p, p⟩, ⟨.closeBrace, body.stop, body.stop⟩] } := by
  have hskip : ((body.slice w.text).takeWhile isLayout).length ≤ body.stop - body.start :=
    Nat.le_trans (List.takeWhile_prefix _).length_le (List.length_take_le _ _)
  have hstop := h.stop_le
  have hle := h.start_le_stop
  refine ⟨body.start + ((body.slice w.text).takeWhile isLayout).length, ?_⟩
  obtain ⟨C, T⟩ := w
  change body.stop ≤ C.length at hstop
  have hplace : body.start + ((body.slice (⟨C, T⟩ : Work).text).takeWhile isLayout).length ≤ C.length := by omega
  rw [wrap, Item.mark_eq hplace, Item.mark_eq hstop, List.append_assoc]
  rfl

theorem length_tokens_foldl {bodies : List Span} (h : ∀ b ∈ bodies, b.Within 0 w.size) :
    (bodies.foldl wrap w).tokens.length = w.tokens.length + 2 * bodies.length := by
  induction bodies generalizing w with
  | nil => rfl
  | cons b bodies ih =>
    obtain ⟨hb, hbodies⟩ := List.forall_mem_cons.1 h
    obtain ⟨p, hwrap⟩ := exists_wrap hb
    have hsize : (wrap w b).size = w.size := by
      rw [hwrap]
      rfl
    have hcount : (wrap w b).tokens.length = w.tokens.length + 2 := by
      rw [hwrap, List.length_append]
      rfl
    rw [List.foldl_cons, ih (by rwa [hsize]), hcount, List.length_cons]
    omega

/-- Markers are recorded if and only if a body is found. -/
theorem tokens_apply_eq_iff : (apply w).tokens = w.tokens ↔ bodies w.text = [] := by
  have hlength : (apply w).tokens.length = w.tokens.length + 2 * (bodies w.text).length :=
    length_tokens_foldl fun b hb => by
      rw [WorkingCopy.size_eq_length_text]
      exact within_of_mem_bodies hb
  constructor
  · intro heq
    rw [heq] at hlength
    exact List.eq_nil_of_length_eq_zero (by omega)
  · intro hnil
    rw [apply, hnil, List.foldl_nil]

/-! ## Where bodies are looked for -/

/-- A search that is led by words, and by beginnings of words, finds something at these only. -/
theorem standsAt_or_startsAt_of_hitOf (ws hs : List String)
    (hled : f.pattern.led ⟨ws.map String.toList, hs.map String.toList, [], [], false⟩ false false = true)
    (hsolid : f.pattern.solid = true) (h : f.hitOf accept s i = some hit) :
    (∃ w ∈ ws, StandsAt w.toList s i) ∨ ∃ w ∈ hs, StartsAt w.toList s i := by
  cases Finder.at_of_hitOf hled hsolid h with
  | word v hv _ hstands =>
    obtain ⟨w, hw, rfl⟩ := List.mem_map.1 hv
    exact Or.inl ⟨w, hw, hstands⟩
  | head v hv _ hstarts =>
    obtain ⟨w, hw, rfl⟩ := List.mem_map.1 hv
    exact Or.inr ⟨w, hw, hstarts⟩
  | sign c hc =>
    rcases hc with hc | ⟨hc, -⟩
    · exact absurd hc List.not_mem_nil
    · exact Bool.noConfusion hc

theorem startsAt_else (h : (reader elseBody).hitOf accept s i = some hit) : StartsAt "else".toList s i := by
  simpa using standsAt_or_startsAt_of_hitOf [] ["else"] (by decide) (by decide) h

theorem standsAt_do (h : (reader doBody).hitOf accept s i = some hit) : StandsAt "do".toList s i := by
  simpa using standsAt_or_startsAt_of_hitOf ["do"] [] (by decide) (by decide) h

theorem standsAt_for (h : (reader forHeader).hitOf accept s i = some hit) : StandsAt "for".toList s i := by
  simpa using standsAt_or_startsAt_of_hitOf ["for"] [] (by decide) (by decide) h

theorem standsAt_headed (h : (reader (word headed)).hitOf accept s i = some hit) : ∃ w ∈ headed, StandsAt w.toList s i := by
  simpa using standsAt_or_startsAt_of_hitOf headed [] (by decide) (by decide) h

theorem readings_eq_nil {p : Pattern} (h : ∀ i hit, (reader p).hitOf (fun _ => true) s i ≠ some hit) : p.readings s = [] :=
  List.eq_nil_iff_forall_not_mem.2 fun hit hmem => h _ hit (Finder.hitOf_of_mem (f := reader p) hmem)

/-- Bodies behind an `else` are looked for wherever a word begins with it. Where none of them is found, nor one behind a
`do`, only headers are left. -/
theorem bodies_eq_headedBodies (helse : ∀ i, ¬ StartsAt "else".toList s i) (hdo : doBody.readings s = []) :
    bodies s = headedBodies (withoutHeaders s) := by
  rw [bodies, readings_eq_nil fun i _ h => helse i (startsAt_else h), hdo]
  rfl

theorem withoutHeaders_eq (h : forHeader.readings s = []) : withoutHeaders s = s := by
  rw [withoutHeaders, h]
  rfl

theorem headedBodies_eq_nil (h : ∀ i, ∀ w ∈ headed, StandsAt w.toList s i → headedBody.readStart (s.drop i) = none) :
    headedBodies s = [] := by
  refine List.filterMap_eq_nil_iff.2 fun hit hmem => ?_
  obtain ⟨w, hw, hstands⟩ := standsAt_headed (Finder.hitOf_of_mem (f := reader (word headed)) hmem)
  rw [h _ w hw hstands]
  rfl

/-! ## Parts of statements -/

/-- The words that a body stands behind, or the condition that follows one. -/
def leaders : List String := ["if", "else", "for", "while", "do"]

theorem isWord_leaders : ∀ w ∈ leaders, IsWord w.toList :=
  (by decide : ∀ w ∈ leaders, w.toList ≠ [] ∧ ∀ c ∈ w.toList, isAsciiWord c = true)

instance (u : List Char) : Decidable (Without leaders u) :=
  decidable_of_iff _ (Text.without_iff fun w hw => (isWord_leaders w hw).1).symm

/-- Which bracket a character is, if it is a parenthesis. -/
def paren? (c : Char) : Option Bracket :=
  if c = '(' then some .opening else if c = ')' then some .closing else none

/-- Characters between two tokens. -/
structure Gap where
  chars : List Char
  layout : ∀ c ∈ chars, isLayout c = true

/-- What stands between the parentheses of a header, or between two semicolons there. -/
structure Guard where
  chars : List Char
  ne_nil : chars ≠ []
  nested : Nested paren? chars
  plain : Plain chars
  without : Without leaders chars

/-- What stands between the braces of a block. -/
structure Block where
  chars : List Char
  without : Without leaders chars

theorem not_isWord_of_isLayout {c : Char} (h : isLayout c = true) : Text.isWord c = false ∧ isAsciiWord c = false := by
  simp only [isLayout, Bool.or_eq_true, beq_iff_eq] at h
  rcases h with (((rfl | rfl) | rfl) | rfl) | rfl <;> decide

theorem Gap.wordless (g : Gap) : ∀ c ∈ g.chars, isAsciiWord c = false := fun c hc => (not_isWord_of_isLayout (g.layout c hc)).2

theorem Gap.blank (g : Gap) : ∀ c ∈ g.chars, isBlank c = true := fun c hc => Text.isBlank_of_isLayout (g.layout c hc)

theorem Gap.plain (g : Gap) : Plain g.chars := fun c hc => plain_of_isBlank (g.blank c hc)

theorem Gap.head?_append (g : Gap) (hv : v.head?.any isAsciiWord = false) : (g.chars ++ v).head?.any isAsciiWord = false := by
  cases hg : g.chars with
  | nil => exact hv
  | cons c cs => exact g.wordless c (by rw [hg]; exact List.mem_cons_self)

namespace Guard
variable (c : Guard)

theorem close_mem (h : ¬ ∀ a ∈ c.chars, paren? a = none) : ')' ∈ c.chars := by
  have hside : ∀ {a : Char}, paren? a = some .closing → a = ')' := by
    intro a ha
    by_contra hne
    rw [paren?, if_neg hne] at ha
    split_ifs at ha
    exact Bracket.noConfusion (Option.some.inj ha)
  have htotal := c.nested.total
  by_contra hmem
  have hclosing : c.chars.countP (paren? · = some .closing) = 0 :=
    List.countP_eq_zero.2 fun a ha hclose => hmem (hside (of_decide_eq_true hclose) ▸ ha)
  rw [hclosing] at htotal
  have hopening := List.countP_eq_zero.1 htotal.symm
  refine h fun a ha => ?_
  cases hparen : paren? a with
  | none => rfl
  | some b =>
    cases b with
    | opening => exact absurd (decide_eq_true hparen) (hopening a ha)
    | closing => exact absurd (hside hparen ▸ ha) hmem

/-- What stands before the first parenthesis that closes is not empty. -/
theorem ne_nil_of_split (h : c.chars = u ++ ')' :: v) : u ≠ [] := by
  rintro rfl
  have hle := c.nested.prefixes [')'] ⟨v, h.symm⟩
  exact absurd hle (by decide)

/-- A condition with the parenthesis behind it, split at the first that closes. -/
theorem exists_close : ∃ u t, c.chars ++ [')'] = u ++ ')' :: t ∧ ')' ∉ u ∧ Plain u ∧ Plain t ∧ Without leaders t := by
  obtain ⟨u, t, hsplit, hu⟩ : ∃ u t, c.chars ++ [')'] = u ++ ')' :: t ∧ ')' ∉ u :=
    List.eq_append_cons_of_mem (List.mem_append_right _ List.mem_cons_self)
  have hplain : Plain (u ++ ')' :: t) := hsplit ▸ c.plain.append (by decide)
  have hboth : Without leaders ((u ++ [')']) ++ t) := by
    rw [List.append_assoc, List.singleton_append, ← hsplit]
    exact c.without.append_cons isWord_leaders (by decide) (Text.without_nil isWord_leaders)
  refine ⟨u, t, hsplit, hu, fun a ha => ?_, fun a ha => ?_, hboth.of_append (by rw [List.getLast?_concat]; rfl)⟩
  · exact hplain a (List.mem_append_left _ ha)
  · exact hplain a (List.mem_append_right _ (List.mem_cons_of_mem _ ha))

end Guard

/-! ## Statements -/

/-- A statement whose body is a block. -/
inductive Braced where
  | ifThen (g : Gap) (c : Guard) (g' : Gap) (b : Block)
  | whileDo (g : Gap) (c : Guard) (g' : Gap) (b : Block)
  | forDo (g : Gap) (c₁ c₂ c₃ : Guard) (g' : Gap) (b : Block)
  | doWhile (g : Gap) (b : Block) (g' g'' : Gap) (c : Guard)

/-- A block behind a header, without the word of the header. -/
def guarded (g : Gap) (inner : List Char) (g' : Gap) (b : Block) : List Char :=
  g.chars ++ '(' :: (inner ++ ')' :: (g'.chars ++ '\x7b' :: (b.chars ++ ['\x7d'])))

/-- A `do` with its block. -/
def doBlock (g : Gap) (b : Block) (g' : Gap) : List Char :=
  "do".toList ++ (g.chars ++ '\x7b' :: (b.chars ++ '\x7d' :: g'.chars))

/-- The condition behind the block of a `do`, without its word. -/
def doTail (g : Gap) (c : Guard) : List Char := g.chars ++ '(' :: (c.chars ++ [')', ';'])

/-- The text of a statement. -/
def Braced.text : Braced → List Char
  | ifThen g c g' b => "if".toList ++ guarded g c.chars g' b
  | whileDo g c g' b => "while".toList ++ guarded g c.chars g' b
  | forDo g c₁ c₂ c₃ g' b => "for".toList ++ guarded g (c₁.chars ++ ';' :: (c₂.chars ++ ';' :: c₃.chars)) g' b
  | doWhile g b g' g'' c => doBlock g b g' ++ ("while".toList ++ doTail g'' c)

/-- The condition behind the body of a `do` has no parentheses. -/
def Braced.Flat : Braced → Prop
  | doWhile _ _ _ _ c => ∀ a ∈ c.chars, paren? a = none
  | _ => True

/-! ## The words of a statement -/

theorem without_block (g : Gap) (b : Block) : Without leaders (g.chars ++ '\x7b' :: (b.chars ++ ['\x7d'])) := by
  have hclose : Without leaders ['\x7d'] := Text.without_of_wordless isWord_leaders (by decide)
  have hblock : Without leaders (b.chars ++ ['\x7d']) := b.without.append isWord_leaders hclose (Or.inr (by decide))
  exact (hblock.cons isWord_leaders (by decide)).append_of_wordless isWord_leaders g.wordless

theorem without_guarded {inner : List Char} (h : Without leaders inner) (g g' : Gap) (b : Block) :
    Without leaders (guarded g inner g' b) := by
  have hinner := h.append_cons isWord_leaders (by decide : isAsciiWord ')' = false) (without_block g' b)
  exact (hinner.cons isWord_leaders (by decide)).append_of_wordless isWord_leaders g.wordless

theorem head?_guarded (g : Gap) (inner : List Char) (g' : Gap) (b : Block) :
    (guarded g inner g' b).head?.any isAsciiWord = false := g.head?_append rfl

/-- The only leader of a text that starts with one and goes on without. -/
theorem eq_of_standsAt {k x : String} (hk : k ∈ leaders) (hx : x ∈ leaders) (hv : Without leaders v)
    (hhead : v.head?.any isAsciiWord = false) (h : StandsAt x.toList (k.toList ++ v) i) : i = 0 ∧ x = k := by
  rcases Text.standsAt_word_append (isWord_leaders k hk) (isWord_leaders x hx) hhead h with ⟨hi, heq⟩ | ⟨j, -, hstands⟩
  · exact ⟨hi, String.toList_inj.1 heq⟩
  · exact absurd hstands (hv x hx j)

theorem mem_leaders_of_headed {x : String} (hx : x ∈ headed) : x ∈ leaders :=
  (by decide : ∀ x ∈ headed, x ∈ leaders) x hx

/-- Behind the one header of a text, a brace comes before any semicolon. -/
theorem headedBodies_of_brace {k : String} (hk : k ∈ leaders) (hv : Without leaders v) (hhead : v.head?.any isAsciiWord = false)
    {x y : List Char} (hsplit : k.toList ++ v = x ++ '\x7b' :: y) (hx : Plain x) : headedBodies (k.toList ++ v) = [] := by
  refine headedBodies_eq_nil fun i kw hkw hstands => ?_
  obtain ⟨rfl, -⟩ := eq_of_standsAt hk (mem_leaders_of_headed hkw) hv hhead hstands
  rw [List.drop_zero, hsplit]
  exact headedBody_eq_none_of_brace hx

namespace Braced

/-- An `if` or a `while` with a block for its body. -/
theorem bodies_guarded {k : String} (hk : k = "if" ∨ k = "while") (g : Gap) (c : Guard) (g' : Gap) (b : Block)
    (helse : ∀ i, ¬ StartsAt "else".toList (k.toList ++ guarded g c.chars g' b) i) :
    bodies (k.toList ++ guarded g c.chars g' b) = [] := by
  have hleader : k ∈ leaders ∧ k ≠ "do" ∧ k ≠ "for" ∧ Plain k.toList := by
    rcases hk with rfl | rfl <;> decide
  obtain ⟨hmem, hdo, hfor, hplain⟩ := hleader
  have hwithout := without_guarded c.without g g' b
  have hhead := head?_guarded g c.chars g' b
  have hnone : ∀ x ∈ leaders, x ≠ k → ∀ i, ¬ StandsAt x.toList (k.toList ++ guarded g c.chars g' b) i :=
    fun x hx hne i h => hne (eq_of_standsAt hmem hx hwithout hhead h).2
  have hdoBody : doBody.readings (k.toList ++ guarded g c.chars g' b) = [] :=
    readings_eq_nil fun i _ h => hnone "do" (by decide) hdo.symm i (standsAt_do h)
  have hforHeader : forHeader.readings (k.toList ++ guarded g c.chars g' b) = [] :=
    readings_eq_nil fun i _ h => hnone "for" (by decide) hfor.symm i (standsAt_for h)
  rw [bodies_eq_headedBodies helse hdoBody, withoutHeaders_eq hforHeader]
  have hsplit : k.toList ++ guarded g c.chars g' b =
      (k.toList ++ (g.chars ++ '(' :: (c.chars ++ ')' :: g'.chars))) ++ '\x7b' :: (b.chars ++ ['\x7d']) := by simp [guarded]
  refine headedBodies_of_brace hmem hwithout hhead hsplit (hplain.append (g.plain.append (.cons (by decide) ?_)))
  exact c.plain.append (.cons (by decide) g'.plain)

/-! ## Loops with three conditions -/

section ForDo
variable (g : Gap) (c₁ c₂ c₃ : Guard) (g' : Gap) (b : Block)

theorem eq_of_standsAt_forDo {x : String} (hx : x ∈ leaders) (h : StandsAt x.toList (forDo g c₁ c₂ c₃ g' b).text i) :
    i = 0 ∧ x = "for" := by
  have hinner : Without leaders (c₁.chars ++ ';' :: (c₂.chars ++ ';' :: c₃.chars)) :=
    c₁.without.append_cons isWord_leaders (by decide) (c₂.without.append_cons isWord_leaders (by decide) c₃.without)
  exact eq_of_standsAt (by decide) hx (without_guarded hinner g g' b) (head?_guarded g _ g' b) h

/-- The header is hidden up to the first parenthesis that closes behind the second semicolon, and with it both semicolons. -/
theorem exists_withoutHeaders : ∃ dots t, (∀ a ∈ dots, a = '.') ∧ Plain t ∧ Without leaders t ∧
    withoutHeaders (forDo g c₁ c₂ c₃ g' b).text =
      "for".toList ++ (g.chars ++ '(' :: (dots ++ ')' :: (t ++ (g'.chars ++ '\x7b' :: (b.chars ++ ['\x7d']))))) := by
  obtain ⟨u, t, hsplit, hu, huplain, htplain, ht⟩ := c₃.exists_close
  -- the header up to its parenthesis, what is hidden in it, and what comes behind
  let xs : List Char := "for".toList ++ (g.chars ++ ['('])
  let ys : List Char := c₁.chars ++ ';' :: (c₂.chars ++ ';' :: u)
  let zs : List Char := ')' :: (t ++ (g'.chars ++ '\x7b' :: (b.chars ++ ['\x7d'])))
  have hbehind : c₃.chars ++ ')' :: (g'.chars ++ '\x7b' :: (b.chars ++ ['\x7d'])) = u ++ zs := by
    rw [List.append_cons, hsplit, List.append_assoc]
    rfl
  have htext : (forDo g c₁ c₂ c₃ g' b).text = xs ++ (ys ++ zs) := by
    simp only [Braced.text, guarded, List.append_assoc, List.cons_append, hbehind, xs, ys, List.nil_append]
  have hdrop : (forDo g c₁ c₂ c₃ g' b).text.drop 0 = "for".toList ++ (g.chars ++ '(' :: (c₁.chars ++ ';' :: (c₂.chars ++ ';' ::
      (u ++ ')' :: (t ++ (g'.chars ++ '\x7b' :: (b.chars ++ ['\x7d']))))))) := by
    rw [htext]
    simp [xs, ys, zs]
  obtain ⟨h, hhit, htoken, -⟩ := hitOf_forHeader hdrop rfl g.blank c₁.plain c₂.plain huplain hu
  have hreadings : forHeader.readings (forDo g c₁ c₂ c₃ g' b).text = [h] := by
    refine Finder.hitsWhere_eq_singleton hhit ?_ fun i hi => Option.eq_none_iff_forall_ne_some.2 fun hit hhit => hi ?_
    · simp [htext, xs]
    · exact (eq_of_standsAt_forDo g c₁ c₂ c₃ g' b (by decide : "for" ∈ leaders) (standsAt_for hhit)).1
  have hxs : 0 + 3 + g.chars.length + 1 = xs.length := by
    simp [xs]
    omega
  rw [hxs] at htoken
  refine ⟨ys.map fun _ => '.', t, fun a ha => ?_, htplain, ht, ?_⟩
  · obtain ⟨-, -, rfl⟩ := List.mem_map.1 ha
    rfl
  · rw [withoutHeaders, hreadings, List.map_singleton, List.foldl_cons, List.foldl_nil, htoken, hide, htext]
    change WorkingCopy.mapSpan (fun _ => '.') ⟨xs.length, xs.length + ys.length⟩ (xs ++ (ys ++ zs)) = _
    rw [WorkingCopy.mapSpan_of_length]
    simp [xs, zs]

/-- A `for` with a block for its body. No semicolon is left in front of the block. -/
theorem bodies_forDo (helse : ∀ i, ¬ StartsAt "else".toList (forDo g c₁ c₂ c₃ g' b).text i) :
    bodies (forDo g c₁ c₂ c₃ g' b).text = [] := by
  have hdo : doBody.readings (forDo g c₁ c₂ c₃ g' b).text = [] := readings_eq_nil fun i _ h =>
    absurd (eq_of_standsAt_forDo g c₁ c₂ c₃ g' b (by decide : "do" ∈ leaders) (standsAt_do h)).2 (by decide)
  obtain ⟨dots, t, hdots, htplain, ht, hhidden⟩ := exists_withoutHeaders g c₁ c₂ c₃ g' b
  rw [bodies_eq_headedBodies helse hdo, hhidden]
  have hblock : Without leaders (t ++ (g'.chars ++ '\x7b' :: (b.chars ++ ['\x7d']))) :=
    ht.append isWord_leaders (without_block g' b) (Or.inr (g'.head?_append rfl))
  refine headedBodies_of_brace (x := "for".toList ++ (g.chars ++ '(' :: (dots ++ ')' :: (t ++ g'.chars))))
    (y := b.chars ++ ['\x7d']) (by decide) ?_ (g.head?_append rfl) (by simp) ?_
  · have hrest := (hblock.cons isWord_leaders (by decide : isAsciiWord ')' = false)).append_of_wordless isWord_leaders (g := dots)
      fun a ha => by rw [hdots a ha]; decide
    exact (hrest.cons isWord_leaders (by decide)).append_of_wordless isWord_leaders g.wordless
  · have hrest : Plain (dots ++ ')' :: (t ++ g'.chars)) :=
      Plain.append (fun a ha => by rw [hdots a ha]; decide) (.cons (by decide) (htplain.append g'.plain))
    exact Plain.append (by decide) (g.plain.append (hrest.cons (by decide)))

end ForDo

/-! ## Loops with the condition behind the block -/

section DoWhile
variable (g : Gap) (b : Block) (g' g'' : Gap) (c : Guard)

theorem getLast?_doBlock : (doBlock g b g').getLast?.any Text.isWord = false ∧ (doBlock g b g').getLast?.any isAsciiWord = false := by
  have hlast : ∀ a ∈ '\x7d' :: g'.chars, Text.isWord a = false ∧ isAsciiWord a = false :=
    List.forall_mem_cons.2 ⟨by decide, fun a ha => not_isWord_of_isLayout (g'.layout a ha)⟩
  have hsplit : doBlock g b g' = ("do".toList ++ (g.chars ++ '\x7b' :: b.chars)) ++ '\x7d' :: g'.chars := by simp [doBlock]
  rw [hsplit, List.getLast?_append_of_ne_nil _ (List.cons_ne_nil _ _)]
  cases ha : ('\x7d' :: g'.chars).getLast? with
  | none => exact ⟨rfl, rfl⟩
  | some a => exact hlast a (List.mem_of_getLast? ha)

theorem without_doTail : Without leaders (doTail g'' c) := by
  have hend : Without leaders [')', ';'] := Text.without_of_wordless isWord_leaders (by decide)
  have hcondition := c.without.append isWord_leaders hend (Or.inr (by decide))
  exact (hcondition.cons isWord_leaders (by decide)).append_of_wordless isWord_leaders g''.wordless

theorem head?_doTail : (doTail g'' c).head?.any isAsciiWord = false ∧ (doTail g'' c).head?.any Text.isWord = false := by
  unfold doTail
  cases hg : g''.chars with
  | nil => exact ⟨rfl, rfl⟩
  | cons a as => exact (not_isWord_of_isLayout (g''.layout a (by rw [hg]; exact List.mem_cons_self))).symm

/-- The words of a `do` and of the condition behind its block are the only leaders. -/
theorem eq_of_standsAt_doWhile {x : String} (hx : x ∈ leaders) (h : StandsAt x.toList (doWhile g b g' g'' c).text i) :
    i = 0 ∧ x = "do" ∨ i = (doBlock g b g').length ∧ x = "while" := by
  rcases h.append_cases (isWord_leaders x hx) (Text.inside_append (Or.inl (getLast?_doBlock g b g').2)) with hfront | ⟨j, rfl, hbehind⟩
  · have hblock : Without leaders (g.chars ++ '\x7b' :: (b.chars ++ '\x7d' :: g'.chars)) := by
      have hgap : Without leaders g'.chars := Text.without_of_wordless isWord_leaders g'.wordless
      have hbraces := b.without.append_cons isWord_leaders (by decide : isAsciiWord '\x7d' = false) hgap
      exact (hbraces.cons isWord_leaders (by decide)).append_of_wordless isWord_leaders g.wordless
    exact Or.inl (eq_of_standsAt (by decide) hx hblock (g.head?_append rfl) hfront)
  · obtain ⟨rfl, rfl⟩ := eq_of_standsAt (by decide) hx (without_doTail g'' c) (head?_doTail g'' c).1 hbehind
    exact Or.inr ⟨rfl, rfl⟩

theorem drop_doWhile : (doWhile g b g' g'' c).text.drop (doBlock g b g').length = "while".toList ++ doTail g'' c := List.drop_left

/-- The bodies of the statement are those behind the condition. -/
theorem bodies_doWhile (helse : ∀ i, ¬ StartsAt "else".toList (doWhile g b g' g'' c).text i) :
    bodies (doWhile g b g' g'' c).text = headedBodies (doWhile g b g' g'' c).text := by
  have hdo : doBody.readings (doWhile g b g' g'' c).text = [] := readings_eq_nil fun i _ h => by
    rcases eq_of_standsAt_doWhile g b g' g'' c (by decide : "do" ∈ leaders) (standsAt_do h) with ⟨rfl, -⟩ | ⟨-, hne⟩
    · have hdrop : (doWhile g b g' g'' c).text.drop 0 = "do".toList ++ (g.chars ++ '\x7b' :: (b.chars ++ '\x7d' ::
          (g'.chars ++ ("while".toList ++ doTail g'' c)))) := by simp [Braced.text, doBlock]
      rw [doBody_eq_none hdrop g.plain] at h
      exact nomatch h
    · exact absurd hne (by decide)
  have hfor : forHeader.readings (doWhile g b g' g'' c).text = [] := readings_eq_nil fun i _ h =>
    (eq_of_standsAt_doWhile g b g' g'' c (by decide : "for" ∈ leaders) (standsAt_for h)).elim
      (fun hplace => absurd hplace.2 (by decide)) fun hplace => absurd hplace.2 (by decide)
  rw [bodies_eq_headedBodies helse hdo, withoutHeaders_eq hfor]

/-- A condition without parentheses closes directly before the semicolon. -/
theorem headedBodies_of_flat (h : ∀ a ∈ c.chars, paren? a = none) : headedBodies (doWhile g b g' g'' c).text = [] := by
  refine headedBodies_eq_nil fun i kw hkw hstands => ?_
  rcases eq_of_standsAt_doWhile g b g' g'' c (mem_leaders_of_headed hkw) hstands with ⟨-, rfl⟩ | ⟨rfl, -⟩
  · exact absurd hkw (by decide)
  · have hsplit : "while".toList ++ doTail g'' c = ("while".toList ++ (g''.chars ++ '(' :: c.chars)) ++ ')' :: ';' :: [] := by
      simp [doTail]
    have hnot : ')' ∉ "while".toList ++ (g''.chars ++ '(' :: c.chars) := by
      have hcondition : ')' ∉ c.chars := fun hmem => absurd (h ')' hmem) (by decide)
      have hgap : ')' ∉ g''.chars := fun hmem => absurd (g''.layout ')' hmem) (by decide)
      simp [hcondition, hgap]
    rw [drop_doWhile, hsplit]
    exact headedBody_eq_none_of_closes hnot

/-- What stands behind the first parenthesis that closes is read for a body. -/
theorem isSome_headedBody (h : ')' ∈ c.chars) : (headedBody.readStart ("while".toList ++ doTail g'' c)).isSome = true := by
  obtain ⟨u, v, hsplit, -⟩ := List.eq_append_cons_of_mem h
  have hplain : Plain (u ++ ')' :: v) := hsplit ▸ c.plain
  obtain ⟨a, u, rfl⟩ := List.exists_cons_of_ne_nil (c.ne_nil_of_split hsplit)
  obtain ⟨ha, hrest⟩ := List.forall_mem_cons.1 hplain
  have hu : Plain u := fun e he => hrest e (List.mem_append_left _ he)
  have hv : Plain v := fun e he => hrest e (List.mem_append_right _ (List.mem_cons_of_mem _ he))
  obtain ⟨x, xs, hx⟩ := List.exists_cons_of_ne_nil (List.append_ne_nil_of_right_ne_nil v (List.cons_ne_nil ')' []))
  have hxplain : Plain (x :: xs) := hx ▸ hv.append (by decide)
  obtain ⟨hxhead, hxtail⟩ := List.forall_mem_cons.1 hxplain
  have htail : doTail g'' c = g''.chars ++ '(' :: (a :: u ++ ')' :: (x :: xs ++ [';'])) := by
    rw [← hx, doTail, hsplit]
    simp
  have hreads : ∃ d, headedBody.Reads ⟨0, none, "while".toList ++ doTail g'' c, []⟩ d := by
    rw [htail]
    exact ⟨_, _, Or.inl (reads_chars_past (u := "while".toList) rfl), _,
      reads_many_past (u := g''.chars) rfl fun e he => holds_blank.trans (g''.blank e he), _, reads_chars_past (u := "(".toList) rfl, _,
      ⟨_, reads_one_past rfl ha, reads_few_past (u := u) rfl hu⟩, _, reads_chars_past (u := ")".toList) rfl, _, .refl, _,
      ⟨_, ⟨_, reads_one_past rfl hxhead, reads_many_past (u := xs) rfl hxtail⟩, reads_chars_past (u := ";".toList) rfl⟩, rfl⟩
  obtain ⟨d, hd⟩ := hreads
  rw [Pattern.readStart, Option.isSome_map]
  exact isSome_run_of_reads (by decide) hd rfl

theorem headedBodies_ne_nil (h : ')' ∈ c.chars) : headedBodies (doWhile g b g' g'' c).text ≠ [] := by
  have hedge : (start (doWhile g b g' g'' c).text (doBlock g b g').length).atWordEdge = true := by
    have hbefore := (getLast?_doBlock g b g').1
    change ((Text.charBefore (doBlock g b g' ++ ("while".toList ++ doTail g'' c)) (doBlock g b g').length).any Text.isWord !=
      ((doWhile g b g' g'' c).text.drop (doBlock g b g').length).head?.any Text.isWord) = true
    rw [Text.charBefore_append, hbefore, drop_doWhile]
    rfl
  have hhit := hitOf_headed (by decide) (drop_doWhile g b g' g'' c) hedge (head?_doTail g'' c).2
  have hreadings : (word headed).readings (doWhile g b g' g'' c).text =
      [⟨⟨(doBlock g b g').length, (doBlock g b g').length + "while".toList.length⟩, []⟩] := by
    refine Finder.hitsWhere_eq_singleton hhit ?_ fun i hi => ?_
    · simp [Braced.text]
    · refine Option.eq_none_iff_forall_ne_some.2 fun hit hhit => ?_
      obtain ⟨kw, hkw, hstands⟩ := standsAt_headed hhit
      rcases eq_of_standsAt_doWhile g b g' g'' c (mem_leaders_of_headed hkw) hstands with ⟨-, rfl⟩ | ⟨heq, -⟩
      · exact absurd hkw (by decide)
      · exact hi heq
  obtain ⟨body, hbody⟩ := Option.isSome_iff_exists.1 (isSome_headedBody g'' c h)
  rw [headedBodies, hreadings, List.filterMap_cons, drop_doWhile, hbody]
  exact List.cons_ne_nil _ _

end DoWhile

/-! ## The pass -/

/-- **Braced bodies.** In a text where no word begins with `else`, a statement whose body is a block gets no markers,
unless it is a `do` with a parenthesis in its condition: then it gets some. -/
theorem tokens_apply_eq_iff_flat (s : Braced) (htext : w.text = s.text) (helse : ∀ i, ¬ StartsAt "else".toList s.text i) :
    (apply w).tokens = w.tokens ↔ s.Flat := by
  rw [tokens_apply_eq_iff, htext]
  cases s with
  | ifThen g c g' b => exact iff_of_true (bodies_guarded (Or.inl rfl) g c g' b helse) trivial
  | whileDo g c g' b => exact iff_of_true (bodies_guarded (Or.inr rfl) g c g' b helse) trivial
  | forDo g c₁ c₂ c₃ g' b => exact iff_of_true (bodies_forDo g c₁ c₂ c₃ g' b helse) trivial
  | doWhile g b g' g'' c =>
    rw [bodies_doWhile g b g' g'' c helse]
    refine ⟨fun hnil => ?_, headedBodies_of_flat g b g' g'' c⟩
    by_contra hflat
    exact headedBodies_ne_nil g b g' g'' c (c.close_mem hflat) hnil

/-- Parentheses in the condition of a `while` do no harm. -/
theorem tokens_apply_eq_iff_flat_while :
    let gap : Gap := ⟨[' '], by decide⟩
    let s : Braced := .whileDo gap ⟨"f(g(x)) < 3".toList, by decide, by decide, by decide, by decide⟩ gap ⟨" x++; ".toList, by decide⟩
    let w : Work := .ofSource "while (f(g(x)) < 3) \x7b x++; \x7d".toList
    w.text = s.text ∧ (∀ i, ¬ StartsAt "else".toList s.text i) ∧ (apply w).tokens = w.tokens := by
  intro gap s w
  have htext : w.text = s.text := by decide
  have helse : ∀ i, ¬ StartsAt "else".toList s.text i := fun i h =>
    (by decide : ∀ i < s.text.length, ¬ StartsAt "else".toList s.text i) i (h.lt_length (by decide)) h
  exact ⟨htext, helse, (tokens_apply_eq_iff_flat s htext helse).2 trivial⟩

/-- The parenthesis behind the call closes the condition too early, so that a marker is set in front of the last one. -/
theorem tokens_apply_doWhile_call :
    let gap : Gap := ⟨[' '], by decide⟩
    let s : Braced := .doWhile gap ⟨" y = 1; ".toList, by decide⟩ gap gap ⟨"f(x)".toList, by decide, by decide, by decide, by decide⟩
    let w : Work := .ofSource "do \x7b y = 1; \x7d while (f(x));".toList
    w.text = s.text ∧ w.tokens = [] ∧ (apply w).tokens = [⟨.openBrace, 25, 25⟩, ⟨.closeBrace, 27, 27⟩] := by
  intro gap s w
  refine ⟨?_, ?_, ?_⟩
  all_goals decide +kernel

end Braced
end SourceLikeness.Tokenizer.BareBody
