import SourceLikeness.Text.Blank
import Mathlib.Data.List.Basic

/-!
# The words of a text

`collapse` leaves the words of a text with one space between two of them. It looks at single characters and does not cut
the text.

* `words_cons` : a character in front of a text joins its first word, or is a word of its own;
* `areWords_words`, `words_join` : the words of a text, and the text that is put together from some words;
* `join_words` : the words of a text with a space between two of them are the collapsed text;
* `collapse_eq_collapse_iff` : two texts have the same words exactly if they collapse to the same text.
-/

namespace SourceLikeness.Text
variable {text rest u : List Char} {ws : List (List Char)} {c : Char}

/-! ## A character in front of a text -/

theorem words_cons_blank (hc : isBlank c = true) (rest : List Char) : words (c :: rest) = words rest := by
  rw [words, pieces, if_pos hc, List.filter_cons_of_neg (by simp), words]

/-- The first piece is empty if the text starts with a separator, or if there is no text. -/
theorem exists_pieces (separates : Char → Bool) (text : List Char) :
    ∃ first others, pieces separates text = first :: others ∧ (first = [] ↔ text.head?.all separates = true) := by
  induction text with
  | nil => exact ⟨[], [], rfl, by simp⟩
  | cons c text ih =>
    obtain ⟨first, others, heq, -⟩ := ih
    rw [pieces, heq]
    by_cases hc : separates c = true
    · exact ⟨[], first :: others, if_pos hc, by simp [hc]⟩
    · exact ⟨c :: first, others, if_neg hc, by simp [hc]⟩

theorem words_cons (hc : isBlank c = false) (rest : List Char) :
    words (c :: rest) = if rest.head?.all isBlank then [c] :: words rest else joinFirst c (words rest) := by
  obtain ⟨first, others, heq, hfirst⟩ := exists_pieces isBlank rest
  have hcons : words (c :: rest) = (c :: first) :: others.filter (· ≠ []) := by
    rw [words, pieces, if_neg (by simp [hc]), heq, joinFirst, List.filter_cons_of_pos (by simp)]
  rw [hcons, words, heq]
  split
  case isTrue h =>
    obtain rfl := hfirst.2 h
    rw [List.filter_cons_of_neg (by simp)]
  case isFalse h =>
    rw [List.filter_cons_of_pos (by simpa using mt hfirst.1 h), joinFirst]

theorem words_cons_ne_nil (hc : isBlank c = false) (rest : List Char) : words (c :: rest) ≠ [] := by
  rw [words_cons hc]
  split
  · exact List.cons_ne_nil _ _
  · cases words rest <;> exact List.cons_ne_nil _ _

theorem words_eq_nil_iff : words text = [] ↔ ∀ c ∈ text, isBlank c = true := by
  induction text with
  | nil => exact iff_of_true rfl (List.forall_mem_nil _)
  | cons c text ih =>
    rw [List.forall_mem_cons]
    cases hc : isBlank c with
    | true => rw [words_cons_blank hc, ih, and_iff_right rfl]
    | false => exact iff_of_false (words_cons_ne_nil hc text) fun h => nomatch h.1

/-! ## Words put together -/

/-- The texts are words: there is a character in each of them, and no blank. -/
def AreWords (ws : List (List Char)) : Prop := ∀ w ∈ ws, w ≠ [] ∧ ∀ c ∈ w, isBlank c = false

theorem areWords_words (text : List Char) : AreWords (words text) := by
  induction text with
  | nil => exact List.forall_mem_nil _
  | cons c text ih =>
    cases hc : isBlank c with
    | true =>
      rw [words_cons_blank hc]
      exact ih
    | false =>
      have hsingle : [c] ≠ [] ∧ ∀ d ∈ [c], isBlank d = false := ⟨List.cons_ne_nil c [], List.forall_mem_singleton.2 hc⟩
      rw [words_cons hc]
      split
      · exact List.forall_mem_cons.2 ⟨hsingle, ih⟩
      · cases hwords : words text with
        | nil => exact List.forall_mem_singleton.2 hsingle
        | cons w ws =>
          rw [hwords] at ih
          obtain ⟨hw, hws⟩ := List.forall_mem_cons.1 ih
          exact List.forall_mem_cons.2 ⟨⟨List.cons_ne_nil c w, List.forall_mem_cons.2 ⟨hc, hw.2⟩⟩, hws⟩

/-- A text without blanks joins the next text unless a blank follows. -/
theorem words_append (hne : u ≠ []) (hu : ∀ c ∈ u, isBlank c = false) (hrest : rest.head?.all isBlank = true) :
    words (u ++ rest) = u :: words rest := by
  induction u with
  | nil => exact absurd rfl hne
  | cons c u ih =>
    obtain ⟨hc, hu⟩ := List.forall_mem_cons.1 hu
    rw [List.cons_append, words_cons hc]
    cases u with
    | nil => exact if_pos hrest
    | cons d u =>
      rw [ih (List.cons_ne_nil d u) hu, if_neg (by simpa using hu d List.mem_cons_self), joinFirst]

theorem words_join (h : AreWords ws) : words ([' '].intercalate ws) = ws := by
  induction ws with
  | nil => rfl
  | cons w ws ih =>
    obtain ⟨⟨hne, hw⟩, hws⟩ := List.forall_mem_cons.1 h
    cases ws with
    | nil =>
      rw [List.intercalate_singleton, ← List.append_nil w, words_append hne hw rfl]
      simp [words, pieces]
    | cons v ws =>
      rw [List.intercalate_cons_cons, List.append_assoc, List.singleton_append, words_append hne hw rfl,
        words_cons_blank rfl, ih hws]

/-! ## Collapsed texts -/

/-- The text with one space for each run of blanks. -/
def squeeze : List Char → List Char
  | [] => []
  | c :: rest =>
    if isBlank c then if rest.head?.any isBlank then squeeze rest else ' ' :: squeeze rest
    else c :: squeeze rest

/-- The text without the blanks at its ends, and with one space for each run of blanks inside. -/
def collapse (text : List Char) : List Char := squeeze (trim text)

theorem words_append_blanks (hrest : ∀ c ∈ rest, isBlank c = true) (text : List Char) :
    words (text ++ rest) = words text := by
  induction text with
  | nil => exact words_eq_nil_iff.2 hrest
  | cons c text ih =>
    have hhead : (text ++ rest).head?.all isBlank = text.head?.all isBlank := by
      cases text with
      | nil =>
        cases rest with
        | nil => rfl
        | cons d rest => exact hrest d List.mem_cons_self
      | cons d text => rfl
    rw [List.cons_append]
    cases hc : isBlank c with
    | true => rw [words_cons_blank hc, words_cons_blank hc, ih]
    | false => rw [words_cons hc, words_cons hc, hhead, ih]

theorem words_trimStart (text : List Char) : words (trimStart text) = words text := by
  induction text with
  | nil => rfl
  | cons c text ih =>
    cases hc : isBlank c with
    | true => rw [trimStart, List.dropWhile_cons_of_pos hc, words_cons_blank hc, ← ih, trimStart]
    | false => rw [trimStart, List.dropWhile_cons_of_neg (by simp [hc])]

/-- Only blanks stand behind the text that is left. -/
theorem exists_trimEnd (text : List Char) :
    ∃ blanks, (∀ c ∈ blanks, isBlank c = true) ∧ trimEnd text ++ blanks = text := by
  refine ⟨(text.reverse.takeWhile isBlank).reverse, fun c hc => ?_, ?_⟩
  · exact List.all_eq_true.1 List.all_takeWhile c (List.mem_reverse.1 hc)
  · rw [trimEnd, trimStart, ← List.reverse_append, List.takeWhile_append_dropWhile, List.reverse_reverse]

theorem words_trim (text : List Char) : words (trim text) = words text := by
  obtain ⟨blanks, hblanks, htext⟩ := exists_trimEnd (trimStart text)
  rw [trim, ← words_append_blanks hblanks, htext, words_trimStart]

/-- No blank stands at the start of a trimmed text. -/
theorem head?_trim (text : List Char) : (trim text).head?.any isBlank = false := by
  obtain ⟨blanks, -, htext⟩ := exists_trimEnd (trimStart text)
  rw [trim]
  cases htrim : trimEnd (trimStart text) with
  | nil => rfl
  | cons c u =>
    rw [htrim] at htext
    have hhead := List.head?_dropWhile_not isBlank text
    rw [← trimStart, ← htext] at hhead
    simpa using hhead

/-- No blank stands at the end of a trimmed text. -/
theorem getLast?_trim (text : List Char) : (trim text).getLast?.any isBlank = false := by
  have hlast := List.head?_dropWhile_not isBlank (trimStart text).reverse
  rw [trim, trimEnd, List.getLast?_reverse, trimStart]
  cases hhead : ((trimStart text).reverse.dropWhile isBlank).head? with
  | none => rfl
  | some c => simpa [hhead] using hlast

theorem trim_eq_nil_iff : trim text = [] ↔ words text = [] := by
  rw [← words_trim]
  constructor
  · intro h
    rw [h]
    rfl
  · intro h
    have hhead := head?_trim text
    cases htrim : trim text with
    | nil => rfl
    | cons c u =>
      rw [htrim] at h hhead
      exact Bool.noConfusion (hhead.symm.trans (words_eq_nil_iff.1 h c List.mem_cons_self))

theorem intercalate_joinFirst (c : Char) (ws : List (List Char)) :
    [' '].intercalate (joinFirst c ws) = c :: [' '].intercalate ws := by
  match ws with
  | [] => rfl
  | [w] => rfl
  | w :: v :: ws => rw [joinFirst, List.intercalate_cons_cons, List.intercalate_cons_cons]; rfl

/-- Squeezing leaves the words, and a space in front of them if the text starts with a blank. -/
theorem squeeze_eq (hlast : text.getLast?.any isBlank = false) :
    squeeze text = (if text.head?.any isBlank then [' '] else []) ++ [' '].intercalate (words text) := by
  induction text with
  | nil => rfl
  | cons c text ih =>
    cases text with
    | nil =>
      have hc : isBlank c = false := hlast
      simp [squeeze, words, pieces, joinFirst, hc]
    | cons d text =>
      rw [List.getLast?_cons_cons] at hlast
      have hrest := ih hlast
      rw [squeeze, hrest]
      cases hc : isBlank c with
      | true =>
        rw [words_cons_blank hc]
        cases hd : isBlank d <;> simp [hc, hd]
      | false =>
        rw [words_cons hc]
        cases hd : isBlank d with
        | true =>
          -- The last character is not blank, so that a word follows.
          have hne : words (d :: text) ≠ [] := fun h => by
            have hblank := words_eq_nil_iff.1 h _ (List.getLast_mem (List.cons_ne_nil d text))
            rw [List.getLast?_eq_some_getLast (List.cons_ne_nil d text)] at hlast
            exact Bool.noConfusion (hlast.symm.trans hblank)
          simp [hc, hd, List.intercalate_cons_of_ne_nil hne]
        | false => simp [hc, hd, intercalate_joinFirst]

theorem join_words (text : List Char) : [' '].intercalate (words text) = collapse text := by
  rw [collapse, squeeze_eq (getLast?_trim text), head?_trim, words_trim]
  rfl

theorem words_collapse (text : List Char) : words (collapse text) = words text := by
  rw [← join_words, words_join (areWords_words text)]

theorem collapse_eq_collapse_iff : collapse text = collapse u ↔ words text = words u := by
  constructor
  · intro h
    rw [← words_collapse, h, words_collapse]
  · intro h
    rw [← join_words, h, join_words]

end SourceLikeness.Text
