import SourceLikeness.Proofs.Comment.Inert

/-!
# The text of a string says nothing

What stands between the first two double quotes of a source is overwritten by the first pass, before anything else
looks at it.

* `Literal.Plain`, `Literal.between` : a text that stands between double quotes as it is, and the source around it;
* `Literal.read_quoted` : in both dialects a literal is read from the first quote to the second;
* `Literal.hits_eq` : so it is the first hit of the search, which goes on behind it;
* `Literal.erase_eq` : two working copies that differ in the text only are equal without it;
* `Tokenizer.tokenize_quoted_eq` : the tokens.
-/

namespace SourceLikeness
open Pattern WorkingCopy Tokenizer

namespace Literal
open Comment (quoteSigns)

/-- A text that stands between double quotes as it is: it has no double quote, no escape and no newline. -/
def Plain (w : List Char) : Prop := ∀ c ∈ w, c ≠ '"' ∧ c ≠ '\\' ∧ c ≠ '\n'

instance (w : List Char) : Decidable (Plain w) := inferInstanceAs (Decidable (∀ c ∈ w, _))

/-- A text in double quotes, with what stands before and behind. -/
def between (u w v : List Char) : List Char := u ++ '"' :: (w ++ '"' :: v)

variable {d : Dialect} {u v w w' : List Char} {c : Cursor}

/-! ## Reading the literal -/

theorem run_doubleQuoted (hw : Plain w) (hrest : c.rest = '"' :: (w ++ '"' :: v)) :
    Inert.doubleQuoted.run c some = some (c.past ('"' :: (w ++ ['"'])) v) := by
  change (all [text "\"", many (alt (noneOf "\"\\\n") Shape.escape), text "\""]).run c some = _
  rw [run_all_cons, run_text (v := w ++ '"' :: v) hrest, run_all_cons]
  refine run_many_alt (u := w) (v := '"' :: v) rfl (fun a ha => ?_) rfl (fun e k' he => ?_) ?_
  · rw [holds_noneOf, Bool.not_eq_true', ← Bool.not_eq_true, List.contains_iff_mem]
    intro hmem
    obtain ⟨hquote, hescape, hnewline⟩ := hw a ha
    rcases List.mem_cons.1 hmem with rfl | hmem
    · exact hquote rfl
    · rcases List.mem_cons.1 hmem with rfl | hmem
      · exact hescape rfl
      · exact hnewline (List.mem_singleton.1 hmem)
  · rw [Shape.escape, run_all_cons]
    exact run_text_eq_none (b := '\\') (u := []) rfl (by rw [he]; exact fun heq => absurd (Option.some.inj heq) (by decide))
  · rw [all, run_text (v := v) rfl, Cursor.past_past, Cursor.past_past]
    rfl

/-- A literal is read from the first quote to the second. Three quotes in a row would be something else. -/
theorem read_quoted (hw : Plain w) (hne : w ≠ []) (hrest : c.rest = '"' :: (w ++ '"' :: v)) :
    d.literal.read c = some (c.past ('"' :: (w ++ ['"'])) v) := by
  have hread := run_doubleQuoted hw hrest
  cases d with
  | cFamily => exact run_any_of_some hread
  | python =>
    have htriple : (all [text "\"\"\"", few anyChar, text "\"\"\""]).run c some = none := by
      rw [run_all_cons]
      refine run_text_of_not_prefix fun hprefix => ?_
      obtain ⟨a, w, rfl⟩ := List.exists_cons_of_ne_nil hne
      rw [hrest] at hprefix
      have hsecond := (List.cons_prefix_cons.1 (List.cons_prefix_cons.1 hprefix).2).1
      exact (hw a List.mem_cons_self).1 hsecond.symm
    have hsingle : (all [text "'''", few anyChar, text "'''"]).run c some = none := by
      rw [run_all_cons]
      exact run_text_eq_none (b := '\'') rfl (by rw [hrest]; exact fun heq => absurd (Option.some.inj heq) (by decide))
    exact (run_any_of_none htriple).trans ((run_any_of_none hsingle).trans (run_any_of_some hread))

/-! ## Finding it -/

/-- The finder of the literals of a dialect. -/
abbrev finder (d : Dialect) : Finder := { pattern := d.literal }

theorem length_between (u w v : List Char) : (between u w v).length = u.length + (w.length + 2) + v.length := by
  simp only [between, List.length_append, List.length_cons]
  omega

theorem drop_between (u w v : List Char) : (between u w v).drop u.length = '"' :: (w ++ '"' :: v) := List.drop_left

/-- No literal starts where there are no quotes. -/
theorem length_le_start (hu : ∀ q ∈ quoteSigns, q ∉ u) {h : Hit} (hmem : h ∈ (finder d).hits (between u w v)) :
    u.length ≤ h.whole.start := by
  obtain ⟨q, hq, hchar⟩ := Comment.quote_of_hit hmem
  by_contra hlt
  rw [between, List.getElem?_append_left (Nat.lt_of_not_le hlt)] at hchar
  exact hu q hq (List.mem_of_getElem? hchar)

/-- The literal is the first hit, and the search goes on behind it. -/
theorem hits_eq (hu : ∀ q ∈ quoteSigns, q ∉ u) (hw : Plain w) (hne : w ≠ []) :
    (finder d).hits (between u w v) = ⟨⟨u.length, u.length + (w.length + 2)⟩, []⟩ ::
      (finder d).walk (fun _ => true) (between u w v) (u.length + 1) (u.length + (w.length + 2)) := by
  have hlt : u.length < (between u w v).length := by
    rw [length_between]
    omega
  have hhit : (finder d).hitOf (fun _ => true) (between u w v) u.length =
      some ⟨⟨u.length, u.length + (w.length + 2)⟩, []⟩ := by
    have hread : d.literal.read (Finder.start (between u w v) u.length) = some _ :=
      read_quoted hw hne (drop_between u w v)
    rw [Finder.hitOf_of_read rfl rfl rfl hread rfl, Cursor.offset_past, List.length_cons, List.length_append]
    rfl
  have hresume : ∀ h ∈ (finder d).hits (between u w v), h.whole.start < u.length → (finder d).resume h ≤ u.length :=
    fun h hmem hstart => absurd (length_le_start hu hmem) (Nat.not_le.2 hstart)
  obtain ⟨before, happend, hbefore⟩ :=
    Finder.walk_eq_append (Nat.zero_le _) (Nat.le_of_lt hlt) (Nat.zero_le _) hresume
  change (finder d).hits (between u w v) = _ at happend
  have hnone : before = [] := List.eq_nil_iff_forall_not_mem.2 fun h hmem =>
    absurd (length_le_start hu (happend ▸ List.mem_append_left _ hmem)) (Nat.not_le.2 (hbefore h hmem))
  rw [happend, hnone, List.nil_append, Finder.walk_of_lt hlt, if_neg (Nat.not_lt_zero _), hhit]
  rfl

theorem spares (hu : ∀ q ∈ quoteSigns, q ∉ u) (hw : Plain w) (hne : w ≠ []) :
    Spares (finder d) (u.length + (w.length + 2)) (u.length + (w.length + 2)) (between u w v) := by
  intro h hmem hlt
  rw [hits_eq hu hw hne] at hmem
  rcases List.mem_cons.1 hmem with rfl | hmem
  · exact Nat.le_refl _
  · obtain ⟨-, -, hresume, -⟩ := Finder.hitOf_of_mem_walk hmem
    exact absurd hlt (Nat.not_lt.2 hresume)

/-- Up to the second quote, the hits cover the literal and nothing else. -/
theorem covers_iff (hu : ∀ q ∈ quoteSigns, q ∉ u) (hw : Plain w) (hne : w ≠ []) {i : Nat}
    (hlt : i < u.length + (w.length + 2)) :
    (∃ h ∈ (finder d).hits (between u w v), h.whole.Covers i) ↔ u.length ≤ i := by
  constructor
  · rintro ⟨h, hmem, hcovers⟩
    exact Nat.le_trans (length_le_start hu hmem) hcovers.1
  · intro hi
    rw [hits_eq hu hw hne]
    exact ⟨_, List.mem_cons_self, hi, hlt⟩

/-! ## The working copies -/

theorem text_ofSource_between (u w v : List Char) : (ofSource (between u w v) : Work).text =
    between (ofSource u : Work).text (ofSource w : Work).text (ofSource v : Work).text := by
  have hquote : (ofSource ['"'] : Work).text = ['"'] := rfl
  change (ofSource (u ++ (['"'] ++ (w ++ (['"'] ++ v)))) : Work).text = _
  rw [text_ofSource_append, text_ofSource_append, text_ofSource_append, text_ofSource_append, hquote]
  rfl

/-- A character of ASCII in the working text is one of the source. -/
theorem mem_of_mem_text {x : Char} (hx : x ≠ foreign) (h : x ∈ (ofSource w : Work).text) : x ∈ w := by
  have hinfix : [x] <:+: (ofSource w : Work).text := by
    obtain ⟨s, t, heq⟩ := List.append_of_mem h
    exact ⟨s, t, by rw [heq, List.append_assoc]; rfl⟩
  exact (infix_of_infix_text (List.mem_singleton.not.2 hx.symm) (List.cons_ne_nil x []) hinfix).subset List.mem_cons_self

theorem plain_text (hw : Plain w) : Plain (ofSource w : Work).text := by
  intro x hx
  by_cases hforeign : x = foreign
  · subst hforeign
    decide
  · exact hw x (mem_of_mem_text hforeign hx)

theorem quoteless_text (hu : ∀ q ∈ quoteSigns, q ∉ u) : ∀ q ∈ quoteSigns, q ∉ (ofSource u : Work).text := by
  intro q hq hmem
  have hforeign : q ≠ foreign := by
    rintro rfl
    revert hq
    decide
  exact hu q hq (mem_of_mem_text hforeign hmem)

theorem cells_between (u w v : List Char) : (ofSource (between u w v) : Work).cells =
    ((ofSource u : Work).cells ++ ⟨'"', false⟩ :: (ofSource w : Work).cells) ++ (ofSource ('"' :: v) : Work).cells := by
  change (ofSource (u ++ (['"'] ++ (w ++ '"' :: v))) : Work).cells = _
  rw [cells_ofSource_append, cells_ofSource_append, cells_ofSource_append, List.append_assoc]
  rfl

/-- Texts of the same size are the same for what overwrites them. -/
theorem map_fill_cells (hw : Plain w) (hw' : Plain w') (hlen : (utf8 w).length = (utf8 w').length) :
    (ofSource w : Work).cells.map (Cell.fill blank) = (ofSource w' : Work).cells.map (Cell.fill blank) := by
  have hblank : ∀ w : List Char, Plain w →
      (ofSource w : Work).cells.map (Cell.fill blank) = List.replicate (utf8 w).length ⟨blank, false⟩ := by
    intro w hw
    induction w with
    | nil => rfl
    | cons a w ih =>
      obtain ⟨ha, hw⟩ := List.forall_mem_cons.1 hw
      change ((cellsOf a ++ (ofSource w : Work).cells).map _) = _
      rw [List.map_append, ih hw, Comment.map_fill_cellsOf ha.2.2, List.replicate_append_replicate, length_utf8_cons]
  rw [hblank w hw, hblank w' hw', hlen]

/-- The working copies of two sources that differ in the text between the quotes agree but for that. -/
theorem veiled (u v : List Char) (hw : Plain w) (hw' : Plain w') (hlen : (utf8 w).length = (utf8 w').length) :
    Veiled ((utf8 u).length + ((utf8 w).length + 1)) (ofSource (between u w v)) (ofSource (between u w' v)) where
  behind := by
    have hsize : ∀ w : List Char, ((ofSource u : Work).cells ++ ⟨'"', false⟩ :: (ofSource w : Work).cells).length =
        (utf8 u).length + ((utf8 w).length + 1) := by
      intro w
      rw [List.length_append, List.length_cons, ← size_ofSource (α := Category) u, ← size_ofSource (α := Category) w]
      rfl
    rw [cells_between, cells_between, List.drop_left' (hsize w), List.drop_left' ((hsize w').trans (by rw [hlen]))]
  front := by
    intro p _
    rw [← List.getElem?_map, ← List.getElem?_map, cells_between, cells_between]
    simp only [List.map_append, List.map_cons, map_fill_cells hw hw' hlen]
  tokens := rfl

theorem getElem?_cells_between {i : Nat} (hi : i < (utf8 u).length) :
    (ofSource (between u w v) : Work).cells[i]? = (ofSource u : Work).cells[i]? := by
  have hin : i < (ofSource u : Work).cells.length := by
    rw [← size_ofSource (α := Category)] at hi
    exact hi
  rw [cells_between, List.append_assoc, List.getElem?_append_left hin]

theorem length_text (s : List Char) : (ofSource s : Work).text.length = (utf8 s).length := by
  rw [text_ofSource, List.length_map]

theorem text_ne_nil (hne : w ≠ []) : (ofSource w : Work).text ≠ [] := by
  intro heq
  exact hne (length_utf8_eq_zero_iff.1 ((length_text w).symm.trans (congrArg List.length heq)))

/-- `spares`, in the working copy of the source. -/
theorem spares_ofSource (hu : ∀ q ∈ quoteSigns, q ∉ u) (hw : Plain w) (hne : w ≠ []) :
    Spares (finder d) ((utf8 u).length + ((utf8 w).length + 2)) ((utf8 u).length + ((utf8 w).length + 2))
      (ofSource (between u w v) : Work).text := by
  rw [text_ofSource_between, ← length_text, ← length_text]
  exact spares (quoteless_text hu) (plain_text hw) (text_ne_nil hne)

/-- `covers_iff`, in the working copy of the source. -/
theorem covers_ofSource_iff (hu : ∀ q ∈ quoteSigns, q ∉ u) (hw : Plain w) (hne : w ≠ []) {i : Nat}
    (hlt : i < (utf8 u).length + ((utf8 w).length + 2)) :
    (∃ h ∈ (finder d).hits (ofSource (between u w v) : Work).text, h.whole.Covers i) ↔ (utf8 u).length ≤ i := by
  rw [← length_text, ← length_text] at hlt
  rw [text_ofSource_between, ← length_text u]
  exact covers_iff (quoteless_text hu) (plain_text hw) (text_ne_nil hne) hlt

/-- Without its literals, a source does not show the text of the first one. -/
theorem erase_eq (hu : ∀ q ∈ quoteSigns, q ∉ u) (hw : Plain w) (hw' : Plain w') (hne : w ≠ []) (hne' : w' ≠ [])
    (hlen : (utf8 w).length = (utf8 w').length) :
    erase (finder d) literal (ofSource (between u w v)) = erase (finder d) literal (ofSource (between u w' v)) := by
  have hfill : literal ≠ '\n' := by decide
  have hveiled := veiled u v hw hw' hlen
  have hspares := spares_ofSource (d := d) (v := v) hu hw hne
  have hspares' := spares_ofSource (d := d) (v := v) hu hw' hne'
  rw [← hlen] at hspares'
  have hlength : (utf8 u).length + ((utf8 w).length + 2) ≤ (ofSource (between u w v) : Work).text.length := by
    rw [text_ofSource_between, length_between, length_text, length_text]
    exact Nat.le_add_right _ _
  refine hveiled.erase_eq_of_front hfill Comment.partless_literals hspares hspares' (by omega) hlength fun p hp => ?_
  -- Before the first quote nothing is overwritten and nothing differs, behind it the literal is overwritten.
  rw [getElem?_erase hfill, getElem?_erase hfill, if_congr (covers_ofSource_iff hu hw hne hp) rfl rfl,
    if_congr (covers_ofSource_iff hu hw' hne' (hlen ▸ hp)) rfl rfl]
  split_ifs with hge
  · exact hveiled.map_fill_eq _ _
  · rw [getElem?_cells_between (Nat.lt_of_not_le hge), getElem?_cells_between (Nat.lt_of_not_le hge)]

end Literal

/-! ## The tokens -/

namespace Tokenizer
variable {t : Tokenizer} {u v w w' : List Char}

/-- **The text of a string says nothing**, in both dialects and whatever it holds and stands behind it, if no quote stands
before it: with another text of the same size in its place a source gives the same tokens. -/
theorem tokenize_quoted_eq (hu : ∀ q ∈ Comment.quoteSigns, q ∉ u) (hw : Literal.Plain w) (hw' : Literal.Plain w')
    (hlen : (utf8 w).length = (utf8 w').length) :
    t.tokenize (Literal.between u w v) = t.tokenize (Literal.between u w' v) := by
  have hnil : w = [] ↔ w' = [] := by rw [← length_utf8_eq_zero_iff, hlen, length_utf8_eq_zero_iff]
  by_cases hne : w = []
  · rw [hne, hnil.1 hne]
  · have hrun : t.run (Literal.between u w v) = t.run (Literal.between u w' v) := by
      obtain ⟨rest, hpasses⟩ := exists_passes t.settings
      rw [run, run, passes, hpasses]
      exact congrArg (fun x => runPasses rest (erase _ blank x)) (Literal.erase_eq hu hw hw' hne (hnil.not.1 hne) hlen)
    rw [tokenize, tokenize, classes, classes, hrun]

/-- A comment that is not closed, an apostrophe, a brace and a character beyond ASCII, with a quote alone behind. -/
theorem tokenize_quoted_eq_comment :
    (∀ q ∈ Comment.quoteSigns, q ∉ "f(".toList) ∧ Literal.Plain "/* it's \x7d é".toList ∧ Literal.Plain "twelve bytes".toList ∧
      (utf8 "/* it's \x7d é".toList).length = (utf8 "twelve bytes".toList).length ∧
      (ofDialect .cFamily).tokenize (Literal.between "f(".toList "/* it's \x7d é".toList "); x = '\"';".toList) =
        (ofDialect .cFamily).tokenize (Literal.between "f(".toList "twelve bytes".toList "); x = '\"';".toList) := by
  have hu : ∀ q ∈ Comment.quoteSigns, q ∉ "f(".toList := by decide +kernel
  have hw : Literal.Plain "/* it's \x7d é".toList := by decide +kernel
  have hw' : Literal.Plain "twelve bytes".toList := by decide +kernel
  have hlen : (utf8 "/* it's \x7d é".toList).length = (utf8 "twelve bytes".toList).length := by decide +kernel
  exact ⟨hu, hw, hw', hlen, tokenize_quoted_eq hu hw hw' hlen⟩

end Tokenizer
end SourceLikeness
