import SourceLikeness.Proofs.Comment.Reading
import SourceLikeness.Proofs.Pattern.Within
import SourceLikeness.Proofs.Tokenizer.Default
import SourceLikeness.Proofs.Tokenizer.Idle
import SourceLikeness.Proofs.WorkingCopy.Source

/-!
# The text of a comment says nothing

A source that starts with a comment gives the tokens that it gives with blanks for the text of the comment, unless
a literal starts in the comment and stops behind it: literals are looked for before comments are.

* `Comment.text`, `Comment.blanked` : a comment with its text, and the blanks in place of a text;
* `Comment.Contains` : no literal lies across the end of the comment; `contains_of_quotes` : none does if the text has
  no quotes of the kinds that may;
* `Tokenizer.tokenize_comment_eq` : the tokens;
* `Tokenizer.tokenize_comment_ne` : a quote in a comment that goes with one behind it.
-/

namespace SourceLikeness
open WorkingCopy Tokenizer

namespace Comment
variable {k : Comment} {v w s : List Char} {i : Nat}

/-- A comment with its text. -/
def text (k : Comment) (w : List Char) : List Char := k.opener ++ w ++ k.closer

/-- A blank for each byte of a text that is not a newline. -/
def blanked (w : List Char) : List Char := w.flatMap fun c => if c = '\n' then [c] else List.replicate c.utf8Size ' '

/-- The offset at which a comment with a text is closed. -/
def closedAt (k : Comment) (w : List Char) : Nat := (utf8 (k.opener ++ w)).length

/-- No literal that starts in the comment, in front of a source, stops behind it. -/
def Contains (k : Comment) (w s : List Char) : Prop :=
  Spares k.literals (k.closedAt w) (k.closedAt w) (ofSource (k.text w ++ s) : Work).text

instance (k : Comment) (w s : List Char) : Decidable (k.Contains w s) :=
  inferInstanceAs (Decidable (∀ h ∈ k.literals.hits _, h.whole.start < k.closedAt w → h.whole.stop ≤ k.closedAt w))

/-! ## The working text -/

theorem text_ofSource_comment (k : Comment) (w s : List Char) : (ofSource (k.text w ++ s) : Work).text =
    k.opener ++ ((ofSource w : Work).text ++ (k.closer ++ (ofSource s : Work).text)) := by
  have hopener : (ofSource k.opener : Work).text = k.opener := text_ofSource_of_ascii (by cases k <;> decide)
  have hcloser : (ofSource k.closer : Work).text = k.closer := text_ofSource_of_ascii (by cases k <;> decide)
  rw [text, text_ofSource_append, text_ofSource_append, text_ofSource_append, hopener, hcloser, List.append_assoc,
    List.append_assoc]

theorem closedAt_eq (k : Comment) (w : List Char) : k.closedAt w = k.opener.length + (ofSource w : Work).text.length := by
  have hopener : (ofSource k.opener : Work).text = k.opener := text_ofSource_of_ascii (by cases k <;> decide)
  rw [closedAt, ← size_ofSource (α := Category), size, ← List.length_map (·.char)]
  change (ofSource (k.opener ++ w) : Work).text.length = _
  rw [text_ofSource_append, List.length_append, hopener]

theorem drop_text_comment (j : Nat) (hj : j ≤ (ofSource w : Work).text.length) :
    (ofSource (k.text w ++ s) : Work).text.drop (k.opener.length + j) =
      (ofSource w : Work).text.drop j ++ (k.closer ++ (ofSource s : Work).text) := by
  rw [text_ofSource_comment, ← List.drop_drop, List.drop_left, List.drop_append_of_le_length hj]

/-- What stands in the working text of the comment, and cannot go on at the closer, stands in the text of the comment. -/
theorem infix_of_prefix_drop (hv : foreign ∉ v) (hne : v ≠ []) (htail : ∀ x ∈ v.tail, k.closer.head? ≠ some x)
    (hi : k.opener.length ≤ i) (hlt : i < k.closedAt w) (h : v <+: (ofSource (k.text w ++ s) : Work).text.drop i) :
    v <:+: w := by
  obtain ⟨j, rfl⟩ := Nat.exists_eq_add_of_le hi
  rw [closedAt_eq] at hlt
  have hj : j < (ofSource w : Work).text.length := by omega
  rw [drop_text_comment j (Nat.le_of_lt hj)] at h
  set u := (ofSource w : Work).text.drop j with hu
  rcases Nat.lt_or_ge u.length v.length with hlen | hlen
  · have hat := List.prefix_iff_getElem?.1 h u.length hlen
    rw [List.getElem?_append_right (Nat.le_refl _), Nat.sub_self] at hat
    have hhead : (k.closer ++ (ofSource s : Work).text)[0]? = k.closer.head? := by cases k <;> rfl
    have hmem : v[u.length] ∈ v.tail := by
      have hpos : 0 < u.length := by
        rw [hu, List.length_drop]
        omega
      refine List.mem_of_getElem? (i := u.length - 1) ?_
      rw [List.getElem?_tail, Nat.sub_add_cancel hpos, List.getElem?_eq_getElem hlen]
    exact absurd (hhead.symm.trans hat) (htail _ hmem)
  · have hin : v <+: u := List.prefix_of_prefix_length_le h (List.prefix_append _ _) hlen
    exact infix_of_infix_text hv hne (hin.isInfix.trans (List.drop_suffix j _).isInfix)

/-- A comment whose text does not have the closer is closed behind it. -/
theorem stands (hw : ¬ k.closer <:+: w) : k.Stands (k.closedAt w) (ofSource (k.text w ++ s) : Work).text where
  opener := by
    rw [text_ofSource_comment]
    exact List.prefix_append _ _
  le := by
    rw [closedAt_eq]
    exact Nat.le_add_right _ _
  closer := by
    rw [closedAt_eq, drop_text_comment _ (Nat.le_refl _), List.drop_length]
    exact List.prefix_append _ _
  first := by
    intro i hi hlt h
    have htail : ∀ x ∈ k.closer.tail, k.closer.head? ≠ some x := by cases k <;> decide
    exact hw (infix_of_prefix_drop (by cases k <;> decide) (by cases k <;> exact List.cons_ne_nil _ _) htail hi hlt h)

/-! ## Literals in the text -/

/-- A literal that starts in the comment starts with a quote of its text. -/
theorem quote_of_start (hw : ¬ k.closer <:+: w) {h : Hit} (hmem : h ∈ k.literals.hits (ofSource (k.text w ++ s) : Work).text)
    (hlt : h.whole.start < k.closedAt w) : ∃ q ∈ quoteSigns, q ∈ w := by
  obtain ⟨q, hq, hchar⟩ := quote_of_hit hmem
  have hforeign : ∀ q ∈ quoteSigns, foreign ∉ [q] := by decide
  have hreads : [q] <+: (ofSource (k.text w ++ s) : Work).text.drop h.whole.start := by
    rw [List.prefix_iff_getElem?]
    intro i hi
    obtain rfl : i = 0 := Nat.lt_one_iff.1 hi
    rw [List.getElem?_drop, Nat.add_zero, hchar]
    rfl
  have hin := infix_of_prefix_drop (hforeign q hq) (List.cons_ne_nil q []) (List.forall_mem_nil _)
    ((stands hw).opener_le_start hmem) hlt hreads
  exact ⟨q, hq, hin.subset List.mem_cons_self⟩

theorem contains_of_quoteless (hw : ¬ k.closer <:+: w) (hq : ∀ q ∈ quoteSigns, q ∉ w) : k.Contains w s := by
  intro h hmem hlt
  obtain ⟨q, hmemq, hin⟩ := quote_of_start hw hmem hlt
  exact absurd hin (hq q hmemq)

theorem Contains.spares (hw : ¬ k.closer <:+: w) (h : k.Contains w s) :
    Spares k.literals (k.closedAt w + 1) (k.closedAt w) (ofSource (k.text w ++ s) : Work).text := by
  intro g hmem hlt
  rcases Nat.lt_or_eq_of_le (Nat.le_of_lt_succ hlt) with hlt | heq
  · exact h g hmem hlt
  · have hclosed : 0 < k.closer.length := by cases k <;> decide
    have := (stands hw).not_start_closer hmem (Nat.le_of_eq heq.symm)
    omega

/-- The quotes of the literals that can go beyond the closer. The others are on one line. -/
def quotes : Comment → List (List Char)
  | line => [['\x60']]
  | block => [['"'], ['\''], ['\x60']]
  | script => [['"', '"', '"'], ['\'', '\'', '\'']]

theorem quotes_subset {q : List Char} (hq : q ∈ k.quotes) : ∀ c ∈ q, c ∈ quoteSigns := by
  revert q
  cases k <;> decide

/-- A literal starts with one of the quotes or does not go beyond the closer. -/
theorem starts_or_stops {t : List Char} {m : Nat} {c d : Cursor} (hc : c.In t) (h : k.literals.pattern.Reads c d)
    (hclosed : k.closer <+: t.drop m) (hle : c.offset ≤ m) : (∃ q ∈ k.quotes, q <+: t.drop c.offset) ∨ d.offset ≤ m := by
  have hopened : ∀ {q : String} {p : Pattern} {ps : List Pattern}, (Pattern.all (Pattern.text q :: p :: ps)).Reads c d →
      q.toList ∈ k.quotes → (∃ q ∈ k.quotes, q <+: t.drop c.offset) ∨ d.offset ≤ m := by
    rintro q p ps ⟨e, he, -⟩ hmem
    refine Or.inl ⟨q.toList, hmem, ?_⟩
    rw [← hc.rest, Pattern.reads_chars he]
    exact List.prefix_append _ _
  have hone : ∀ {p : Pattern}, p.Reads c d → p.avoids '\n' = true → k.closer = ['\n'] →
      (∃ q ∈ k.quotes, q <+: t.drop c.offset) ∨ d.offset ≤ m := by
    intro p hp havoids heq
    rw [heq] at hclosed
    have hx : t[m]? = some '\n' := Text.prefix_drop_iff.1 hclosed 0 Nat.one_pos
    exact Or.inr (hp.stop_le_of_avoids havoids hc hx hle)
  cases k with
  | line =>
    rcases h with h | h | h
    · exact hone h rfl rfl
    · exact hone h rfl rfl
    · exact hopened h (by decide)
  | block =>
    rcases h with h | h | h
    · exact hopened h (by decide)
    · exact hopened h (by decide)
    · exact hopened h (by decide)
  | script =>
    rcases h with h | h | h | h
    · exact hopened h (by decide)
    · exact hopened h (by decide)
    · exact hone h rfl rfl
    · exact hone h rfl rfl

theorem contains_of_quotes (hw : ¬ k.closer <:+: w) (hq : ∀ q ∈ k.quotes, ¬ q <:+: w) : k.Contains w s := by
  intro h hmem hlt
  obtain ⟨d, hd, heq⟩ := Finder.read_of_hitOf (Finder.hitOf_of_mem hmem)
  have hreads := Pattern.reads_of_read hd
  have hstands := stands (s := s) hw
  rcases starts_or_stops (Finder.in_start _ _) hreads hstands.closer (Nat.le_of_lt hlt) with ⟨q, hmemq, hprefix⟩ | hstop
  · have hsigns := quotes_subset hmemq
    have hhead : ∀ x ∈ quoteSigns, k.closer.head? ≠ some x := by cases k <;> decide
    have hforeign : foreign ∉ quoteSigns := by decide
    have hne : ∀ q ∈ k.quotes, q ≠ [] := by cases k <;> decide
    exact absurd (infix_of_prefix_drop (fun hin => hforeign (hsigns _ hin)) (hne q hmemq)
      (fun x hx => hhead x (hsigns x (List.mem_of_mem_tail hx))) (hstands.opener_le_start hmem) hlt hprefix) (hq q hmemq)
  · rw [heq]
    exact hstop

/-! ## Blanks in place of the text -/

theorem mem_blanked {x : Char} (hx : x ∈ blanked w) : x = ' ' ∨ x = '\n' ∧ '\n' ∈ w := by
  obtain ⟨c, hc, hx⟩ := List.mem_flatMap.1 hx
  split_ifs at hx with hnewline
  · obtain rfl := List.mem_singleton.1 hx
    exact Or.inr ⟨hnewline, hnewline ▸ hc⟩
  · exact Or.inl (List.eq_of_mem_replicate hx)

theorem not_quote_blanked : ∀ q ∈ quoteSigns, q ∉ blanked w := by
  intro q hq hin
  rcases mem_blanked hin with rfl | ⟨rfl, -⟩ <;> exact absurd hq (by decide)

theorem not_infix_blanked (hw : ¬ k.closer <:+: w) : ¬ k.closer <:+: blanked w := by
  intro h
  cases k with
  | block => rcases mem_blanked (h.subset List.mem_cons_self) with hx | ⟨hx, -⟩ <;> exact absurd hx (by decide)
  | line | script =>
    rcases mem_blanked (h.subset List.mem_cons_self) with hx | ⟨-, hmem⟩
    · exact absurd hx (by decide)
    · obtain ⟨u, v, rfl⟩ := List.append_of_mem hmem
      exact hw ⟨u, v, by rw [List.append_assoc]; rfl⟩

theorem map_fill_cellsOf {c : Char} (hc : c ≠ '\n') :
    (cellsOf c).map (Cell.fill blank) = List.replicate c.utf8Size ⟨blank, false⟩ := by
  unfold cellsOf
  split_ifs with h
  · rw [utf8Size_of_isAscii h, List.map_singleton, Cell.fill, if_neg hc]
    rfl
  · rw [List.map_replicate]
    rfl

/-- A fill makes no difference between a text and the blanks in its place. -/
theorem map_fill_blanked (w : List Char) :
    (ofSource (blanked w) : Work).cells.map (Cell.fill blank) = (ofSource w : Work).cells.map (Cell.fill blank) := by
  have hblank : ((cellsOf ' ').map (Cell.fill blank)) = [⟨blank, false⟩] := rfl
  have hone : ∀ c : Char, ((if c = '\n' then [c] else List.replicate c.utf8Size ' ').flatMap cellsOf).map (Cell.fill blank) =
      (cellsOf c).map (Cell.fill blank) := by
    intro c
    split_ifs with hc
    · rw [List.flatMap_singleton]
    · rw [map_fill_cellsOf hc, List.map_flatMap, List.flatMap_replicate, hblank]
      exact List.flatten_replicate_singleton
  change ((blanked w).flatMap cellsOf).map _ = (w.flatMap cellsOf).map _
  rw [blanked, List.flatMap_assoc, List.map_flatMap, List.map_flatMap]
  exact List.flatMap_congr fun c _ => hone c

theorem cells_comment (k : Comment) (w s : List Char) : (ofSource (k.text w ++ s) : Work).cells =
    ((ofSource k.opener : Work).cells ++ (ofSource w : Work).cells) ++ (ofSource (k.closer ++ s) : Work).cells := by
  rw [text, List.append_assoc, cells_ofSource_append, cells_ofSource_append]

theorem length_cells_comment (k : Comment) (w : List Char) :
    ((ofSource k.opener : Work).cells ++ (ofSource w : Work).cells).length = k.closedAt w := by
  rw [← cells_ofSource_append, closedAt, ← size_ofSource (α := Category), size]

theorem closedAt_blanked (k : Comment) (w : List Char) : k.closedAt (blanked w) = k.closedAt w := by
  have hlen := congrArg List.length (map_fill_blanked w)
  rw [List.length_map, List.length_map] at hlen
  rw [← length_cells_comment, ← length_cells_comment, List.length_append, List.length_append, hlen]

/-- The working copies of a source with a comment and with blanks for its text agree but for the comment. -/
theorem veiled (k : Comment) (w s : List Char) :
    Veiled (k.closedAt w) (ofSource (k.text w ++ s)) (ofSource (k.text (blanked w) ++ s)) where
  behind := by
    rw [cells_comment, cells_comment, List.drop_left' (length_cells_comment k w),
      List.drop_left' ((length_cells_comment k (blanked w)).trans (closedAt_blanked k w))]
  front := by
    intro p _
    have hmap : (ofSource (k.text w ++ s) : Work).cells.map (Cell.fill blank) =
        (ofSource (k.text (blanked w) ++ s) : Work).cells.map (Cell.fill blank) := by
      rw [cells_comment, cells_comment]
      simp only [List.map_append, map_fill_blanked]
    rw [← List.getElem?_map, ← List.getElem?_map, hmap]
  tokens := rfl

end Comment

/-! ## The tokens -/

namespace Tokenizer
variable {t : Tokenizer} {k : Comment} {w s : List Char}

theorem exists_passes (s : Settings) : ∃ rest : List Pass,
    s.passes = .erasing "literals" s.dialect.literal literal :: .erasing "comments" s.dialect.comment blank :: rest := by
  unfold Settings.passes
  cases s.dialect
  · exact ⟨_, rfl⟩
  · exact ⟨_, rfl⟩

/-- **The text of a comment says nothing** if no literal lies across the end of the comment. The tokens of a source
that starts with a comment are then those of the source with blanks for the text of the comment. -/
theorem tokenize_comment_eq (hk : t.settings.dialect = k.dialect) (hw : ¬ k.closer <:+: w) (hin : k.Contains w s) :
    t.tokenize (k.text w ++ s) = t.tokenize (k.text (Comment.blanked w) ++ s) := by
  have hblanked := Comment.not_infix_blanked hw
  have hin' : k.Contains (Comment.blanked w) s := Comment.contains_of_quoteless hblanked Comment.not_quote_blanked
  have hstands := Comment.stands (s := s) hblanked
  have hspares := hin'.spares hblanked
  rw [Comment.closedAt_blanked] at hstands hspares
  have hcomment : erase k.finder blank (erase k.literals literal (ofSource (k.text w ++ s))) =
      erase k.finder blank (erase k.literals literal (ofSource (k.text (Comment.blanked w) ++ s))) := by
    have hlen := (Comment.stands (s := s) hw).closed_le_length
    have hclosed : 0 < k.closer.length := by cases k <;> decide
    have hfill : literal ≠ '\n' := by decide
    have hveiled := (Comment.veiled k w s).erase hfill Comment.partless_literals (hin.spares hw)
      hspares (by omega)
    exact Comment.erase_comments_eq hveiled ((Comment.stands hw).erase_literals (hin.spares hw))
      (hstands.erase_literals hspares)
  have hrun : t.run (k.text w ++ s) = t.run (k.text (Comment.blanked w) ++ s) := by
    obtain ⟨rest, hpasses⟩ := exists_passes t.settings
    rw [hk] at hpasses
    rw [run, run, passes, hpasses]
    exact congrArg (runPasses rest) hcomment
  rw [tokenize, tokenize, classes, classes, hrun]

/-- A comment with a literal inside, in front of another literal. -/
theorem tokenize_comment_eq_quoted :
    (ofDialect .cFamily).settings.dialect = Comment.block.dialect ∧ ¬ Comment.block.closer <:+: " say \"hi\" ".toList ∧
      Comment.block.Contains " say \"hi\" ".toList "x = \"b\";".toList ∧
      (ofDialect .cFamily).tokenize (Comment.block.text " say \"hi\" ".toList ++ "x = \"b\";".toList) =
        (ofDialect .cFamily).tokenize
          (Comment.block.text (Comment.blanked " say \"hi\" ".toList) ++ "x = \"b\";".toList) := by
  have hk : (ofDialect .cFamily).settings.dialect = Comment.block.dialect := rfl
  have hw : ¬ Comment.block.closer <:+: " say \"hi\" ".toList := by decide +kernel
  have hin : Comment.block.Contains " say \"hi\" ".toList "x = \"b\";".toList := by decide +kernel
  exact ⟨hk, hw, hin, tokenize_comment_eq hk hw hin⟩

/-- A quote in a comment opens a literal that the next quote behind the comment closes. What stands between them,
with the end of the comment, is lost. -/
theorem tokenize_comment_ne :
    ¬ Comment.block.closer <:+: " 5\" disk ".toList ∧
      (ofDialect .cFamily).tokenize (Comment.block.text " 5\" disk ".toList ++ " x = 1; y = \"b\";".toList) ≠
        (ofDialect .cFamily).tokenize
          (Comment.block.text (Comment.blanked " 5\" disk ".toList) ++ " x = 1; y = \"b\";".toList) := by
  decide +kernel

end Tokenizer
end SourceLikeness
