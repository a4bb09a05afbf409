import SourceLikeness.Proofs.Braces.Header

/-!
# Bodies in a text

What the searches for bodies without braces find where a header stands.

* `hitOf_elseBody`, `hitOf_doBody`, `readStart_headedBody` : the statement behind a header, up to its semicolon;
* `elseBody_eq_none`, `doBody_eq_none`, `headedBody_eq_none_of_brace` : there is none where a brace comes before a
  semicolon; `headedBody_eq_none_of_closes` : nor where a semicolon comes directly behind the parenthesis;
* `hitOf_forHeader`, `hitOf_headed` : what the headers are told by;
* `isSome_leadingIf`, `leadingIf_eq_none` : whether a body is an `if`.
-/

namespace SourceLikeness.Tokenizer
open Pattern
open Text (isAsciiWord isBlank)
open Finder (start)
variable {β : Type} {c d : Cursor} {k : Cursor → Option β} {t u u₁ u₂ u₃ v w g : List Char} {s : List Char} {o : Nat}

theorem hitOf_reader {p : Pattern} (h : p.run (start s o) some = some d) :
    (reader p).hitOf (fun _ => true) s o = some ⟨⟨o, d.offset⟩, d.parts⟩ :=
  Finder.hitOf_of_read rfl rfl rfl h rfl

/-! ## Bodies behind `else` and `do` -/

/-- A statement behind a word and a blank, when the run goes on behind the word. -/
theorem hitOf_blank_statement {p : Pattern} (t : List Char)
    (hrun : ∀ k : Cursor → Option Cursor, p.run (start s o) k =
      (all [blanks, BareBody.statement]).run ((start s o).past t (' ' :: (u ++ ';' :: v))) k)
    (hne : u ≠ []) (hu : Plain u) (hblank : u.head?.any isBlank = false) :
    (reader p).hitOf (fun _ => true) s o =
      some ⟨⟨o, o + (t.length + 1) + u.length + 1⟩, [(.token, ⟨o + (t.length + 1), o + (t.length + 1) + u.length + 1⟩)]⟩ := by
  have hbody : p.run (start s o) some = some ((((start s o).past t (' ' :: (u ++ ';' :: v))).past [' '] (u ++ ';' :: v)).note
      .token (((start s o).past t (' ' :: (u ++ ';' :: v))).past (' ' :: u ++ [';']) v)) :=
    (hrun some).trans (run_blank_statement rfl hne hu hblank rfl)
  have hlength : o + t.length + (' ' :: u ++ [';']).length = o + (t.length + 1) + u.length + 1 := by
    rw [List.length_append, List.length_cons, List.length_singleton]
    omega
  refine (hitOf_reader hbody).trans ?_
  simp only [Cursor.note, Cursor.past, start]
  rw [hlength]
  rfl

theorem hitOf_elseBody (hs : s.drop o = "else".toList ++ ' ' :: (u ++ ';' :: v)) (hedge : (start s o).atWordEdge = true)
    (hne : u ≠ []) (hu : Plain u) (hblank : u.head?.any isBlank = false) :
    (reader BareBody.elseBody).hitOf (fun _ => true) s o =
      some ⟨⟨o, o + 5 + u.length + 1⟩, [(.token, ⟨o + 5, o + 5 + u.length + 1⟩)]⟩ := by
  refine hitOf_blank_statement (v := v) "else".toList (fun k => ?_) hne hu hblank
  rw [BareBody.elseBody, run_all_cons, run_wordEdge hedge, run_all_cons, run_text hs]

theorem hitOf_doBody (hs : s.drop o = "do".toList ++ ' ' :: (u ++ ';' :: v)) (hedge : (start s o).atWordEdge = true)
    (hne : u ≠ []) (hu : Plain u) (hblank : u.head?.any isBlank = false) :
    (reader BareBody.doBody).hitOf (fun _ => true) s o =
      some ⟨⟨o, o + 3 + u.length + 1⟩, [(.token, ⟨o + 3, o + 3 + u.length + 1⟩)]⟩ := by
  refine hitOf_blank_statement (v := v) "do".toList (fun k => ?_) hne hu hblank
  rw [BareBody.doBody, run_all_cons, word, run_all_cons, run_wordEdge hedge, run_all_cons, List.map_singleton, any,
    run_text hs, all, run_wordEdge rfl]

theorem elseBody_eq_none (hs : s.drop o = "else".toList ++ (u ++ '\x7b' :: v)) (hu : Plain u) :
    (reader BareBody.elseBody).hitOf (fun _ => true) s o = none := by
  refine hitOf_eq_none_of_reads fun d h => ?_
  obtain ⟨c₁, ⟨-, rfl⟩, c₂, h₂, h₃⟩ := h
  have hstart : (start s o).rest = "else".toList ++ (u ++ '\x7b' :: v) := hs
  have helse : (start s o).rest = "else".toList ++ c₂.rest := reads_chars h₂
  obtain ⟨w, hw, hrest⟩ := reads_blanks_statement h₃
  rw [hstart, hrest] at helse
  exact absurd (hu.append_inj hw rfl rfl (List.append_cancel_left helse)).2 (by decide)

theorem doBody_eq_none (hs : s.drop o = "do".toList ++ (u ++ '\x7b' :: v)) (hu : Plain u) :
    (reader BareBody.doBody).hitOf (fun _ => true) s o = none := by
  refine hitOf_eq_none_of_reads fun d h => ?_
  obtain ⟨c₂, ⟨c₁, ⟨-, rfl⟩, c₃, h₂, ⟨-, rfl⟩⟩, h₃⟩ := h
  have hstart : (start s o).rest = "do".toList ++ (u ++ '\x7b' :: v) := hs
  have hdo : (start s o).rest = "do".toList ++ c₃.rest := reads_chars h₂
  obtain ⟨w, hw, hrest⟩ := reads_blanks_statement h₃
  rw [hstart, hrest] at hdo
  exact absurd (hu.append_inj hw rfl rfl (List.append_cancel_left hdo)).2 (by decide)

/-! ## Bodies behind headers -/

/-- The words of headers start with different letters. -/
theorem run_headed {kw : String} (hkw : kw ∈ BareBody.headed) (hrest : c.rest = kw.toList ++ w) :
    (any (BareBody.headed.map text)).run c k = k (c.past kw.toList w) := by
  have hnone : ∀ {t : String} {b e : Char} {u v : List Char}, t.toList = b :: u → kw.toList = e :: v → e ≠ b →
      (text t).run c k = none := by
    intro t b e u v ht hkw' hne
    refine run_text_eq_none ht fun hhead => hne ?_
    rw [hrest, hkw'] at hhead
    exact Option.some.inj hhead
  have hrun : (text kw).run c k = k (c.past kw.toList w) := run_text hrest
  rw [BareBody.headed, List.map_cons, List.map_cons, List.map_singleton, run_any_cons, run_any_cons, any]
  simp only [BareBody.headed, List.mem_cons, List.not_mem_nil, or_false] at hkw
  obtain rfl | rfl | rfl := hkw
  · rw [hrun, hnone (t := "if") rfl rfl (by decide), hnone (t := "for") rfl rfl (by decide)]
    cases k (c.past _ w) <;> rfl
  · rw [hrun, hnone (t := "while") rfl rfl (by decide), hnone (t := "for") rfl rfl (by decide)]
    cases k (c.past _ w) <;> rfl
  · rw [hrun, hnone (t := "while") rfl rfl (by decide), hnone (t := "if") rfl rfl (by decide)]
    rfl

theorem hitOf_headed {kw : String} (hkw : kw ∈ BareBody.headed) (hs : s.drop o = kw.toList ++ w)
    (hedge : (start s o).atWordEdge = true) (hw : w.head?.any Text.isWord = false) :
    (reader (word BareBody.headed)).hitOf (fun _ => true) s o = some ⟨⟨o, o + kw.toList.length⟩, []⟩ := by
  have hlast : ∀ kw ∈ BareBody.headed, (kw.toList.getLast?.or (start s o).before).any Text.isWord = true := by
    simp only [BareBody.headed, List.forall_mem_cons]
    exact ⟨rfl, rfl, rfl, List.forall_mem_nil _⟩
  refine hitOf_reader (d := (start s o).past kw.toList w) ?_
  rw [word, run_all_cons, run_wordEdge hedge, run_all_cons, run_headed hkw hs, all, run_wordEdge]
  change ((kw.toList.getLast?.or (start s o).before).any Text.isWord != w.head?.any Text.isWord) = true
  rw [hlast kw hkw, hw]
  rfl

theorem readStart_headedBody {kw : String} (hkw : kw ∈ BareBody.headed) (hu : Plain u) (hu' : ')' ∉ u) (hne : u ≠ [])
    (hv : Plain v) (hne' : v ≠ []) (hblank : v.head?.any isBlank = false) {n : Nat}
    (hn : n = (kw.toList ++ (" (".toList ++ u ++ [')', ' '])).length) :
    BareBody.headedBody.readStart (kw.toList ++ (" (".toList ++ u ++ ')' :: ([' '] ++ (v ++ ';' :: w)))) =
      some ⟨⟨0, n + v.length + 1⟩, [(.token, ⟨n, n + v.length + 1⟩)]⟩ := by
  let c : Cursor := ⟨0, none, kw.toList ++ (" (".toList ++ u ++ ')' :: ([' '] ++ (v ++ ';' :: w))), []⟩
  let t : List Char := kw.toList ++ (" (".toList ++ u ++ [')', ' '])
  have hrun : BareBody.headedBody.run c some =
      some ((c.past t (v ++ ';' :: w)).note .token (c.past (t ++ (v ++ [';'])) w)) := by
    rw [BareBody.headedBody, run_all_cons, run_headed hkw rfl]
    refine run_bracketed rfl hne hu hu' (by decide) ?_ ?_
    · rwa [List.head?_append_of_ne_nil _ hne']
    · rw [Cursor.past_past]
      refine run_statement rfl hne' hv ?_
      rw [Cursor.past_past]
  have hlength : (t ++ (v ++ [';'])).length = n + v.length + 1 := by
    rw [List.length_append, ← hn, List.length_append]
    rfl
  rw [Pattern.readStart, Pattern.read, hrun, Option.map_some]
  simp only [Cursor.note, Cursor.past, c, hlength, Nat.zero_add, ← hn, t]

theorem reads_headedBody (h : BareBody.headedBody.Reads c d) :
    ∃ t u, Plain t ∧ Plain u ∧ u ≠ [] ∧ c.rest = t ++ ')' :: (u ++ ';' :: d.rest) := by
  obtain ⟨c₁, h₁, c₂, h₂, c₃, h₃, c₄, h₄, c₅, h₅, c₆, h₆, h₇⟩ := h
  obtain ⟨kw, hkw, hword⟩ := reads_any_text h₁
  obtain ⟨t, g, ht, hg, hrest⟩ := reads_bracketed (c := c₁) (d := c₆) ⟨c₂, h₂, c₃, h₃, c₄, h₄, c₅, h₅, h₆⟩
  obtain ⟨u, hne, hu, hstatement⟩ := reads_statement h₇
  have hheaded : ∀ kw ∈ BareBody.headed, Plain kw.toList := by decide
  refine ⟨kw.toList ++ t, g ++ u, (hheaded kw hkw).append ht, Plain.append (fun a ha => plain_of_isBlank (hg a ha)) hu,
    List.append_ne_nil_of_right_ne_nil g hne, ?_⟩
  rw [hword, hrest, hstatement]
  simp only [List.append_assoc]

theorem headedBody_eq_none_of_brace (hu : Plain u) : BareBody.headedBody.readStart (u ++ '\x7b' :: v) = none := by
  rw [Pattern.readStart, Option.map_eq_none_iff]
  refine run_eq_none fun d h => ?_
  obtain ⟨t, w, ht, hw, -, hrest⟩ := reads_headedBody h
  have hplain : Plain (t ++ ')' :: w) := ht.append (hw.cons (by decide))
  have hrest : u ++ '\x7b' :: v = (t ++ ')' :: w) ++ ';' :: d.rest := by
    rw [List.append_assoc]
    exact hrest
  exact absurd (hu.append_inj hplain rfl rfl hrest).2 (by decide)

theorem headedBody_eq_none_of_closes (hu : ')' ∉ u) : BareBody.headedBody.readStart (u ++ ')' :: ';' :: v) = none := by
  rw [Pattern.readStart, Option.map_eq_none_iff]
  refine run_eq_none fun d h => ?_
  obtain ⟨t, w, ht, hw, hne, hrest⟩ := reads_headedBody h
  obtain ⟨a, w, rfl⟩ := List.exists_cons_of_ne_nil hne
  obtain ⟨ha, -⟩ := List.forall_mem_cons.1 hw
  obtain rfl := eq_semicolon_of_closes (g := []) hu ht (List.forall_mem_nil _) hrest
  exact absurd ha (by decide)

/-- What stands between the parentheses of a `for`. -/
theorem hitOf_forHeader (hs : s.drop o = "for".toList ++ (g ++ '(' :: (u₁ ++ ';' :: (u₂ ++ ';' :: (u₃ ++ ')' :: w)))))
    (hedge : (start s o).atWordEdge = true) (hg : ∀ a ∈ g, isBlank a = true) (hu₁ : Plain u₁) (hu₂ : Plain u₂) (hu₃ : Plain u₃)
    (hu' : ')' ∉ u₃) :
    ∃ h : Hit, (reader BareBody.forHeader).hitOf (fun _ => true) s o = some h ∧
      h.token = ⟨o + 3 + g.length + 1, o + 3 + g.length + 1 + (u₁ ++ ';' :: (u₂ ++ ';' :: u₃)).length⟩ ∧
      h.whole.stop = o + 3 + g.length + 1 + (u₁ ++ ';' :: (u₂ ++ ';' :: u₃)).length + 1 := by
  have hset : ∀ a ∈ u₃, (CharSet.except (")\x7b\x7d".toList.map .char)).holds a = true := by
    intro a ha
    have hplain := hu₃ a ha
    rw [holds_noneOf, Bool.not_eq_true', ← Bool.not_eq_true, List.contains_iff_mem] at hplain ⊢
    intro hmem
    rcases List.mem_cons.1 hmem with rfl | hmem
    · exact hu' ha
    · exact hplain (List.mem_cons_of_mem _ hmem)
  let t : List Char := "for".toList ++ g ++ ['(']
  have hrun : BareBody.forHeader.run (start s o) some =
      some ((((start s o).past t (u₁ ++ ';' :: (u₂ ++ ';' :: (u₃ ++ ')' :: w)))).note .token
        ((start s o).past (t ++ (u₁ ++ ';' :: (u₂ ++ ';' :: u₃))) (')' :: w))).past [')'] w) := by
    rw [BareBody.forHeader, run_all_cons, run_wordEdge hedge, run_all_cons, run_text hs, run_all_cons]
    refine run_many (u := g) rfl (fun a ha => holds_blank.trans (hg a ha)) rfl ?_
    rw [run_all_cons, run_text rfl, run_all_cons, run_part, run_all_cons]
    refine run_many (u := u₁) rfl hu₁ rfl ?_
    rw [run_all_cons, run_text rfl, run_all_cons]
    refine run_many (u := u₂) rfl hu₂ rfl ?_
    rw [run_all_cons, run_text rfl, all]
    refine run_many (u := u₃) rfl hset rfl ?_
    rw [all, run_text rfl]
    have happend : "for".toList ++ g ++ "(".toList ++ u₁ ++ ";".toList ++ u₂ ++ ";".toList ++ u₃ =
        t ++ (u₁ ++ ';' :: (u₂ ++ ';' :: u₃)) := by simp [t]
    simp only [Cursor.past_past]
    rw [happend]
    rfl
  have ht : o + t.length = o + 3 + g.length + 1 := by
    rw [List.length_append, List.length_append]
    change o + (3 + g.length + 1) = _
    omega
  have hlength : o + (t ++ (u₁ ++ ';' :: (u₂ ++ ';' :: u₃))).length =
      o + 3 + g.length + 1 + (u₁ ++ ';' :: (u₂ ++ ';' :: u₃)).length := by
    rw [List.length_append, ← Nat.add_assoc, ht]
  exact ⟨_, hitOf_reader hrun, congrArg₂ Span.mk ht hlength, congrArg (· + 1) hlength⟩

/-! ## Bodies that are an `if` -/

theorem isSome_leadingIf (v : List Char) : (BareBody.leadingIf.readStart ("if".toList ++ ' ' :: v)).isSome = true := by
  have hrun : BareBody.leadingIf.run ⟨0, none, "if".toList ++ ' ' :: v, []⟩ some =
      some (Cursor.past ⟨0, none, "if".toList ++ ' ' :: v, []⟩ "if".toList (' ' :: v)) := by
    rw [BareBody.leadingIf, run_all_cons]
    refine run_many (u := []) rfl (List.forall_mem_nil _) rfl ?_
    rw [run_all_cons, run_text rfl, all, run_wordEdge rfl]
    rfl
  rw [Pattern.readStart, Pattern.read, hrun]
  rfl

theorem leadingIf_eq_none (hblank : u.head?.any isBlank = false) (hif : ∀ v, u = "if".toList ++ v → v.head?.any isAsciiWord = true) :
    BareBody.leadingIf.readStart u = none := by
  rw [Pattern.readStart, Option.map_eq_none_iff, Pattern.read, BareBody.leadingIf, run_all_cons]
  refine run_many_eq_none (u := []) (v := u) rfl (by simpa only [holds_blank] using hblank) fun u₁ u₂ hsplit => ?_
  obtain ⟨rfl, rfl⟩ := List.append_eq_nil_iff.1 hsplit
  rw [run_all_cons, List.nil_append]
  by_cases hprefix : "if".toList <+: u
  · obtain ⟨v, rfl⟩ := hprefix
    obtain ⟨b, hb, hbword⟩ := (Option.any_eq_true _ _).1 (hif v rfl)
    have hword : Text.isWord b = true := by
      rw [Text.isWord_eq_isAsciiWord (Text.isAscii_of_isAsciiWord hbword), hbword]
    rw [run_text rfl]
    refine if_neg ?_
    rw [Cursor.atWordEdge, Cursor.rest_past, hb, Option.any_some, hword]
    exact Bool.false_ne_true
  · exact run_eq_none fun d h => absurd ⟨_, (reads_chars h).symm⟩ hprefix

end SourceLikeness.Tokenizer
