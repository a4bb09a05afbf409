import SourceLikeness.Proofs.Pattern.Edges

/-!
# Patterns that spell something out

* `Cursor.moved` : the place so many characters further on;
* `Pattern.spelled?` : the characters that a pattern spells out;
* `run_of_spelled`, `Reads.of_spelled` : such a pattern reads them where they stand, and nothing else;
* `startsAt_of_edge` : a word that is read at an edge starts there.
-/

namespace SourceLikeness
open Text (isAsciiWord inside wordAt charBefore StartsAt)

namespace Cursor
variable {s : List Char} {c : Cursor}

/-- The place so many characters further on in a text. -/
def moved (s : List Char) (c : Cursor) (n : Nat) : Cursor :=
  ⟨c.offset + n, charBefore s (c.offset + n), s.drop (c.offset + n), c.parts⟩

theorem In.advance_eq (h : c.In s) {x : Char} {rest : List Char} (hc : c.rest = x :: rest) :
    c.advance x rest = c.moved s 1 := by
  have hadv := h.advance hc
  rw [moved, ← show (c.advance x rest).offset = c.offset + 1 from rfl, ← hadv.rest, ← hadv.before]
  rfl

theorem moved_moved (m n : Nat) : (c.moved s m).moved s n = c.moved s (m + n) := by
  simp only [moved, Nat.add_assoc]

theorem In.moved (n : Nat) : (c.moved s n).In s := ⟨rfl, rfl⟩

end Cursor

namespace Pattern
variable {β : Type} {p : Pattern} {s w : List Char} {c d : Cursor} {k : Cursor → Option β}

/-- The characters that a pattern spells out one by one, if it does. -/
def spelled? : Pattern → Option (List Char)
  | one (.only [.char c]) => some [c]
  | seq (one (.only [.char c])) rest => rest.spelled?.map (c :: ·)
  | _ => none

theorem holds_char_iff {a y : Char} : (CharSet.only [.char a]).holds y = true ↔ y = a := by
  rw [CharSet.holds, List.any_cons, List.any_nil, Bool.or_false, CharSet.Entry.holds, beq_iff_eq]

theorem run_char {a : Char} (hc : c.In s) :
    (one (.only [.char a])).run c k = if [a] <+: s.drop c.offset then k (c.moved s 1) else none := by
  cases hrest : c.rest with
  | nil =>
    have hdrop : s.drop c.offset = [] := by rw [← hc.rest, hrest]
    rw [run_one_of_nil hrest, hdrop, if_neg]
    simp
  | cons y rest =>
    have hiff : (CharSet.only [.char a]).holds y = true ↔ [a] <+: y :: rest := by
      rw [holds_char_iff, List.cons_prefix_cons, eq_comm, and_iff_left List.nil_prefix]
    rw [run_one_of_cons hrest, hc.advance_eq hrest, ← hc.rest, hrest]
    exact if_congr hiff rfl rfl

/-- A pattern that spells a word out reads it where it stands, and nothing else. -/
theorem run_of_spelled (hp : p.spelled? = some w) (hc : c.In s) :
    p.run c k = if w <+: s.drop c.offset then k (c.moved s w.length) else none := by
  induction p using spelled?.induct generalizing c k w with
  | case1 a =>
    obtain rfl := Option.some.inj hp
    exact run_char hc
  | case2 a rest ih =>
    obtain ⟨v, hv, rfl⟩ := Option.map_eq_some_iff.1 hp
    have hcons : a :: v <+: s.drop c.offset ↔ [a] <+: s.drop c.offset ∧ v <+: s.drop (c.offset + 1) := by
      rw [← List.tail_drop]
      cases s.drop c.offset with
      | nil => simp
      | cons y rest => simp [List.cons_prefix_cons]
    rw [run, run_char hc, ih hv (.moved 1), Cursor.moved_moved, List.length_cons, Nat.add_comm 1]
    by_cases ha : [a] <+: s.drop c.offset
    · by_cases hr : v <+: s.drop (c.offset + 1)
      · rw [if_pos ha, if_pos (hcons.2 ⟨ha, hr⟩)]
        exact if_pos hr
      · rw [if_pos ha, if_neg fun h => hr (hcons.1 h).2]
        exact if_neg hr
    · rw [if_neg ha, if_neg fun h => ha (hcons.1 h).1]
  | case3 p hchar hseq =>
    rw [spelled?.eq_3 p hchar hseq] at hp
    cases hp

/-- A reading of a pattern that spells a word out passes the word. -/
theorem Reads.of_spelled (h : p.Reads c d) (hp : p.spelled? = some w) (hc : c.In s) :
    w <+: s.drop c.offset ∧ d = c.moved s w.length := by
  have hchar : ∀ {a : Char} {m n : Cursor}, (one (.only [.char a])).Reads m n → m.In s →
      s.drop m.offset = a :: s.drop (m.offset + 1) ∧ n = m.moved s 1 := by
    rintro a m n ⟨y, rest, hrest, hy, rfl⟩ hm
    obtain rfl := holds_char_iff.1 hy
    have hadv := hm.advance_eq hrest
    have hrest' : rest = s.drop (m.offset + 1) := congrArg Cursor.rest hadv
    rw [← hm.rest, hrest, ← hrest']
    exact ⟨rfl, hadv⟩
  induction p using spelled?.induct generalizing c d w with
  | case1 a =>
    obtain rfl := Option.some.inj hp
    obtain ⟨hdrop, hd⟩ := hchar h hc
    rw [hdrop]
    exact ⟨List.cons_prefix_cons.2 ⟨rfl, List.nil_prefix⟩, hd⟩
  | case2 a rest ih =>
    obtain ⟨v, hv, rfl⟩ := Option.map_eq_some_iff.1 hp
    obtain ⟨m, hm, hrest⟩ := h
    obtain ⟨hdrop, rfl⟩ := hchar hm hc
    obtain ⟨hreads, hd⟩ := ih hrest hv (.moved 1)
    rw [hdrop, List.length_cons, Nat.add_comm v.length, ← Cursor.moved_moved]
    exact ⟨List.cons_prefix_cons.2 ⟨rfl, hreads⟩, hd⟩
  | case3 p hchar hseq => exact nomatch hp.symm.trans (spelled?.eq_3 p hchar hseq)

theorem reads_of_spelled (hp : p.spelled? = some w) (hc : c.In s) (hr : w <+: s.drop c.offset) :
    p.Reads c (c.moved s w.length) := by
  have hrun : p.read c = some (c.moved s w.length) := by rw [read, run_of_spelled hp hc, if_pos hr]
  exact reads_of_read hrun

theorem startsAt_of_edge (he : c.inside = false) (hc : c.In s) (hw : ∀ a ∈ w, isAsciiWord a = true) (hne : w ≠ [])
    (hr : w <+: s.drop c.offset) : StartsAt w s c.offset := by
  refine ⟨hr, ?_⟩
  have hat := Text.wordAt_of_reads hw hr (List.length_pos_of_ne_nil hne)
  rw [Nat.add_zero] at hat
  rw [hc.inside_eq, inside, hat, Bool.and_true] at he
  exact he

end Pattern
end SourceLikeness
