import SourceLikeness.Proofs.Pattern.Evaluation
import Mathlib.Data.List.Infix

/-!
# What every reading contains

A search finds nothing in a text that has none of the pieces of which every reading contains one. Which pieces these are
can be checked on the pattern.

* `Pattern.spellings` : all that a pattern can read, where that is a list of texts;
* `Pattern.carries ts` : every reading contains one of the texts `ts`;
* `Finder.hitsWhere_eq_nil_of_carries` : such a search finds nothing in a text without them;
* `infix_of_separated` : a text that is put together with separators has none of the texts that its parts do not have.
-/

namespace SourceLikeness

namespace Pattern
variable {p : Pattern} {c d : Cursor} {s : List Char} {us ts : List (List Char)}

/-- The texts that a pattern reads, if it has no repetition, no test of the place and no set but single characters. -/
def spellings : Pattern → Option (List (List Char))
  | empty => some [[]]
  | one (.only [.char c]) => some [[c]]
  | seq p q => p.spellings.bind fun us => q.spellings.map fun vs => us.flatMap fun u => vs.map (u ++ ·)
  | alt p q => p.spellings.bind fun us => q.spellings.map (us ++ ·)
  | part _ p => p.spellings
  | _ => none

/-- A pattern with known spellings reads one of them. -/
theorem Reads.exists_spelling (h : p.Reads c d) (hp : p.spellings = some us) : ∃ u ∈ us, c.rest = u ++ d.rest := by
  induction p generalizing c d us with
  | empty =>
    obtain rfl := Option.some.inj hp
    obtain rfl := h
    exact ⟨[], List.mem_singleton_self _, rfl⟩
  | one set =>
    obtain ⟨y, rest, hrest, hy, rfl⟩ := h
    obtain ⟨a, rfl, rfl⟩ : ∃ a, set = .only [.char a] ∧ us = [[a]] := by
      unfold spellings at hp
      split at hp <;> simp_all
    obtain rfl := holds_char_iff.1 hy
    exact ⟨[y], List.mem_singleton_self _, hrest⟩
  | seq p q ihp ihq =>
    obtain ⟨m, hpm, hq⟩ := h
    obtain ⟨ps, hps, hp⟩ := Option.bind_eq_some_iff.1 hp
    obtain ⟨qs, hqs, rfl⟩ := Option.map_eq_some_iff.1 hp
    obtain ⟨u, hu, hrest⟩ := ihp hpm hps
    obtain ⟨v, hv, hrest'⟩ := ihq hq hqs
    exact ⟨u ++ v, List.mem_flatMap.2 ⟨u, hu, List.mem_map_of_mem hv⟩, by rw [hrest, hrest', List.append_assoc]⟩
  | alt p q ihp ihq =>
    obtain ⟨ps, hps, hp⟩ := Option.bind_eq_some_iff.1 hp
    obtain ⟨qs, hqs, rfl⟩ := Option.map_eq_some_iff.1 hp
    rcases h with h | h
    · obtain ⟨u, hu, hrest⟩ := ihp h hps
      exact ⟨u, List.mem_append_left _ hu, hrest⟩
    · obtain ⟨u, hu, hrest⟩ := ihq h hqs
      exact ⟨u, List.mem_append_right _ hu, hrest⟩
  | part name p ih =>
    obtain ⟨m, hm, rfl⟩ := h
    exact ih (d := m) hm hp
  | many | few | wordEdge | lineStart | textStart => cases hp

/-- Every spelling contains one of the texts. -/
def spells (ts : List (List Char)) (p : Pattern) : Bool := p.spellings.any (·.all fun u => ts.any fun t => decide (t <:+: u))

/-- Every reading contains one of the texts: what is spelled out does, or a part of the sequence. -/
def carries (ts : List (List Char)) : Pattern → Bool
  | seq p q => (seq p q).spells ts || p.carries ts || q.carries ts
  | alt p q => p.carries ts && q.carries ts
  | part _ p => p.carries ts
  | p => p.spells ts

theorem Reads.carried_of_spells (h : p.Reads c d) (hc : c.In s) (hp : p.spells ts = true) : ∃ t ∈ ts, t <:+: s := by
  obtain ⟨us, hus, hall⟩ := (Option.any_eq_true _ _).1 hp
  obtain ⟨u, hu, hrest⟩ := h.exists_spelling hus
  obtain ⟨t, ht, htu⟩ := List.any_eq_true.1 (List.all_eq_true.1 hall u hu)
  have hread : u <+: s.drop c.offset := ⟨d.rest, by rw [← hc.rest, hrest]⟩
  exact ⟨t, ht, (of_decide_eq_true htu).trans (hread.isInfix.trans (List.drop_suffix _ _).isInfix)⟩

/-- The text of a reading contains what the pattern carries. -/
theorem Reads.carried (h : p.Reads c d) (hc : c.In s) (hp : p.carries ts = true) : ∃ t ∈ ts, t <:+: s := by
  induction p generalizing c d with
  | seq p q ihp ihq =>
    rcases Bool.or_eq_true_iff.1 hp with hp | hp
    · rcases Bool.or_eq_true_iff.1 hp with hp | hp
      · exact h.carried_of_spells hc hp
      · obtain ⟨m, hpm, -⟩ := h
        exact ihp hpm hc hp
    · obtain ⟨m, hpm, hq⟩ := h
      exact ihq hq (hpm.mem hc).1 hp
  | alt p q ihp ihq =>
    obtain ⟨hpp, hpq⟩ := Bool.and_eq_true_iff.1 hp
    exact h.elim (fun h => ihp h hc hpp) fun h => ihq h hc hpq
  | part name p ih =>
    obtain ⟨m, hm, rfl⟩ := h
    exact ih (d := m) hm hc hp
  | _ => exact h.carried_of_spells hc hp

end Pattern

/-- **Texts without the pieces of a pattern.** A search finds nothing if each reading contains something that the text does
not. -/
theorem Finder.hitsWhere_eq_nil_of_carries {f : Finder} {accept : Hit → Bool} {s : List Char} {ts : List (List Char)}
    (hf : f.pattern.carries ts = true) (hs : ∀ t ∈ ts, ¬ t <:+: s) : f.hitsWhere accept s = [] := by
  rw [List.eq_nil_iff_forall_not_mem]
  intro hit hmem
  obtain ⟨d, hd, -⟩ := read_of_hitOf (hitOf_of_mem hmem)
  obtain ⟨t, ht, hin⟩ := (Pattern.reads_of_read hd).carried (in_start s _) hf
  exact hs t ht hin

/-- What has no separator in it stands on one side of each separator. -/
theorem infix_of_separated {α : Type} {t u v : List α} {x : α} (hx : x ∉ t) (h : t <:+: u ++ x :: v) : t <:+: u ∨ t <:+: v := by
  have hstart : ∀ u, t <+: u ++ x :: v → t <+: u := by
    rintro u ⟨w, hw⟩
    rcases List.append_eq_append_iff.1 hw with ⟨a, rfl, -⟩ | ⟨b, rfl, hb⟩
    · exact List.prefix_append t a
    · cases b with
      | nil => exact ⟨[], by rw [List.append_nil, List.append_nil]⟩
      | cons c b =>
        obtain ⟨rfl, -⟩ := List.cons.inj hb
        exact absurd (List.mem_append_right u List.mem_cons_self) hx
  induction u with
  | nil =>
    rcases List.infix_cons_iff.1 h with h | h
    · exact Or.inl (hstart [] h).isInfix
    · exact Or.inr h
  | cons c u ih =>
    rcases List.infix_cons_iff.1 h with h | h
    · exact Or.inl (hstart (c :: u) h).isInfix
    · exact (ih h).imp_left fun h => List.infix_cons_iff.2 (Or.inr h)

end SourceLikeness
