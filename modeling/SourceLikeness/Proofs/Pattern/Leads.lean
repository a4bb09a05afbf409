import SourceLikeness.Proofs.Pattern.Within

/-!
# What readings start with, and what they need

Most patterns are looked for in vain in most texts, since each of their readings has a word or a sign that the text
has not. Whether all have one can be computed from the pattern.

* `Leads`, `Leads.At` : words, beginnings of words and signs, one of which stands at an offset;
* `Leads.Lacks` : a text that has none of them;
* `Pattern.solid`, `Pattern.shy` : every reading has a character, and none starts with one of a word;
* `Pattern.led x p e r` : every reading that has a character starts with a lead; the flags are those of
  `Pattern.edges` and `Pattern.stops`;
* `Pattern.barren x p e r f` : every reading has a lead; `f` says that no word character comes behind it;
* `Finder.at_of_hitOf`, `Finder.hitsWhere_eq_nil` : the hits of such patterns.
-/

namespace SourceLikeness
open Text (isAsciiWord isBlank inside wordAt wordBefore StandsAt StartsAt)

/-- What readings may start with or need: whole words, beginnings of words, signs, signs that no word character comes
behind, and blanks. -/
structure Leads where
  words : List (List Char)
  heads : List (List Char)
  signs : List Char
  tight : List Char
  gaps : Bool := false

namespace Leads
variable {x : Leads} {s : List Char} {i : Nat}

/-- A list of word characters that is not empty. -/
def IsWord (w : List Char) : Prop := w ≠ [] ∧ ∀ c ∈ w, isAsciiWord c = true

/-- A lead stands at an offset. -/
inductive At (x : Leads) (s : List Char) (i : Nat) : Prop
  | word (w : List Char) (hw : w ∈ x.words) (hword : IsWord w) (h : StandsAt w s i)
  | head (w : List Char) (hw : w ∈ x.heads) (hword : IsWord w) (h : StartsAt w s i)
  | sign (c : Char) (hc : c ∈ x.signs ∨ x.gaps = true ∧ isBlank c = true) (hsign : isAsciiWord c = false)
      (h : s[i]? = some c)

/-- No lead stands anywhere in the text, and a word character behind each of the tight signs. -/
structure Lacks (x : Leads) (s : List Char) : Prop where
  lead : ∀ i, ¬ x.At s i
  tight : ∀ i, ∀ c ∈ x.tight, s[i]? = some c → wordAt s (i + 1) = true

end Leads

namespace Pattern
variable {x : Leads} {p : Pattern} {s w : List Char} {c d : Cursor} {e r f : Bool}

/-! ## The first character -/

/-- No reading starts with a character of a word. -/
def shy : Pattern → Bool
  | one set => set.wordless
  | seq first second => first.shy && (first.solid || second.shy)
  | alt first second => first.shy && second.shy
  | many body => body.shy
  | few body => body.shy
  | part _ body => body.shy
  | _ => true

theorem Reads.shy (h : p.Reads c d) (hc : c.In s) (hp : p.shy = true) :
    d.offset = c.offset ∨ wordAt s c.offset = false := by
  induction p generalizing c d with
  | empty | wordEdge | lineStart | textStart =>
    first | obtain rfl := h | obtain ⟨-, rfl⟩ := h
    exact Or.inl rfl
  | one set =>
    obtain ⟨y, rest, hrest, hset, -⟩ := h
    refine Or.inr ?_
    rw [Text.wordAt_of_getElem? (hc.getElem? hrest), ← Bool.not_eq_true]
    intro hy
    rw [CharSet.holds_eq_false hp hy] at hset
    exact Bool.noConfusion hset
  | seq p q ihp ihq =>
    obtain ⟨m, hpm, hq⟩ := h
    obtain ⟨hpp, hrest⟩ := Bool.and_eq_true_iff.1 hp
    obtain ⟨hm, -⟩ := hpm.mem hc
    rcases ihp hpm hc hpp with heq | hat
    · rcases Bool.or_eq_true_iff.1 hrest with hsolid | hshy
      · have hlt := hpm.lt_of_solid hc hsolid
        omega
      · have hnext := ihq hq hm hshy
        rwa [heq] at hnext
    · exact Or.inr hat
  | alt p q ihp ihq =>
    obtain ⟨hpp, hpq⟩ := Bool.and_eq_true_iff.1 hp
    exact h.elim (fun h => ihp h hc hpp) fun h => ihq h hc hpq
  | many body ih | few body ih =>
    induction h using Relation.ReflTransGen.head_induction_on with
    | refl => exact Or.inl rfl
    | head hstep _ ihsteps =>
      obtain ⟨hm, -⟩ := hstep.mem hc
      rcases ih hstep hc hp with heq | hat
      · have hnext := ihsteps hm
        rwa [heq] at hnext
      · exact Or.inr hat
  | part name body ih =>
    obtain ⟨m, hm, rfl⟩ := h
    exact ih (d := m) hm hc hp

/-! ## Leads -/

end Pattern

/-- The set holds nothing but some of the signs, none of which belongs to a word, and blanks. -/
def CharSet.among (signs : List Char) (gaps : Bool) : CharSet → Bool
  | only entries => entries.all fun
    | .char c => signs.contains c && !isAsciiWord c
    | .blank => gaps
    | _ => false
  | except _ => false

theorem CharSet.among_iff {signs : List Char} {gaps : Bool} {set : CharSet} {y : Char} (hset : set.among signs gaps = true)
    (hy : set.holds y = true) : (y ∈ signs ∨ gaps = true ∧ isBlank y = true) ∧ isAsciiWord y = false := by
  cases set with
  | only entries =>
    obtain ⟨entry, hmem, hentry⟩ := List.any_eq_true.1 hy
    have hall := List.all_eq_true.1 hset entry hmem
    cases entry with
    | char c =>
      obtain rfl := beq_iff_eq.1 hentry
      rw [Bool.and_eq_true, List.contains_iff_mem, Bool.not_eq_true'] at hall
      exact ⟨Or.inl hall.1, hall.2⟩
    | blank =>
      refine ⟨Or.inr ⟨hall, hentry⟩, ?_⟩
      rw [← Bool.not_eq_true]
      intro hword
      rw [CharSet.Entry.holds, Text.isBlank_eq_false_of_isAsciiWord hword] at hentry
      exact Bool.noConfusion hentry
    | range _ _ | word => exact Bool.noConfusion hall
  | except entries => exact Bool.noConfusion hset

namespace Pattern
variable {x : Leads} {p : Pattern} {s w : List Char} {c d : Cursor} {e r f : Bool}

/-- The pattern spells out, from an edge on, a word that has to stop there, or the beginning of one. -/
def leadWord (x : Leads) (p : Pattern) (e r : Bool) : Bool :=
  p.spelled?.any fun w => e && w.all isAsciiWord && !w.isEmpty && (r && x.words.contains w || x.heads.contains w)

theorem Reads.at_of_leadWord (h : p.Reads c d) (hc : c.In s) (he : e = true → c.inside = false)
    (hr : r = true → d.inside = false) (hp : leadWord x p e r = true) : x.At s c.offset := by
  obtain ⟨w, hw, hlead⟩ := (Option.any_eq_true _ _).1 hp
  simp only [Bool.and_eq_true, Bool.or_eq_true, List.contains_iff_mem, Bool.not_eq_true', List.isEmpty_eq_false_iff] at hlead
  obtain ⟨⟨⟨hedge, hchars⟩, hne⟩, hlead⟩ := hlead
  have hchars := List.all_eq_true.1 hchars
  obtain ⟨hreads, rfl⟩ := h.of_spelled hw hc
  have hstarts := startsAt_of_edge (he hedge) hc hchars hne hreads
  have hpos := List.length_pos_of_ne_nil hne
  rcases hlead with ⟨hrt, hmem⟩ | hmem
  · have hstop := hr hrt
    rw [(Cursor.In.moved w.length).inside_eq] at hstop
    change inside s (c.offset + w.length) = false at hstop
    have hlast : wordBefore s (c.offset + w.length) = true := by
      rw [Text.wordBefore_of_pos (by omega), show c.offset + w.length - 1 = c.offset + (w.length - 1) by omega]
      exact Text.wordAt_of_reads hchars hreads (by omega)
    rw [inside, hlast, Bool.true_and] at hstop
    exact .word w hmem ⟨hne, hchars⟩ ⟨hreads, hstarts.before, hstop⟩
  · exact .head w hmem ⟨hne, hchars⟩ hstarts

/-- Every reading that has a character starts with a lead. -/
def led (x : Leads) : Pattern → Bool → Bool → Bool
  | one set, _, _ => set.among x.signs x.gaps
  | seq first second, e, r =>
    leadWord x (seq first second) e r ||
      (first.led x e (second.stops r) && (first.solid || second.led x (first.edges e) r))
  | alt first second, e, r => first.led x e r && second.led x e r
  | many body, e, r => body.led x e (r && body.stops false)
  | few body, e, r => body.led x e (r && body.stops false)
  | part _ body, e, r => body.led x e r
  | _, _, _ => true

/-- A place at the same offset of a text. -/
theorem inside_eq_of_offset_eq (hc : c.In s) (hd : d.In s) (h : d.offset = c.offset) : d.inside = c.inside := by
  rw [hd.inside_eq, hc.inside_eq, h]

/-- Where a reading goes on, nothing that stops there was inside a word. -/
theorem Reads.inside_of_stops (h : p.Reads c d) (hd : r = true → d.inside = false) (hp : p.stops r = true) :
    c.inside = false := by
  rw [← Bool.not_eq_true]
  intro hin
  obtain ⟨hr, hdin⟩ := h.stops hin hp
  rw [hd hr] at hdin
  exact Bool.noConfusion hdin

/-- A reading that has a character starts with a lead. -/
theorem Reads.at_of_led (h : p.Reads c d) (hc : c.In s) (he : e = true → c.inside = false)
    (hr : r = true → d.inside = false) (hp : p.led x e r = true) : d.offset = c.offset ∨ x.At s c.offset := by
  induction p generalizing c d e r with
  | empty | wordEdge | lineStart | textStart =>
    first | obtain rfl := h | obtain ⟨-, rfl⟩ := h
    exact Or.inl rfl
  | one set =>
    obtain ⟨y, rest, hrest, hset, -⟩ := h
    obtain ⟨hmem, hsign⟩ := CharSet.among_iff hp hset
    exact Or.inr (.sign y hmem hsign (hc.getElem? hrest))
  | seq p q ihp ihq =>
    rcases Bool.or_eq_true_iff.1 hp with hword | hp
    · exact Or.inr (h.at_of_leadWord hc he hr hword)
    · obtain ⟨m, hpm, hq⟩ := h
      obtain ⟨hpp, hrest⟩ := Bool.and_eq_true_iff.1 hp
      obtain ⟨hm, -⟩ := hpm.mem hc
      rcases ihp hpm hc he (fun hstops => hq.inside_of_stops hr hstops) hpp with heq | hat
      · rcases Bool.or_eq_true_iff.1 hrest with hsolid | hled
        · have hlt := hpm.lt_of_solid hc hsolid
          omega
        · have hnext := ihq hq hm (fun he' => hpm.inside_eq_false he he') hr hled
          rwa [heq] at hnext
      · exact Or.inr hat
  | alt p q ihp ihq =>
    obtain ⟨hpp, hpq⟩ := Bool.and_eq_true_iff.1 hp
    exact h.elim (fun h => ihp h hc he hr hpp) fun h => ihq h hc he hr hpq
  | many body ih | few body ih =>
    induction h using Relation.ReflTransGen.head_induction_on with
    | refl => exact Or.inl rfl
    | @head c m hstep hsteps ihsteps =>
      obtain ⟨hm, -⟩ := hstep.mem hc
      have hmid : (r && body.stops false) = true → m.inside = false := by
        intro hboth
        obtain ⟨hrt, hstops⟩ := Bool.and_eq_true_iff.1 hboth
        refine Reads.inside_of_stops (p := many body) (r := r) hsteps hr ?_
        rw [Pattern.stops, hrt, hstops, Bool.and_self]
      rcases ih hstep hc he hmid hp with heq | hat
      · have hnext := ihsteps hm fun het => (inside_eq_of_offset_eq hc hm heq).trans (he het)
        rwa [heq] at hnext
      · exact Or.inr hat
  | part name body ih =>
    obtain ⟨m, hm, rfl⟩ := h
    exact ih (d := m) hm hc he hr hp

/-! ## Readings that need a lead -/

/-- Every reading has a lead somewhere. -/
def barren (x : Leads) : Pattern → Bool → Bool → Bool → Bool
  | one set, _, _, f => set.among x.signs x.gaps || (f && set.among x.tight false)
  | seq first second, e, r, f =>
    leadWord x (seq first second) e r ||
      first.barren x e (second.stops r) (second.shy && (second.solid || f)) || second.barren x (first.edges e) r f
  | alt first second, e, r, f => first.barren x e r f && second.barren x e r f
  | part _ body, e, r, f => body.barren x e r f
  | _, _, _, _ => false

/-- In a text that lacks the leads there is no reading that needs one. -/
theorem Reads.not_barren (hs : x.Lacks s) (h : p.Reads c d) (hc : c.In s) (he : e = true → c.inside = false)
    (hr : r = true → d.inside = false) (hf : f = true → wordAt s d.offset = false) : p.barren x e r f = false := by
  rw [← Bool.not_eq_true]
  intro hp
  induction p generalizing c d e r f with
  | one set =>
    obtain ⟨y, rest, hrest, hset, rfl⟩ := h
    have hy := hc.getElem? hrest
    rcases Bool.or_eq_true_iff.1 hp with hp | hp
    · obtain ⟨hmem, hsign⟩ := CharSet.among_iff hp hset
      exact hs.lead _ (.sign y hmem hsign hy)
    · obtain ⟨hft, htight⟩ := Bool.and_eq_true_iff.1 hp
      obtain ⟨hmem | ⟨hfalse, -⟩, -⟩ := CharSet.among_iff htight hset
      rotate_left
      · exact Bool.noConfusion hfalse
      have hnext := hs.tight _ y hmem hy
      rw [show wordAt s (c.offset + 1) = false from hf hft] at hnext
      exact Bool.noConfusion hnext
  | seq p q ihp ihq =>
    simp only [barren, Bool.or_eq_true] at hp
    rcases hp with (hword | hp) | hq'
    · exact hs.lead _ (h.at_of_leadWord hc he hr hword)
    · obtain ⟨m, hpm, hq⟩ := h
      obtain ⟨hm, -⟩ := hpm.mem hc
      refine ihp hpm hc he (fun hstops => hq.inside_of_stops hr hstops) (fun hboth => ?_) hp
      obtain ⟨hshy, hrest⟩ := Bool.and_eq_true_iff.1 hboth
      rcases hq.shy hm hshy with heq | hat
      · rcases Bool.or_eq_true_iff.1 hrest with hsolid | hft
        · have hlt := hq.lt_of_solid hm hsolid
          omega
        · rw [← heq, hf hft]
      · exact hat
    · obtain ⟨m, hpm, hq⟩ := h
      exact ihq hq (hpm.mem hc).1 (fun he' => hpm.inside_eq_false he he') hr hf hq'
  | alt p q ihp ihq =>
    obtain ⟨hpp, hpq⟩ := Bool.and_eq_true_iff.1 hp
    exact h.elim (fun h => ihp h hc he hr hf hpp) fun h => ihq h hc he hr hf hpq
  | part name body ih =>
    obtain ⟨m, hm, rfl⟩ := h
    exact ih (d := m) hm hc he hr hf hp
  | empty | many _ | few _ | wordEdge | lineStart | textStart => exact Bool.noConfusion hp

end Pattern

/-! ## Finders -/

namespace Finder
open Pattern
variable {x : Leads} {f : Finder} {accept : Hit → Bool} {s : List Char} {h : Hit} {i : Nat}

/-- A hit starts with a lead. -/
theorem at_of_hitOf (hled : f.pattern.led x false false = true) (hsolid : f.pattern.solid = true)
    (h' : f.hitOf accept s i = some h) : x.At s i := by
  obtain ⟨d, hd, -⟩ := read_of_hitOf h'
  have hreads := reads_of_read hd
  have hin := in_start s i
  rcases hreads.at_of_led hin (e := false) (r := false) nofun nofun hled with heq | hat
  · have hlt := hreads.lt_of_solid hin hsolid
    omega
  · exact hat

theorem hitOf_eq_none (hbarren : f.pattern.barren x false false false = true) (hs : x.Lacks s) (i : Nat) :
    f.hitOf accept s i = none := by
  rw [Option.eq_none_iff_forall_ne_some]
  intro h h'
  obtain ⟨d, hd, -⟩ := read_of_hitOf h'
  have hnot := (reads_of_read hd).not_barren hs (in_start s i) (e := false) (r := false) (f := false) nofun nofun nofun
  rw [hbarren] at hnot
  exact Bool.noConfusion hnot

/-- **Barren finders.** In a text that lacks its leads, a finder finds nothing. -/
theorem hitsWhere_eq_nil (hbarren : f.pattern.barren x false false false = true) (hs : x.Lacks s) :
    f.hitsWhere accept s = [] := by
  rw [List.eq_nil_iff_forall_not_mem]
  intro h hmem
  have hhit := hitOf_of_mem hmem
  rw [hitOf_eq_none hbarren hs] at hhit
  exact nomatch hhit

end Finder
end SourceLikeness
