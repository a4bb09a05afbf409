import SourceLikeness.Proofs.Pattern.Hits

/-!
# Hits lie inside the text

* `Span.Within` : a span inside a part of a text;
* `Pattern.Reads.within` : the pieces of a reading lie between where it starts and the end of the text;
* `Finder.within_of_mem` : so do those of a hit and its token (`Hit.Within.token`);
* `Finder.solid`, `Finder.token_lt_of_mem` : no token is empty;
* `Pattern.bodies`, `Finder.exists_body` : a piece of a hit is a reading of what the pieces of its name read as;
* `Pattern.avoids`, `Reads.stop_le_of_avoids` : no reading passes a character, so none goes beyond where it stands.
-/

namespace SourceLikeness

/-- A span that starts no earlier than `a`, does not stop before it starts and stops no later than `n`. -/
structure Span.Within (a n : Nat) (p : Span) : Prop where
  le : a ≤ p.start
  start_le_stop : p.start ≤ p.stop
  stop_le : p.stop ≤ n

theorem Span.Within.mono {a a' n n' : Nat} {p : Span} (h : p.Within a n) (ha : a' ≤ a) (hn : n ≤ n') : p.Within a' n' :=
  ⟨Nat.le_trans ha h.le, h.start_le_stop, Nat.le_trans h.stop_le hn⟩

/-- A span inside a slice of a text is one inside the span of the slice. -/
theorem Span.Within.shift {α : Type} {xs : List α} {r p : Span} (h : p.Within 0 (r.slice xs).length) (hr : r.start ≤ r.stop) :
    (p.shift r.start).Within r.start r.stop := by
  have hlen : (r.slice xs).length ≤ r.stop - r.start := List.length_take_le _ _
  have hstop := h.stop_le
  have hle := h.start_le_stop
  exact ⟨Nat.le_add_left _ _, Nat.add_le_add_right hle _, by change p.stop + r.start ≤ r.stop; omega⟩

namespace Cursor
variable {s t : List Char} {c d : Cursor}

/-- What was passed between two places of a text. -/
theorem In.slice_of_rest (hc : c.In s) (hd : d.In s) (hle : c.offset ≤ d.offset) (hlen : d.offset ≤ s.length)
    (hrest : c.rest = t ++ d.rest) : Span.slice ⟨c.offset, d.offset⟩ s = t := by
  have hlength : t.length = d.offset - c.offset := by
    have hsum := congrArg List.length hrest
    rw [hc.rest, hd.rest, List.length_append, List.length_drop, List.length_drop] at hsum
    omega
  rw [Span.slice, ← hc.rest, hrest, ← hlength, List.take_left]

end Cursor

namespace Pattern
variable {p : Pattern} {s : List Char} {c d : Cursor} {a : Nat}

/-- The pieces of a reading lie between where it starts and where it stops. -/
theorem Reads.within (h : p.Reads c d) (hc : c.In s) (ha : a ≤ c.offset) (hparts : ∀ x ∈ c.parts, x.2.Within a c.offset) :
    ∀ x ∈ d.parts, x.2.Within a d.offset := by
  induction p generalizing c d with
  | empty | wordEdge | lineStart | textStart =>
    first | obtain rfl := h | obtain ⟨-, rfl⟩ := h
    exact hparts
  | one set =>
    obtain ⟨x, rest, -, -, rfl⟩ := h
    exact fun x hx => (hparts x hx).mono (Nat.le_refl a) (Nat.le_succ _)
  | seq p q ihp ihq =>
    obtain ⟨m, hp, hq⟩ := h
    obtain ⟨hm, hcm⟩ := hp.mem hc
    exact ihq hq hm (Nat.le_trans ha hcm) (ihp hp hc ha hparts)
  | alt p q ihp ihq =>
    rcases h with h | h
    · exact ihp h hc ha hparts
    · exact ihq h hc ha hparts
  | many body ih | few body ih =>
    have hsteps : (d.In s ∧ c.offset ≤ d.offset) ∧ ∀ x ∈ d.parts, x.2.Within a d.offset := by
      induction h with
      | refl => exact ⟨⟨hc, Nat.le_refl _⟩, hparts⟩
      | tail _ hstep ihsteps =>
        obtain ⟨⟨hm, hcm⟩, hmparts⟩ := ihsteps
        obtain ⟨he, hme⟩ := hstep.mem hm
        exact ⟨⟨he, Nat.le_trans hcm hme⟩, ih hstep hm (Nat.le_trans ha hcm) hmparts⟩
    exact hsteps.2
  | part name body ih =>
    obtain ⟨m, hm, rfl⟩ := h
    exact List.forall_mem_cons.2 ⟨⟨ha, (hm.mem hc).2, Nat.le_refl _⟩, ih hm hc ha hparts⟩

/-- Every reading has a character. -/
def solid : Pattern → Bool
  | one _ => true
  | seq first second => first.solid || second.solid
  | alt first second => first.solid && second.solid
  | part _ body => body.solid
  | _ => false

theorem Reads.lt_of_solid (h : p.Reads c d) (hc : c.In s) (hp : p.solid = true) : c.offset < d.offset := by
  induction p generalizing c d with
  | one set =>
    obtain ⟨y, rest, -, -, rfl⟩ := h
    exact Nat.lt_succ_self _
  | seq p q ihp ihq =>
    obtain ⟨m, hpm, hq⟩ := h
    obtain ⟨hm, hle⟩ := hpm.mem hc
    obtain ⟨-, hle'⟩ := hq.mem hm
    rcases Bool.or_eq_true_iff.1 hp with hp | hp
    · exact Nat.lt_of_lt_of_le (ihp hpm hc hp) hle'
    · exact Nat.lt_of_le_of_lt hle (ihq hq hm hp)
  | alt p q ihp ihq =>
    obtain ⟨hpp, hpq⟩ := Bool.and_eq_true_iff.1 hp
    exact h.elim (fun h => ihp h hc hpp) fun h => ihq h hc hpq
  | part name body ih =>
    obtain ⟨m, hm, rfl⟩ := h
    exact ih (d := m) hm hc hp
  | empty | many _ | few _ | wordEdge | lineStart | textStart => exact Bool.noConfusion hp

/-- No reading passes the character. -/
def avoids (x : Char) : Pattern → Bool
  | one set => !set.holds x
  | seq first second => first.avoids x && second.avoids x
  | alt first second => first.avoids x && second.avoids x
  | many body => body.avoids x
  | few body => body.avoids x
  | part _ body => body.avoids x
  | _ => true

/-- A reading stops before a character that it cannot pass. -/
theorem Reads.stop_le_of_avoids {x : Char} {n : Nat} (h : p.Reads c d) (hp : p.avoids x = true) (hc : c.In s)
    (hx : s[n]? = some x) (hle : c.offset ≤ n) : d.offset ≤ n := by
  induction p generalizing c d with
  | empty | wordEdge | lineStart | textStart =>
    first | obtain rfl := h | obtain ⟨-, rfl⟩ := h
    exact hle
  | one set =>
    obtain ⟨y, rest, hrest, hy, rfl⟩ := h
    have hy' := hc.getElem? hrest
    rcases Nat.lt_or_eq_of_le hle with hlt | heq
    · exact hlt
    · rw [heq, hx] at hy'
      obtain rfl := Option.some.inj hy'
      rw [avoids, hy] at hp
      exact Bool.noConfusion hp
  | seq p q ihp ihq =>
    obtain ⟨m, hpm, hq⟩ := h
    obtain ⟨hpp, hpq⟩ := Bool.and_eq_true_iff.1 hp
    exact ihq hq hpq (hpm.mem hc).1 (ihp hpm hpp hc hle)
  | alt p q ihp ihq =>
    obtain ⟨hpp, hpq⟩ := Bool.and_eq_true_iff.1 hp
    exact h.elim (fun h => ihp h hpp hc hle) fun h => ihq h hpq hc hle
  | many body ih | few body ih =>
    have hsteps : d.In s ∧ d.offset ≤ n := by
      induction h with
      | refl => exact ⟨hc, hle⟩
      | tail _ hstep ihsteps => exact ⟨(hstep.mem ihsteps.1).1, ih hstep hp ihsteps.1 ihsteps.2⟩
    exact hsteps.2
  | part name body ih =>
    obtain ⟨m, hm, rfl⟩ := h
    exact ih (d := m) hm hp hc hle

end Pattern

namespace Pattern
variable {p : Pattern} {s : List Char} {c d : Cursor} {name : Part} {q : Span}

/-- What the pieces of a name read as. -/
def bodies (name : Part) : Pattern → List Pattern
  | seq first second => first.bodies name ++ second.bodies name
  | alt first second => first.bodies name ++ second.bodies name
  | many body => body.bodies name
  | few body => body.bodies name
  | part other body => if other = name then body :: body.bodies name else body.bodies name
  | _ => []

theorem bodies_of_partless (hp : p.partless = true) : p.bodies name = [] := by
  induction p with
  | seq p q ihp ihq | alt p q ihp ihq =>
    obtain ⟨hpp, hpq⟩ := Bool.and_eq_true_iff.1 hp
    exact List.append_eq_nil_iff.2 ⟨ihp hpp, ihq hpq⟩
  | many body ih | few body ih => exact ih hp
  | part other body => exact Bool.noConfusion hp
  | empty | one _ | wordEdge | lineStart | textStart => rfl

/-- A piece of a reading is a reading of what the pieces of its name read as. -/
theorem Reads.exists_body (h : p.Reads c d) (hc : c.In s) (hq : (name, q) ∈ d.parts) :
    (name, q) ∈ c.parts ∨ ∃ body ∈ p.bodies name, ∃ a b, body.Reads a b ∧ a.In s ∧ q = ⟨a.offset, b.offset⟩ := by
  induction p generalizing c d with
  | empty | wordEdge | lineStart | textStart =>
    first | obtain rfl := h | obtain ⟨-, rfl⟩ := h
    exact Or.inl hq
  | one set =>
    obtain ⟨x, rest, -, -, rfl⟩ := h
    exact Or.inl hq
  | seq p r ihp ihr =>
    obtain ⟨m, hp, hr⟩ := h
    rcases ihr hr (hp.mem hc).1 hq with hq | ⟨body, hbody, hreads⟩
    · exact (ihp hp hc hq).imp_right fun ⟨body, hbody, hreads⟩ => ⟨body, List.mem_append_left _ hbody, hreads⟩
    · exact Or.inr ⟨body, List.mem_append_right _ hbody, hreads⟩
  | alt p r ihp ihr =>
    rcases h with h | h
    · exact (ihp h hc hq).imp_right fun ⟨body, hbody, hreads⟩ => ⟨body, List.mem_append_left _ hbody, hreads⟩
    · exact (ihr h hc hq).imp_right fun ⟨body, hbody, hreads⟩ => ⟨body, List.mem_append_right _ hbody, hreads⟩
  | many body ih | few body ih =>
    induction h with
    | refl => exact Or.inl hq
    | tail hsteps hstep ihsteps =>
      have hin := Reads.mem (p := many body) hsteps hc
      exact (ih hstep hin.1 hq).elim ihsteps Or.inr
  | part other body ih =>
    obtain ⟨m, hm, rfl⟩ := h
    rcases List.mem_cons.1 hq with heq | hq
    · obtain ⟨rfl, rfl⟩ := Prod.mk.inj heq
      exact Or.inr ⟨body, by rw [bodies, if_pos rfl]; exact List.mem_cons_self, c, m, hm, hc, rfl⟩
    · refine (ih hm hc hq).imp_right fun ⟨inner, hinner, hreads⟩ => ⟨inner, ?_, hreads⟩
      unfold bodies
      split_ifs
      · exact List.mem_cons_of_mem _ hinner
      · exact hinner

end Pattern

/-! ## Hits -/

/-- The whole of a hit and all of its pieces lie inside a part of a text. -/
structure Hit.Within (a n : Nat) (h : Hit) : Prop where
  whole : h.whole.Within a n
  parts : ∀ x ∈ h.parts, x.2.Within a n

theorem Hit.Within.mono {a n n' : Nat} {h : Hit} (hh : h.Within a n) (hn : n ≤ n') : h.Within a n' :=
  ⟨hh.whole.mono (Nat.le_refl a) hn, fun x hx => (hh.parts x hx).mono (Nat.le_refl a) hn⟩

theorem Hit.Within.part? {a n : Nat} {h : Hit} (hh : h.Within a n) {name : Part} {p : Span} (hp : h.part? name = some p) :
    p.Within a n := by
  obtain ⟨l, l', hparts, -⟩ := List.lookup_eq_some_iff.1 hp
  refine hh.parts (name, p) ?_
  rw [hparts]
  exact List.mem_append_right _ List.mem_cons_self

theorem Hit.Within.token {a n : Nat} {h : Hit} (hh : h.Within a n) : h.token.Within a n := by
  unfold Hit.token
  cases hp : h.part? .token with
  | none => exact hh.whole
  | some p => exact hh.part? hp

namespace Finder
variable {f : Finder} {accept : Hit → Bool} {s : List Char} {h : Hit}

/-- The pieces of a hit lie inside of it. -/
theorem hit_within_whole {p : Pattern} {i : Nat} {d : Cursor} (hd : p.read (start s i) = some d) :
    Hit.Within i d.offset ⟨⟨i, d.offset⟩, d.parts⟩ := by
  have hreads := Pattern.reads_of_read hd
  have hin := in_start s i
  exact ⟨⟨Nat.le_refl i, (hreads.mem hin).2, Nat.le_refl _⟩, hreads.within hin (Nat.le_refl i) (List.forall_mem_nil _)⟩

theorem hit_within {p : Pattern} {i : Nat} {d : Cursor} (hi : i ≤ s.length) (hd : p.read (start s i) = some d) :
    Hit.Within i s.length ⟨⟨i, d.offset⟩, d.parts⟩ :=
  (hit_within_whole hd).mono ((Pattern.reads_of_read hd).le_length (in_start s i) hi)

/-- A piece of a hit is a reading of what the pieces of its name read as. -/
theorem exists_body {name : Part} {q : Span} (hmem : h ∈ f.hitsWhere accept s) (hq : h.part? name = some q) :
    ∃ body ∈ f.pattern.bodies name, ∃ a b, body.Reads a b ∧ a.In s ∧ q = ⟨a.offset, b.offset⟩ := by
  obtain ⟨d, hd, heq⟩ := read_of_hitOf (hitOf_of_mem hmem)
  obtain ⟨l, l', hparts, -⟩ := List.lookup_eq_some_iff.1 hq
  have hpiece : (name, q) ∈ d.parts := by
    rw [show d.parts = l ++ (name, q) :: l' by rw [← hparts, heq]]
    exact List.mem_append_right _ List.mem_cons_self
  exact ((Pattern.reads_of_read hd).exists_body (in_start s _) hpiece).resolve_left List.not_mem_nil

theorem within_whole_of_mem (hmem : h ∈ f.hitsWhere accept s) : h.Within h.whole.start h.whole.stop := by
  obtain ⟨d, hd, heq⟩ := read_of_hitOf (hitOf_of_mem hmem)
  have hwithin := hit_within_whole hd
  rwa [← heq, show d.offset = h.whole.stop by rw [heq]] at hwithin

theorem within_of_mem (hmem : h ∈ f.hitsWhere accept s) : h.Within h.whole.start s.length := by
  obtain ⟨d, hd, heq⟩ := read_of_hitOf (hitOf_of_mem hmem)
  have hwithin := hit_within (start_le_of_mem hmem) hd
  rwa [← heq] at hwithin

/-- A hit has a piece that every reading of its pattern has. -/
theorem exists_part? {name : Part} (hmem : h ∈ f.hitsWhere accept s) (hf : f.pattern.notes name = true) :
    ∃ q, h.part? name = some q := by
  obtain ⟨d, hd, heq⟩ := read_of_hitOf (hitOf_of_mem hmem)
  obtain ⟨q, hq⟩ := (Pattern.reads_of_read hd).exists_piece hf
  cases hpart : h.part? name with
  | some q => exact ⟨q, rfl⟩
  | none =>
    rw [Hit.part?, heq, List.lookup_eq_none_iff] at hpart
    have hne := hpart _ hq
    rw [bne_self_eq_false] at hne
    exact Bool.noConfusion hne

/-- A piece of a hit is not empty if what the pieces of its name read as has a character. -/
theorem start_lt_stop_of_part {name : Part} {q : Span} (hmem : h ∈ f.hitsWhere accept s) (hq : h.part? name = some q)
    (hsolid : (f.pattern.bodies name).all Pattern.solid = true) : q.start < q.stop := by
  obtain ⟨body, hbody, a, b, hreads, ha, rfl⟩ := exists_body hmem hq
  exact hreads.lt_of_solid ha (List.all_eq_true.1 hsolid body hbody)

theorem start_lt_stop_of_mem (hmem : h ∈ f.hitsWhere accept s) (hsolid : f.pattern.solid = true) : h.whole.start < h.whole.stop := by
  obtain ⟨d, hd, heq⟩ := read_of_hitOf (hitOf_of_mem hmem)
  rw [heq]
  exact (Pattern.reads_of_read hd).lt_of_solid (in_start s _) hsolid

/-- No token of the finder is empty, be they pieces or whole hits. -/
def solid (f : Finder) : Bool := f.pattern.solid && (f.pattern.bodies .token).all Pattern.solid

theorem token_lt_of_mem (hmem : h ∈ f.hitsWhere accept s) (hf : f.solid = true) : h.token.start < h.token.stop := by
  obtain ⟨hwhole, hpieces⟩ := Bool.and_eq_true_iff.1 hf
  unfold Hit.token
  cases hpart : h.part? .token with
  | some q => exact start_lt_stop_of_part hmem hpart hpieces
  | none => exact start_lt_stop_of_mem hmem hwhole

end Finder

namespace Pattern
variable {p : Pattern} {s : List Char} {h : Hit}

theorem within_of_mem_readings (hmem : h ∈ p.readings s) : h.Within h.whole.start s.length :=
  Finder.within_of_mem hmem

/-- What a pattern reads at the start of a text is the first of its readings. -/
theorem mem_readings_of_readStart (hh : p.readStart s = some h) : h ∈ p.readings s := by
  obtain ⟨d, hd, rfl⟩ := Option.map_eq_some_iff.1 hh
  have hhit : (reader p).hitOf (fun _ => true) s 0 = some ⟨⟨0, d.offset⟩, d.parts⟩ := Finder.hitOf_of_read rfl rfl rfl hd rfl
  rw [readings_eq_hits, Finder.hits, Finder.hitsWhere_eq_walk]
  rcases Finder.walk_cases (reader p) (fun _ => true) s 0 0 with ⟨-, hnone⟩ | ⟨g, -, hg, hwalk⟩
  · rcases hnone with hlt | hnone
    · exact absurd hlt (Nat.lt_irrefl 0)
    · rw [hhit] at hnone
      exact nomatch hnone
  · obtain rfl := Option.some.inj (hhit.symm.trans hg)
    rw [hwalk]
    exact List.mem_cons_self

theorem within_of_readStart (hh : p.readStart s = some h) : h.Within 0 s.length := by
  obtain ⟨d, hd, rfl⟩ := Option.map_eq_some_iff.1 hh
  exact Finder.hit_within (Nat.zero_le _) hd

end Pattern
end SourceLikeness
