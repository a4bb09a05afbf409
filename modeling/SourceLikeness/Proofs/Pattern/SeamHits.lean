import SourceLikeness.Proofs.Pattern.Within

/-!
# Hits and seams

Where the pieces of a hit stand, for the seams between two equal characters and for others.

* `Seam.Clear` : a span that starts and stops at no seam;
* `Seam.tidy name p e r` : the pieces of a name start and stop at no seam;
* `Seam.firm f`, `Seam.clear_token_of_mem` : neither do the tokens of a finder;
* `Seam.clean p`, `Seam.clear_whole_of_mem` : nor do whole hits;
* `Seam.between c` : the seams between two characters `c`.
-/

namespace SourceLikeness
open Text (charBefore)

namespace Seam
variable {m : Seam} {p : Pattern} {s : List Char} {c d : Cursor} {e r : Bool} {name : Part}

/-- A span of a text starts and stops at no seam. -/
structure Clear (m : Seam) (s : List Char) (q : Span) : Prop where
  start : m.seamAt s q.start = false
  stop : m.seamAt s q.stop = false

theorem seamAt_drop {i : Nat} (hi : 0 < i) (n : Nat) : m.seamAt (s.drop n) i = m.seamAt s (n + i) := by
  obtain ⟨j, rfl⟩ := Nat.exists_eq_succ_of_ne_zero (Nat.ne_of_gt hi)
  change ((s.drop n)[j]?.any m.before && (s.drop n)[j + 1]?.any m.behind) = (s[n + j]?.any m.before && s[n + (j + 1)]?.any m.behind)
  rw [List.getElem?_drop, List.getElem?_drop]

theorem seamAt_take {i n : Nat} (hi : i < n) : m.seamAt (s.take n) i = m.seamAt s i := by
  rw [seamAt, seamAt, List.getElem?_take_of_lt hi]
  cases i with
  | zero => rfl
  | succ j =>
    change ((s.take n)[j]?.any m.before && _) = (s[j]?.any m.before && _)
    rw [List.getElem?_take_of_lt (Nat.lt_of_succ_lt hi)]

/-! ## Pieces -/

/-- The pieces of a name start and stop at no seam. The flags say that the pattern starts at none, and that what comes
behind it reads nothing at one. -/
def tidy (m : Seam) (name : Part) : Pattern → Bool → Bool → Bool
  | .seq first second, e, r => m.tidy name first e (m.stops second r) && m.tidy name second (m.edges first e) r
  | .alt first second, e, r => m.tidy name first e r && m.tidy name second e r
  | .many body, _, _ => body.partless
  | .few body, _, _ => body.partless
  | .part other body, e, r =>
    (!(other == name) || ((e || m.stops body r) && (m.edges body e || r))) && m.tidy name body e r
  | _, _, _ => true

theorem tidy_of_partless (hp : p.partless = true) : m.tidy name p e r = true := by
  induction p generalizing e r with
  | seq p q ihp ihq | alt p q ihp ihq =>
    obtain ⟨hpp, hpq⟩ := Bool.and_eq_true_iff.1 hp
    exact Bool.and_eq_true_iff.2 ⟨ihp hpp, ihq hpq⟩
  | many body | few body => exact hp
  | part other body => exact Bool.noConfusion hp
  | empty | one _ | wordEdge | lineStart | textStart => rfl

theorem clear_of_reads (h : p.Reads c d) (hin : c.In s) (hc : e = true → m.on c = false) (hd : r = true → m.on d = false)
    (hp : m.tidy name p e r = true) (hparts : ∀ q, (name, q) ∈ c.parts → m.Clear s q) :
    ∀ q, (name, q) ∈ d.parts → m.Clear s q := by
  induction p generalizing c d e r with
  | empty | wordEdge | lineStart | textStart =>
    first | obtain rfl := h | obtain ⟨-, rfl⟩ := h
    exact hparts
  | one set =>
    obtain ⟨x, rest, -, -, rfl⟩ := h
    exact hparts
  | seq p q ihp ihq =>
    obtain ⟨x, hx, hq⟩ := h
    obtain ⟨htp, htq⟩ := Bool.and_eq_true_iff.1 hp
    have hmid : m.stops q r = true → m.on x = false := fun hstops => on_start_of_reads hq hstops hd
    refine ihq hq (hx.mem hin).1 (fun he => on_of_reads hx hc he) hd htq ?_
    exact ihp hx hin hc hmid htp hparts
  | alt p q ihp ihq =>
    obtain ⟨htp, htq⟩ := Bool.and_eq_true_iff.1 hp
    exact h.elim (fun h => ihp h hin hc hd htp hparts) fun h => ihq h hin hc hd htq hparts
  | many body =>
    rw [Pattern.Reads.parts_eq (p := .many body) h hp]
    exact hparts
  | few body =>
    rw [Pattern.Reads.parts_eq (p := .few body) h hp]
    exact hparts
  | part other body ih =>
    obtain ⟨x, hx, rfl⟩ := h
    rw [on_note] at hd
    obtain ⟨hpiece, htidy⟩ := Bool.and_eq_true_iff.1 hp
    intro q hq
    rcases List.mem_cons.1 hq with heq | hq
    · obtain ⟨rfl, rfl⟩ := Prod.mk.inj heq
      rw [beq_self_eq_true, Bool.not_true, Bool.false_or, Bool.and_eq_true, Bool.or_eq_true, Bool.or_eq_true] at hpiece
      obtain ⟨hstart, hstop⟩ := hpiece
      refine ⟨?_, ?_⟩
      · change m.seamAt s c.offset = false
        rw [← on_eq m hin]
        exact hstart.elim hc fun hstops => on_start_of_reads hx hstops hd
      · change m.seamAt s x.offset = false
        rw [← on_eq m (hx.mem hin).1]
        exact hstop.elim (fun hedges => on_of_reads hx hc hedges) hd
    · exact ih hx hin hc hd htidy hparts q hq

/-! ## Hits -/

section Hits
variable {f : Finder} {accept : Hit → Bool} {h : Hit} {q : Span}

/-- Whole hits start and stop at no seam. -/
def clean (m : Seam) (p : Pattern) : Bool := m.ends p false && m.stops p (m.ends p false)

/-- The tokens of the finder start and stop at no seam, be they pieces or whole hits. -/
def firm (m : Seam) (f : Finder) : Bool :=
  m.tidy .token f.pattern false (m.ends f.pattern false) && (f.pattern.notes .token || m.clean f.pattern)

theorem stop_of_mem (hf : m.ends f.pattern false = true) (hmem : h ∈ f.hitsWhere accept s) :
    m.seamAt s h.whole.stop = false := by
  obtain ⟨d, hd, heq⟩ := Finder.read_of_hitOf (Finder.hitOf_of_mem hmem)
  have hstop := on_of_read hd hf nofun
  rw [on_eq m (((Pattern.reads_of_read hd).mem (Finder.in_start s _)).1)] at hstop
  rw [heq]
  exact hstop

theorem start_of_mem (hf : m.stops f.pattern (m.ends f.pattern false) = true) (hmem : h ∈ f.hitsWhere accept s) :
    m.seamAt s h.whole.start = false := by
  obtain ⟨d, hd, -⟩ := Finder.read_of_hitOf (Finder.hitOf_of_mem hmem)
  have hstart := on_start_of_reads (Pattern.reads_of_read hd) hf fun hends => on_of_read hd hends nofun
  rwa [on_eq m (Finder.in_start s _)] at hstart

theorem clear_whole_of_mem (hf : m.clean f.pattern = true) (hmem : h ∈ f.hitsWhere accept s) : m.Clear s h.whole := by
  obtain ⟨hends, hstops⟩ := Bool.and_eq_true_iff.1 hf
  exact ⟨start_of_mem hstops hmem, stop_of_mem hends hmem⟩

theorem clear_part_of_mem (hf : m.tidy name f.pattern false (m.ends f.pattern false) = true)
    (hmem : h ∈ f.hitsWhere accept s) (hq : h.part? name = some q) : m.Clear s q := by
  obtain ⟨d, hd, heq⟩ := Finder.read_of_hitOf (Finder.hitOf_of_mem hmem)
  obtain ⟨l, l', hparts, -⟩ := List.lookup_eq_some_iff.1 hq
  have hpiece : (name, q) ∈ d.parts := by
    rw [show d.parts = l ++ (name, q) :: l' by rw [← hparts, heq]]
    exact List.mem_append_right _ List.mem_cons_self
  exact clear_of_reads (Pattern.reads_of_read hd) (Finder.in_start s _) (e := false) nofun
    (r := m.ends f.pattern false) (fun hends => on_of_read hd hends nofun) hf (fun _ hmem => absurd hmem List.not_mem_nil) q hpiece

theorem clear_token_of_mem (hf : m.firm f = true) (hmem : h ∈ f.hitsWhere accept s) : m.Clear s h.token := by
  obtain ⟨htidy, hf⟩ := Bool.and_eq_true_iff.1 hf
  unfold Hit.token
  cases hpart : h.part? .token with
  | some q => exact clear_part_of_mem htidy hmem hpart
  | none =>
    rcases Bool.or_eq_true_iff.1 hf with hnotes | hclean
    · obtain ⟨q, hq⟩ := Finder.exists_part? hmem hnotes
      rw [hpart] at hq
      exact nomatch hq
    · exact clear_whole_of_mem hclean hmem

/-- A piece stops at no seam if what the pieces of its name read as reads up to none from anywhere. -/
theorem stop_of_part (hf : (f.pattern.bodies name).all (m.edges · false) = true) (hmem : h ∈ f.hitsWhere accept s)
    (hq : h.part? name = some q) : m.seamAt s q.stop = false := by
  obtain ⟨body, hbody, a, b, hreads, ha, rfl⟩ := Finder.exists_body hmem hq
  have hstop := on_of_reads hreads (e := false) nofun (List.all_eq_true.1 hf body hbody)
  rwa [on_eq m (hreads.mem ha).1] at hstop

end Hits

/-! ## Seams between two equal characters -/

/-- The places with the same character on both sides, which is no newline. -/
def between (c : Char) : Seam where
  before d := d == c && d != '\n'
  behind d := d == c
  lacks set := !set.holds c
  shuns set := !set.holds c
  full set := set.holds c
  words := true
  holds_of_lacks set h d hd := by
    rw [beq_iff_eq.1 (Bool.and_eq_true_iff.1 hd).1, ← Bool.not_eq_true', h]
  holds_of_shuns set h d hd := by rw [beq_iff_eq.1 hd, ← Bool.not_eq_true', h]
  holds_of_full set h d hd := by rw [beq_iff_eq.1 hd, h]
  isWord_eq _ d d' hd hd' := by rw [beq_iff_eq.1 (Bool.and_eq_true_iff.1 hd).1, beq_iff_eq.1 hd']
  newline := Bool.and_false _

theorem seamAt_between {x : Char} (hx : x ≠ '\n') {i : Nat} :
    (between x).seamAt s i = true ↔ charBefore s i = some x ∧ s[i]? = some x := by
  simp only [seamAt, between, Bool.and_eq_true, Option.any_eq_true, beq_iff_eq, bne_iff_ne]
  constructor
  · rintro ⟨⟨y, hy, rfl, -⟩, z, hz, rfl⟩
    exact ⟨hy, hz⟩
  · rintro ⟨hbefore, hat⟩
    exact ⟨⟨x, hbefore, rfl, hx⟩, x, hat, rfl⟩

end Seam
end SourceLikeness
