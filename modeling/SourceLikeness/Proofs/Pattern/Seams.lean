import SourceLikeness.Proofs.Pattern.Reads

/-!
# Where the readings of a pattern meet seams

A seam is a place with a character of one sort before it and one of another sort behind it, such as a place inside a
word. Whether a pattern may start or stop at seams can be computed from the pattern alone.

* `Seam` : the two sorts, with what is known of the sets of characters; `Seam.on`, `Seam.seamAt` : places that are seams;
* `Seam.edges p e` : `p` reads up to a place that is no seam; `e` says that it starts at one that is none;
* `Seam.stops p r` : `p` reads nothing at a seam; `r` says that what comes behind `p` does not either;
* `Seam.ends p e` : left to read as far as it can, `p` stops at no seam.
-/

namespace SourceLikeness
open Text (isWord charBefore)

/-- Two sorts of characters, and what is known of the sets that a character is tested against: which of them hold none of
the first sort, which none of the second, and which all of the second. The flag says that no word edge is a seam. -/
structure Seam where
  before : Char → Bool
  behind : Char → Bool
  lacks : CharSet → Bool
  shuns : CharSet → Bool
  full : CharSet → Bool
  words : Bool
  holds_of_lacks : ∀ set, lacks set = true → ∀ c, before c = true → set.holds c = false
  holds_of_shuns : ∀ set, shuns set = true → ∀ c, behind c = true → set.holds c = false
  holds_of_full : ∀ set, full set = true → ∀ c, behind c = true → set.holds c = true
  isWord_eq : words = true → ∀ c d, before c = true → behind d = true → isWord c = isWord d
  newline : before '\n' = false

namespace Pattern

/-- The pattern has a reading at every place. -/
def total : Pattern → Bool
  | empty => true
  | seq first second => first.total && second.total
  | alt first second => first.total || second.total
  | many _ => true
  | few _ => true
  | part _ body => body.total
  | _ => false

end Pattern

namespace Seam
open Pattern
variable {β : Type} {m : Seam} {p : Pattern} {s : List Char} {c d : Cursor} {k k' : Cursor → Option β} {e r : Bool}

/-! ## Seams of a text -/

/-- The place is a seam. -/
def on (m : Seam) (c : Cursor) : Bool := c.before.any m.before && c.rest.head?.any m.behind

/-- There is a seam at an offset of a text. -/
def seamAt (m : Seam) (s : List Char) (i : Nat) : Bool := (charBefore s i).any m.before && s[i]?.any m.behind

theorem on_eq (m : Seam) (h : c.In s) : m.on c = m.seamAt s c.offset := by rw [on, seamAt, h.head?, h.before]

@[simp] theorem on_note (m : Seam) (c : Cursor) (name : Part) (d : Cursor) : m.on (c.note name d) = m.on d := rfl

theorem on_eq_true_iff : m.on c = true ↔ ∃ x y rest, c.before = some x ∧ c.rest = y :: rest ∧ m.before x = true ∧ m.behind y = true := by
  rw [on, Bool.and_eq_true, Option.any_eq_true, Option.any_eq_true]
  constructor
  · rintro ⟨⟨x, hx, hxm⟩, y, hy, hym⟩
    obtain ⟨rest, hrest⟩ := List.head?_eq_some_iff.1 hy
    exact ⟨x, y, rest, hx, hrest, hxm, hym⟩
  · rintro ⟨x, y, rest, hx, hy, hxm, hym⟩
    exact ⟨⟨x, hx, hxm⟩, y, by rw [hy, List.head?_cons], hym⟩

theorem on_advance {x : Char} {rest : List Char} (h : m.before x = false) : m.on (c.advance x rest) = false := by
  rw [on, Cursor.advance, Option.any_some, h, Bool.false_and]

theorem on_of_rest {x : Char} {rest : List Char} (hc : c.rest = x :: rest) (h : m.behind x = false) : m.on c = false := by
  rw [on, hc, List.head?_cons, Option.any_some, h, Bool.and_false]

theorem on_of_nil (hc : c.rest = []) : m.on c = false := by rw [on, hc, List.head?_nil, Option.any_none, Bool.and_false]

theorem on_of_atWordEdge (hm : m.words = true) (h : c.atWordEdge = true) : m.on c = false := by
  rw [← Bool.not_eq_true, on_eq_true_iff]
  rintro ⟨x, y, rest, hx, hy, hxm, hym⟩
  rw [Cursor.atWordEdge, hx, hy, List.head?_cons, Option.any_some, Option.any_some, m.isWord_eq hm x y hxm hym,
    bne_self_eq_false] at h
  exact Bool.noConfusion h

theorem on_of_atLineStart (h : c.atLineStart = true) : m.on c = false := by
  rw [← Bool.not_eq_true, on_eq_true_iff]
  rintro ⟨x, -, -, hx, -, hxm, -⟩
  rw [Cursor.atLineStart, hx, Option.all_some, beq_iff_eq] at h
  rw [h, m.newline] at hxm
  exact Bool.noConfusion hxm

theorem on_of_isNone (h : c.before.isNone = true) : m.on c = false := by
  rw [on, Option.isNone_iff_eq_none.1 h, Option.any_none, Bool.false_and]

/-! ## Reading up to a place that is no seam -/

/-- The pattern reads up to a place that is no seam. The flag says that it starts at one that is none. -/
def edges (m : Seam) : Pattern → Bool → Bool
  | .empty, e => e
  | .one set, _ => m.lacks set
  | .seq first second, e => m.edges second (m.edges first e)
  | .alt first second, e => m.edges first e && m.edges second e
  | .many body, e => e && m.edges body true
  | .few body, e => e && m.edges body true
  | .wordEdge, e => e || m.words
  | .lineStart, _ => true
  | .textStart, _ => true
  | .part _ body, e => m.edges body e

theorem on_of_reads (h : p.Reads c d) (hc : e = true → m.on c = false) (hp : m.edges p e = true) : m.on d = false := by
  induction p generalizing c d e with
  | empty =>
    obtain rfl := h
    exact hc hp
  | one set =>
    obtain ⟨x, rest, -, hset, rfl⟩ := h
    refine on_advance ?_
    rw [← Bool.not_eq_true]
    intro hx
    rw [m.holds_of_lacks set hp x hx] at hset
    exact Bool.noConfusion hset
  | seq p q ihp ihq =>
    obtain ⟨x, hx, hq⟩ := h
    exact ihq hq (fun he => ihp hx hc he) hp
  | alt p q ihp ihq =>
    obtain ⟨hpp, hpq⟩ := Bool.and_eq_true_iff.1 hp
    exact h.elim (fun h => ihp h hc hpp) fun h => ihq h hc hpq
  | many body ih | few body ih =>
    obtain ⟨he, hbody⟩ := Bool.and_eq_true_iff.1 hp
    induction h with
    | refl => exact hc he
    | tail _ hstep ihsteps => exact ih hstep (fun _ => ihsteps) hbody
  | wordEdge =>
    obtain ⟨hplace, rfl⟩ := h
    rcases Bool.or_eq_true_iff.1 hp with he | hm
    · exact hc he
    · exact on_of_atWordEdge hm hplace
  | lineStart =>
    obtain ⟨hplace, rfl⟩ := h
    exact on_of_atLineStart hplace
  | textStart =>
    obtain ⟨hplace, rfl⟩ := h
    exact on_of_isNone hplace
  | part name body ih =>
    obtain ⟨x, hx, rfl⟩ := h
    rw [on_note]
    exact ih hx hc hp

/-! ## Reading nothing at a seam -/

/-- At a seam the pattern has no reading but the empty one, and none at all if the flag says that what comes behind it has
none there either. -/
def stops (m : Seam) : Pattern → Bool → Bool
  | .empty, r => r
  | .one set, _ => m.shuns set
  | .seq first second, r => m.stops first (m.stops second r)
  | .alt first second, r => m.stops first r && m.stops second r
  | .many body, r => r && m.stops body false
  | .few body, r => r && m.stops body false
  | .wordEdge, r => r || m.words
  | .lineStart, _ => true
  | .textStart, _ => true
  | .part _ body, r => m.stops body r

theorem of_reads_on (h : p.Reads c d) (hc : m.on c = true) (hp : m.stops p r = true) : r = true ∧ m.on d = true := by
  have hplace : ∀ {c : Cursor}, m.on c = true → m.on c = false → False := fun h h' => by
    rw [h] at h'
    exact Bool.noConfusion h'
  induction p generalizing c d r with
  | empty =>
    obtain rfl := h
    exact ⟨hp, hc⟩
  | one set =>
    obtain ⟨x, rest, hrest, hset, -⟩ := h
    obtain ⟨-, y, _, -, hy, -, hym⟩ := on_eq_true_iff.1 hc
    obtain ⟨rfl, -⟩ := List.cons.inj (hrest.symm.trans hy)
    rw [m.holds_of_shuns set hp x hym] at hset
    exact Bool.noConfusion hset
  | seq p q ihp ihq =>
    obtain ⟨x, hx, hq⟩ := h
    obtain ⟨hstops, hxm⟩ := ihp hx hc hp
    exact ihq hq hxm hstops
  | alt p q ihp ihq =>
    obtain ⟨hpp, hpq⟩ := Bool.and_eq_true_iff.1 hp
    exact h.elim (fun h => ihp h hc hpp) fun h => ihq h hc hpq
  | many body ih | few body ih =>
    obtain ⟨hr, hbody⟩ := Bool.and_eq_true_iff.1 hp
    refine ⟨hr, ?_⟩
    induction h with
    | refl => exact hc
    | tail _ hstep ihsteps => exact absurd (ih hstep ihsteps hbody).1 Bool.false_ne_true
  | wordEdge =>
    obtain ⟨hedge, rfl⟩ := h
    rcases Bool.or_eq_true_iff.1 hp with hr | hm
    · exact ⟨hr, hc⟩
    · exact (hplace hc (on_of_atWordEdge hm hedge)).elim
  | lineStart =>
    obtain ⟨hline, rfl⟩ := h
    exact (hplace hc (on_of_atLineStart hline)).elim
  | textStart =>
    obtain ⟨hnone, rfl⟩ := h
    exact (hplace hc (on_of_isNone hnone)).elim
  | part name body ih =>
    obtain ⟨x, hx, rfl⟩ := h
    rw [on_note]
    exact ih hx hc hp

/-- A reading starts at no seam if what it reads up to is none. -/
theorem on_start_of_reads (h : p.Reads c d) (hp : m.stops p r = true) (hd : r = true → m.on d = false) : m.on c = false := by
  rw [← Bool.not_eq_true]
  intro hc
  obtain ⟨hr, hdm⟩ := of_reads_on h hc hp
  rw [hd hr] at hdm
  exact Bool.noConfusion hdm

/-! ## Reading as far as one can -/

/-- What has a reading at every place succeeds at a place that is no seam, if the work does at all of them. -/
theorem isSome_run_of_total (hp : p.total = true) (hk : ∀ d : Cursor, m.on d = false → (k d).isSome = true)
    (hc : m.on c = false) : (p.run c k).isSome = true := by
  induction p generalizing c k with
  | empty => exact hk c hc
  | seq p q ihp ihq =>
    obtain ⟨hpp, hpq⟩ := Bool.and_eq_true_iff.1 hp
    exact ihp hpp (fun x hx => ihq hpq hk hx) hc
  | alt p q ihp ihq =>
    rcases Bool.or_eq_true_iff.1 hp with hp | hp
    · exact isSome_orElse_left (ihp hp hk hc) _
    · exact isSome_orElse_right _ (ihq hp hk hc)
  | many body =>
    unfold run
    cases c.rest with
    | nil => exact hk c hc
    | cons x rest => exact isSome_orElse_right _ (hk c hc)
  | few body =>
    unfold run
    cases c.rest with
    | nil => exact hk c hc
    | cons x rest => exact isSome_orElse_left (hk c hc) _
  | part name body ih => exact ih hp (fun x hx => hk _ hx) hc
  | one _ | wordEdge | lineStart | textStart => exact Bool.noConfusion hp

/-- The work goes on at places that are no seams only. -/
def off (m : Seam) (k : Cursor → Option β) (d : Cursor) : Option β := if m.on d then none else k d

theorem off_of_on_eq_false (h : m.on d = false) : m.off k d = k d := by rw [off, h, if_neg Bool.false_ne_true]

theorem off_of_on (h : m.on d = true) : m.off k d = none := if_pos h

/-- Left to read as far as it can, the pattern stops at no seam. The flag says that it starts at none. -/
def ends (m : Seam) : Pattern → Bool → Bool
  | .many (.one set), e => m.full set || (e && m.lacks set)
  | .many body, e => e && m.ends body true
  | .few _, e => e
  | .seq first second, e =>
    m.ends second (m.edges first e) || (m.ends first e && second.total && m.ends second true)
  | .alt first second, e => m.ends first e && m.ends second e
  | .part _ body, e => m.ends body e
  | p, e => m.edges p e

/-- A pattern that reads up to no seam from anywhere does so from a place that is none. -/
theorem edges_of_false (h : m.edges p false = true) (e : Bool) : m.edges p e = true := by
  induction p generalizing e with
  | seq p q ihp ihq =>
    rw [edges] at h ⊢
    by_cases hp : m.edges p false = true
    · rw [hp] at h
      rw [ihp hp e, h]
    · rw [Bool.eq_false_iff.2 hp] at h
      exact ihq h _
  | alt p q ihp ihq =>
    obtain ⟨hp, hq⟩ := Bool.and_eq_true_iff.1 h
    exact Bool.and_eq_true_iff.2 ⟨ihp hp e, ihq hq e⟩
  | wordEdge => exact Bool.or_eq_true_iff.2 (Or.inr h)
  | part name body ih => exact ih h e
  | one _ | lineStart | textStart => exact h
  | empty | many _ | few _ => exact Bool.noConfusion h

theorem ends_of_edges (h : m.edges p e = true) : m.ends p e = true := by
  induction p generalizing e with
  | seq p q ihp ihq => exact Bool.or_eq_true_iff.2 (Or.inl (ihq h))
  | alt p q ihp ihq =>
    obtain ⟨hp, hq⟩ := Bool.and_eq_true_iff.1 h
    exact Bool.and_eq_true_iff.2 ⟨ihp hp, ihq hq⟩
  | many body ih =>
    obtain ⟨he, hbody⟩ := Bool.and_eq_true_iff.1 h
    cases body with
    | one set => exact Bool.or_eq_true_iff.2 (Or.inr h)
    | _ => exact Bool.and_eq_true_iff.2 ⟨he, ih hbody⟩
  | few body => exact (Bool.and_eq_true_iff.1 h).1
  | part name body ih => exact ih h
  | empty | one _ | wordEdge | lineStart | textStart => exact h

theorem ends_of_false (h : m.ends p false = true) (e : Bool) : m.ends p e = true := by
  induction p generalizing e with
  | seq p q ihp ihq =>
    rcases Bool.or_eq_true_iff.1 h with h | h
    · refine Bool.or_eq_true_iff.2 (Or.inl ?_)
      by_cases hp : m.edges p false = true
      · rw [hp] at h
        rw [edges_of_false hp e, h]
      · rw [Bool.eq_false_iff.2 hp] at h
        exact ihq h _
    · simp only [Bool.and_eq_true] at h
      refine Bool.or_eq_true_iff.2 (Or.inr ?_)
      rw [ihp h.1.1 e, h.1.2, h.2]
      rfl
  | alt p q ihp ihq =>
    obtain ⟨hp, hq⟩ := Bool.and_eq_true_iff.1 h
    exact Bool.and_eq_true_iff.2 ⟨ihp hp e, ihq hq e⟩
  | many body =>
    cases body with
    | one set =>
      rw [ends, Bool.false_and, Bool.or_false] at h
      exact Bool.or_eq_true_iff.2 (Or.inl h)
    | _ => exact Bool.noConfusion h
  | few body => exact Bool.noConfusion h
  | part name body ih => exact ih h e
  | empty | one _ | wordEdge | lineStart | textStart => exact edges_of_false h e

theorem run_off_of_edges (hc : e = true → m.on c = false) (hp : m.edges p e = true) : p.run c k = p.run c (m.off k) :=
  run_congr fun _ hd => (off_of_on_eq_false (on_of_reads hd hc hp)).symm

section Ends
variable (hk : ∀ d : Cursor, m.on d = false → (k d).isSome = true)
include hk

theorem greedily_off_of_full {set : CharSet} (hset : m.full set = true) {left : List Char} (hleft : c.rest = left) :
    greedily (Pattern.one set).run left c (m.off k) = greedily (Pattern.one set).run left c k ∧
      (greedily (Pattern.one set).run left c k).isSome = true := by
  induction left generalizing c with
  | nil => exact ⟨off_of_on_eq_false (on_of_nil hleft), hk c (on_of_nil hleft)⟩
  | cons x left ih =>
    obtain ⟨heq, hsome⟩ := ih (c := c.advance x left) rfl
    rw [greedily, greedily, run_one_of_cons hleft, run_one_of_cons hleft]
    by_cases hx : set.holds x = true
    · rw [if_pos hx, if_pos hx, heq]
      obtain ⟨y, hy⟩ := Option.isSome_iff_exists.1 hsome
      rw [hy]
      exact ⟨rfl, rfl⟩
    · have hbehind : m.behind x = false := by
        rw [← Bool.not_eq_true]
        exact fun hbehind => hx (m.holds_of_full set hset x hbehind)
      rw [if_neg hx, if_neg hx, off_of_on_eq_false (on_of_rest hleft hbehind)]
      exact ⟨rfl, hk c (on_of_rest hleft hbehind)⟩

/-- A repetition succeeds at every place that is no seam: it may as well not start. -/
theorem isSome_greedily {body : Trial β} {left : List Char} (hc : m.on c = false) : (greedily body left c k).isSome = true := by
  cases left with
  | nil => exact hk c hc
  | cons x left => exact isSome_orElse_right _ (hk c hc)

theorem greedily_off {body : Pattern} {left : List Char} (hc : m.on c = false)
    (ih : ∀ {c : Cursor} {k : Cursor → Option β}, m.on c = false → (∀ d : Cursor, m.on d = false → (k d).isSome = true) →
      body.run c k = body.run c (m.off k)) :
    greedily body.run left c k = greedily body.run left c (m.off k) := by
  have hk' : ∀ d : Cursor, m.on d = false → (m.off k d).isSome = true := fun d hd => by
    rw [off_of_on_eq_false hd]
    exact hk d hd
  induction left generalizing c with
  | nil => exact (off_of_on_eq_false hc).symm
  | cons x left ihleft =>
    -- Behind a round both ways to go on succeed at every place that is no seam, and are the same there.
    have hsame : m.off (fun t => greedily body.run left t k) = m.off fun t => greedily body.run left t (m.off k) := by
      funext t
      unfold off
      split_ifs with ht
      · rfl
      · exact ihleft (Bool.not_eq_true _ ▸ ht)
    rw [greedily, greedily, ih hc fun t ht => isSome_greedily hk ht, hsame, ← ih hc fun t ht => isSome_greedily hk' ht,
      off_of_on_eq_false hc]

end Ends

/-- If the work succeeds at every place that is no seam, a pattern that ends at none may as well be told to. -/
theorem run_off (hp : m.ends p e = true) (hc : e = true → m.on c = false)
    (hk : ∀ d : Cursor, m.on d = false → (k d).isSome = true) : p.run c k = p.run c (m.off k) := by
  induction p generalizing c k e with
  | empty | one _ | wordEdge | lineStart | textStart => exact run_off_of_edges hc hp
  | many body ih =>
    have hbody : ∀ e, (e && m.ends body true) = true → (e = true → m.on c = false) →
        (Pattern.many body).run c k = (Pattern.many body).run c (m.off k) := by
      intro e he hc
      obtain ⟨he, hends⟩ := Bool.and_eq_true_iff.1 he
      exact greedily_off hk (hc he) fun hc hk => ih hends (fun _ => hc) hk
    cases body with
    | one set =>
      rcases Bool.or_eq_true_iff.1 hp with hfull | hlacks
      · exact (greedily_off_of_full hk hfull rfl).1.symm
      · exact hbody e hlacks hc
    | _ => exact hbody e hp hc
  | few body =>
    have hsome := hk c (hc hp)
    rw [← off_of_on_eq_false (k := k) (hc hp)] at hsome
    obtain ⟨y, hy⟩ := Option.isSome_iff_exists.1 hsome
    have hy' := hy
    rw [off_of_on_eq_false (hc hp)] at hy'
    unfold run
    cases c.rest with
    | nil => rw [sparingly, sparingly, hy, hy']
    | cons x left =>
      rw [sparingly, sparingly, hy, hy']
      rfl
  | alt p q ihp ihq =>
    obtain ⟨hpp, hpq⟩ := Bool.and_eq_true_iff.1 hp
    rw [run, run, ihp hpp hc hk, ihq hpq hc hk]
  | seq p q ihp ihq =>
    rcases Bool.or_eq_true_iff.1 hp with hq | hp
    · exact run_congr (p := p) fun x hx => ihq hq (fun he => on_of_reads hx hc he) hk
    · simp only [Bool.and_eq_true] at hp
      obtain ⟨⟨hp, htotal⟩, hq⟩ := hp
      have hsome : ∀ x : Cursor, m.on x = false → (q.run x k).isSome = true := fun x hx =>
        isSome_run_of_total htotal hk hx
      have hk' : ∀ d : Cursor, m.on d = false → (m.off k d).isSome = true := fun d hd => by
        rw [off_of_on_eq_false hd]
        exact hk d hd
      have hsome' : ∀ x : Cursor, m.on x = false → (q.run x (m.off k)).isSome = true := fun x hx =>
        isSome_run_of_total htotal hk' hx
      have hsame : m.off (fun x => q.run x k) = m.off fun x => q.run x (m.off k) := by
        funext x
        unfold off
        split_ifs with hx
        · rfl
        · exact ihq hq (fun _ => Bool.not_eq_true _ ▸ hx) hk
      rw [run, run, ihp hp hc hsome, hsame, ← ihp hp hc hsome']
  | part name body ih =>
    have hbody := ih (c := c) (k := fun x => k (c.note name x)) hp hc fun x hx => hk _ hx
    exact hbody

/-- A search stops at no seam if its pattern ends at none. -/
theorem on_of_read (h : p.read c = some d) (hp : m.ends p e = true) (hc : e = true → m.on c = false) : m.on d = false := by
  rw [Pattern.read, run_off hp hc fun _ _ => rfl] at h
  obtain ⟨x, -, hx⟩ := reads_of_run h
  rw [← Bool.not_eq_true]
  intro hd
  by_cases hxm : m.on x = true
  · rw [off_of_on hxm] at hx
    exact nomatch hx
  · rw [off_of_on_eq_false (Bool.not_eq_true _ ▸ hxm)] at hx
    obtain rfl := Option.some.inj hx
    exact hxm hd

end Seam
end SourceLikeness
