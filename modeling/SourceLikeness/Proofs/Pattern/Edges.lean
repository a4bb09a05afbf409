import SourceLikeness.Proofs.Pattern.Seams

/-!
# Where the readings of a pattern start and stop

A place is inside a word if a word character stands on both sides, else it is at an edge. So the places inside words are
the seams of one sort of characters, and much of what a pattern does at edges can be computed from the pattern alone.

* `CharSet.wordless`, `CharSet.full` : sets with no word character, and with all of them; `Seam.word` : the seam;
* `Pattern.edges p e` : `p` reads up to an edge; `e` says that it starts at one;
* `Pattern.stops p r` : `p` reads nothing inside a word; `r` says that what comes behind `p` does not either;
* `Pattern.tidy p e r` : the pieces that `p` notes start and stop at edges;
* `Pattern.ends p` : whenever `p` is left to read as far as it can, it stops at an edge.

Each of these computations comes with the theorem that says so about the readings or about `Pattern.run`. But for `tidy`
they are those of `Seam.word`.
-/

namespace SourceLikeness
open Text (isAsciiWord isWord inside wordAt wordBefore charBefore)

/-! ## Sets of characters -/

namespace CharSet

def Entry.wordless : Entry → Bool
  | char c => !isAsciiWord c
  | range _ _ => false
  | word => false
  | blank => true

/-- The set holds no word character. -/
def wordless : CharSet → Bool
  | only entries => entries.all Entry.wordless
  | except _ => false

/-- The set holds every word character. -/
def full : CharSet → Bool
  | only entries => entries.contains .word
  | except entries => entries.all Entry.wordless

theorem Entry.holds_eq_false {e : Entry} (h : e.wordless = true) {c : Char} (hc : isAsciiWord c = true) :
    e.holds c = false := by
  cases e with
  | char d =>
    rw [Entry.holds, beq_eq_false_iff_ne]
    rintro rfl
    rw [Entry.wordless, hc] at h
    exact Bool.noConfusion h
  | range first last => exact Bool.noConfusion h
  | word => exact Bool.noConfusion h
  | blank => exact Text.isBlank_eq_false_of_isAsciiWord hc

theorem any_holds_eq_false {entries : List Entry} (h : entries.all Entry.wordless = true) {c : Char}
    (hc : isAsciiWord c = true) : entries.any (Entry.holds c) = false := by
  rw [List.any_eq_false]
  intro e he
  rw [Bool.not_eq_true]
  exact Entry.holds_eq_false (List.all_eq_true.1 h e he) hc

theorem holds_eq_false {set : CharSet} (h : set.wordless = true) {c : Char} (hc : isAsciiWord c = true) :
    set.holds c = false := by
  cases set with
  | only entries => exact any_holds_eq_false h hc
  | except entries => exact Bool.noConfusion h

theorem holds_eq_true {set : CharSet} (h : set.full = true) {c : Char} (hc : isAsciiWord c = true) :
    set.holds c = true := by
  cases set with
  | only entries =>
    rw [full, List.contains_iff_mem] at h
    rw [holds, List.any_eq_true]
    refine ⟨.word, h, ?_⟩
    rw [Entry.holds, Text.isWord_eq_isAsciiWord (Text.isAscii_of_isAsciiWord hc), hc]
  | except entries => rw [holds, any_holds_eq_false h hc, Bool.not_false]

end CharSet

/-- The places inside a word. -/
def Seam.word : Seam where
  before := isAsciiWord
  behind := isAsciiWord
  lacks := CharSet.wordless
  shuns := CharSet.wordless
  full := CharSet.full
  words := true
  holds_of_lacks _ h _ := CharSet.holds_eq_false h
  holds_of_shuns _ h _ := CharSet.holds_eq_false h
  holds_of_full _ h _ := CharSet.holds_eq_true h
  isWord_eq _ c d hc hd := by
    rw [Text.isWord_eq_isAsciiWord (Text.isAscii_of_isAsciiWord hc),
      Text.isWord_eq_isAsciiWord (Text.isAscii_of_isAsciiWord hd), hc, hd]
  newline := by decide

/-! ## Places inside a word -/

namespace Cursor
variable {s : List Char} {c d : Cursor}

/-- A word character stands on both sides. -/
def inside (c : Cursor) : Bool := c.before.any isAsciiWord && c.rest.head?.any isAsciiWord

theorem In.inside_eq (h : c.In s) : c.inside = Text.inside s c.offset := by
  rw [inside, Text.inside, wordBefore, wordAt, h.head?, h.before]

/-- In a text of ASCII the edges of words are told by ASCII word characters. -/
theorem In.atWordEdge_eq (h : c.In s) (hs : ∀ x ∈ s, IsAscii x) :
    c.atWordEdge = (wordBefore s c.offset != wordAt s c.offset) := by
  have hany : ∀ i, s[i]?.any isWord = wordAt s i := by
    intro i
    rw [wordAt]
    cases hx : s[i]? with
    | none => rfl
    | some x =>
      rw [Option.any_some, Option.any_some, Text.isWord_eq_isAsciiWord (hs x (List.mem_of_getElem? hx))]
  have hbefore : (charBefore s c.offset).any isWord = wordBefore s c.offset := by
    cases c.offset with
    | zero => rfl
    | succ i => exact hany i
  rw [atWordEdge, h.before, h.head?, hbefore, hany]

@[simp] theorem inside_note (c : Cursor) (name : Part) (d : Cursor) : (c.note name d).inside = d.inside := rfl

theorem isAsciiWord_of_inside (h : c.inside = true) {x : Char} {rest : List Char} (hc : c.rest = x :: rest) :
    isAsciiWord x = true := by
  rw [inside, hc, Bool.and_eq_true] at h
  exact h.2

theorem exists_rest_of_inside (h : c.inside = true) : ∃ x rest, c.rest = x :: rest := by
  cases hc : c.rest with
  | nil =>
    rw [inside, hc, List.head?_nil, Option.any_none, Bool.and_false] at h
    exact Bool.noConfusion h
  | cons x rest => exact ⟨x, rest, rfl⟩

theorem inside_of_atWordEdge (h : c.atWordEdge = true) : c.inside = false := Seam.word.on_of_atWordEdge rfl h

end Cursor

namespace Pattern
variable {β : Type} {p : Pattern} {s : List Char} {c d : Cursor} {k k' : Cursor → Option β} {e r : Bool}

/-! ## Reading up to an edge -/

/-- The pattern reads up to an edge. The flag says that it starts at one. -/
def edges : Pattern → Bool → Bool
  | empty, e => e
  | one set, _ => set.wordless
  | seq first second, e => second.edges (first.edges e)
  | alt first second, e => first.edges e && second.edges e
  | many body, e => e && body.edges true
  | few body, e => e && body.edges true
  | wordEdge, _ => true
  | lineStart, _ => true
  | textStart, _ => true
  | part _ body, e => body.edges e

theorem edges_word (p : Pattern) (e : Bool) : Seam.word.edges p e = p.edges e := by
  induction p generalizing e with
  | wordEdge => exact Bool.or_true e
  | seq p q ihp ihq => rw [Seam.edges, edges, ihp, ihq]
  | alt p q ihp ihq => rw [Seam.edges, edges, ihp, ihq]
  | many body ih | few body ih => rw [Seam.edges, edges, ih]
  | part name body ih => rw [Seam.edges, edges, ih]
  | empty | one _ | lineStart | textStart => rfl

theorem Reads.inside_eq_false (h : p.Reads c d) (hc : e = true → c.inside = false) (hd : p.edges e = true) :
    d.inside = false := Seam.word.on_of_reads h hc ((edges_word p e).trans hd)

/-! ## Reading nothing inside a word -/

/-- Inside a word the pattern has no reading but the empty one, and none at all if the flag says that what
comes behind it has none there either. -/
def stops : Pattern → Bool → Bool
  | empty, r => r
  | one set, _ => set.wordless
  | seq first second, r => first.stops (second.stops r)
  | alt first second, r => first.stops r && second.stops r
  | many body, r => r && body.stops false
  | few body, r => r && body.stops false
  | wordEdge, _ => true
  | lineStart, _ => true
  | textStart, _ => true
  | part _ body, r => body.stops r

theorem stops_word (p : Pattern) (r : Bool) : Seam.word.stops p r = p.stops r := by
  induction p generalizing r with
  | wordEdge => exact Bool.or_true r
  | seq p q ihp ihq => rw [Seam.stops, Pattern.stops, ihq, ihp]
  | alt p q ihp ihq => rw [Seam.stops, Pattern.stops, ihp, ihq]
  | many body ih | few body ih => rw [Seam.stops, Pattern.stops, ih]
  | part name body ih => rw [Seam.stops, Pattern.stops, ih]
  | empty | one _ | lineStart | textStart => rfl

theorem Reads.stops (h : p.Reads c d) (hc : c.inside = true) (hp : p.stops r = true) :
    r = true ∧ d.inside = true := Seam.word.of_reads_on h hc ((stops_word p r).trans hp)

/-- The work fails inside words. -/
def Halts (r : Bool) (k : Cursor → Option β) : Prop := r = true → ∀ d : Cursor, d.inside = true → k d = none

theorem halts_false (k : Cursor → Option β) : Halts false k := nofun

theorem Halts.run (hk : Halts r k) : Halts (p.stops r) fun c => p.run c k := by
  intro hp c hc
  refine run_eq_none fun d hd => ?_
  obtain ⟨hr, hin⟩ := hd.stops hc hp
  exact hk hr d hin

/-! ## Pieces between edges -/

/-- The piece stands in the text from `a` on, and it starts and stops at edges. The condition of a conditional
expression is let off: it may start inside a word. -/
structure Firm (s : List Char) (a : Nat) (piece : Part × Span) : Prop where
  le : a ≤ piece.2.start
  bounds : piece.2.start ≤ s.length ∧ piece.2.stop ≤ s.length
  start : piece.1 ≠ .condition → Text.inside s piece.2.start = false
  stop : Text.inside s piece.2.stop = false

/-- The pieces that the pattern notes are firm. The flags say that it starts at an edge, and that what comes
behind it reads nothing inside a word. -/
def tidy : Pattern → Bool → Bool → Bool
  | seq first second, e, r => first.tidy e (second.stops r) && second.tidy (first.edges e) r
  | alt first second, e, r => first.tidy e r && second.tidy e r
  | many body, e, r => body.tidy (e && body.edges true) (r && body.stops false)
  | few body, e, r => body.tidy (e && body.edges true) (r && body.stops false)
  | part name body, e, r =>
    (name == .condition || e || body.stops r) && (body.edges e || r) && body.tidy e r
  | _, _, _ => true

section Steps
variable {body : Pattern} {a : Nat} (he : e = true → body.edges true = true) (hr : r = true → body.stops false = true)
  (ih : ∀ {c d : Cursor}, body.Reads c d → c.In s → c.offset ≤ s.length → a ≤ c.offset → (e = true → c.inside = false) →
    (r = true → d.inside = false) → (∀ x ∈ c.parts, Firm s a x) → ∀ x ∈ d.parts, Firm s a x)
include he hr ih

/-- What holds of one round holds of many: each round starts at an edge if the first one does, and stops at one
if the last one does. -/
theorem firm_of_steps (h : Relation.ReflTransGen body.Reads c d) (hin : c.In s) (hlen : c.offset ≤ s.length)
    (ha : a ≤ c.offset) (hc : e = true → c.inside = false) (hd : r = true → d.inside = false) (hfirm : ∀ x ∈ c.parts, Firm s a x) :
    ∀ x ∈ d.parts, Firm s a x := by
  induction h using Relation.ReflTransGen.head_induction_on with
  | refl => exact hfirm
  | @head c m hstep hsteps ihsteps =>
    obtain ⟨hm, hle⟩ := hstep.mem hin
    have hmid : r = true → m.inside = false := by
      intro hrt
      rw [← Bool.not_eq_true]
      intro hmin
      have hstops : (many body).stops r = true := by rw [stops, hrt, hr hrt, Bool.and_self]
      obtain ⟨-, hdin⟩ := Reads.stops (p := many body) hsteps hmin hstops
      rw [hd hrt] at hdin
      exact Bool.noConfusion hdin
    have hnext : e = true → m.inside = false := fun het => hstep.inside_eq_false (fun _ => hc het) (he het)
    exact ihsteps hm (hstep.le_length hin hlen) (Nat.le_trans ha hle) hnext (ih hstep hin hlen ha hc hmid hfirm)

end Steps

theorem Reads.firm {a : Nat} (h : p.Reads c d) (hin : c.In s) (hlen : c.offset ≤ s.length) (ha : a ≤ c.offset)
    (hc : e = true → c.inside = false) (hd : r = true → d.inside = false) (hp : p.tidy e r = true) (hfirm : ∀ x ∈ c.parts, Firm s a x) :
    ∀ x ∈ d.parts, Firm s a x := by
  induction p generalizing c d e r with
  | empty | wordEdge | lineStart | textStart =>
    first | obtain rfl := h | obtain ⟨-, rfl⟩ := h
    exact hfirm
  | one set =>
    obtain ⟨x, rest, -, -, rfl⟩ := h
    exact hfirm
  | seq p q ihp ihq =>
    obtain ⟨m, hpm, hq⟩ := h
    obtain ⟨htp, htq⟩ := Bool.and_eq_true_iff.1 hp
    obtain ⟨hm, hle⟩ := hpm.mem hin
    have hmid : q.stops r = true → m.inside = false := by
      intro hstops
      rw [← Bool.not_eq_true]
      intro hmin
      obtain ⟨hr, hdin⟩ := hq.stops hmin hstops
      rw [hd hr] at hdin
      exact Bool.noConfusion hdin
    refine ihq hq hm (hpm.le_length hin hlen) (Nat.le_trans ha hle) (fun he => hpm.inside_eq_false hc he) hd htq ?_
    exact ihp hpm hin hlen ha hc hmid htp hfirm
  | alt p q ihp ihq =>
    obtain ⟨htp, htq⟩ := Bool.and_eq_true_iff.1 hp
    rcases h with h | h
    · exact ihp h hin hlen ha hc hd htp hfirm
    · exact ihq h hin hlen ha hc hd htq hfirm
  | many body ih | few body ih =>
    refine firm_of_steps (e := e && body.edges true) (r := r && body.stops false) ?_ ?_ ?_ h hin hlen ha ?_ ?_ hfirm
    · exact fun he => (Bool.and_eq_true_iff.1 he).2
    · exact fun hr => (Bool.and_eq_true_iff.1 hr).2
    · exact fun hstep hin hlen ha hc hd hfirm => ih hstep hin hlen ha hc hd hp hfirm
    · exact fun he => hc (Bool.and_eq_true_iff.1 he).1
    · exact fun hr => hd (Bool.and_eq_true_iff.1 hr).1
  | part name body ih =>
    obtain ⟨m, hm, rfl⟩ := h
    simp only [tidy, Bool.and_eq_true, Bool.or_eq_true, beq_iff_eq] at hp
    obtain ⟨⟨hstart, hstop⟩, htidy⟩ := hp
    obtain ⟨hmin, -⟩ := hm.mem hin
    rw [Cursor.inside_note] at hd
    refine List.forall_mem_cons.2 ⟨⟨ha, ⟨hlen, hm.le_length hin hlen⟩, ?_, ?_⟩, ih hm hin hlen ha hc hd htidy hfirm⟩
    · intro hname
      change Text.inside s c.offset = false
      rw [← hin.inside_eq]
      rcases hstart with (hstart | hstart) | hstart
      · exact absurd hstart hname
      · exact hc hstart
      · rw [← Bool.not_eq_true]
        intro hcin
        obtain ⟨hr, hdin⟩ := hm.stops hcin hstart
        rw [hd hr] at hdin
        exact Bool.noConfusion hdin
    · change Text.inside s m.offset = false
      rw [← hmin.inside_eq]
      rcases hstop with hstop | hstop
      · exact hm.inside_eq_false hc hstop
      · exact hd hstop

/-! ## Reading as far as one can -/

/-- The work goes on at edges only. -/
def atEdges (k : Cursor → Option β) (d : Cursor) : Option β := if d.inside then none else k d

theorem halts_atEdges (k : Cursor → Option β) : Halts r (atEdges k) := fun _ _ hd => if_pos hd

/-- Whenever the pattern is left to read as far as it can, it stops at an edge. -/
def ends : Pattern → Bool
  | many (one set) => set.full
  | seq first second => second.ends || (first.ends && second.total && second.edges true)
  | alt first second => first.ends && second.ends
  | part _ body => body.ends
  | p => p.edges false

theorem ends_word (hp : p.ends = true) : Seam.word.ends p false = true := by
  have hleaf : ∀ {q : Pattern}, q.edges false = true → Seam.word.edges q false = true := fun h => (edges_word _ false).trans h
  induction p with
  | empty | one _ | wordEdge | lineStart | textStart => exact hleaf hp
  | few body => exact Bool.noConfusion hp
  | many body =>
    cases body with
    | one set => exact Bool.or_eq_true_iff.2 (Or.inl hp)
    | _ => exact Bool.noConfusion hp
  | alt p q ihp ihq =>
    obtain ⟨hpp, hpq⟩ := Bool.and_eq_true_iff.1 hp
    exact Bool.and_eq_true_iff.2 ⟨ihp hpp, ihq hpq⟩
  | seq p q ihp ihq =>
    rcases Bool.or_eq_true_iff.1 hp with hq | hp
    · exact Bool.or_eq_true_iff.2 (Or.inl (Seam.ends_of_false (ihq hq) _))
    · simp only [Bool.and_eq_true] at hp
      have hq : Seam.word.ends q true = true := Seam.ends_of_edges ((edges_word q true).trans hp.2)
      refine Bool.or_eq_true_iff.2 (Or.inr ?_)
      rw [ihp hp.1.1, hp.1.2, hq]
      rfl
  | part name body ih => exact ih hp

/-- If the work succeeds at every edge, a pattern that ends at an edge may as well be told to. -/
theorem run_atEdges (hp : p.ends = true) (hk : ∀ d : Cursor, d.inside = false → (k d).isSome = true) :
    p.run c k = p.run c (atEdges k) := Seam.word.run_off (ends_word hp) nofun hk

end Pattern
end SourceLikeness
