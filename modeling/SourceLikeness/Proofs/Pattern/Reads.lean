import SourceLikeness.Pattern.Search
import SourceLikeness.Proofs.Text.Word
import Mathlib.Logic.Relation

/-!
# What a pattern may read

`Pattern.run` tries the readings of a pattern in an order of preference. What holds of every reading does not
depend on that order.

* `Pattern.Reads p c d` : `p` may read from the place `c` to the place `d`;
* `reads_of_run` : what `run` finds, it finds behind some reading;
* `run_congr` : how the work goes on matters behind the readings only;
* `isSome_run_of_reads` : a reading behind which the work succeeds leads to a result, if only single characters repeat;
  `reads_of_run_many` : where a greedy repetition stops;
* `Cursor.In s c` : `c` is a place of the text `s`; the readings stay in the text (`Reads.mem`).
-/

namespace SourceLikeness
open Relation (ReflTransGen)

namespace Pattern
variable {β : Type} {c d : Cursor} {k k' : Cursor → Option β} {y : β}

/-- The pattern may read from one place to another. -/
def Reads : Pattern → Cursor → Cursor → Prop
  | empty, c, d => c = d
  | one set, c, d => ∃ x rest, c.rest = x :: rest ∧ set.holds x = true ∧ c.advance x rest = d
  | seq first second, c, e => ∃ d, first.Reads c d ∧ second.Reads d e
  | alt first second, c, d => first.Reads c d ∨ second.Reads c d
  | many body, c, d => ReflTransGen body.Reads c d
  | few body, c, d => ReflTransGen body.Reads c d
  | wordEdge, c, d => c.atWordEdge = true ∧ c = d
  | lineStart, c, d => c.atLineStart = true ∧ c = d
  | textStart, c, d => c.before.isNone = true ∧ c = d
  | part name body, c, e => ∃ d, body.Reads c d ∧ c.note name d = e

theorem run_one_of_nil {set : CharSet} (h : c.rest = []) : (one set).run c k = none := by rw [run, h]

theorem run_one_of_cons {set : CharSet} {x : Char} {rest : List Char} (h : c.rest = x :: rest) :
    (one set).run c k = if set.holds x then k (c.advance x rest) else none := by rw [run, h]

theorem orElse_eq_some {a b : Option β} (h : (a <|> b) = some y) : a = some y ∨ b = some y := by
  cases a with
  | none => exact Or.inr h
  | some z => exact Or.inl h

theorem isSome_orElse_left {a : Option β} (h : a.isSome = true) (b : Option β) : (a <|> b).isSome = true := by
  cases a with
  | none => exact nomatch h
  | some y => rfl

theorem isSome_orElse_right (a : Option β) {b : Option β} (h : b.isSome = true) : (a <|> b).isSome = true := by
  cases a with
  | none => exact h
  | some y => rfl

/-! ## Repetition -/

section Repetition
variable {p : Pattern} (ih : ∀ {c : Cursor} {k : Cursor → Option β} {y : β}, p.run c k = some y →
  ∃ d, p.Reads c d ∧ k d = some y)
include ih

theorem reads_of_greedily {left : List Char} (h : greedily p.run left c k = some y) :
    ∃ d, ReflTransGen p.Reads c d ∧ k d = some y := by
  induction left generalizing c with
  | nil => exact ⟨c, .refl, h⟩
  | cons _ left ihleft =>
    rcases orElse_eq_some h with h | h
    · obtain ⟨d, hd, h⟩ := ih h
      obtain ⟨e, he, hk⟩ := ihleft h
      exact ⟨e, .head hd he, hk⟩
    · exact ⟨c, .refl, h⟩

theorem reads_of_sparingly {left : List Char} (h : sparingly p.run left c k = some y) :
    ∃ d, ReflTransGen p.Reads c d ∧ k d = some y := by
  induction left generalizing c with
  | nil => exact ⟨c, .refl, h⟩
  | cons _ left ihleft =>
    rcases orElse_eq_some h with h | h
    · exact ⟨c, .refl, h⟩
    · obtain ⟨d, hd, h⟩ := ih h
      obtain ⟨e, he, hk⟩ := ihleft h
      exact ⟨e, .head hd he, hk⟩

end Repetition

section Congruence
variable {p : Pattern} (ih : ∀ {c : Cursor} {k k' : Cursor → Option β}, (∀ d, p.Reads c d → k d = k' d) →
  p.run c k = p.run c k')
include ih

theorem greedily_congr {left : List Char} (h : ∀ d, ReflTransGen p.Reads c d → k d = k' d) :
    greedily p.run left c k = greedily p.run left c k' := by
  induction left generalizing c with
  | nil => exact h c .refl
  | cons _ left ihleft =>
    rw [greedily, greedily, h c .refl, ih fun d hd => ihleft fun e he => h e (.head hd he)]

theorem sparingly_congr {left : List Char} (h : ∀ d, ReflTransGen p.Reads c d → k d = k' d) :
    sparingly p.run left c k = sparingly p.run left c k' := by
  induction left generalizing c with
  | nil => exact h c .refl
  | cons _ left ihleft =>
    rw [sparingly, sparingly, h c .refl, ih fun d hd => ihleft fun e he => h e (.head hd he)]

end Congruence

/-! ## All patterns -/

/-- A result comes from the place behind a reading. -/
theorem reads_of_run {p : Pattern} (h : p.run c k = some y) : ∃ d, p.Reads c d ∧ k d = some y := by
  induction p generalizing c k y with
  | empty => exact ⟨c, rfl, h⟩
  | one set =>
    unfold run at h
    split at h
    · exact nomatch h
    · split_ifs at h with hset
      exact ⟨_, ⟨_, _, ‹_›, hset, rfl⟩, h⟩
  | seq p q ihp ihq =>
    obtain ⟨d, hd, h⟩ := ihp h
    obtain ⟨e, he, hk⟩ := ihq h
    exact ⟨e, ⟨d, hd, he⟩, hk⟩
  | alt p q ihp ihq =>
    rcases orElse_eq_some h with h | h
    · obtain ⟨d, hd, hk⟩ := ihp h
      exact ⟨d, Or.inl hd, hk⟩
    · obtain ⟨d, hd, hk⟩ := ihq h
      exact ⟨d, Or.inr hd, hk⟩
  | many body ih => exact reads_of_greedily ih h
  | few body ih => exact reads_of_sparingly ih h
  | wordEdge | lineStart | textStart =>
    unfold run at h
    split_ifs at h with hplace
    exact ⟨c, ⟨hplace, rfl⟩, h⟩
  | part name body ih =>
    obtain ⟨d, hd, hk⟩ := ih h
    exact ⟨_, ⟨d, hd, rfl⟩, hk⟩

/-- Two ways to go on that agree behind the readings lead to the same result. -/
theorem run_congr {p : Pattern} (h : ∀ d, p.Reads c d → k d = k' d) : p.run c k = p.run c k' := by
  induction p generalizing c k k' with
  | empty => exact h c rfl
  | one set =>
    unfold run
    split
    · rfl
    · split_ifs with hset
      · exact h _ ⟨_, _, ‹_›, hset, rfl⟩
      · rfl
  | seq p q ihp ihq => exact ihp fun d hd => ihq fun e he => h e ⟨d, hd, he⟩
  | alt p q ihp ihq =>
    unfold run
    rw [ihp fun d hd => h d (Or.inl hd), ihq fun d hd => h d (Or.inr hd)]
  | many body ih => exact greedily_congr ih h
  | few body ih => exact sparingly_congr ih h
  | wordEdge | lineStart | textStart =>
    unfold run
    split_ifs with hplace
    · exact h c ⟨hplace, rfl⟩
    · rfl
  | part name body ih => exact ih fun d hd => h _ ⟨d, hd, rfl⟩

/-- There is no result where every reading leads to none. -/
theorem run_eq_none {p : Pattern} (h : ∀ d, p.Reads c d → k d = none) : p.run c k = none := by
  rw [Option.eq_none_iff_forall_ne_some]
  intro y hy
  obtain ⟨d, hd, hk⟩ := reads_of_run hy
  rw [h d hd] at hk
  exact nomatch hk

theorem reads_of_read {p : Pattern} (h : p.read c = some d) : p.Reads c d := by
  obtain ⟨e, he, hk⟩ := reads_of_run h
  obtain rfl := Option.some.inj hk
  exact he

/-- What was noted before makes no difference to what can be read. -/
theorem Reads.reparts {p : Pattern} (h : p.Reads c d) (l : List (Part × Span)) :
    ∃ l', p.Reads { c with parts := l } { d with parts := l' } := by
  induction p generalizing c d l with
  | empty =>
    obtain rfl := h
    exact ⟨l, rfl⟩
  | one set =>
    obtain ⟨x, rest, hrest, hx, rfl⟩ := h
    exact ⟨l, x, rest, hrest, hx, rfl⟩
  | seq p q ihp ihq =>
    obtain ⟨m, hm, h⟩ := h
    obtain ⟨l', hp⟩ := ihp hm l
    obtain ⟨l'', hq⟩ := ihq h l'
    exact ⟨l'', _, hp, hq⟩
  | alt p q ihp ihq =>
    rcases h with h | h
    · exact (ihp h l).imp fun _ => Or.inl
    · exact (ihq h l).imp fun _ => Or.inr
  | many body ih | few body ih =>
    induction h with
    | refl => exact ⟨l, .refl⟩
    | tail _ hstep ihsteps =>
      obtain ⟨l', hsteps⟩ := ihsteps
      exact (ih hstep l').imp fun _ hnext => .tail hsteps hnext
  | wordEdge | lineStart | textStart =>
    obtain ⟨hplace, rfl⟩ := h
    exact ⟨l, hplace, rfl⟩
  | part name body ih =>
    obtain ⟨m, hm, rfl⟩ := h
    obtain ⟨l', hbody⟩ := ih hm l
    exact ⟨(name, ⟨c.offset, m.offset⟩) :: l', _, hbody, rfl⟩

/-! ## Readings lead to results -/

/-- All that the pattern repeats is single characters. -/
def simple : Pattern → Bool
  | seq first second => first.simple && second.simple
  | alt first second => first.simple && second.simple
  | many (one _) => true
  | few (one _) => true
  | many _ => false
  | few _ => false
  | part _ body => body.simple
  | _ => true

theorem isSome_greedily_of_steps {set : CharSet} (h : ReflTransGen (one set).Reads c d) (hk : (k d).isSome = true) :
    (greedily (one set).run c.rest c k).isSome = true := by
  induction h using ReflTransGen.head_induction_on with
  | refl =>
    cases d.rest with
    | nil => exact hk
    | cons x rest => exact isSome_orElse_right _ hk
  | head hstep _ ih =>
    obtain ⟨x, rest, hrest, hx, rfl⟩ := hstep
    rw [hrest, greedily, run_one_of_cons hrest, if_pos hx]
    exact isSome_orElse_left ih _

theorem isSome_sparingly_of_steps {set : CharSet} (h : ReflTransGen (one set).Reads c d) (hk : (k d).isSome = true) :
    (sparingly (one set).run c.rest c k).isSome = true := by
  induction h using ReflTransGen.head_induction_on with
  | refl =>
    cases d.rest with
    | nil => exact hk
    | cons x rest => exact isSome_orElse_left hk _
  | head hstep _ ih =>
    obtain ⟨x, rest, hrest, hx, rfl⟩ := hstep
    rw [hrest, sparingly, run_one_of_cons hrest, if_pos hx]
    exact isSome_orElse_right _ ih

/-- There is a result if there is one behind some reading. -/
theorem isSome_run_of_reads {p : Pattern} (hp : p.simple = true) (h : p.Reads c d) (hk : (k d).isSome = true) :
    (p.run c k).isSome = true := by
  induction p generalizing c d k with
  | empty =>
    obtain rfl := h
    exact hk
  | one set =>
    obtain ⟨x, rest, hrest, hx, rfl⟩ := h
    rw [run_one_of_cons hrest, if_pos hx]
    exact hk
  | seq p q ihp ihq =>
    obtain ⟨hpp, hpq⟩ := Bool.and_eq_true_iff.1 hp
    obtain ⟨m, hm, h⟩ := h
    exact ihp hpp hm (ihq hpq h hk)
  | alt p q ihp ihq =>
    obtain ⟨hpp, hpq⟩ := Bool.and_eq_true_iff.1 hp
    exact h.elim (fun h => isSome_orElse_left (ihp hpp h hk) _) fun h => isSome_orElse_right _ (ihq hpq h hk)
  | many body =>
    cases body with
    | one set => exact isSome_greedily_of_steps h hk
    | _ => exact Bool.noConfusion hp
  | few body =>
    cases body with
    | one set => exact isSome_sparingly_of_steps h hk
    | _ => exact Bool.noConfusion hp
  | wordEdge | lineStart | textStart =>
    obtain ⟨hplace, rfl⟩ := h
    unfold run
    rw [if_pos hplace]
    exact hk
  | part name body ih =>
    obtain ⟨m, hm, rfl⟩ := h
    exact ih hp hm hk

theorem steps_of_greedily {set : CharSet} {left : List Char} (hrest : c.rest = left)
    (h : greedily (one set).run left c k = some y) :
    ∃ d, ReflTransGen (one set).Reads c d ∧ k d = some y ∧
      ∀ x rest, d.rest = x :: rest → set.holds x = true → k (d.advance x rest) = none := by
  induction left generalizing c with
  | nil =>
    refine ⟨c, .refl, h, fun x rest hx => ?_⟩
    rw [hrest] at hx
    exact nomatch hx
  | cons a left ih =>
    rw [greedily, run_one_of_cons hrest] at h
    by_cases ha : set.holds a = true
    · rw [if_pos ha] at h
      cases hnext : greedily (one set).run left (c.advance a left) k with
      | some z =>
        rw [hnext] at h
        obtain rfl : z = y := Option.some.inj h
        obtain ⟨d, hd, hk, hlast⟩ := ih (c := c.advance a left) rfl hnext
        exact ⟨d, .head ⟨a, left, hrest, ha, rfl⟩ hd, hk, hlast⟩
      | none =>
        rw [hnext] at h
        refine ⟨c, .refl, h, fun x rest hx _ => ?_⟩
        obtain ⟨rfl, rfl⟩ := List.cons.inj (hrest.symm.trans hx)
        -- else the repetition would succeed behind one more round
        rw [← Option.not_isSome_iff_eq_none]
        intro hk
        have hsome : (greedily (one set).run left (c.advance a left) k).isSome = true := isSome_greedily_of_steps .refl hk
        rw [hnext] at hsome
        exact Bool.noConfusion hsome
    · rw [if_neg ha] at h
      refine ⟨c, .refl, h, fun x rest hx hholds => ?_⟩
      obtain ⟨rfl, -⟩ := List.cons.inj (hrest.symm.trans hx)
      exact absurd hholds ha

/-- A greedy repetition stops where the work fails behind one more round. -/
theorem reads_of_run_many {set : CharSet} (h : (many (one set)).run c k = some y) :
    ∃ d, (many (one set)).Reads c d ∧ k d = some y ∧
      ∀ x rest, d.rest = x :: rest → set.holds x = true → k (d.advance x rest) = none := steps_of_greedily rfl h

end Pattern

/-! ## Places of a text -/

namespace Cursor
open Text (charBefore)
variable {s : List Char} {c d : Cursor}

/-- The place shows what stands in a text before and behind its offset. -/
structure In (s : List Char) (c : Cursor) : Prop where
  rest : c.rest = s.drop c.offset
  before : c.before = charBefore s c.offset

theorem In.head? (h : c.In s) : c.rest.head? = s[c.offset]? := by rw [h.rest, List.head?_drop]

theorem In.getElem? (h : c.In s) {x : Char} {rest : List Char} (hc : c.rest = x :: rest) : s[c.offset]? = some x := by
  rw [← h.head?, hc, List.head?_cons]

theorem In.lt (h : c.In s) {x : Char} {rest : List Char} (hc : c.rest = x :: rest) : c.offset < s.length :=
  (List.getElem?_eq_some_iff.1 (h.getElem? hc)).1

theorem In.advance (h : c.In s) {x : Char} {rest : List Char} (hc : c.rest = x :: rest) : (c.advance x rest).In s where
  rest := by
    change rest = s.drop (c.offset + 1)
    rw [← List.tail_drop, ← h.rest, hc, List.tail_cons]
  before := by
    change some x = s[c.offset]?
    rw [h.getElem? hc]

theorem In.note (h : d.In s) (name : Part) (c : Cursor) : (c.note name d).In s := ⟨h.rest, h.before⟩

end Cursor

namespace Pattern
variable {p : Pattern} {s : List Char} {c d : Cursor}

/-- The readings stay in the text and go to the right. -/
theorem Reads.mem (h : p.Reads c d) (hc : c.In s) : d.In s ∧ c.offset ≤ d.offset := by
  induction p generalizing c d with
  | empty | wordEdge | lineStart | textStart =>
    first | obtain rfl := h | obtain ⟨-, rfl⟩ := h
    exact ⟨hc, Nat.le_refl _⟩
  | one set =>
    obtain ⟨x, rest, hrest, -, rfl⟩ := h
    exact ⟨hc.advance hrest, Nat.le_succ _⟩
  | seq p q ihp ihq =>
    obtain ⟨e, hp, hq⟩ := h
    obtain ⟨he, hle⟩ := ihp hp hc
    obtain ⟨hd, hle'⟩ := ihq hq he
    exact ⟨hd, Nat.le_trans hle hle'⟩
  | alt p q ihp ihq =>
    rcases h with h | h
    · exact ihp h hc
    · exact ihq h hc
  | many body ih | few body ih =>
    induction h with
    | refl => exact ⟨hc, Nat.le_refl _⟩
    | tail _ hstep ihsteps =>
      obtain ⟨he, hle⟩ := ihsteps
      obtain ⟨hd, hle'⟩ := ih hstep he
      exact ⟨hd, Nat.le_trans hle hle'⟩
  | part name body ih =>
    obtain ⟨e, he, rfl⟩ := h
    obtain ⟨hd, hle⟩ := ih he hc
    exact ⟨hd.note name c, hle⟩

/-- The readings stop inside the text if they start there. -/
theorem Reads.le_length (h : p.Reads c d) (hc : c.In s) (hle : c.offset ≤ s.length) : d.offset ≤ s.length := by
  induction p generalizing c d with
  | empty | wordEdge | lineStart | textStart =>
    first | obtain rfl := h | obtain ⟨-, rfl⟩ := h
    exact hle
  | one set =>
    obtain ⟨x, rest, hrest, -, rfl⟩ := h
    exact hc.lt hrest
  | seq p q ihp ihq =>
    obtain ⟨e, hp, hq⟩ := h
    exact ihq hq (hp.mem hc).1 (ihp hp hc hle)
  | alt p q ihp ihq =>
    rcases h with h | h
    · exact ihp h hc hle
    · exact ihq h hc hle
  | many body ih | few body ih =>
    have hsteps : d.In s ∧ d.offset ≤ s.length := by
      induction h with
      | refl => exact ⟨hc, hle⟩
      | tail _ hstep ihsteps => exact ⟨(hstep.mem ihsteps.1).1, ih hstep ihsteps.1 ihsteps.2⟩
    exact hsteps.2
  | part name body ih =>
    obtain ⟨e, he, rfl⟩ := h
    exact ih (d := e) he hc hle

end Pattern
end SourceLikeness
