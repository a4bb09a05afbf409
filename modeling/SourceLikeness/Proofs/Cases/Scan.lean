import SourceLikeness.Proofs.Blocks.Depth
import SourceLikeness.Proofs.Renaming.Statement
import Mathlib.Data.Nat.Find

/-!
# Where a case ends

* `FirstStop` : the first offset where something holds and all braces are closed that were opened on the way;
* `EndsCase`, `IsCaseEnd` : what ends a case, and the offset where one ends whose `switch` is closed at `stop`;
* `exists_isCaseEnd_le` : there is one, and it does not lie behind the end of the `switch`;
* `Halts`, `caseEnd_of_firstStop` : the scan for the end of a case takes any `$` for the end of the `switch`.
-/

namespace SourceLikeness.Tokenizer.SwitchStatement
open Bracket
open Text (StandsAt)
variable {s t : List Char} {P Q : Nat → Prop} {c : Char} {d i p q stop : Nat}

theorem slice_cons (hc : s[i]? = some c) (h : i < p) : Span.slice ⟨i, p⟩ s = c :: Span.slice ⟨i + 1, p⟩ s := by
  rw [← Span.slice_append (Nat.le_add_right i 1) h, Span.slice_one hc, List.singleton_append]

/-- The first offset from `i` on where `P` holds and no brace is open, if there are `d` open ones at `i`. -/
structure FirstStop (P : Nat → Prop) (s : List Char) (d i p : Nat) : Prop where
  le : i ≤ p
  level : depth brace? d (Span.slice ⟨i, p⟩ s) = some 0
  holds : P p
  earlier : ∀ q, i ≤ q → q < p → depth brace? d (Span.slice ⟨i, q⟩ s) = some 0 → ¬ P q

namespace FirstStop

theorem le_of (h : FirstStop P s d i p) (hle : i ≤ q) (hlevel : depth brace? d (Span.slice ⟨i, q⟩ s) = some 0) (hq : P q) :
    p ≤ q :=
  Nat.le_of_not_lt fun hlt => h.earlier q hle hlt hlevel hq

/-- If there is an offset of this kind, then there is a first one. -/
theorem exists_le (hle : i ≤ q) (hlevel : depth brace? d (Span.slice ⟨i, q⟩ s) = some 0) (hq : P q) :
    ∃ p ≤ q, FirstStop P s d i p := by
  classical
  have hex : ∃ n, i ≤ n ∧ depth brace? d (Span.slice ⟨i, n⟩ s) = some 0 ∧ P n := ⟨q, hle, hlevel, hq⟩
  obtain ⟨hfound, hlevelFound, hholds⟩ := Nat.find_spec hex
  exact ⟨Nat.find hex, Nat.find_min' hex ⟨hle, hlevel, hq⟩, hfound, hlevelFound, hholds,
    fun n hn hlt hdepth hP => Nat.find_min hex hlt ⟨hn, hdepth, hP⟩⟩

/-- The first of two kinds is the first of one of them if none of the other comes before it. -/
theorem eq_iff (h : FirstStop P s d i p) (h' : FirstStop (fun n => P n ∨ Q n) s d i q) (hpq : P p → ¬ Q p) :
    q = p ↔ ∀ n, i ≤ n → n < p → depth brace? d (Span.slice ⟨i, n⟩ s) = some 0 → ¬ Q n := by
  constructor
  · rintro rfl n hle hlt hlevel hQ
    exact h'.earlier n hle hlt hlevel (Or.inr hQ)
  · intro hnone
    have hqp : q ≤ p := h'.le_of h.le h.level (Or.inl h.holds)
    rcases h'.holds with hP | hQ
    · exact Nat.le_antisymm hqp (h.le_of h'.le h'.level hP)
    · rcases Nat.lt_or_eq_of_le hqp with hlt | heq
      · exact absurd hQ (hnone q h'.le hlt h'.level)
      · exact heq

theorem congr (hP : ∀ n, i ≤ n → n ≤ p → (P n ↔ Q n)) (hst : ∀ n, i ≤ n → n ≤ p →
    depth brace? d (Span.slice ⟨i, n⟩ s) = depth brace? d (Span.slice ⟨i, n⟩ t)) (h : FirstStop P s d i p) :
    FirstStop Q t d i p where
  le := h.le
  level := (hst p h.le (Nat.le_refl p)).symm.trans h.level
  holds := (hP p h.le (Nat.le_refl p)).1 h.holds
  earlier n hle hlt hlevel hQ :=
    h.earlier n hle hlt ((hst n hle (Nat.le_of_lt hlt)).trans hlevel) ((hP n hle (Nat.le_of_lt hlt)).2 hQ)

/-- A character that the first stop is not at is passed. -/
theorem tail (h : FirstStop P s d i p) (hlt : i < p) (hc : s[i]? = some c) :
    ∃ e, turn (brace? c) d = some e ∧ FirstStop P s e (i + 1) p := by
  have hlevel := h.level
  rw [slice_cons hc hlt, depth] at hlevel
  obtain ⟨e, he, hrest⟩ := Option.bind_eq_some_iff.1 hlevel
  refine ⟨e, he, hlt, hrest, h.holds, fun q hle hq hdepth => ?_⟩
  refine h.earlier q (Nat.le_of_succ_le hle) hq ?_
  rw [slice_cons hc hle, depth, he]
  exact hdepth

end FirstStop

/-! ## Ends of cases -/

/-- What ends a case outside of the braces that it has opened: a closing brace or the word of a label. -/
def EndsCase (s : List Char) (p : Nat) : Prop :=
  s[p]? = some '\x7d' ∨ StandsAt "case".toList s p ∨ StandsAt "default".toList s p

/-- A case with a body from `body` on ends here, in a `switch` whose closing brace stands at `stop`. -/
abbrev IsCaseEnd (s : List Char) (stop body p : Nat) : Prop := FirstStop (fun q => EndsCase s q ∨ q = stop) s 0 body p

instance (s : List Char) (p : Nat) : Decidable (EndsCase s p) := inferInstanceAs (Decidable (_ ∨ _ ∨ _))

instance [DecidablePred P] (s : List Char) (d i p : Nat) : Decidable (FirstStop P s d i p) :=
  decidable_of_iff (i ≤ p ∧ depth brace? d (Span.slice ⟨i, p⟩ s) = some 0 ∧ P p ∧
      ∀ q < p, i ≤ q → depth brace? d (Span.slice ⟨i, q⟩ s) = some 0 → ¬ P q)
    ⟨fun ⟨hle, hlevel, hP, hearlier⟩ => ⟨hle, hlevel, hP, fun q hi hq => hearlier q hq hi⟩,
      fun h => ⟨h.le, h.level, h.holds, fun q hq hi => h.earlier q hi hq⟩⟩

/-- Where a text closes a brace that it did not open, all that it had opened is closed. -/
theorem exists_closing {l : List Char} (h : depth brace? d l = none) :
    ∃ n, l[n]? = some '\x7d' ∧ depth brace? d (l.take n) = some 0 := by
  induction l generalizing d with
  | nil => cases h
  | cons c l ih =>
    cases hturn : turn (brace? c) d with
    | none =>
      have hclosing : c = '\x7d' ∧ d = 0 := by
        unfold brace? at hturn
        split_ifs at hturn with hopens hcloses
        · cases hturn
        · cases d with
          | zero => exact ⟨hcloses, rfl⟩
          | succ d => cases hturn
        · cases hturn
      obtain ⟨rfl, rfl⟩ := hclosing
      exact ⟨0, rfl, rfl⟩
    | some e =>
      rw [depth, hturn] at h
      obtain ⟨n, hn, hdepth⟩ := ih h
      refine ⟨n + 1, hn, ?_⟩
      rw [List.take_succ_cons, depth, hturn]
      exact hdepth

/-- A case ends, and not behind the end of the `switch`. -/
theorem exists_isCaseEnd_le {a body : Nat} (hbalanced : Balanced (Span.slice ⟨a, stop⟩ s)) (ha : a ≤ body) (hbody : body ≤ stop) :
    ∃ p ≤ stop, IsCaseEnd s stop body p := by
  cases hrest : depth brace? 0 (Span.slice ⟨body, stop⟩ s) with
  | none =>
    obtain ⟨n, hn, hdepth⟩ := exists_closing hrest
    rw [WorkingCopy.getElem?_slice] at hn
    split_ifs at hn with hlt
    have htake : (Span.slice ⟨body, stop⟩ s).take n = Span.slice ⟨body, body + n⟩ s := by
      rw [Span.slice, Span.slice, List.take_take, Nat.min_eq_left (Nat.le_of_lt hlt), Nat.add_sub_cancel_left]
    rw [htake] at hdepth
    obtain ⟨p, hp, hfirst⟩ := FirstStop.exists_le (P := fun q => EndsCase s q ∨ q = stop) (Nat.le_add_right body n) hdepth
      (Or.inl (Or.inl hn))
    exact ⟨p, by dsimp only at hlt; omega, hfirst⟩
  | some e =>
    -- What is open at the body is closed up to the end of the `switch`, so the rest leaves nothing open.
    have hwhole := nested_iff_depth.1 hbalanced
    rw [← Span.slice_append ha hbody, depth_append] at hwhole
    obtain ⟨k, -, hk⟩ := Option.bind_eq_some_iff.1 hwhole
    have hadd := depth_add hrest k
    rw [Nat.zero_add, hk] at hadd
    have he : e = 0 := by
      have hsum := Option.some.inj hadd
      omega
    exact FirstStop.exists_le hbody (he ▸ hrest) (Or.inr rfl)

/-! ## The scan -/

/-- Where the scan for the end of a case halts: it takes any `$` for the end of the `switch`. -/
def Halts (s : List Char) (p : Nat) : Prop := EndsCase s p ∨ s[p]? = some WorkingCopy.switchEnd

/-- The test of the scan, outside of any brace. -/
theorem halts_iff (hc : s[i]? = some c) (hne : c ≠ '\x7d') : Halts s i ↔
    (c == WorkingCopy.switchEnd || startsWord "case" (Text.charBefore s i) (s.drop i) ||
      startsWord "default" (Text.charBefore s i) (s.drop i)) = true := by
  have hbrace : s[i]? ≠ some '\x7d' := fun h => hne (Option.some.inj (hc.symm.trans h))
  have hsign : s[i]? = some WorkingCopy.switchEnd ↔ c = WorkingCopy.switchEnd := by rw [hc, Option.some.injEq]
  rw [Halts, EndsCase, hsign, Bool.or_eq_true, Bool.or_eq_true, beq_iff_eq, startsWord_iff, startsWord_iff]
  simp only [hbrace, false_or]
  exact or_comm.trans or_assoc.symm

theorem caseEnd_of_halts (hc : s[i]? = some c) (h : Halts s i) :
    caseEnd 0 i (Text.charBefore s i) (s.drop i) = some i := by
  obtain ⟨hlt, hget⟩ := List.getElem?_eq_some_iff.1 hc
  by_cases hbrace : c = '\x7d'
  · subst hbrace
    rw [List.drop_eq_getElem_cons hlt, hget]
    rfl
  · have htest := (halts_iff hc hbrace).1 h
    rw [List.drop_eq_getElem_cons hlt, hget] at htest ⊢
    have hopening : c ≠ '\x7b' := by
      rintro rfl
      exact Bool.noConfusion htest
    rw [caseEnd, if_neg hopening, if_neg hbrace, if_pos]
    exact htest

theorem caseEnd_of_turn {e : Nat} (hc : s[i]? = some c) (hturn : turn (brace? c) d = some e) (h : d = 0 → ¬ Halts s i) :
    caseEnd d i (Text.charBefore s i) (s.drop i) = caseEnd e (i + 1) (Text.charBefore s (i + 1)) (s.drop (i + 1)) := by
  obtain ⟨hlt, hget⟩ := List.getElem?_eq_some_iff.1 hc
  have hbefore : Text.charBefore s (i + 1) = some c := hc
  have hhalts := fun hne => halts_iff hc hne
  rw [hbefore]
  rw [List.drop_eq_getElem_cons hlt, hget] at hhalts ⊢
  rw [caseEnd]
  unfold brace? at hturn
  split_ifs at hturn ⊢ with hopens hcloses hzero htest
  · obtain rfl := Option.some.inj hturn
    rfl
  · subst hzero
    cases hturn
  · obtain ⟨k, rfl⟩ := Nat.exists_eq_succ_of_ne_zero hzero
    obtain rfl := Option.some.inj hturn
    rfl
  · rw [Bool.and_eq_true, decide_eq_true_eq] at htest
    exact absurd ((hhalts hcloses).2 htest.2) (h htest.1)
  · obtain rfl := Option.some.inj hturn
    rfl

/-- The scan finds the first offset of this kind. -/
theorem caseEnd_of_firstStop (h : FirstStop (Halts s) s d i p) (hp : p < s.length) :
    caseEnd d i (Text.charBefore s i) (s.drop i) = some p := by
  induction hn : p - i generalizing d i with
  | zero =>
    obtain rfl : i = p := Nat.le_antisymm h.le (Nat.le_of_sub_eq_zero hn)
    have hd : d = 0 := by
      have hlevel := h.level
      rw [Span.slice, Nat.sub_self, List.take_zero, depth] at hlevel
      exact Option.some.inj hlevel
    subst hd
    exact caseEnd_of_halts (List.getElem?_eq_getElem hp) h.holds
  | succ n ih =>
    have hlt : i < p := by omega
    have hc := List.getElem?_eq_getElem (Nat.lt_trans hlt hp)
    obtain ⟨e, hturn, htail⟩ := h.tail hlt hc
    rw [caseEnd_of_turn hc hturn, ih htail (by omega)]
    rintro rfl
    refine h.earlier i (Nat.le_refl i) hlt ?_
    rw [Span.slice, Nat.sub_self, List.take_zero, depth]

end SourceLikeness.Tokenizer.SwitchStatement
