import SourceLikeness.Proofs.Token.Stream
import SourceLikeness.Proofs.WorkingCopy.Edit

/-!
# The place of a run

Where `Token.locate` finds a run of symbols, and what of the run lies in the span that it answers with.

* `FirstRun` : the first run of tokens that spells some symbols, with what stands before and behind it;
* `isSome_locate_iff`, `FirstRun.locate_eq` : a run is found if the symbols have it, and the first is;
* `Splits` : a marker inside another token;
* `covers_iff_not_splits` : the span from the start of a run to the stop of its last token covers all of the run, unless
  that last token is a marker inside another one.
-/

namespace SourceLikeness.Token
variable {α : Type} {wanted : List α} {tokens before run after : List (Token α)} {t : Token α} {s : Span}

/-! ## The first run -/

/-- The first run of tokens that spells some symbols. -/
structure FirstRun (wanted : List α) (tokens before run after : List (Token α)) : Prop where
  split : tokens = before ++ run ++ after
  spells : symbols run = wanted
  first : ∀ k < before.length, ¬ wanted <+: symbols (tokens.drop k)

theorem symbols_append (l m : List (Token α)) : symbols (l ++ m) = symbols l ++ symbols m := List.map_append

theorem FirstRun.length_eq (h : FirstRun wanted tokens before run after) : run.length = wanted.length := by
  rw [← h.spells, symbols, List.length_map]

/-- What does not start with the first token starts with one of the rest. -/
theorem FirstRun.cons (h : FirstRun wanted tokens before run after) (ht : ¬ wanted <+: symbols (t :: tokens)) :
    FirstRun wanted (t :: tokens) (t :: before) run after where
  split := by rw [h.split, List.cons_append, List.cons_append]
  spells := h.spells
  first k hk := by
    cases k with
    | zero => exact ht
    | succ k => exact h.first k (Nat.lt_of_succ_lt_succ hk)

/-- Symbols that occur are spelled by a first run. -/
theorem exists_firstRun (h : wanted <:+: symbols tokens) : ∃ before run after, FirstRun wanted tokens before run after := by
  induction tokens with
  | nil =>
    obtain rfl := List.infix_nil.1 h
    exact ⟨[], [], [], rfl, rfl, fun k hk => absurd hk (Nat.not_lt_zero k)⟩
  | cons t tokens ih =>
    by_cases ht : wanted <+: symbols (t :: tokens)
    · refine ⟨[], (t :: tokens).take wanted.length, (t :: tokens).drop wanted.length, ?_, ?_, fun k hk => absurd hk (Nat.not_lt_zero k)⟩
      · rw [List.nil_append, List.take_append_drop]
      · rw [symbols, List.map_take]
        exact (List.prefix_iff_eq_take.1 ht).symm
    · obtain ⟨before, run, after, hrun⟩ := ih ((List.infix_cons_iff.1 h).resolve_left ht)
      exact ⟨t :: before, run, after, hrun.cons ht⟩

theorem isSome_reach? (run : List (Token α)) : (reach? run).isSome = true ↔ run ≠ [] := by
  cases run with
  | nil => simp [reach?]
  | cons t run => simp [reach?, List.getLast?_cons]

section Locate
variable [BEq α] [LawfulBEq α]

/-- The first run is the one that is located. -/
theorem FirstRun.locate_eq (h : FirstRun wanted tokens before run after) : locate wanted tokens = reach? run := by
  induction before generalizing tokens with
  | nil =>
    obtain rfl := h.split
    rw [List.nil_append]
    cases hall : run ++ after with
    | nil =>
      obtain ⟨rfl, -⟩ := List.append_eq_nil_iff.1 hall
      rfl
    | cons t rest =>
      have hprefix : wanted <+: symbols (t :: rest) := by
        rw [← hall, symbols_append, h.spells]
        exact List.prefix_append _ _
      rw [locate, if_pos (List.isPrefixOf_iff_prefix.2 hprefix), ← hall, ← h.length_eq, List.take_left]
  | cons t before ih =>
    obtain rfl := h.split
    have hnot : ¬ wanted.isPrefixOf (symbols (t :: (before ++ run ++ after))) = true :=
      fun hprefix => h.first 0 (Nat.zero_lt_succ _) (List.isPrefixOf_iff_prefix.1 hprefix)
    rw [List.cons_append, List.cons_append, locate, if_neg hnot]
    exact ih ⟨rfl, h.spells, fun k hk => h.first (k + 1) (Nat.succ_lt_succ hk)⟩

/-- Symbols that do not occur are not located. -/
theorem locate_eq_none (h : ¬ wanted <:+: symbols tokens) : locate wanted tokens = none := by
  induction tokens with
  | nil => rfl
  | cons t tokens ih =>
    have hnot : ¬ wanted.isPrefixOf (symbols (t :: tokens)) = true :=
      fun hprefix => h (List.isPrefixOf_iff_prefix.1 hprefix).isInfix
    rw [locate, if_neg hnot]
    exact ih fun hrest => h (List.infix_cons hrest)

/-- A run is located if and only if it has a symbol and occurs. -/
theorem isSome_locate_iff : (locate wanted tokens).isSome = true ↔ wanted ≠ [] ∧ wanted <:+: symbols tokens := by
  by_cases h : wanted <:+: symbols tokens
  · obtain ⟨before, run, after, hrun⟩ := exists_firstRun h
    rw [hrun.locate_eq, isSome_reach?, ← hrun.spells, symbols, ne_eq, ne_eq, List.map_eq_nil_iff]
    rw [← hrun.spells] at h
    exact (and_iff_left h).symm
  · rw [locate_eq_none h]
    exact iff_of_false Bool.false_ne_true fun hboth => h hboth.2

end Locate

/-! ## What the span covers -/

/-- A marker that stands inside another token. -/
def Splits (m k : Token α) : Prop := m.start = m.stop ∧ k.start < m.start ∧ m.start < k.stop

instance (m k : Token α) : Decidable (m.Splits k) := inferInstanceAs (Decidable (_ ∧ _ ∧ _))

/-- A span that covers a token. -/
def Covers (s : Span) (k : Token α) : Prop := s.start ≤ k.start ∧ k.stop ≤ s.stop

instance (s : Span) (k : Token α) : Decidable (Covers s k) := inferInstanceAs (Decidable (_ ∧ _))

/-- Tokens as a stream has them: in order of place, none of them ends before it starts, and no two that are not empty overlap. -/
structure IsStream (run : List (Token α)) : Prop where
  ordered : run.Pairwise fun s t => s.precedes t = true
  bounds : ∀ t ∈ run, t.start ≤ t.stop
  apart : run.Pairwise Apart

theorem IsStream.mono {run tokens : List (Token α)} (h : IsStream tokens) (hsub : run <:+: tokens) : IsStream run :=
  ⟨h.ordered.sublist hsub.sublist, fun t ht => h.bounds t (hsub.subset ht), h.apart.sublist hsub.sublist⟩

/-- The reach of a run goes from the start of its first token to the stop of its last. -/
theorem exists_of_reach? (h : reach? run = some s) :
    ∃ first last, run.head? = some first ∧ run.getLast? = some last ∧ s = ⟨first.start, last.stop⟩ := by
  rw [reach?] at h
  split at h
  · rename_i first last hfirst hlast
    exact ⟨first, last, hfirst, hlast, (Option.some.inj h).symm⟩
  · exact nomatch h

namespace IsStream
variable {first last : Token α}

theorem start_le (h : IsStream run) (hfirst : run.head? = some first) (ht : t ∈ run) : first.start ≤ t.start := by
  obtain ⟨rest, rfl⟩ := List.head?_eq_some_iff.1 hfirst
  have hprecedes := precedes_iff.1 (precedes_of_mem h.ordered ht)
  omega

/-- A token of a run that does not stop with the last one is split by it. -/
theorem stop_le_or_splits (h : IsStream run) (hlast : run.getLast? = some last) (ht : t ∈ run) :
    t.stop ≤ last.stop ∨ last.Splits t := by
  obtain ⟨front, rfl⟩ := List.getLast?_eq_some_iff.1 hlast
  rcases List.mem_append.1 ht with ht | ht
  · have hprecedes := precedes_iff.1 ((List.pairwise_append.1 h.ordered).2.2 t ht last (List.mem_singleton_self last))
    have hapart := (List.pairwise_append.1 h.apart).2.2 t ht last (List.mem_singleton_self last)
    have hbounds := h.bounds last (List.mem_append_right _ (List.mem_singleton_self last))
    rcases hprecedes with hlt | ⟨-, hle⟩
    · rcases Nat.lt_or_eq_of_le hbounds with hsolid | hmarker
      · -- both tokens would be solid if the first one were longer
        refine Or.inl (Nat.le_of_not_lt fun hlong => ?_)
        rcases hapart (by omega) hsolid with hle | hle <;> omega
      · by_cases hinside : last.start < t.stop
        · exact Or.inr ⟨hmarker, hlt, hinside⟩
        · exact Or.inl (by omega)
    · exact Or.inl hle
  · obtain rfl := List.mem_singleton.1 ht
    exact Or.inl (Nat.le_refl _)

/-- **What a run covers.** The span from the start of the first token of a run to the stop of its last covers all of
its tokens, if and only if the last one is no marker inside another. -/
theorem covers_iff_not_splits (h : IsStream run) (hreach : reach? run = some s) :
    (∀ t ∈ run, Covers s t) ↔ ∀ last ∈ run.getLast?, ∀ t ∈ run, ¬ last.Splits t := by
  obtain ⟨first, last, hfirst, hlast, rfl⟩ := exists_of_reach? hreach
  constructor
  · rintro hcovers last' hlast' t ht ⟨hmarker, -, hinside⟩
    obtain rfl := Option.some.inj (hlast.symm.trans hlast')
    have hstop : t.stop ≤ last.stop := (hcovers t ht).2
    omega
  · intro hnot t ht
    exact ⟨h.start_le hfirst ht, (h.stop_le_or_splits hlast ht).resolve_right (hnot last hlast t ht)⟩

end IsStream
end SourceLikeness.Token
