import SourceLikeness.Proofs.Pattern.Hits

/-!
# Reading a text step by step

What `Pattern.run` does at a place whose next characters are known.

* `Cursor.past` : the place behind some characters;
* `run_text`, `run_many`, `run_many_alt`, `run_few` : how the run goes on behind a text and behind repetitions of a set;
* `run_opt_of_some`, `run_opt_of_none` : and behind what may be left out;
* `run_many_eq_none` : there is no result if there is none behind any part of what can be repeated;
* `reads_many`, `reads_few` : a repetition of a set reads members of the set, and all of them may be read (`reads_many_past`).
-/

namespace SourceLikeness
open Text (isAsciiWord)

/-- The place behind some characters, in front of others. -/
def Cursor.past (c : Cursor) (u v : List Char) : Cursor := ⟨c.offset + u.length, u.getLast?.or c.before, v, c.parts⟩

namespace Cursor
variable {c : Cursor} {u v w : List Char} {y : Char}

theorem past_nil (h : c.rest = v) : c.past [] v = c := by
  subst h
  rfl

@[simp] theorem rest_past : (c.past u v).rest = v := rfl

@[simp] theorem offset_past : (c.past u v).offset = c.offset + u.length := rfl

@[simp] theorem parts_past : (c.past u v).parts = c.parts := rfl

theorem past_past (x : List Char) : (c.past u x).past v w = c.past (u ++ v) w := by
  unfold past
  rw [List.length_append, Nat.add_assoc, List.getLast?_append, Option.or_assoc]

theorem past_advance (w : List Char) : (c.advance y w).past u v = c.past (y :: u) v := by
  unfold past advance
  rw [List.length_cons, Nat.add_right_comm, Nat.add_assoc, List.getLast?_cons]
  cases u.getLast? <;> rfl

end Cursor

namespace Pattern
variable {β : Type} {c d : Cursor} {k : Cursor → Option β} {set : CharSet} {u v w : List Char} {y : β} {a : Char}

theorem run_one (hrest : c.rest = a :: v) (ha : set.holds a = true) : (one set).run c k = k (c.past [a] v) := by
  rw [run_one_of_cons hrest, if_pos ha]
  rfl

theorem run_one_eq_none (h : c.rest.head?.any set.holds = false) : (one set).run c k = none := by
  cases hrest : c.rest with
  | nil => exact run_one_of_nil hrest
  | cons a v =>
    rw [hrest, List.head?_cons, Option.any_some] at h
    rw [run_one_of_cons hrest, h, if_neg Bool.false_ne_true]

/-- A text is read where it stands. -/
theorem run_chars (hrest : c.rest = u ++ v) : (chars u).run c k = k (c.past u v) := by
  have hhold : ∀ a : Char, (CharSet.only [.char a]).holds a = true := fun a => holds_char_iff.2 rfl
  induction u generalizing c with
  | nil =>
    rw [Cursor.past_nil (v := v) hrest]
    rfl
  | cons a u ih =>
    cases u with
    | nil => exact run_one hrest (hhold a)
    | cons b u =>
      change (one (.only [.char a])).run c (fun m => (chars (b :: u)).run m k) = _
      rw [run_one (v := b :: u ++ v) hrest (hhold a), ih rfl, Cursor.past_past, List.singleton_append]

theorem run_text {t : String} (hrest : c.rest = t.toList ++ v) : (text t).run c k = k (c.past t.toList v) :=
  run_chars hrest

/-- Where a text is read, its first character stands. -/
theorem head?_of_reads_text {t : String} {b : Char} (ht : t.toList = b :: u) (h : (text t).Reads c d) :
    c.rest.head? = some b := by
  have hone : ∀ {e : Cursor}, (one (.only [.char b])).Reads c e → c.rest.head? = some b := by
    rintro e ⟨y, rest, hrest, hy, -⟩
    rw [hrest, holds_char_iff.1 hy, List.head?_cons]
  unfold text at h
  rw [ht] at h
  cases u with
  | nil => exact hone h
  | cons d u =>
    obtain ⟨e, he, -⟩ := h
    exact hone he

/-- A text is not read where another character stands. -/
theorem run_text_eq_none {t : String} {b : Char} (ht : t.toList = b :: u) (h : c.rest.head? ≠ some b) :
    (text t).run c k = none := by
  have hnone : ∀ k' : Cursor → Option β, (one (.only [.char b])).run c k' = none := by
    intro k'
    refine run_one_eq_none ?_
    rw [← Bool.not_eq_true]
    intro hany
    obtain ⟨a, ha, hhold⟩ := (Option.any_eq_true _ _).1 hany
    obtain rfl := holds_char_iff.1 hhold
    exact h ha
  unfold text
  rw [ht]
  cases u with
  | nil => exact hnone k
  | cons d u => exact hnone fun m => (chars (d :: u)).run m k

theorem run_seq {p q : Pattern} : (seq p q).run c k = p.run c fun d => q.run d k := rfl

theorem run_alt {p q : Pattern} : (alt p q).run c k = (p.run c k <|> q.run c k) := rfl

theorem run_part {name : Part} {p : Pattern} : (part name p).run c k = p.run c fun d => k (c.note name d) := rfl

theorem run_all_cons {p q : Pattern} {ps : List Pattern} :
    (all (p :: q :: ps)).run c k = p.run c fun d => (all (q :: ps)).run d k := rfl

theorem run_any_cons {p q : Pattern} {ps : List Pattern} :
    (any (p :: q :: ps)).run c k = (p.run c k <|> (any (q :: ps)).run c k) := rfl

theorem run_any_of_none {p q : Pattern} {ps : List Pattern} (h : p.run c k = none) :
    (any (p :: q :: ps)).run c k = (any (q :: ps)).run c k := by
  rw [run_any_cons, h]
  rfl

theorem run_any_of_some {p q : Pattern} {ps : List Pattern} (h : p.run c k = some y) :
    (any (p :: q :: ps)).run c k = some y := by
  rw [run_any_cons, h]
  rfl

theorem run_opt_of_none {p : Pattern} (h : p.run c k = none) : (opt p).run c k = k c := by
  rw [opt, run_alt, h]
  rfl

theorem run_opt_of_some {p : Pattern} (h : p.run c k = some y) : (opt p).run c k = some y := by
  rw [opt, run_alt, h]
  rfl

theorem run_wordEdge (h : c.atWordEdge = true) : wordEdge.run c k = k c := if_pos h

/-! ## Sets -/

theorem holds_noneOf {cs : String} : (CharSet.except (cs.toList.map .char)).holds a = !cs.toList.contains a := by
  have hany : (cs.toList.map CharSet.Entry.char).any (CharSet.Entry.holds a) = cs.toList.contains a := by
    rw [List.any_map, List.contains_eq_any_beq]
    rfl
  rw [CharSet.holds, hany]

theorem holds_blank : (CharSet.only [.blank]).holds a = Text.isBlank a := Bool.or_false _

/-! ## Repetition -/

/-- A repetition reads some characters if its body reads each of them and nothing behind them. -/
theorem greedily_of_some {body : Trial β} (hrest : c.rest = u ++ v)
    (hu : ∀ a ∈ u, ∀ (d : Cursor) w k', d.rest = a :: w → k' (d.past [a] w) = some y → body d k' = some y)
    (hv : ∀ (d : Cursor) k', d.rest = v → body d k' = none) (hk : k (c.past u v) = some y) :
    greedily body c.rest c k = some y := by
  induction u generalizing c with
  | nil =>
    rw [Cursor.past_nil (v := v) hrest] at hk
    rw [List.nil_append] at hrest
    cases hc : c.rest with
    | nil => exact hk
    | cons a left =>
      rw [greedily, hv c _ hrest, hk]
      rfl
  | cons a u ih =>
    obtain ⟨ha, hu⟩ := List.forall_mem_cons.1 hu
    have hnext : greedily body (u ++ v) (c.past [a] (u ++ v)) k = some y := by
      refine ih (c := c.past [a] (u ++ v)) rfl hu ?_
      rw [Cursor.past_past]
      exact hk
    rw [List.cons_append] at hrest
    rw [hrest, greedily, ha c (u ++ v) _ hrest hnext]
    rfl

/-- A repetition reads as far as it can if the work succeeds behind that. -/
theorem run_many (hrest : c.rest = u ++ v) (hu : ∀ a ∈ u, set.holds a = true) (hv : v.head?.any set.holds = false)
    (hk : k (c.past u v) = some y) : (many (one set)).run c k = some y :=
  greedily_of_some hrest (fun a ha _ _ _ hd hnext => (run_one hd (hu a ha)).trans hnext)
    (fun d _ hd => run_one_eq_none (by rw [hd, hv])) hk

/-- So does one that would rather read a member of a set than something else. -/
theorem run_many_alt {p : Pattern} (hrest : c.rest = u ++ v) (hu : ∀ a ∈ u, set.holds a = true)
    (hv : v.head?.any set.holds = false) (hp : ∀ (d : Cursor) (k' : Cursor → Option β), d.rest = v → p.run d k' = none)
    (hk : k (c.past u v) = some y) : (many (alt (one set) p)).run c k = some y := by
  refine greedily_of_some hrest (fun a ha d w k' hd hnext => ?_) (fun d k' hd => ?_) hk
  · rw [run_alt, run_one hd (hu a ha), hnext]
    rfl
  · rw [run_alt, run_one_eq_none (by rw [hd, hv]), hp d k' hd]
    rfl

/-- A repetition gives one character back if the work fails behind all of them. -/
theorem run_many_back (hrest : c.rest = u ++ a :: v) (hu : ∀ b ∈ u, set.holds b = true) (ha : set.holds a = true)
    (hv : v.head?.any set.holds = false) (hnone : k (c.past (u ++ [a]) v) = none) (hk : k (c.past u (a :: v)) = some y) :
    (many (one set)).run c k = some y := by
  change greedily (one set).run c.rest c k = some y
  induction u generalizing c with
  | nil =>
    rw [List.nil_append] at hrest hnone
    rw [Cursor.past_nil (v := a :: v) hrest] at hk
    have hlast : greedily (one set).run v (c.advance a v) k = none := by
      change k (c.advance a v) = none at hnone
      cases v with
      | nil => exact hnone
      | cons b left =>
        rw [greedily, run_one_eq_none hv, hnone]
        rfl
    rw [hrest, greedily, run_one_of_cons hrest, if_pos ha, hlast, hk]
    rfl
  | cons b u ih =>
    obtain ⟨hb, hu⟩ := List.forall_mem_cons.1 hu
    rw [← Cursor.past_advance (u ++ a :: v)] at hk
    rw [List.cons_append, ← Cursor.past_advance (u ++ a :: v)] at hnone
    have hnext : greedily (one set).run (u ++ a :: v) (c.advance b (u ++ a :: v)) k = some y := ih rfl hu hnone hk
    rw [List.cons_append] at hrest
    rw [hrest, greedily, run_one_of_cons hrest, if_pos hb, hnext]
    rfl

theorem greedily_eq_none (hrest : c.rest = u ++ v) (hv : v.head?.any set.holds = false)
    (hk : ∀ u₁ u₂, u₁ ++ u₂ = u → k (c.past u₁ (u₂ ++ v)) = none) : greedily (one set).run c.rest c k = none := by
  induction u generalizing c with
  | nil =>
    have hzero := hk [] [] rfl
    rw [List.nil_append] at hrest hzero
    rw [Cursor.past_nil hrest] at hzero
    cases hc : c.rest with
    | nil => exact hzero
    | cons a left =>
      rw [greedily, run_one_eq_none (by rw [hrest, hv]), hzero]
      rfl
  | cons a u ih =>
    have hzero := hk [] (a :: u) rfl
    rw [Cursor.past_nil hrest] at hzero
    have hnext : greedily (one set).run (u ++ v) (c.advance a (u ++ v)) k = none :=
      ih rfl fun u₁ u₂ hsplit => by
        rw [Cursor.past_advance]
        exact hk (a :: u₁) u₂ (congrArg (a :: ·) hsplit)
    rw [List.cons_append] at hrest
    rw [hrest, greedily, run_one_of_cons hrest, hzero, hnext, ite_self]
    rfl

/-- A repetition leads to nothing if there is nothing behind any part of what it can read. -/
theorem run_many_eq_none (hrest : c.rest = u ++ v) (hv : v.head?.any set.holds = false)
    (hk : ∀ u₁ u₂, u₁ ++ u₂ = u → k (c.past u₁ (u₂ ++ v)) = none) : (many (one set)).run c k = none :=
  greedily_eq_none hrest hv hk

theorem sparingly_of_some (hrest : c.rest = u ++ v) (hu : ∀ a ∈ u, set.holds a = true)
    (hstop : ∀ u₁ u₂, u₁ ++ u₂ = u → u₂ ≠ [] → k (c.past u₁ (u₂ ++ v)) = none) (hk : k (c.past u v) = some y) :
    sparingly (one set).run c.rest c k = some y := by
  induction u generalizing c with
  | nil =>
    rw [Cursor.past_nil (v := v) hrest] at hk
    cases hc : c.rest with
    | nil => exact hk
    | cons a left =>
      rw [sparingly, hk]
      rfl
  | cons a u ih =>
    obtain ⟨ha, hu⟩ := List.forall_mem_cons.1 hu
    have hzero := hstop [] (a :: u) rfl (List.cons_ne_nil _ _)
    rw [Cursor.past_nil hrest] at hzero
    rw [List.cons_append] at hrest
    rw [hrest, sparingly, hzero, run_one_of_cons hrest, if_pos ha]
    rw [← Cursor.past_advance (u ++ v)] at hk
    refine ih (c := c.advance a (u ++ v)) rfl hu (fun u₁ u₂ hsplit hne => ?_) hk
    rw [Cursor.past_advance]
    exact hstop (a :: u₁) u₂ (congrArg (a :: ·) hsplit) hne

/-- A repetition that is to be short reads up to the first place behind which the work succeeds. -/
theorem run_few (hrest : c.rest = u ++ v) (hu : ∀ a ∈ u, set.holds a = true)
    (hstop : ∀ u₁ u₂, u₁ ++ u₂ = u → u₂ ≠ [] → k (c.past u₁ (u₂ ++ v)) = none) (hk : k (c.past u v) = some y) :
    (few (one set)).run c k = some y := sparingly_of_some hrest hu hstop hk

/-! ## What repetitions read -/

theorem reads_many (h : (many (one set)).Reads c d) : ∃ u, c.rest = u ++ d.rest ∧ ∀ a ∈ u, set.holds a = true := by
  induction h using Relation.ReflTransGen.head_induction_on with
  | refl => exact ⟨[], rfl, List.forall_mem_nil _⟩
  | head hstep _ ih =>
    obtain ⟨a, rest, hrest, ha, rfl⟩ := hstep
    obtain ⟨u, hu, hall⟩ := ih
    exact ⟨a :: u, by rw [hrest, List.cons_append, ← hu]; rfl, List.forall_mem_cons.2 ⟨ha, hall⟩⟩

theorem reads_few (h : (few (one set)).Reads c d) : ∃ u, c.rest = u ++ d.rest ∧ ∀ a ∈ u, set.holds a = true :=
  reads_many h

/-- A character of a set is read where it stands. -/
theorem reads_one_past (hrest : c.rest = a :: v) (ha : set.holds a = true) : (one set).Reads c (c.past [a] v) :=
  ⟨a, v, hrest, ha, rfl⟩

theorem reads_many_past (hrest : c.rest = u ++ v) (hu : ∀ a ∈ u, set.holds a = true) : (many (one set)).Reads c (c.past u v) := by
  induction u generalizing c with
  | nil =>
    rw [Cursor.past_nil (v := v) hrest]
    exact .refl
  | cons a u ih =>
    obtain ⟨ha, hu⟩ := List.forall_mem_cons.1 hu
    have hnext := ih (c := c.past [a] (u ++ v)) rfl hu
    rw [Cursor.past_past] at hnext
    exact .head (reads_one_past hrest ha) hnext

theorem reads_few_past (hrest : c.rest = u ++ v) (hu : ∀ a ∈ u, set.holds a = true) : (few (one set)).Reads c (c.past u v) :=
  reads_many_past hrest hu

theorem reads_chars_past (hrest : c.rest = u ++ v) : (chars u).Reads c (c.past u v) := by
  have hhold : ∀ a : Char, (CharSet.only [.char a]).holds a = true := fun a => holds_char_iff.2 rfl
  induction u generalizing c with
  | nil => exact (Cursor.past_nil hrest).symm
  | cons a u ih =>
    cases u with
    | nil => exact reads_one_past hrest (hhold a)
    | cons b u =>
      have hnext := ih (c := c.past [a] (b :: u ++ v)) rfl
      rw [Cursor.past_past] at hnext
      exact ⟨_, reads_one_past hrest (hhold a), hnext⟩

/-- A text is read only where it stands. -/
theorem reads_chars (h : (chars u).Reads c d) : c.rest = u ++ d.rest := by
  have hone : ∀ {c m : Cursor} {a : Char}, (char a).Reads c m → c.rest = a :: m.rest := by
    rintro c m a ⟨b, rest, hrest, hb, rfl⟩
    obtain rfl := holds_char_iff.1 hb
    exact hrest
  induction u generalizing c with
  | nil =>
    obtain rfl := h
    rfl
  | cons a u ih =>
    cases u with
    | nil => exact hone h
    | cons b u =>
      obtain ⟨m, hm, h⟩ := h
      rw [hone hm, ih h]
      rfl

theorem reads_any_text {ts : List String} (h : (any (ts.map text)).Reads c d) : ∃ t ∈ ts, c.rest = t.toList ++ d.rest := by
  induction ts with
  | nil =>
    obtain ⟨a, rest, -, ha, -⟩ := h
    exact absurd ha Bool.false_ne_true
  | cons t ts ih =>
    cases ts with
    | nil => exact ⟨t, List.mem_cons_self, reads_chars h⟩
    | cons t' ts =>
      rcases h with h | h
      · exact ⟨t, List.mem_cons_self, reads_chars h⟩
      · obtain ⟨u, hu, hrest⟩ := ih h
        exact ⟨u, List.mem_cons_of_mem t hu, hrest⟩

end Pattern
end SourceLikeness
