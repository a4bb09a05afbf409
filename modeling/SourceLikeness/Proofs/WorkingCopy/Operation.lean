import SourceLikeness.Proofs.Checked.Basic

/-!
# Any operations in any order

The passes record a token that covers something only by taking it. Here it may also be recorded without claiming its
cells, and an operation may be told any span: a reversed one, one behind the end of the text, one over claimed cells.

* `WorkingCopy.Operation`, `apply`, `run` : an operation with all that it is told, and a sequence of them;
* `Operation.applied?`, `run?` : the same with a check at each use of an offset; no check fails (`run?_eq`);
* `Operation.token?` : the token that an operation asks to be recorded. It is recorded behind the others
  (`tokens_apply`), or it is refused and nothing changes (`apply_of_refused`);
* `takesAll` : a sequence that leaves no token open, which records what covers something by taking it only;
* `run_invariants` : what holds of every state that a sequence of operations reaches.
-/

namespace SourceLikeness.WorkingCopy

/-- A character to fill cells with. -/
abbrev Fill := { c : Char // IsAscii c }

/-- The tokens lie inside the text. -/
def Bounded {α : Type} (w : WorkingCopy α) : Prop := ∀ t ∈ w.tokens, t.start ≤ t.stop ∧ t.stop ≤ w.size

/-- An operation on a working copy. Nothing is asked of its span. -/
inductive Operation (α : Type) where
  | overwrite (s : Span) (fill : Fill)
  | claim (s : Span) (fill : Fill)
  | emit (symbol : α) (s : Span)
  | take (symbol : α) (s : Span) (fill : Fill)
  | mark (symbol : α) (place : Nat)

namespace Operation
variable {α : Type} {w : WorkingCopy α} {op : Operation α} {t : Token α}

def apply : Operation α → WorkingCopy α → WorkingCopy α
  | overwrite s fill, w => w.overwrite s fill
  | claim s fill, w => w.claim s fill
  | emit symbol s, w => w.emit symbol s
  | take symbol s fill, w => w.take symbol s fill
  | mark symbol place, w => w.mark symbol place

/-- Performs operations one after the other. -/
def run (ops : List (Operation α)) (w : WorkingCopy α) : WorkingCopy α := ops.foldl (fun w op => op.apply w) w

/-- The token that an operation asks to be recorded. -/
def token? : Operation α → Option (Token α)
  | overwrite .. | claim .. => none
  | emit symbol s | take symbol s _ => some ⟨symbol, s.start, s.stop⟩
  | mark symbol place => some ⟨symbol, place, place⟩

/-! ## One operation -/

theorem grows_apply (op : Operation α) (w : WorkingCopy α) : w.Grows (op.apply w) := by
  cases op with
  | overwrite s fill => exact grows_overwrite w s fill.2
  | claim s fill => exact grows_claim w s fill.2
  | emit symbol s => exact grows_emit w symbol s
  | take symbol s fill => exact grows_take w symbol s fill.2
  | mark symbol place => exact grows_emit w symbol _

/-- An operation whose token is refused changes nothing. -/
theorem apply_of_refused (ht : op.token? = some t) (hw : w.admits t.span = false) : op.apply w = w := by
  have hne : ¬ w.admits t.span = true := Bool.eq_false_iff.1 hw
  cases op with
  | overwrite s fill => exact nomatch ht
  | claim s fill => exact nomatch ht
  | emit symbol s =>
    obtain rfl := Option.some.inj ht
    exact if_neg hne
  | take symbol s fill =>
    obtain rfl := Option.some.inj ht
    exact if_neg hne
  | mark symbol place =>
    obtain rfl := Option.some.inj ht
    exact if_neg hne

/-- A token that is admitted is recorded behind the others. -/
theorem tokens_apply_of_admits (ht : op.token? = some t) (hw : w.admits t.span = true) :
    (op.apply w).tokens = w.tokens ++ [t] := by
  have hemit : ∀ symbol, w.emit symbol t.span = { w with tokens := w.tokens ++ [⟨symbol, t.start, t.stop⟩] } :=
    fun symbol => if_pos hw
  cases op with
  | overwrite s fill => exact nomatch ht
  | claim s fill => exact nomatch ht
  | emit symbol s =>
    obtain rfl := Option.some.inj ht
    exact congrArg WorkingCopy.tokens (hemit symbol)
  | take symbol s fill =>
    obtain rfl := Option.some.inj ht
    have htake : w.take symbol s fill = (w.emit symbol s).claim s fill := if_pos hw
    rw [apply, htake]
    exact congrArg WorkingCopy.tokens (hemit symbol)
  | mark symbol place =>
    obtain rfl := Option.some.inj ht
    exact congrArg WorkingCopy.tokens (hemit symbol)

/-- An operation records its token, if it has one and it is admitted, and no other. -/
theorem tokens_apply (op : Operation α) (w : WorkingCopy α) :
    (op.apply w).tokens = w.tokens ++ (op.token?.filter fun t => w.admits t.span).toList := by
  cases ht : op.token? with
  | none =>
    have hsame : (op.apply w).tokens = w.tokens := by
      cases op with
      | overwrite | claim => rfl
      | emit | take | mark => exact nomatch ht
    rw [hsame, Option.filter_none, Option.toList_none, List.append_nil]
  | some t =>
    cases hw : w.admits t.span with
    | false =>
      rw [apply_of_refused ht hw, Option.filter_some, hw, if_neg Bool.false_ne_true, Option.toList_none, List.append_nil]
    | true => rw [tokens_apply_of_admits ht hw, Option.filter_some, hw, if_pos rfl, Option.toList_some]

/-! ## With checks -/

/-- An operation with a check at each use of an offset. Recording a token has none: a span is looked at before it
is used. -/
def applied? : Operation α → WorkingCopy α → Option (WorkingCopy α)
  | overwrite s fill, w => w.overwrite? s fill
  | claim s fill, w => w.claim? s fill
  | emit symbol s, w => some (w.emit symbol s)
  | take symbol s fill, w => w.take? symbol s fill
  | mark symbol place, w => some (w.mark symbol place)

def run? (ops : List (Operation α)) (w : WorkingCopy α) : Option (WorkingCopy α) :=
  ops.foldlM (fun w op => op.applied? w) w

theorem applied?_eq (hw : AllAscii w.text) (op : Operation α) : op.applied? w = some (op.apply w) := by
  cases op with
  | overwrite s fill => exact overwrite?_eq hw s fill
  | claim s fill => exact claim?_eq hw s fill
  | take symbol s fill => exact take?_eq hw symbol s fill
  | emit | mark => rfl

/-! ## Many operations -/

theorem run_cons (op : Operation α) (ops : List (Operation α)) (w : WorkingCopy α) :
    run (op :: ops) w = run ops (op.apply w) := rfl

theorem grows_run (ops : List (Operation α)) (w : WorkingCopy α) : w.Grows (run ops w) := by
  induction ops generalizing w with
  | nil => exact Grows.refl w
  | cons op ops ih => exact (grows_apply op w).trans (ih _)

theorem run?_eq (hw : AllAscii w.text) (ops : List (Operation α)) : run? ops w = some (run ops w) := by
  induction ops generalizing w with
  | nil => rfl
  | cons op ops ih =>
    rw [run?, List.foldlM_cons, applied?_eq hw, Option.bind_eq_bind, Option.bind_some, run_cons]
    exact ih ((grows_apply op w).text_ascii hw)

theorem bounded_apply (op : Operation α) (hw : Bounded w) : Bounded (op.apply w) := by
  intro t ht
  rw [(grows_apply op w).size_eq]
  rw [tokens_apply, List.mem_append, Option.mem_toList, Option.filter_eq_some_iff] at ht
  rcases ht with ht | ⟨-, hadm⟩
  · exact hw t ht
  · obtain ⟨hle, hstop, -⟩ := admits_iff.1 hadm
    exact ⟨hle, hstop⟩

theorem bounded_run (ops : List (Operation α)) (hw : Bounded w) : Bounded (run ops w) := by
  induction ops generalizing w with
  | nil => exact hw
  | cons op ops ih => exact ih (bounded_apply op hw)

/-! ## Tokens that cover something -/

/-- Whether an operation records a token that covers something and does not claim it. -/
def leavesOpen : Operation α → WorkingCopy α → Bool
  | emit _ s, w => w.admits s && s.start != s.stop
  | _, _ => false

/-- Whether operations one after the other record what covers something by taking it only. -/
def takesAll : List (Operation α) → WorkingCopy α → Bool
  | [], _ => true
  | op :: ops, w => !op.leavesOpen w && takesAll ops (op.apply w)

/-- An operation that leaves no token open is one that a pass may perform, or does nothing. -/
theorem edits_apply (h : op.leavesOpen w = false) : Edits w (op.apply w) := by
  cases op with
  | overwrite s fill => exact Edits.overwrite .refl s fill.2
  | claim s fill => exact Edits.claim .refl s fill.2
  | take symbol s fill => exact Edits.take .refl symbol s fill.2
  | mark symbol place => exact Edits.mark .refl symbol place
  | emit symbol s =>
    rcases Bool.and_eq_false_iff.1 h with hadm | hempty
    · have hsame : (emit symbol s).apply w = w := apply_of_refused rfl hadm
      exact hsame.symm ▸ .refl
    · have hs : s = ⟨s.start, s.start⟩ := congrArg (Span.mk s.start) (bne_eq_false_iff_eq.1 hempty).symm
      exact hs ▸ Edits.mark .refl symbol s.start

theorem edits_run {ops : List (Operation α)} (h : takesAll ops w = true) : Edits w (run ops w) := by
  induction ops generalizing w with
  | nil => exact .refl
  | cons op ops ih =>
    obtain ⟨hop, hops⟩ := Bool.and_eq_true_iff.1 h
    exact (edits_apply (Bool.not_eq_true' _ ▸ hop)).trans (ih hops)

/-! ## The states that are reached -/

/-- **The invariants of the operations.** Any operations with any spans go through, and in the state that they reach
from a source the working text has the source's number of bytes, is ASCII and shows its newlines, and the tokens lie
inside it. No further operations change a newline, a claim or a token of that state. A token that is asked for is
recorded if it lies inside the text and on no claimed cell; else it is refused and nothing changes. If what covers
something was recorded by taking it only, tokens that cover something lie apart from each other and on claimed cells. -/
theorem run_invariants (source : List Char) (ops more : List (Operation α)) :
    let w := run ops (.ofSource source)
    run? ops (.ofSource source) = some w ∧
      ((utf8 w.text).length = (utf8 source).length ∧ AllAscii w.text ∧
        ∀ p : Nat, (utf8 source)[p]? = some 10 → w.text[p]? = some '\n') ∧
      w.Grows (run more w) ∧
      (∀ t ∈ w.tokens, t.start ≤ t.stop ∧ t.stop ≤ (utf8 source).length) ∧
      (∀ (op : Operation α) (t : Token α), op.token? = some t →
        (w.admits t.span = true ↔ t.start ≤ t.stop ∧ t.stop ≤ w.size ∧
          ∀ p c, t.start ≤ p → p < t.stop → w.cells[p]? = some c → c.claimed = false) ∧
        if w.admits t.span then (op.apply w).tokens = w.tokens ++ [t] else op.apply w = w) ∧
      (takesAll ops (.ofSource source) = true → w.tokens.Pairwise Token.Apart ∧
        ∀ t ∈ w.tokens, ∀ p, t.start ≤ p → p < t.stop → ∃ c, w.cells[p]? = some c ∧ c.claimed = true) := by
  intro w
  have hsource : AllAscii (ofSource source : WorkingCopy α).text := ascii_ofSource source
  have hgrows : (ofSource source).Grows w := grows_run ops _
  have hascii : AllAscii w.text := hgrows.text_ascii hsource
  have hsize : w.size = (utf8 source).length := hgrows.size_eq.trans (size_ofSource source)
  refine ⟨run?_eq hsource ops, ⟨?_, hascii, fun p hp => hgrows.text_newline (newline_ofSource hp)⟩, grows_run more w,
    ?_, ?_, ?_⟩
  · rw [hascii.length_utf8, ← size_eq_length_text, hsize]
  · rw [← hsize]
    exact bounded_run ops (List.forall_mem_nil _)
  · intro op t ht
    refine ⟨admits_iff, ?_⟩
    cases hadm : w.admits t.span with
    | false => exact apply_of_refused ht hadm
    | true => exact tokens_apply_of_admits ht hadm
  · intro htakes
    have hsound : w.Sound := (edits_run htakes).sound (sound_ofSource source)
    exact ⟨hsound.apart, hsound.claimed⟩

/-- Two bytes stand for the first character. A taken token stays, a token over it and a reversed one are refused, a
marker on it is not, and claiming all and more keeps the newline. -/
theorem run_invariants_taken :
    let ops : List (Operation Char) := [.take 'X' ⟨3, 5⟩ ⟨'.', by decide⟩, .emit 'Y' ⟨4, 5⟩, .emit 'Y' ⟨5, 3⟩,
      .overwrite ⟨9, 1⟩ ⟨' ', by decide⟩, .mark 'Z' 4, .claim ⟨0, 99⟩ ⟨' ', by decide⟩]
    let w := run ops (.ofSource ['é', '\n', 'a', 'b'])
    takesAll ops (.ofSource ['é', '\n', 'a', 'b']) = true ∧ w.tokens = [⟨'X', 3, 5⟩, ⟨'Z', 4, 4⟩] ∧
      w.text[2]? = some '\n' ∧ w.tokens.Pairwise Token.Apart := by
  intro ops w
  have htakes : takesAll ops (.ofSource ['é', '\n', 'a', 'b']) = true := by decide
  obtain ⟨-, ⟨-, -, hnewline⟩, -, -, -, hsound⟩ := run_invariants ['é', '\n', 'a', 'b'] ops []
  exact ⟨htakes, by decide, hnewline 2 (by decide), (hsound htakes).1⟩

end Operation
end SourceLikeness.WorkingCopy
