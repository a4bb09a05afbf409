import SourceLikeness.Proofs.Tokenizer.Edits
import SourceLikeness.Proofs.Token.Stream
import SourceLikeness.Proofs.WorkingCopy.Source

/-!
# What holds of the passes and of the token stream

The passes of a tokenizer are sequences of edits of the working copy, so that what no edit undoes holds after
each of them.

* `Mirrors` : a working text that has the bytes of a source in number and its newlines, and is ASCII;
* `edits_take`, `mirrors_take` : the working copy after the first passes;
* `tokenize_perm` : the token stream holds the recorded tokens;
* `tokenize_invariants` : what holds of the stream, and of the working copy after every pass.
-/

namespace SourceLikeness.Tokenizer
open WorkingCopy (Edits Grows)

/-- The working text of a source: a character of ASCII for each of its bytes, and newlines where it has them. -/
structure Mirrors (source : List Char) (w : Work) : Prop where
  length : w.text.length = (utf8 source).length
  ascii : ∀ c ∈ w.text, IsAscii c
  newline : ∀ p : Nat, (utf8 source)[p]? = some 10 → w.text[p]? = some '\n'

theorem mirrors_ofSource (source : List Char) : Mirrors source (.ofSource source) where
  length := by rw [WorkingCopy.text_ofSource, List.length_map]
  ascii := WorkingCopy.ascii_ofSource source
  newline _ := WorkingCopy.newline_ofSource

theorem Mirrors.of_grows {source : List Char} {w w' : Work} (h : Mirrors source w) (hg : w.Grows w') :
    Mirrors source w' where
  length := by
    rw [← h.length, WorkingCopy.text, WorkingCopy.text, List.length_map, List.length_map]
    exact hg.size_eq
  ascii := hg.text_ascii h.ascii
  newline p hp := hg.text_newline (h.newline p hp)

/-! ## The first passes -/

/-- From after some passes to after more of them there are only edits. -/
theorem edits_take (t : Tokenizer) (source : List Char) {m n : Nat} (h : m ≤ n) :
    Edits (runPasses (t.passes.take m) (.ofSource source)) (runPasses (t.passes.take n) (.ofSource source)) := by
  obtain ⟨k, rfl⟩ := Nat.exists_eq_add_of_le h
  rw [List.take_add, runPasses, runPasses, List.foldl_append]
  exact edits_runPasses (fun p hp => isPlain_of_mem_passes (List.mem_of_mem_drop (List.mem_of_mem_take hp))) _

theorem mirrors_take (t : Tokenizer) (source : List Char) (n : Nat) :
    Mirrors source (runPasses (t.passes.take n) (.ofSource source)) :=
  (mirrors_ofSource source).of_grows (edits_take t source (Nat.zero_le n)).grows

theorem sound_run (t : Tokenizer) (source : List Char) : (t.run source).Sound :=
  (edits_runPasses (fun _ hp => isPlain_of_mem_passes hp) _).sound (WorkingCopy.sound_ofSource source)

theorem size_run (t : Tokenizer) (source : List Char) : (t.run source).size = (utf8 source).length :=
  (edits_runPasses (fun _ hp => isPlain_of_mem_passes hp) _).grows.size_eq.trans (WorkingCopy.size_ofSource source)

/-! ## The token stream -/

/-- The token stream holds the recorded tokens, their categories written as symbols. -/
theorem tokenize_perm (t : Tokenizer) (source : List Char) :
    (t.tokenize source).Perm ((t.run source).tokens.map (Token.map t.alphabet.symbol)) :=
  (Token.stream_perm _).map _

/-- **The invariants of the passes.** The tokens of a source are sorted by start and stop, lie inside its
bytes, and no two that are not empty overlap. After any number of passes the working text mirrors the source,
and the next pass leaves the tokens recorded so far in front of its own. -/
theorem tokenize_invariants (t : Tokenizer) (source : List Char) :
    (t.tokenize source).Pairwise (fun a b => a.start < b.start ∨ a.start = b.start ∧ a.stop ≤ b.stop) ∧
    (∀ k ∈ t.tokenize source, k.start ≤ k.stop ∧ k.stop ≤ (utf8 source).length) ∧
    (t.tokenize source).Pairwise Token.Apart ∧
    ∀ n, Mirrors source (runPasses (t.passes.take n) (.ofSource source)) ∧
      (runPasses (t.passes.take n) (.ofSource source)).tokens <+:
        (runPasses (t.passes.take (n + 1)) (.ofSource source)).tokens := by
  refine ⟨?_, ?_, ?_, fun n => ⟨mirrors_take t source n, (edits_take t source (Nat.le_succ n)).grows.tokens⟩⟩
  · rw [tokenize, write, List.pairwise_map]
    exact (Token.pairwise_stream _).imp fun h => Token.precedes_iff.1 h
  · intro k hk
    obtain ⟨k', hk', rfl⟩ := List.mem_map.1 ((tokenize_perm t source).mem_iff.1 hk)
    rw [← size_run t source]
    exact (sound_run t source).bounds k' hk'
  · rw [(tokenize_perm t source).pairwise_iff Token.Apart.symm, List.pairwise_map]
    exact (sound_run t source).apart

/-- An assignment to a name of two bytes: its token starts behind them, and the newline stays behind five. -/
theorem tokenize_invariants_assignment :
    let t : Tokenizer := ⟨.ofDialect .python, by decide⟩
    let source := ['é', '=', 'b', '\n']
    ⟨'A', 2, 3⟩ ∈ t.tokenize source ∧ 3 ≤ (utf8 source).length ∧
      ∀ n, (runPasses (t.passes.take n) (.ofSource source)).text[4]? = some '\n' := by
  intro t source
  have hmem : ⟨'A', 2, 3⟩ ∈ t.tokenize source := by decide +kernel
  obtain ⟨-, hbounds, -, hpasses⟩ := tokenize_invariants t source
  exact ⟨hmem, (hbounds _ hmem).2, fun n => (hpasses n).1.newline 4 (by decide)⟩

end SourceLikeness.Tokenizer
