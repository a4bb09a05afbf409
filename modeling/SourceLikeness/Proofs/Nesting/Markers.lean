import SourceLikeness.Proofs.Nesting.Fences
import SourceLikeness.Proofs.Relabeling.Detector

/-!
# Brace markers are nested

The markers that the passes put around blocks are nested in every stream, whatever the source is and however
the blocks cross each other and the braces of the source.

* `Alphabet.bracket?` : which bracket a character of a stream is;
* `nested_fences` : the brace markers among the categories of a source;
* `nested_markers` : those of a stream.
-/

namespace SourceLikeness
open Bracket

/-- Which bracket a character of an alphabet is. -/
def Alphabet.bracket? (a : Alphabet) (symbol : Char) : Option Bracket :=
  if symbol = a.symbol .openBrace then some .opening
  else if symbol = a.symbol .closeBrace then some .closing
  else none

theorem Alphabet.bracket?_symbol {a : Alphabet} (h : a.fault? = none) (c : Category) :
    a.bracket? (a.symbol c) = c.bracket? := by
  simp only [Alphabet.bracket?, (injective_symbol h).eq_iff]
  cases c <;> rfl

namespace Tokenizer

/-- The brace markers of a source are those around some blocks. -/
theorem exists_blocks (t : Tokenizer) (source : List Char) :
    ∃ blocks : List Span, (∀ b ∈ blocks, b.start ≤ b.stop) ∧ fences (t.run source) = blocks.flatMap fence := by
  obtain ⟨-, blocks, hle, heq⟩ := fenced_runPasses (fenced_passes t.settings) (.ofSource source)
  exact ⟨blocks, hle, heq⟩

theorem nested_fences (t : Tokenizer) (source : List Char) :
    Nested (only Token.isMarker fun k => k.symbol.bracket?) (t.classes source) := by
  obtain ⟨blocks, hle, heq⟩ := t.exists_blocks source
  have hside : ∀ k : Token Category, isFence k = false → only Token.isMarker (fun k => k.symbol.bracket?) k = none := by
    intro k hk
    unfold only
    split_ifs with hmarker
    · rw [isFence, hmarker, Bool.true_and] at hk
      exact Option.isSome_eq_false_iff.1 hk |> Option.isNone_iff_eq_none.1
    · rfl
  rw [nested_iff_depth, ← depth_filter (fun k _ => hside k), classes, Token.stream_filter, ← nested_iff_depth]
  change Nested _ (Token.stream (fences (t.run source)))
  rw [heq]
  have hmarker : ∀ (c : Category) (n : Nat), only Token.isMarker (fun k => k.symbol.bracket?) ⟨c, n, n⟩ = c.bracket? :=
    fun c n => if_pos (beq_self_eq_true n)
  have hprecedes : ∀ b ∈ blocks, (opener b).precedes (closer b) = true := by
    intro b hb
    have hb := hle b hb
    rw [Token.precedes_iff]
    change b.start < b.stop ∨ b.start = b.stop ∧ b.start ≤ b.stop
    omega
  exact Token.nested_stream (fun b => hmarker .openBrace b.start) (fun b => hmarker .closeBrace b.stop) hprecedes

/-- **Brace markers are nested.** In the stream of any source no prefix has more closing than opening markers, and
the whole stream has as many of either. -/
theorem nested_markers (t : Tokenizer) (source : List Char) :
    Nested (only Token.isMarker fun k => t.alphabet.bracket? k.symbol) (t.tokenize source) := by
  have hside : only Token.isMarker (fun k => t.alphabet.bracket? k.symbol) ∘ Token.map t.alphabet.symbol =
      only Token.isMarker fun k => k.symbol.bracket? := by
    funext k
    exact congrArg (fun b => if k.isMarker then b else none) (Alphabet.bracket?_symbol t.fault?_alphabet k.symbol)
  rw [nested_iff_depth, tokenize, write, depth_map, hside, ← nested_iff_depth]
  exact t.nested_fences source

end Tokenizer
end SourceLikeness
