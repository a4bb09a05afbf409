/-!
# Spans of a text

A span is a pair of offsets. Nothing is asked of a span by itself: `start` may lie behind `stop`
and both may lie behind the end of the text, and each operation says what it does then.
-/

namespace SourceLikeness

/-- The part of a text from `start` up to, but not including, `stop`. -/
structure Span where
  start : Nat
  stop : Nat
deriving DecidableEq, Repr, Inhabited

namespace Span

/-- The span that lies inside a text of length `n` and is as close to `s` as possible. -/
def clamp (s : Span) (n : Nat) : Span :=
  let stop := min s.stop n
  ⟨min s.start stop, stop⟩

def shift (s : Span) (n : Nat) : Span := ⟨s.start + n, s.stop + n⟩

def slice {α : Type} (s : Span) (xs : List α) : List α := (xs.drop s.start).take (s.stop - s.start)

end Span
end SourceLikeness
