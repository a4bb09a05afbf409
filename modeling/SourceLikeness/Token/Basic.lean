import SourceLikeness.Span

/-!
# Tokens and token streams

* `Token α` : a span that was given a symbol; it is a marker if the span is empty;
* `Token.stream` : tokens in order of their place;
* `symbols`, `locate` : the symbols of a stream, and the place where a run of them stands.
-/

namespace SourceLikeness

/-- A span of a text together with the symbol it was given. -/
structure Token (α : Type) where
  symbol : α
  start : Nat
  stop : Nat
deriving DecidableEq, Repr

namespace Token
variable {α β : Type}

def span (t : Token α) : Span := ⟨t.start, t.stop⟩

/-- A marker covers nothing and only stands at a place. -/
def isMarker (t : Token α) : Bool := t.start == t.stop

def map (f : α → β) (t : Token α) : Token β := ⟨f t.symbol, t.start, t.stop⟩

/-- The order of a stream: by start, then by stop. -/
def precedes (s t : Token α) : Bool := s.start < t.start || (s.start == t.start && s.stop ≤ t.stop)

/-- Puts a token into a stream, in front of the tokens of its own place. -/
def insert (t : Token α) : List (Token α) → List (Token α)
  | [] => [t]
  | s :: rest => if t.precedes s then t :: s :: rest else s :: insert t rest

/-- Tokens in order of place. Tokens of one place keep their order. -/
def stream (tokens : List (Token α)) : List (Token α) := tokens.foldr insert []

def symbols (tokens : List (Token α)) : List α := tokens.map symbol

/-- The span of a list of tokens, from where the first starts to where the last stops. -/
def reach? (tokens : List (Token α)) : Option Span :=
  match tokens.head?, tokens.getLast? with
  | some first, some last => some ⟨first.start, last.stop⟩
  | _, _ => none

/-- Where a run of symbols stands in a stream: the reach of its first occurrence. The empty run
stands nowhere. -/
def locate [BEq α] (wanted : List α) : List (Token α) → Option Span
  | [] => none
  | t :: rest =>
    if wanted.isPrefixOf (symbols (t :: rest)) then reach? ((t :: rest).take wanted.length)
    else locate wanted rest

end Token
end SourceLikeness
