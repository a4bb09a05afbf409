import SourceLikeness.Proofs.Tiling.Run
import Mathlib.Data.List.Induction

/-!
# The greedy choice of tiles, one at a time

The rule that a tiling follows, said of the two lists alone: as long as some run of uncovered elements is
long enough, the longest is committed, and of several the one that stands first.

* `Tile.CoversCandidate`, `Tile.CoversReference`, `Tile.Apart` : the places that a tile covers;
* `Pairs`, `Available` : the runs of equal elements, and those that touch no tile of a list;
* `IsChoice` : the tile that is committed next; there is at most one (`IsChoice.unique`);
* `Greedy` : the lists of tiles that are committed so; `IsGreedyTiling` : those to which nothing can be
  added. There is at most one of these (`IsGreedyTiling.unique`);
* `Greedy.pairs`, `Greedy.pairwise_apart` : what holds of all tiles of such a list.
-/

namespace SourceLikeness

namespace Tile

/-- A tile covers a place of the candidate. -/
def CoversCandidate (t : Tile) (p : Nat) : Prop := t.candidate ≤ p ∧ p < t.candidate + t.length

/-- A tile covers a place of the reference. -/
def CoversReference (t : Tile) (p : Nat) : Prop := t.reference ≤ p ∧ p < t.reference + t.length

instance (t : Tile) (p : Nat) : Decidable (t.CoversCandidate p) := inferInstanceAs (Decidable (_ ∧ _))

instance (t : Tile) (p : Nat) : Decidable (t.CoversReference p) := inferInstanceAs (Decidable (_ ∧ _))

/-- Two tiles have no place in common, in the candidate or in the reference. -/
def Apart (s t : Tile) : Prop :=
  (∀ p, ¬ (s.CoversCandidate p ∧ t.CoversCandidate p)) ∧ ∀ p, ¬ (s.CoversReference p ∧ t.CoversReference p)

theorem Before.asymm {s t : Tile} (h : s.Before t) : ¬ t.Before s := by
  unfold Before at *
  omega

theorem coversCandidate_add {t : Tile} {k : Nat} (hk : k < t.length) : t.CoversCandidate (t.candidate + k) :=
  ⟨by omega, by omega⟩

theorem coversReference_add {t : Tile} {k : Nat} (hk : k < t.length) : t.CoversReference (t.reference + k) :=
  ⟨by omega, by omega⟩

/-- A tile that is not empty touches itself. -/
theorem Apart.irrefl {t : Tile} (h : t.Apart t) : ¬ 0 < t.length := fun ht =>
  h.1 t.candidate ⟨⟨by omega, by omega⟩, ⟨by omega, by omega⟩⟩

end Tile

namespace Tiling
variable {α : Type} [BEq α] {candidate reference : List α} {least : Nat}

/-! ## The runs that can be chosen -/

/-- The elements of a tile in the candidate equal those in the reference, one by one. -/
def Pairs (candidate reference : List α) (t : Tile) : Prop :=
  ∀ k < t.length, ∃ x y,
    candidate[t.candidate + k]? = some x ∧ reference[t.reference + k]? = some y ∧ (x == y) = true

/-- A run of equal elements that no tile of a list covers. -/
def Available (candidate reference : List α) (tiles : List Tile) (t : Tile) : Prop :=
  Pairs candidate reference t ∧ ∀ s ∈ tiles, s.Apart t

theorem Pairs.candidate_le {t : Tile} (h : Pairs candidate reference t) (ht : 0 < t.length) :
    t.candidate + t.length ≤ candidate.length := by
  obtain ⟨x, -, hx, -⟩ := h (t.length - 1) (by omega)
  have := (List.getElem?_eq_some_iff.1 hx).1
  omega

theorem Pairs.reference_le {t : Tile} (h : Pairs candidate reference t) (ht : 0 < t.length) :
    t.reference + t.length ≤ reference.length := by
  obtain ⟨-, y, -, hy, -⟩ := h (t.length - 1) (by omega)
  have := (List.getElem?_eq_some_iff.1 hy).1
  omega

/-! ## The choice -/

/-- The tile that is committed next, out of those that can be: it is long enough, none is longer, and
all others of its length stand behind it. -/
structure IsChoice (least : Nat) (free : Tile → Prop) (t : Tile) : Prop where
  available : free t
  least_le : least ≤ t.length
  longest : ∀ u, free u → u.length ≤ t.length
  first : ∀ u, free u → u.length = t.length → u = t ∨ t.Before u

theorem IsChoice.unique {free : Tile → Prop} {t u : Tile} (ht : IsChoice least free t)
    (hu : IsChoice least free u) : t = u := by
  have hlen : t.length = u.length := Nat.le_antisymm (hu.longest t ht.available) (ht.longest u hu.available)
  rcases ht.first u hu.available hlen.symm with h | h
  · exact h.symm
  · rcases hu.first t ht.available hlen with h' | h'
    · exact h'
    · exact absurd h' h.asymm

/-- The lists of tiles that come about by committing the choice again and again. -/
inductive Greedy (least : Nat) (candidate reference : List α) : List Tile → Prop
  | start : Greedy least candidate reference []
  | commit {tiles : List Tile} {t : Tile} : Greedy least candidate reference tiles →
      IsChoice least (Available candidate reference tiles) t →
      Greedy least candidate reference (tiles ++ [t])

/-- A list of tiles chosen one at a time, until no run is left that is long enough. -/
def IsGreedyTiling (least : Nat) (candidate reference : List α) (tiles : List Tile) : Prop :=
  Greedy least candidate reference tiles ∧ ∀ t, Available candidate reference tiles t → t.length < least

/-! ## There is only one greedy tiling -/

theorem Greedy.cases_append_singleton {tiles : List Tile} {t : Tile}
    (h : Greedy least candidate reference (tiles ++ [t])) :
    Greedy least candidate reference tiles ∧ IsChoice least (Available candidate reference tiles) t := by
  generalize hs : tiles ++ [t] = all at h
  cases h with
  | start => exact absurd hs (by simp)
  | commit h hc =>
    obtain ⟨rfl, he⟩ := List.append_inj' hs rfl
    cases he
    exact ⟨h, hc⟩

/-- Each tile of a greedy list was the choice when it was committed. -/
theorem Greedy.isChoice {tiles rest : List Tile} {t : Tile}
    (h : Greedy least candidate reference (tiles ++ t :: rest)) :
    IsChoice least (Available candidate reference tiles) t := by
  induction rest using List.reverseRecOn with
  | nil => exact h.cases_append_singleton.2
  | append_singleton rest u ih =>
    rw [← List.cons_append, ← List.append_assoc] at h
    exact ih h.cases_append_singleton.1

theorem Greedy.prefix_of_isGreedyTiling {tiles all : List Tile} (h : Greedy least candidate reference tiles)
    (hall : IsGreedyTiling least candidate reference all) : tiles <+: all := by
  induction h with
  | start => exact List.nil_prefix
  | @commit tiles t _ hc ih =>
    obtain ⟨rest, rfl⟩ := ih
    cases rest with
    | nil =>
      rw [List.append_nil] at hall
      exact absurd (hall.2 t hc.available) (Nat.not_lt_of_le hc.least_le)
    | cons u rest =>
      obtain rfl := hc.unique hall.1.isChoice
      exact ⟨rest, by rw [List.append_assoc, List.singleton_append]⟩

theorem IsGreedyTiling.unique {tiles tiles' : List Tile} (h : IsGreedyTiling least candidate reference tiles)
    (h' : IsGreedyTiling least candidate reference tiles') : tiles = tiles' :=
  (h.1.prefix_of_isGreedyTiling h').eq_of_length_le (h'.1.prefix_of_isGreedyTiling h).length_le

/-! ## What holds of the tiles chosen -/

theorem Greedy.pairs {tiles : List Tile} (h : Greedy least candidate reference tiles) :
    ∀ t ∈ tiles, least ≤ t.length ∧ Pairs candidate reference t := by
  induction h with
  | start => exact fun t ht => absurd ht List.not_mem_nil
  | commit _ hc ih =>
    intro t ht
    rcases List.mem_append.1 ht with ht | ht
    · exact ih t ht
    · obtain rfl := List.mem_singleton.1 ht
      exact ⟨hc.least_le, hc.available.1⟩

theorem Greedy.pairwise_apart {tiles : List Tile} (h : Greedy least candidate reference tiles) :
    tiles.Pairwise Tile.Apart := by
  induction h with
  | start => exact List.Pairwise.nil
  | @commit tiles t _ hc ih =>
    refine List.pairwise_append.2 ⟨ih, List.pairwise_singleton _ t, ?_⟩
    intro s hs u hu
    obtain rfl := List.mem_singleton.1 hu
    exact hc.available.2 s hs

end Tiling
end SourceLikeness
