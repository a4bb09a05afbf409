import SourceLikeness.Proofs.Piece.Passes

/-!
# Searches that look beyond a piece

A search whose hits reach over the pieces behind the one where they start.

* `Piece.collect` : what something makes of each place in a list, seeing what comes behind it;
* `Piece.Sweeps` : a search looks at one place of a piece at most, and goes on before the next place where it looks;
* `Piece.filterMap_hits` : so what is made of its hits is made piece by piece.
-/

namespace SourceLikeness.Piece
open Lexeme (spots)
variable {ι ρ α : Type} {g : ι → Piece ρ} {φ : Inks ρ} {f : Finder} {s : List Char} {x : Leads} {G : Hit → Option α}
  {aim aim' : Nat → ι → List ι → List α} {o : Nat} {a : ι} {as bs : List ι}

/-- What is made of each place in a list. -/
def collect (g : ι → Piece ρ) (aim : Nat → ι → List ι → List α) : Nat → List ι → List α
  | _, [] => []
  | o, a :: as => aim o a as ++ collect g aim (o + (g a).size) as

theorem collect_eq_nil (h : ∀ o a bs, a :: bs <:+ as → aim o a bs = []) : collect g aim o as = [] := by
  induction as generalizing o with
  | nil => rfl
  | cons a as ih =>
    rw [collect, h o a as List.suffix_rfl, ih fun o b bs hbs => h o b bs (hbs.trans (List.suffix_cons a as))]
    rfl

/-- A search looks at one place of a piece at most. What is made of a hit there is what should be, and the search goes on
before the next place where it looks. -/
def Sweeps (f : Finder) (s : List Char) (x : Leads) (φ : Inks ρ) (g : ι → Piece ρ) (G : Hit → Option α)
    (aim : Nat → ι → List ι → List α) (o : Nat) (a : ι) (as : List ι) : Prop :=
  (spots x o ((g a).lexemes φ) = [] ∧ aim o a as = []) ∨ ∃ i, spots x o ((g a).lexemes φ) = [i] ∧
    ((f.hitOf (fun _ => true) s i = none ∧ aim o a as = []) ∨ ∃ h, f.hitOf (fun _ => true) s i = some h ∧
      (G h).toList = aim o a as ∧ ∀ j ∈ spots x (o + (g a).size) (page φ (as.map g)), f.resume h ≤ j)

/-- The search looks nowhere in a piece. -/
theorem sweeps_of_not_leads (h : ∀ l ∈ (g a).lexemes φ, l.leads x = false) (haim : aim o a as = []) :
    Sweeps f s x φ g G aim o a as := Or.inl ⟨Lexeme.spots_eq_nil h o, haim⟩

theorem filterMap_pick {r : Nat}
    (h : ∀ o a bs, a :: bs <:+ as → Stands s o (page φ ((a :: bs).map g)) → Sweeps f s x φ g G aim o a bs)
    (hs : Stands s o (page φ (as.map g))) (hresume : ∀ j ∈ spots x o (page φ (as.map g)), r ≤ j) :
    (f.pick (fun _ => true) s (spots x o (page φ (as.map g))) r).filterMap G = collect g aim o as := by
  induction as generalizing o r with
  | nil => rfl
  | cons a as ih =>
    have hspots : spots x o (page φ ((a :: as).map g)) =
        spots x o ((g a).lexemes φ) ++ spots x (o + (g a).size) (page φ (as.map g)) := by
      rw [List.map_cons, page_cons, Lexeme.spots_append, length_lexemes]
    have htail : Stands s (o + (g a).size) (page φ (as.map g)) := by
      rw [List.map_cons, page_cons] at hs
      rw [← length_lexemes (φ := φ)]
      exact hs.append
    have hrest := fun {r : Nat} => ih (o := o + (g a).size) (r := r)
      (fun o b bs hbs => h o b bs (hbs.trans (List.suffix_cons a as))) htail
    rw [hspots, List.forall_mem_append] at hresume
    rw [hspots, collect]
    rcases h o a as List.suffix_rfl hs with ⟨hnone, haim⟩ | ⟨i, hi, ⟨hnone, haim⟩ | ⟨hit, hhit, haim, hnext⟩⟩
    · rw [hnone, haim, List.nil_append, hrest hresume.2, List.nil_append]
    · rw [hi, haim, Finder.pick_of_none (List.forall_mem_singleton.2 hnone), hrest hresume.2, List.nil_append]
    · rw [hi, List.forall_mem_singleton] at hresume
      rw [hi, List.singleton_append, Finder.pick_of_some hresume.1 hhit, List.filterMap_cons, ← haim, hrest hnext]
      cases G hit <;> rfl

/-- **Hits beyond pieces.** If a search sweeps over each piece, what is made of its hits is made piece by piece. -/
theorem filterMap_hits (hled : f.pattern.led x false false = true) (hsolid : f.pattern.solid = true)
    (hps : Sound (as.map g)) (hφ : IsDry φ)
    (h : ∀ o a bs, a :: bs <:+ as → Stands (Lexeme.text (page φ (as.map g))) o (page φ ((a :: bs).map g)) →
      Sweeps f (Lexeme.text (page φ (as.map g))) x φ g G aim o a bs) :
    (f.hits (Lexeme.text (page φ (as.map g)))).filterMap G = collect g aim 0 as := by
  rw [Finder.hits, Finder.hitsWhere_eq_pick hled hsolid (hps.stands hφ)]
  exact filterMap_pick h (hps.stands hφ) fun j _ => Nat.zero_le j

end SourceLikeness.Piece
