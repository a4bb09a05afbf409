import SourceLikeness.Proofs.Tiling.Cover

/-!
# Rounds

A round commits its longest runs in order of place, leaving out those that are no longer free. This is the
same as choosing anew after every tile, because the runs of that length that are left are always among those
that the round has still to try.

* `Cover.ties` : the runs that a round tries; `Cover.mem_ties`, `Cover.pairwise_ties`;
* `Cover.Sound.foldl_commit` : what committing them does;
* `Cover.Sound.round`, `Cover.Sound.rounds` : a round, and the rounds until nothing long enough is left;
* `Cover.rounds_start_eq` : a tiling does not depend on how many rounds are allowed;
* `tiles_tile_eq_iff` : `tile` returns the one greedy tiling.
-/

namespace SourceLikeness.Tiling
variable {α : Type} [BEq α] {candidate reference : List α} {least : Nat}

namespace Cover
variable {c : Cover α} {t : Tile}

/-! ## The runs of a round -/

/-- The runs that a round tries to commit. -/
def ties (least : Nat) (c : Cover α) : List Tile :=
  (c.runs least).filter (·.length == longest least (c.runs least))

theorem fits_iff_le_commonRun (c : Cover α) (t : Tile) :
    c.Fits t ↔ t.length ≤ commonRun (c.candidate.drop t.candidate) (c.reference.drop t.reference) :=
  agree_iff_le_commonRun _ _ _

theorem Fits.lt_length (h : c.Fits t) (ht : 0 < t.length) :
    t.candidate < c.candidate.length ∧ t.reference < c.reference.length := by
  obtain ⟨x, y, hx, hy, -⟩ := h 0 ht
  rw [List.getElem?_drop] at hx hy
  exact ⟨(List.getElem?_eq_some_iff.1 hx).1, (List.getElem?_eq_some_iff.1 hy).1⟩

/-- The runs of a cover are those that cannot be made longer and are long enough. -/
theorem mem_runs (hleast : 0 < least) : t ∈ c.runs least ↔
    t.length = commonRun (c.candidate.drop t.candidate) (c.reference.drop t.reference) ∧ least ≤ t.length := by
  rw [runs, mem_runsFrom]
  simp only [Nat.zero_add]
  constructor
  · rintro ⟨m, -, k, -, rfl, hle⟩
    exact ⟨rfl, hle⟩
  · rintro ⟨hlen, hle⟩
    have hfits : c.Fits t := (fits_iff_le_commonRun c t).2 hlen.le
    obtain ⟨hm, hk⟩ := hfits.lt_length (by omega)
    exact ⟨t.candidate, hm, t.reference, hk, by rw [← hlen], hle⟩

theorem Fits.length_le (hleast : 0 < least) (h : c.Fits t) : t.length ≤ longest least (c.runs least) := by
  have hlen := (fits_iff_le_commonRun c t).1 h
  obtain ⟨hle, hruns⟩ := (longest_le_iff least _ (c.runs least)).1 le_rfl
  rcases Nat.lt_or_ge (commonRun (c.candidate.drop t.candidate) (c.reference.drop t.reference)) least with hlt | hge
  · omega
  · exact hlen.trans (hruns ⟨t.candidate, t.reference, _⟩ ((mem_runs hleast).2 ⟨rfl, hge⟩))

/-- A round tries the longest runs that fit. -/
theorem mem_ties (hleast : 0 < least) :
    t ∈ c.ties least ↔ c.Fits t ∧ t.length = longest least (c.runs least) := by
  rw [ties, List.mem_filter, mem_runs hleast, beq_iff_eq]
  constructor
  · rintro ⟨⟨hlen, -⟩, hbest⟩
    exact ⟨(fits_iff_le_commonRun c t).2 hlen.le, hbest⟩
  · rintro ⟨hfits, hbest⟩
    have hlen := (fits_iff_le_commonRun c t).1 hfits
    have hle := ((longest_le_iff least _ (c.runs least)).1 le_rfl).1
    have hlong : commonRun (c.candidate.drop t.candidate) (c.reference.drop t.reference) ≤
        longest least (c.runs least) :=
      Fits.length_le hleast (t := { t with length := commonRun _ _ }) ((fits_iff_le_commonRun c _).2 le_rfl)
    exact ⟨⟨by omega, by omega⟩, hbest⟩

theorem pairwise_ties (least : Nat) (c : Cover α) : (c.ties least).Pairwise Tile.Before :=
  (runsFrom_pairwise least 0 c.candidate c.reference).filter _

/-! ## Committing the runs of a round -/

variable [Weighted α]

/-- What fits after a tile was committed did so before, and does not touch the tile. -/
theorem Leaves.fits_of_fits_commit (h : c.Leaves candidate reference) (hf : c.isFree t = true) {u : Tile}
    (hu : (c.commit t).Fits u) : c.Fits u ∧ t.Apart u := by
  obtain ⟨hpairs, hapart⟩ := ((h.commit hf).fits_iff u).1 hu
  rw [tiles_commit hf, List.forall_mem_append] at hapart
  exact ⟨(h.fits_iff u).2 ⟨hpairs, hapart.1⟩, hapart.2 t (List.mem_singleton_self t)⟩

/-- The runs of one length, in order of place, become the choice one after the other, as long as no
longer run fits and all of that length are among them. -/
theorem Sound.foldl_commit {best : Nat} (hleast : least ≤ best) (hbest : 0 < best) {ts : List Tile}
    (h : c.Sound least candidate reference) (hord : ts.Pairwise Tile.Before)
    (hts : ∀ t ∈ ts, Pairs candidate reference t ∧ t.length = best)
    (hmax : ∀ u, c.Fits u → u.length ≤ best ∧ (u.length = best → u ∈ ts)) :
    (ts.foldl Cover.commit c).Sound least candidate reference ∧
      ∀ u, (ts.foldl Cover.commit c).Fits u → u.length < best := by
  induction ts generalizing c with
  | nil =>
    refine ⟨h, ?_⟩
    intro u hu
    obtain ⟨hle, hmem⟩ := hmax u hu
    exact lt_of_le_of_ne hle fun he => absurd (hmem he) List.not_mem_nil
  | cons t ts ih =>
    rw [List.pairwise_cons] at hord
    rw [List.forall_mem_cons] at hts
    obtain ⟨hpairs, hlen⟩ := hts.1
    rw [List.foldl_cons]
    by_cases hf : c.isFree t = true
    · have hfits : c.Fits t := h.leaves.fits_of_isFree hpairs hf
      have hchoice : IsChoice least c.Fits t := by
        refine ⟨hfits, by omega, ?_, ?_⟩
        · intro u hu
          rw [hlen]
          exact (hmax u hu).1
        · intro u hu he
          rcases List.mem_cons.1 ((hmax u hu).2 (he.trans hlen)) with rfl | hmem
          · exact Or.inl rfl
          · exact Or.inr (hord.1 u hmem)
      refine ih (h.commit hchoice) hord.2 hts.2 ?_
      intro u hu
      obtain ⟨hu, hapart⟩ := h.leaves.fits_of_fits_commit hf hu
      refine ⟨(hmax u hu).1, fun he => List.mem_of_ne_of_mem ?_ ((hmax u hu).2 he)⟩
      rintro rfl
      exact hapart.irrefl (by omega)
    · rw [commit_of_not_isFree hf]
      refine ih h hord.2 hts.2 ?_
      intro u hu
      refine ⟨(hmax u hu).1, fun he => List.mem_of_ne_of_mem ?_ ((hmax u hu).2 he)⟩
      rintro rfl
      exact hf (isFree_of_fits hu)

/-! ## Rounds -/

/-- After a round nothing fits that is as long as its runs were. -/
theorem Sound.round (hleast : 0 < least) (h : c.Sound least candidate reference) :
    (c.round least).2.Sound least candidate reference ∧
      ∀ t, (c.round least).2.Fits t → t.length < (c.round least).1 := by
  have hle := ((longest_le_iff least _ (c.runs least)).1 le_rfl).1
  refine Sound.foldl_commit hle (by omega) h (pairwise_ties least c) ?_ ?_
  · intro t ht
    obtain ⟨hfits, hlen⟩ := (mem_ties hleast).1 ht
    exact ⟨((h.leaves.fits_iff t).1 hfits).1, hlen⟩
  · intro t ht
    exact ⟨ht.length_le hleast, fun he => (mem_ties hleast).2 ⟨ht, he⟩⟩

/-- The runs of a round are no longer than the least length, or some run of their length fits. -/
theorem round_fst_le_or (hleast : 0 < least) (c : Cover α) :
    (c.round least).1 ≤ least ∨ ∃ t, c.Fits t ∧ t.length = (c.round least).1 := by
  rcases longest_eq_or least (c.runs least) with he | ⟨t, ht, he⟩
  · exact Or.inl he.le
  · exact Or.inr ⟨t, (fits_iff_le_commonRun c t).2 ((mem_runs hleast).1 ht).1.le, he⟩

/-- If the rounds go on after one of them, then the runs that fit have become shorter. -/
theorem Sound.fits_round_lt (hleast : 0 < least) (h : c.Sound least candidate reference)
    (hstop : ¬ (c.round least).1 ≤ least) {n : Nat} (hn : ∀ t, c.Fits t → t.length < n + 1) :
    ∀ t, (c.round least).2.Fits t → t.length < n := by
  intro t ht
  obtain ⟨u, hu, hlen⟩ := (round_fst_le_or hleast c).resolve_left hstop
  have hless := (h.round hleast).2 t ht
  have hun := hn u hu
  omega

theorem rounds_succ (n : Nat) (c : Cover α) : c.rounds least (n + 1) =
    if (c.round least).1 ≤ least then (c.round least).2 else (c.round least).2.rounds least n := rfl

/-- Rounds leave nothing that is long enough, if there are more of them than the longest run has
elements: the runs of each round are shorter than those of the round before. -/
theorem Sound.rounds (hleast : 0 < least) (n : Nat) (h : c.Sound least candidate reference)
    (hn : ∀ t, c.Fits t → t.length < n) :
    (c.rounds least n).Sound least candidate reference ∧ ∀ t, (c.rounds least n).Fits t → t.length < least := by
  induction n generalizing c with
  | zero => exact absurd (hn ⟨0, 0, 0⟩ (agree_zero _ _)) (Nat.not_lt_zero 0)
  | succ n ih =>
    obtain ⟨hsound, hless⟩ := h.round hleast
    rw [rounds_succ]
    split_ifs with hstop
    · exact ⟨hsound, fun t ht => lt_of_lt_of_le (hless t ht) hstop⟩
    · exact ih hsound (h.fits_round_lt hleast hstop hn)

/-- How many rounds are allowed does not matter, if there are more of them than the longest run has
elements: the rounds end by themselves. -/
theorem Sound.rounds_eq (hleast : 0 < least) {n m : Nat} (h : c.Sound least candidate reference)
    (hn : ∀ t, c.Fits t → t.length < n) (hm : ∀ t, c.Fits t → t.length < m) :
    c.rounds least n = c.rounds least m := by
  induction n generalizing c m with
  | zero => exact absurd (hn ⟨0, 0, 0⟩ (agree_zero _ _)) (Nat.not_lt_zero 0)
  | succ n ih =>
    cases m with
    | zero => exact absurd (hm ⟨0, 0, 0⟩ (agree_zero _ _)) (Nat.not_lt_zero 0)
    | succ m =>
      rw [rounds_succ, rounds_succ]
      split_ifs with hstop
      · rfl
      · exact ih (h.round hleast).1 (h.fits_round_lt hleast hstop hn) (h.fits_round_lt hleast hstop hm)

/-- The cover from which a tiling is read off. -/
theorem sound_rounds_start (candidate reference : List α) (minRun : Nat) :
    ((start candidate reference).rounds (max 1 minRun) (candidate.length + 1)).Sound (max 1 minRun)
        candidate reference ∧
      ∀ t, ((start candidate reference).rounds (max 1 minRun) (candidate.length + 1)).Fits t →
        t.length < max 1 minRun :=
  Sound.rounds (by omega) _ (sound_start _ candidate reference) fun _ ht =>
    Nat.lt_succ_of_le (length_le_of_fits_start ht)

/-- A tiling is not cut short: more rounds come to the same cover. -/
theorem rounds_start_eq (candidate reference : List α) (minRun : Nat) {n : Nat} (hn : candidate.length < n) :
    (start candidate reference).rounds (max 1 minRun) n =
      (start candidate reference).rounds (max 1 minRun) (candidate.length + 1) :=
  (sound_start _ candidate reference).rounds_eq (by omega)
    (fun _ ht => Nat.lt_of_le_of_lt (length_le_of_fits_start ht) hn)
    fun _ ht => Nat.lt_succ_of_le (length_le_of_fits_start ht)

end Cover

/-! ## The tiles of a tiling -/

theorem isGreedyTiling_tile [Weighted α] (candidate reference : List α) (minRun : Nat) :
    IsGreedyTiling (max 1 minRun) candidate reference (tile candidate reference minRun).tiles := by
  obtain ⟨hsound, hless⟩ := Cover.sound_rounds_start candidate reference minRun
  exact ⟨hsound.greedy, fun t ht => hless t ((hsound.leaves.fits_iff t).2 ht)⟩

/-- **`tile` returns the greedy tiling.** Its tiles are those that come about by committing again and
again the longest run of uncovered elements, and of several the one that stands first, until none is left
of at least `max 1 minRun` elements; no other list of tiles does. -/
theorem tiles_tile_eq_iff [Weighted α] (candidate reference : List α) (minRun : Nat) (tiles : List Tile) :
    (tile candidate reference minRun).tiles = tiles ↔
      IsGreedyTiling (max 1 minRun) candidate reference tiles := by
  have h := isGreedyTiling_tile candidate reference minRun
  constructor
  · rintro rfl
    exact h
  · exact h.unique

end SourceLikeness.Tiling
