import SourceLikeness.Proofs.Tiling.Round
import Mathlib.Data.List.Pairwise

/-!
# The rounds of a tiling

A round whose runs are longer than the least length commits one of them, and leaves no run of their length. So the
rounds become shorter and shorter until one is no longer than the least length, and there the loop ends.

* `Round`, `Course` : what a round does, and the rounds of the loop from a cover on, without a bound on their number;
* `Cover.Sound.committed_ne_nil` : a round makes progress;
* `Course.committed_ne_nil`, `Course.best_lt`, `Course.pairwise_best` : what holds of the rounds of a loop;
* `Cover.Sound.exists_course` : the loop ends, and comes to the cover that `Cover.rounds` gives;
* `exists_course_tile` : the rounds of a tiling.
-/

namespace SourceLikeness.Tiling
variable {α : Type} [BEq α] [Weighted α] {candidate reference : List α} {least : Nat}

/-- What a round does: the length of its runs, and the tiles that it commits. -/
structure Round where
  best : Nat
  committed : List Tile
deriving DecidableEq, Repr

/-- The rounds that the loop goes through from a cover, and the cover that it ends with. It goes on behind a round
whose runs are longer than the least length. -/
inductive Course (least : Nat) : Cover α → List Round → Cover α → Prop
  | stop {c : Cover α} {committed : List Tile} : (c.round least).1 ≤ least →
      (c.round least).2.tiles = c.tiles ++ committed →
      Course least c [⟨(c.round least).1, committed⟩] (c.round least).2
  | next {c c' : Cover α} {committed : List Tile} {rounds : List Round} : least < (c.round least).1 →
      (c.round least).2.tiles = c.tiles ++ committed → Course least (c.round least).2 rounds c' →
      Course least c (⟨(c.round least).1, committed⟩ :: rounds) c'

/-! ## One round -/

namespace Cover
variable {c : Cover α}

omit [BEq α] in
/-- What is committed of some runs is some of them, in their order. -/
theorem exists_sublist_foldl_commit (ts : List Tile) (c : Cover α) :
    ∃ committed, (ts.foldl commit c).tiles = c.tiles ++ committed ∧ committed.Sublist ts := by
  induction ts generalizing c with
  | nil => exact ⟨[], (List.append_nil _).symm, List.Sublist.refl []⟩
  | cons t ts ih =>
    obtain ⟨committed, htiles, hsub⟩ := ih (c.commit t)
    rw [List.foldl_cons, htiles]
    by_cases hf : c.isFree t = true
    · exact ⟨t :: committed, by rw [tiles_commit hf, List.append_assoc, List.singleton_append], hsub.cons_cons t⟩
    · exact ⟨committed, by rw [commit_of_not_isFree hf], hsub.cons t⟩

/-- The tiles that a round commits have the length of its runs. -/
theorem exists_committed (least : Nat) (c : Cover α) : ∃ committed : List Tile,
    (c.round least).2.tiles = c.tiles ++ committed ∧ ∀ t ∈ committed, t.length = (c.round least).1 := by
  obtain ⟨committed, htiles, hsub⟩ := exists_sublist_foldl_commit (c.ties least) c
  exact ⟨committed, htiles, fun t ht => beq_iff_eq.1 (List.mem_filter.1 (hsub.subset ht)).2⟩

/-- A round commits a tile if its runs are longer than the least length: one of them fits before it and none does
behind it. -/
theorem Sound.committed_ne_nil (hleast : 0 < least) (h : c.Sound least candidate reference)
    (hlong : least < (c.round least).1) {committed : List Tile}
    (htiles : (c.round least).2.tiles = c.tiles ++ committed) : committed ≠ [] := by
  rintro rfl
  obtain ⟨t, ht, hlength⟩ := (round_fst_le_or hleast c).resolve_left (Nat.not_le_of_lt hlong)
  obtain ⟨hsound, hless⟩ := h.round hleast
  have hfits : (c.round least).2.Fits t := by
    rw [hsound.leaves.fits_iff, htiles, List.append_nil]
    exact (h.leaves.fits_iff t).1 ht
  exact absurd hlength (Nat.ne_of_lt (hless t hfits))

end Cover

/-! ## The rounds of a loop -/

namespace Course
variable {c c' : Cover α} {rounds : List Round}

theorem tiles_eq (h : Course least c rounds c') : c'.tiles = c.tiles ++ rounds.flatMap Round.committed := by
  induction h with
  | stop _ htiles => rw [htiles, List.flatMap_singleton]
  | next _ htiles _ ih => rw [ih, htiles, List.flatMap_cons, List.append_assoc]

theorem committed_ne_nil (hleast : 0 < least) (h : Course least c rounds c') (hc : c.Sound least candidate reference) :
    ∀ r ∈ rounds, least < r.best → r.committed ≠ [] := by
  induction h with
  | stop hstop _ => exact List.forall_mem_singleton.2 fun hlong => absurd hlong (Nat.not_lt_of_le hstop)
  | next _ htiles _ ih =>
    exact List.forall_mem_cons.2 ⟨fun hlong => hc.committed_ne_nil hleast hlong htiles, ih (hc.round hleast).1⟩

/-- The tiles of a round have the length of its runs. -/
theorem length_eq (h : Course least c rounds c') : ∀ r ∈ rounds, ∀ t ∈ r.committed, t.length = r.best := by
  have hround : ∀ (c : Cover α) (committed : List Tile), (c.round least).2.tiles = c.tiles ++ committed →
      ∀ t ∈ committed, t.length = (c.round least).1 := by
    intro c committed htiles
    obtain ⟨committed', htiles', hlength⟩ := Cover.exists_committed least c
    rwa [List.append_cancel_left (htiles.symm.trans htiles')]
  induction h with
  | stop _ htiles => exact List.forall_mem_singleton.2 (hround _ _ htiles)
  | next _ htiles _ ih => exact List.forall_mem_cons.2 ⟨hround _ _ htiles, ih⟩

/-- The runs of all rounds are shorter than what no run that fits is as long as. -/
theorem best_lt (hleast : 0 < least) (h : Course least c rounds c') (hc : c.Sound least candidate reference) {n : Nat}
    (hn : least < n) (hfits : ∀ t, c.Fits t → t.length < n) : ∀ r ∈ rounds, r.best < n := by
  induction h with
  | stop hstop _ => exact List.forall_mem_singleton.2 (Nat.lt_of_le_of_lt hstop hn)
  | @next c _ _ _ hlong _ _ ih =>
    obtain ⟨t, ht, hlength⟩ := (Cover.round_fst_le_or hleast c).resolve_left (Nat.not_le_of_lt hlong)
    have hbest : (c.round least).1 < n := hlength ▸ hfits t ht
    obtain ⟨hsound, hless⟩ := hc.round hleast
    exact List.forall_mem_cons.2 ⟨hbest, ih hsound fun t ht => Nat.lt_trans (hless t ht) hbest⟩

/-- The runs of each round are shorter than those of the rounds before. -/
theorem pairwise_best (hleast : 0 < least) (h : Course least c rounds c') (hc : c.Sound least candidate reference) :
    rounds.Pairwise fun r s => s.best < r.best := by
  induction h with
  | stop _ _ => exact List.pairwise_singleton _ _
  | next hlong _ hrest ih =>
    obtain ⟨hsound, hless⟩ := hc.round hleast
    exact List.pairwise_cons.2 ⟨hrest.best_lt hleast hsound hlong hless, ih hsound⟩

/-- The tiles that are committed become no longer. -/
theorem pairwise_length (hleast : 0 < least) (h : Course least c rounds c') (hc : c.Sound least candidate reference) :
    (rounds.flatMap Round.committed).Pairwise fun s t => t.length ≤ s.length := by
  have hlength := h.length_eq
  refine List.pairwise_flatMap.2 ⟨?_, (h.pairwise_best hleast hc).imp_of_mem ?_⟩
  · intro r hr
    refine List.pairwise_of_forall_mem_list fun s hs t ht => ?_
    rw [hlength r hr s hs, hlength r hr t ht]
  · intro r r' hr hr' hlt s hs t ht
    rw [hlength r hr s hs, hlength r' hr' t ht]
    exact Nat.le_of_lt hlt

end Course

/-- The loop ends after at most as many rounds as no run that fits has elements, and comes to the cover of as many
rounds. -/
theorem Cover.Sound.exists_course {c : Cover α} (hleast : 0 < least) (n : Nat) (h : c.Sound least candidate reference)
    (hn : ∀ t, c.Fits t → t.length < n) :
    ∃ rounds, Course least c rounds (c.rounds least n) ∧ rounds.length ≤ n := by
  induction n generalizing c with
  | zero => exact absurd (hn ⟨0, 0, 0⟩ (agree_zero _ _)) (Nat.not_lt_zero 0)
  | succ n ih =>
    obtain ⟨committed, htiles, -⟩ := Cover.exists_committed least c
    rw [Cover.rounds_succ]
    split_ifs with hstop
    · exact ⟨_, .stop hstop htiles, Nat.le_add_left 1 n⟩
    · obtain ⟨rounds, hcourse, hlength⟩ := ih (h.round hleast).1 (h.fits_round_lt hleast hstop hn)
      exact ⟨_, .next (Nat.lt_of_not_le hstop) htiles hcourse, Nat.succ_le_succ hlength⟩

omit [Weighted α] in
theorem Cover.length_le_min_of_fits_start {t : Tile} (h : (start candidate reference).Fits t) :
    t.length ≤ min candidate.length reference.length := by
  obtain ⟨hpairs, -⟩ := ((leaves_start candidate reference).fits_iff t).1 h
  rcases Nat.eq_zero_or_pos t.length with hzero | hpos
  · omega
  · have hcandidate := hpairs.candidate_le hpos
    have hreference := hpairs.reference_le hpos
    omega

/-- **The loop ends, and each round that is not the last makes progress.** The rounds of a tiling come to an end and
give its tiles. Each of them whose runs are longer than the least length commits a tile, the lengths of their runs
become strictly smaller, there are at most as many rounds as elements of either list, and one more, and no tile is
longer than one committed before it. -/
theorem exists_course_tile (candidate reference : List α) (minRun : Nat) :
    ∃ (rounds : List Round) (cover : Cover α),
      Course (max 1 minRun) (Cover.start candidate reference) rounds cover ∧
      tile candidate reference minRun = ⟨cover.tiles, cover.weight, weigh candidate⟩ ∧
      (∀ r ∈ rounds, max 1 minRun < r.best → r.committed ≠ []) ∧
      rounds.Pairwise (fun r s => s.best < r.best) ∧
      rounds.length ≤ min candidate.length reference.length + 1 ∧
      (tile candidate reference minRun).tiles = rounds.flatMap Round.committed ∧
      (tile candidate reference minRun).tiles.Pairwise fun s t => t.length ≤ s.length := by
  have hleast : 0 < max 1 minRun := by omega
  have hsound := Cover.sound_start (max 1 minRun) candidate reference
  have hfits : ∀ t, (Cover.start candidate reference).Fits t → t.length < min candidate.length reference.length + 1 :=
    fun t ht => Nat.lt_succ_of_le (Cover.length_le_min_of_fits_start ht)
  obtain ⟨rounds, hcourse, hlength⟩ := hsound.exists_course hleast _ hfits
  have hcover : (Cover.start candidate reference).rounds (max 1 minRun) (min candidate.length reference.length + 1) =
      (Cover.start candidate reference).rounds (max 1 minRun) (candidate.length + 1) :=
    hsound.rounds_eq hleast hfits fun t ht => Nat.lt_succ_of_le (Cover.length_le_of_fits_start ht)
  rw [hcover] at hcourse
  have htiles : (tile candidate reference minRun).tiles = rounds.flatMap Round.committed := hcourse.tiles_eq
  refine ⟨rounds, _, hcourse, rfl, hcourse.committed_ne_nil hleast hsound, hcourse.pairwise_best hleast hsound, hlength,
    htiles, ?_⟩
  rw [htiles]
  exact hcourse.pairwise_length hleast hsound

end SourceLikeness.Tiling
