import SourceLikeness.Proofs.Piece.Basic
import SourceLikeness.Proofs.Tokenizer.Default
import SourceLikeness.Proofs.Tokenizer.Idle

/-!
# Passes over pieces

* `Piece.Steps` : a search finds the bodies of the pieces of some roles and nothing else, piece by piece;
* `Piece.map_token_hits` : so its hits are those bodies;
* `Piece.foldl_hits` : what is done to one of these pieces is done to all of them, and the others are left as they are;
* `Piece.claim_work`, `Piece.classify_work`, `Piece.erase_work` : so that is what a pass with such a search does.
-/

namespace SourceLikeness
open Lexeme (spots)
open WorkingCopy

namespace Piece
variable {ρ : Type} {φ : Inks ρ} {p : Piece ρ} {ps qs : List (Piece ρ)} {o : Nat} {wanted : ρ → Bool} {ink : Ink}
  {u v : List Cell} {T : List (Token Category)}

/-! ## Searches, piece by piece -/

section Steps
variable {f : Finder} {s : List Char} {x : Leads}

/-- A search for pieces of some roles does what it should at a piece, and goes on behind it at the latest. -/
def Step (f : Finder) (s : List Char) (x : Leads) (φ : Inks ρ) (wanted : ρ → Bool) (o : Nat) (p : Piece ρ) : Prop :=
  ∀ js resume, resume ≤ o → ∃ r ≤ o + p.size,
    if wanted p.role then ∃ h : Hit, h.token = p.span o ∧
      f.pick (fun _ => true) s (spots x o (p.lexemes φ) ++ js) resume = h :: f.pick (fun _ => true) s js r
    else f.pick (fun _ => true) s (spots x o (p.lexemes φ) ++ js) resume = f.pick (fun _ => true) s js r

def Steps (f : Finder) (s : List Char) (x : Leads) (φ : Inks ρ) (wanted : ρ → Bool) : Nat → List (Piece ρ) → Prop
  | _, [] => True
  | o, p :: ps => Step f s x φ wanted o p ∧ Steps f s x φ wanted (o + p.size) ps

/-- The search finds nothing in a piece. -/
theorem step_of_none (hwanted : wanted p.role = false)
    (hnone : ∀ i ∈ spots x o (p.lexemes φ), f.hitOf (fun _ => true) s i = none) : Step f s x φ wanted o p := by
  intro js resume hle
  refine ⟨resume, Nat.le_trans hle (Nat.le_add_right _ _), ?_⟩
  rw [hwanted, if_neg Bool.false_ne_true]
  exact Finder.pick_of_none hnone js

/-- A search finds nothing in a piece without its leads. -/
theorem step_of_not_leads (hwanted : wanted p.role = false) (h : ∀ l ∈ p.lexemes φ, l.leads x = false) :
    Step f s x φ wanted o p :=
  step_of_none hwanted fun i hi => by
    rw [Lexeme.spots_eq_nil h] at hi
    exact absurd hi List.not_mem_nil

/-- The search finds the body of a piece, and nothing else in it. -/
theorem step_of_hit {h : Hit} (is : List Nat) (i : Nat) (js : List Nat) (hwanted : wanted p.role = true)
    (hspots : spots x o (p.lexemes φ) = is ++ i :: js) (his : ∀ k ∈ is, f.hitOf (fun _ => true) s k = none) (hi : o ≤ i)
    (hhit : f.hitOf (fun _ => true) s i = some h) (htoken : h.token = p.span o) (hjs : ∀ k ∈ js, k < f.resume h)
    (hresume : f.resume h ≤ o + p.size) : Step f s x φ wanted o p := by
  intro ks resume hle
  refine ⟨f.resume h, hresume, ?_⟩
  rw [hwanted, if_pos rfl, hspots, List.append_assoc, Finder.pick_of_none his, List.cons_append,
    Finder.pick_of_some (Nat.le_trans hle hi) hhit, Finder.pick_of_lt hjs]
  exact ⟨h, htoken, rfl⟩

section Spot
variable {h : Hit} {l : Lexeme} {ks ls : List Lexeme}

/-- A search finds the body of a piece at the only place where it looks. -/
theorem step_of_spot (ks : List Lexeme) (l : Lexeme) (ls : List Lexeme) (hwanted : wanted p.role = true)
    (hconsumes : f.consumes = false) (hlexemes : p.lexemes φ = ks ++ l :: ls) (hks : ∀ m ∈ ks, m.leads x = false)
    (hl : l.leads x = true) (hls : ∀ m ∈ ls, m.leads x = false)
    (hhit : f.hitOf (fun _ => true) s (o + (Lexeme.text ks).length) = some h) (htoken : h.token = p.span o) :
    Step f s x φ wanted o p := by
  have hresume : f.resume h ≤ o + p.size := by
    rw [Finder.resume, hconsumes, if_neg Bool.false_ne_true, htoken]
    simp only [span, size]
    omega
  refine step_of_hit [] _ [] hwanted ?_ (List.forall_mem_nil _) (Nat.le_add_right _ _) hhit htoken
    (List.forall_mem_nil _) hresume
  rw [hlexemes, Lexeme.spots_one hks hl hls]
  rfl

/-- A search finds nothing at the only place where it looks. -/
theorem step_of_spot_none (ks : List Lexeme) (l : Lexeme) (ls : List Lexeme) (hwanted : wanted p.role = false)
    (hlexemes : p.lexemes φ = ks ++ l :: ls) (hks : ∀ m ∈ ks, m.leads x = false) (hl : l.leads x = true)
    (hls : ∀ m ∈ ls, m.leads x = false) (hnone : f.hitOf (fun _ => true) s (o + (Lexeme.text ks).length) = none) :
    Step f s x φ wanted o p := by
  refine step_of_none hwanted ?_
  rw [hlexemes, Lexeme.spots_one hks hl hls]
  exact List.forall_mem_singleton.2 hnone

/-- A search finds the body of a piece at the first place where it looks, and goes on behind it. -/
theorem step_of_stop (ks : List Lexeme) (l : Lexeme) (ls ms : List Lexeme) (hwanted : wanted p.role = true)
    (hconsumes : f.consumes = false) (hlexemes : p.lexemes φ = ks ++ l :: (ls ++ ms)) (hks : ∀ m ∈ ks, m.leads x = false)
    (hl : l.leads x = true) (hls : ∀ m ∈ ls, m.Sound) (hms : ∀ m ∈ ms, m.leads x = false)
    (hhit : f.hitOf (fun _ => true) s (o + (Lexeme.text ks).length) = some h) (htoken : h.token = p.span o)
    (hstop : (p.span o).stop = o + (Lexeme.text ks).length + l.chars.length + (Lexeme.text ls).length) :
    Step f s x φ wanted o p := by
  have hresume : f.resume h = (p.span o).stop := by rw [Finder.resume, hconsumes, if_neg Bool.false_ne_true, htoken]
  have hspots : spots x o (p.lexemes φ) =
      (o + (Lexeme.text ks).length) :: spots x (o + (Lexeme.text ks).length + l.chars.length) ls := by
    rw [hlexemes, Lexeme.spots_append, Lexeme.spots_eq_nil hks, spots, if_pos hl, Lexeme.spots_append, Lexeme.spots_eq_nil hms,
      List.append_nil]
    rfl
  refine step_of_hit [] _ _ hwanted hspots (List.forall_mem_nil _) (Nat.le_add_right _ _) hhit htoken (fun i hi => ?_) ?_
  · rw [hresume, hstop]
    exact Lexeme.lt_of_mem_spots hls hi
  · rw [hresume]
    simp only [span, size]
    omega

end Spot

theorem steps_map {ι : Type} {g : ι → Piece ρ} {as bs : List ι} (h : ∀ (o : Nat) (a : ι) (as : List ι), a :: as <:+ bs →
    Stands s o (page φ ((a :: as).map g)) → Step f s x φ wanted o (g a)) (has : as <:+ bs)
    (hs : Stands s o (page φ (as.map g))) : Steps f s x φ wanted o (as.map g) := by
  induction as generalizing o with
  | nil => trivial
  | cons a as ih =>
    refine ⟨h o a as has hs, ih ((List.suffix_cons a as).trans has) ?_⟩
    rw [List.map_cons, page_cons] at hs
    rw [← length_lexemes (φ := φ)]
    exact hs.append

theorem map_token_pick {resume : Nat} (h : Steps f s x φ wanted o ps) (hle : resume ≤ o) :
    (f.pick (fun _ => true) s (spots x o (page φ ps)) resume).map Hit.token = spans wanted o ps := by
  induction ps generalizing o resume with
  | nil => rfl
  | cons p ps ih =>
    obtain ⟨r, hr, hstep⟩ := h.1 (spots x (o + p.size) (page φ ps)) resume hle
    rw [page_cons, Lexeme.spots_append, length_lexemes, spans]
    cases hwanted : wanted p.role with
    | true =>
      rw [hwanted, if_pos rfl] at hstep
      obtain ⟨hit, htoken, hpick⟩ := hstep
      rw [hpick, List.map_cons, htoken, ih h.2 hr]
      rfl
    | false =>
      rw [hwanted, if_neg Bool.false_ne_true] at hstep
      rw [hstep, ih h.2 hr]
      rfl

/-- **Hits of pieces.** A search that does what it should at each piece finds the bodies of the pieces of its roles. -/
theorem map_token_hits (hled : f.pattern.led x false false = true) (hsolid : f.pattern.solid = true) (hps : Sound ps)
    (hφ : IsDry φ) (h : Steps f (Lexeme.text (page φ ps)) x φ wanted 0 ps) :
    (f.hits (Lexeme.text (page φ ps))).map Hit.token = spans wanted 0 ps := by
  rw [Finder.hits, Finder.hitsWhere_eq_pick hled hsolid (hps.stands hφ)]
  exact map_token_pick h (Nat.le_refl 0)

section Search
variable {ι : Type} {g : ι → Piece ρ} {as : List ι}

/-- A search that does at each piece what it should. -/
theorem steps_of_forall (hps : Sound (as.map g)) (hφ : IsDry φ)
    (h : ∀ (o : Nat) (a : ι) (bs : List ι), a :: bs <:+ as →
      Stands (Lexeme.text (page φ (as.map g))) o (page φ ((a :: bs).map g)) →
      (∀ c ∈ Lexeme.text (page φ (as.map g)), IsAscii c) → Step f (Lexeme.text (page φ (as.map g))) x φ wanted o (g a)) :
    Steps f (Lexeme.text (page φ (as.map g))) x φ wanted 0 (as.map g) :=
  steps_map (fun o a bs hbs hs => h o a bs hbs hs (hps.isAscii hφ)) List.suffix_rfl (hps.stands hφ)

/-- A search that is to find no piece finds nothing. -/
theorem hits_eq_nil (hsteps : Steps f (Lexeme.text (page φ ps)) x φ (fun _ => false) 0 ps)
    (hled : f.pattern.led x false false = true) (hsolid : f.pattern.solid = true) (hps : Sound ps) (hφ : IsDry φ) :
    f.hits (work φ ps T).text = [] := by
  have hspans : ∀ (o : Nat) (ps : List (Piece ρ)), spans (fun _ => false) o ps = [] := by
    intro o ps
    induction ps generalizing o with
    | nil => rfl
    | cons p ps ih => exact ih _
  rw [text_work, ← List.map_eq_nil_iff (f := Hit.token)]
  exact (map_token_hits hled hsolid hps hφ hsteps).trans (hspans _ _)

end Search

end Steps

/-! ## Passes over pieces -/

/-- The source made of some pieces. -/
theorem ofSource_text (hps : Sound ps) : (WorkingCopy.ofSource (Lexeme.text (page untouched ps)) : WorkingCopy Category) =
    work untouched ps [] := by
  have hcells : ∀ ps : List (Piece ρ), ps.flatMap (cells untouched) = (Lexeme.text (page untouched ps)).map (⟨·, false⟩) := by
    intro ps
    induction ps with
    | nil => rfl
    | cons p ps ih =>
      rw [List.flatMap_cons, ih, page_cons, Lexeme.text_append, List.map_append, lexemes, Lexeme.text_append,
        Lexeme.text_append, List.map_append, List.map_append]
      rfl
  have hsource := WorkingCopy.cells_ofSource_of_ascii (α := Category) (hps.isAscii isDry_untouched)
  rw [← hcells] at hsource
  exact congrArg (WorkingCopy.mk · []) hsource

section Passes
variable {f : Finder} {category : Category} {fill : Char} {hits : List Hit}

/-- The category of the pieces of some roles. -/
def only (wanted : ρ → Bool) (category : Category) : ρ → Option Category := fun r => if wanted r then some category else none

theorem cells_add_of_not (hwanted : wanted p.role = false) : p.cells (φ.add wanted ink) = p.cells φ := by
  have hrole : φ.add wanted ink p.role = φ p.role := if_neg (by rw [hwanted]; exact Bool.false_ne_true)
  rw [cells, cells, hrole]

/-- Claiming the body of the only piece of some roles. -/
theorem claim_work {ps : List (Piece ρ)} {qs : List (Piece ρ)} (hfree : φ p.role = none) (hplain : ∀ c ∈ Lexeme.text p.body, c ≠ '\n')
    (hwanted : wanted p.role = true) (honly : ∀ q ∈ ps ++ qs, wanted q.role = false) (fill : Char) :
    (work φ (ps ++ p :: qs) T).claim (p.span (sizes ps)) fill = work (φ.add wanted ⟨fill, true⟩) (ps ++ p :: qs) T := by
  have hothers : ∀ {rs : List (Piece ρ)}, (∀ q ∈ rs, wanted q.role = false) →
      rs.flatMap (cells (φ.add wanted ⟨fill, true⟩)) = rs.flatMap (cells φ) :=
    fun h => List.flatMap_congr fun q hq => cells_add_of_not (h q hq)
  have hlength : (ps.flatMap (cells φ)).length = sizes ps := by
    rw [← length_page (φ := φ), ← text_work [], WorkingCopy.text, List.length_map]
    rfl
  obtain ⟨hps, hqs⟩ := List.forall_mem_append.1 honly
  rw [work, work, List.flatMap_append, List.flatMap_append, List.flatMap_cons, List.flatMap_cons, hothers hps, hothers hqs, ← hlength,
    claim_span hfree hwanted hplain]

/-- Where nothing is done with, nothing is claimed. -/
theorem isClaimed_untouched {s : Span} : (work untouched ps T).isClaimed s = false := by
  have hcells : ∀ c ∈ ps.flatMap (cells untouched), c.claimed = false := by
    intro c hc
    obtain ⟨p, -, hp⟩ := List.mem_flatMap.1 hc
    have hmap : ∀ cs : List Char, c ∈ cs.map (Ink.cell none) → c.claimed = false := by
      intro cs hcs
      obtain ⟨a, -, rfl⟩ := List.mem_map.1 hcs
      rfl
    simp only [cells, List.mem_append] at hp
    rcases hp with (hp | hp) | hp <;> exact hmap _ hp
  rw [WorkingCopy.isClaimed, Bool.and_eq_false_iff]
  refine Or.inr (List.any_eq_false.2 fun c hc => ?_)
  rw [hcells c (List.mem_of_mem_drop (List.mem_of_mem_take hc))]
  exact Bool.false_ne_true

/-- Roles that none of the pieces has do not matter. -/
theorem work_congr {ψ : Inks ρ} (h : ∀ p ∈ ps, φ p.role = ψ p.role) : work φ ps T = work ψ ps T := by
  have hcells : ∀ p ∈ ps, p.cells φ = p.cells ψ := fun p hp => by rw [cells, cells, h p hp]
  rw [work, work, List.flatMap_congr hcells]

theorem tokens_none (o : Nat) (ps : List (Piece ρ)) : tokens (fun _ => none) o ps = [] := by
  induction ps generalizing o with
  | nil => rfl
  | cons p ps ih => exact ih _

/-- Hits that are the bodies of the pieces of some roles are gone through piece by piece: what is done to one piece of
these roles is done to all of them, and the other pieces are left as they are. -/
theorem foldl_hits {act : WorkingCopy Category → Hit → WorkingCopy Category} {part : Hit → Span} (ink : Ink) (kind : ρ → Option Category)
    (hkind : ∀ r, wanted r = false → kind r = none)
    (hact : ∀ p ∈ ps, wanted p.role = true → ∀ (u v : List Cell) (T : List (Token Category)) (hit : Hit),
      part hit = p.span u.length → act ⟨u ++ (p.cells φ ++ v), T⟩ hit =
        ⟨u ++ (p.cells (φ.add wanted ink) ++ v), T ++ tokens kind u.length [p]⟩)
    (hhits : hits.map part = spans wanted u.length ps) :
    hits.foldl act ⟨u ++ ps.flatMap (cells φ), T⟩ =
      ⟨u ++ ps.flatMap (cells (φ.add wanted ink)), T ++ tokens kind u.length ps⟩ := by
  induction ps generalizing u hits T with
  | nil =>
    obtain rfl := List.map_eq_nil_iff.1 hhits
    rw [List.foldl_nil, tokens, List.append_nil]
    rfl
  | cons p ps ih =>
    obtain ⟨hp, hps⟩ := List.forall_mem_cons.1 hact
    have hnext : ∀ φ' : Inks ρ, (u ++ p.cells φ').length = u.length + p.size := by
      intro φ'
      rw [List.length_append, length_cells]
    rw [List.flatMap_cons, List.flatMap_cons, tokens, ← hnext (φ.add wanted ink)]
    cases hwanted : wanted p.role with
    | false =>
      rw [spans, hwanted, if_neg Bool.false_ne_true, List.nil_append, ← hnext φ] at hhits
      rw [cells_add_of_not hwanted, ← List.append_assoc, ih hps hhits, hkind _ hwanted, List.append_assoc]
      rfl
    | true =>
      rw [spans, hwanted, if_pos rfl, List.cons_append, List.nil_append] at hhits
      obtain ⟨hit, hits, rfl, hpart, hhits⟩ := List.map_eq_cons_iff.1 hhits
      rw [← hnext (φ.add wanted ink)] at hhits
      rw [List.foldl_cons, hp hwanted u _ T hit hpart, ← List.append_assoc, ih hps hhits, tokens, tokens, List.append_nil,
        List.append_assoc, List.append_assoc]

theorem foldl_classifyHit (hfree : ∀ r, wanted r = true → φ r = none)
    (hplain : ∀ p ∈ ps, ∀ c ∈ Lexeme.text p.body, c ≠ '\n') (hhits : hits.map Hit.token = spans wanted u.length ps) :
    hits.foldl (Tokenizer.classifyHit category fill false) ⟨u ++ ps.flatMap (cells φ), T⟩ =
      ⟨u ++ ps.flatMap (cells (φ.add wanted ⟨fill, true⟩)), T ++ tokens (only wanted category) u.length ps⟩ := by
  refine foldl_hits ⟨fill, true⟩ (only wanted category) (fun r hr => if_neg (by rw [hr]; exact Bool.false_ne_true))
    (fun p hp hwanted u v T hit htoken => ?_) hhits
  have hrole := hfree p.role hwanted
  have hadmits := admits_span (p := p) (u := u) (v := v) (T := T) hrole
  have htokens : tokens (only wanted category) u.length [p] = [⟨category, (p.span u.length).start, (p.span u.length).stop⟩] := by
    rw [tokens, tokens, only, if_pos hwanted]
    rfl
  rw [Tokenizer.classifyHit, htoken, if_pos hadmits, take, if_pos hadmits, emit, if_pos hadmits, htokens]
  exact claim_span hrole hwanted (hplain p hp) fill

theorem foldl_overwrite (hfree : ∀ r, wanted r = true → φ r = none)
    (hplain : ∀ p ∈ ps, ∀ c ∈ Lexeme.text p.body, c ≠ '\n') (hhits : hits.map Hit.whole = spans wanted u.length ps) :
    hits.foldl (fun w hit => w.overwrite hit.whole fill) (⟨u ++ ps.flatMap (cells φ), T⟩ : WorkingCopy Category) =
      ⟨u ++ ps.flatMap (cells (φ.add wanted ⟨fill, false⟩)), T⟩ := by
  refine (foldl_hits ⟨fill, false⟩ (fun _ => none) (fun _ _ => rfl) (fun p hp hwanted u v T hit hwhole => ?_) hhits).trans ?_
  · rw [hwhole, overwrite_span (hfree p.role hwanted) hwanted (hplain p hp), tokens_none, List.append_nil]
  · rw [tokens_none, List.append_nil]

/-- The bodies of pieces that are not done with are not claimed. -/
theorem not_isClaimed_of_mem {span : Span} (hfree : ∀ r, wanted r = true → φ r = none)
    (hspan : span ∈ spans wanted u.length ps) :
    (⟨u ++ ps.flatMap (cells φ), T⟩ : WorkingCopy Category).isClaimed span = false := by
  induction ps generalizing u with
  | nil => exact absurd hspan List.not_mem_nil
  | cons p ps ih =>
    rw [List.flatMap_cons]
    rcases List.mem_append.1 hspan with hspan | hspan
    · split_ifs at hspan with hwanted
      · obtain rfl := List.mem_singleton.1 hspan
        exact isClaimed_span (hfree p.role hwanted)
      · exact absurd hspan List.not_mem_nil
    · rw [← length_cells (φ := φ), ← List.length_append] at hspan
      rw [← List.append_assoc]
      exact ih hspan

/-- **Recording pieces.** A pass that finds the bodies of the pieces of some roles records and claims them. -/
theorem classify_work (hps : Sound ps) (hfree : ∀ r, wanted r = true → φ r = none)
    (hhits : (f.hits (Lexeme.text (page φ ps))).map Hit.token = spans wanted 0 ps) :
    Tokenizer.classify f category fill false (work φ ps T) =
      work (φ.add wanted ⟨fill, true⟩) ps (T ++ tokens (only wanted category) 0 ps) := by
  have haccept : ∀ h ∈ f.hits (work φ ps T).text, (!(work φ ps T).isClaimed h.token) = true := by
    intro h hmem
    have hspan : h.token ∈ spans wanted 0 ps := by
      rw [← hhits, ← text_work T]
      exact List.mem_map_of_mem hmem
    rw [Bool.not_eq_true']
    exact not_isClaimed_of_mem (u := []) hfree hspan
  rw [← text_work T] at hhits
  rw [Tokenizer.classify, Finder.hitsWhere_eq_hits haccept]
  exact foldl_classifyHit (u := []) hfree (fun p hp => hps.body_ne_newline hp) hhits

/-- A pass that finds the pieces of some roles records and claims them. -/
theorem classify_steps {x : Leads} (hsteps : Steps f (Lexeme.text (page φ ps)) x φ wanted 0 ps)
    (hled : f.pattern.led x false false = true) (hsolid : f.pattern.solid = true) (hps : Sound ps) (hφ : IsDry φ)
    (hfree : ∀ r, wanted r = true → φ r = none) : Tokenizer.classify f category fill false (work φ ps T) =
      work (φ.add wanted ⟨fill, true⟩) ps (T ++ tokens (only wanted category) 0 ps) :=
  classify_work hps hfree (map_token_hits hled hsolid hps hφ hsteps)

theorem free_of_eq [BEq ρ] [LawfulBEq ρ] {r : ρ} (h : φ r = none) : ∀ r', (r' == r) = true → φ r' = none := by
  intro r' hr
  rwa [beq_iff_eq.1 hr]

/-- **Covering pieces.** A pass that finds pieces of some roles and records nothing writes over them. -/
theorem erase_work (hps : Sound ps) (hfree : ∀ r, wanted r = true → φ r = none)
    (hparts : f.pattern.partless = true)
    (hhits : (f.hits (Lexeme.text (page φ ps))).map Hit.token = spans wanted 0 ps) :
    Tokenizer.erase f fill (work φ ps T) = work (φ.add wanted ⟨fill, false⟩) ps T := by
  have hwhole : (f.hits (Lexeme.text (page φ ps))).map Hit.whole = spans wanted 0 ps := by
    rw [← hhits]
    exact List.map_congr_left fun h hmem => (Finder.token_eq_whole hparts hmem).symm
  rw [← text_work T] at hwhole
  exact foldl_overwrite (u := []) hfree (fun p hp => hps.body_ne_newline hp) hwhole

end Passes

end Piece
end SourceLikeness
