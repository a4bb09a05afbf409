import SourceLikeness.Proofs.Comment.Erasure
import SourceLikeness.Proofs.Pattern.Evaluation
import SourceLikeness.Proofs.Pattern.Within
import SourceLikeness.Proofs.WorkingCopy.Twin

/-!
# Parts of a text where no token starts

A blank part of a text stays one where no token starts if it goes from the start of a line up to the end of one: passes may
write over it, but only with characters that no token starts with.

* `Pattern.startsOff`, `Finder.startsOff` : no reading, and no token, starts with one of some characters;
* `Quiet dead z w` : in the part `z` of a working copy there are only such characters, and no token starts in it;
* `Quiet.overwrite`, `Quiet.claim`, `Quiet.take`, `Quiet.mark` : when an operation keeps it;
* `Quiet.erase`, `Quiet.classify` : passes that need a finder only.
-/

namespace SourceLikeness
open Text (charBefore)

/-! ## What readings start with -/

namespace Pattern
variable {p : Pattern} {s dead : List Char} {c d : Cursor}

/-- No reading starts with one of the characters. -/
def startsOff (dead : List Char) : Pattern → Bool
  | one set => dead.all (!set.holds ·)
  | seq first second => first.startsOff dead && (first.solid || second.startsOff dead)
  | alt first second => first.startsOff dead && second.startsOff dead
  | many body => body.startsOff dead
  | few body => body.startsOff dead
  | part _ body => body.startsOff dead
  | _ => true

theorem Reads.exists_of_startsOff (h : p.Reads c d) (hc : c.In s) (hp : p.startsOff dead = true) (hlt : c.offset < d.offset) :
    ∃ x ∉ dead, s[c.offset]? = some x := by
  induction p generalizing c d with
  | empty | wordEdge | lineStart | textStart =>
    first | obtain rfl := h | obtain ⟨-, rfl⟩ := h
    exact absurd hlt (Nat.lt_irrefl _)
  | one set =>
    obtain ⟨y, rest, hrest, hy, rfl⟩ := h
    refine ⟨y, fun hmem => ?_, hc.getElem? hrest⟩
    have hnot := List.all_eq_true.1 hp y hmem
    rw [hy] at hnot
    exact Bool.noConfusion hnot
  | seq p q ihp ihq =>
    obtain ⟨m, hpm, hq⟩ := h
    obtain ⟨hpp, hrest⟩ := Bool.and_eq_true_iff.1 hp
    obtain ⟨hm, hle⟩ := hpm.mem hc
    rcases Nat.lt_or_eq_of_le hle with hcm | heq
    · exact ihp hpm hc hpp hcm
    · rcases Bool.or_eq_true_iff.1 hrest with hsolid | hpq
      · exact absurd (hpm.lt_of_solid hc hsolid) (by omega)
      · rw [heq] at hlt ⊢
        exact ihq hq hm hpq hlt
  | alt p q ihp ihq =>
    obtain ⟨hpp, hpq⟩ := Bool.and_eq_true_iff.1 hp
    exact h.elim (fun h => ihp h hc hpp hlt) fun h => ihq h hc hpq hlt
  | many body ih | few body ih =>
    induction h using Relation.ReflTransGen.head_induction_on with
    | refl => exact absurd hlt (Nat.lt_irrefl _)
    | head hstep hsteps ihsteps =>
      rename_i a b
      obtain ⟨hb, hle⟩ := hstep.mem hc
      rcases Nat.lt_or_eq_of_le hle with hab | heq
      · exact ih hstep hc hp hab
      · rw [heq] at hlt ⊢
        exact ihsteps hb hlt
  | part name body ih =>
    obtain ⟨m, hm, rfl⟩ := h
    exact ih (d := m) hm hc hp hlt

end Pattern

namespace Finder
variable {f : Finder} {accept : Hit → Bool} {s dead : List Char} {h : Hit}

/-- No token starts with one of the characters. -/
def startsOff (dead : List Char) (f : Finder) : Bool :=
  f.solid && (f.pattern.notes .token || f.pattern.startsOff dead) && (f.pattern.bodies .token).all (·.startsOff dead)

theorem exists_token_of_startsOff (hmem : h ∈ f.hitsWhere accept s) (hf : f.startsOff dead = true) :
    ∃ x ∉ dead, s[h.token.start]? = some x := by
  simp only [startsOff, Bool.and_eq_true, Bool.or_eq_true] at hf
  obtain ⟨⟨hsolid, hwhole⟩, hbodies⟩ := hf
  have hlt := token_lt_of_mem hmem hsolid
  unfold Hit.token at hlt ⊢
  cases hpart : h.part? .token with
  | some q =>
    rw [hpart, Option.getD_some] at hlt
    obtain ⟨body, hbody, a, b, hreads, ha, rfl⟩ := exists_body hmem hpart
    exact hreads.exists_of_startsOff ha (List.all_eq_true.1 hbodies body hbody) hlt
  | none =>
    rw [hpart, Option.getD_none] at hlt
    have hstarts := hwhole.resolve_left fun hnotes => by
      obtain ⟨q, hq⟩ := exists_part? hmem hnotes
      rw [hpart] at hq
      cases hq
    obtain ⟨d, hd, heq⟩ := read_of_hitOf (hitOf_of_mem hmem)
    rw [heq] at hlt
    exact (Pattern.reads_of_read hd).exists_of_startsOff (in_start s _) hstarts hlt

end Finder

namespace Tokenizer
open WorkingCopy
open Text (Filled inked)
variable {z q : Span} {dead dead' : List Char} {w w' : Work} {f : Finder} {fill x : Char} {i n : Nat}

/-! ## Quiet parts -/

/-- A part of a working copy that starts at the start of a line and holds only dead characters, where no token starts. -/
structure Quiet (dead : List Char) (z : Span) (w : Work) : Prop where
  lineStart : (charBefore w.text z.start).all (· == '\n') = true
  text : ∀ i, z.Covers i → ∃ x ∈ dead, w.text[i]? = some x
  tokens : ∀ k ∈ w.tokens, ¬ z.Covers k.start

namespace Quiet

theorem mono (h : Quiet dead z w) (hdead : dead ⊆ dead') : Quiet dead' z w :=
  ⟨h.lineStart, fun i hi => (h.text i hi).imp fun _ hx => ⟨hdead hx.1, hx.2⟩, h.tokens⟩

theorem not_covers (h : Quiet dead z w) (hi : w.text[i]? = some x) (hx : x ∉ dead) : ¬ z.Covers i := by
  intro hcovers
  obtain ⟨y, hy, hget⟩ := h.text i hcovers
  obtain rfl := Option.some.inj (hi.symm.trans hget)
  exact hx hy

/-- Behind a character that is not dead there is nothing of the part either. -/
theorem not_covers_succ (h : Quiet dead z w) (hi : w.text[i]? = some x) (hx : x ∉ dead) (hnewline : x ≠ '\n') :
    ¬ z.Covers (i + 1) := by
  rintro ⟨hle, hlt⟩
  rcases Nat.lt_or_eq_of_le hle with hstart | heq
  · exact h.not_covers hi hx ⟨Nat.le_of_lt_succ hstart, Nat.lt_of_succ_lt hlt⟩
  · have hline := h.lineStart
    rw [heq, show charBefore w.text (i + 1) = w.text[i]? from rfl, hi] at hline
    exact hnewline (beq_iff_eq.1 hline)

/-- Words have no edge in it. -/
theorem not_covers_of_edge (h : Quiet dead z w) (hdead : ∀ x ∈ dead, Text.isWord x = false)
    (hedge : (Finder.start w.text i).atWordEdge = true) : ¬ z.Covers i := by
  intro hi
  obtain ⟨x, hx, hat⟩ := h.text i hi
  have hafter : (w.text.drop i).head?.any Text.isWord = false := by rw [List.head?_drop, hat, Option.any_some, hdead x hx]
  have hbefore : (charBefore w.text i).any Text.isWord = false := by
    rcases Nat.lt_or_eq_of_le hi.1 with hlt | heq
    · obtain ⟨m, rfl⟩ := Nat.exists_eq_succ_of_ne_zero (Nat.ne_of_gt (Nat.zero_lt_of_lt hlt))
      obtain ⟨y, hy, hprev⟩ := h.text m ⟨Nat.le_of_lt_succ hlt, Nat.lt_of_succ_lt hi.2⟩
      rw [show charBefore w.text (m + 1) = w.text[m]? from rfl, hprev, Option.any_some, hdead y hy]
    · have hline := h.lineStart
      rw [heq] at hline
      cases hchar : charBefore w.text i with
      | none => rfl
      | some y =>
        rw [hchar] at hline
        obtain rfl := beq_iff_eq.1 hline
        decide
  rw [Cursor.atWordEdge, Finder.start] at hedge
  dsimp only at hedge
  rw [hafter, hbefore] at hedge
  exact Bool.noConfusion hedge

/-! ### Operations -/

/-- A part stays quiet where something dead is written, and where something else is written beside it. -/
theorem of_filled (h : Quiet dead z w) (ht : Filled (inked fill) q.start q.stop w.text w'.text)
    (hfill : fill ∈ dead ∨ ∀ i, q.Covers i → ¬ z.Covers i) (htokens : ∀ k ∈ w'.tokens, ¬ z.Covers k.start) :
    Quiet dead z w' where
  lineStart := by
    have hline := h.lineStart
    cases hstart : z.start with
    | zero => rfl
    | succ n =>
      rw [hstart] at hline
      change (w.text[n]?).all _ = true at hline
      change (w'.text[n]?).all _ = true
      rw [ht n]
      split_ifs
      · cases hchar : w.text[n]? with
        | none => rfl
        | some c =>
          rw [hchar] at hline
          obtain rfl := beq_iff_eq.1 hline
          rfl
      · exact hline
  text i hi := by
    obtain ⟨x, hx, hget⟩ := h.text i hi
    rw [ht i]
    split_ifs with hcovers
    · have hdead := hfill.resolve_right fun hbeside => hbeside i hcovers hi
      rw [hget, Option.map_some]
      unfold inked
      split_ifs with hnewline
      · exact ⟨_, hx, rfl⟩
      · exact ⟨_, hdead, rfl⟩
    · exact ⟨x, hx, hget⟩
  tokens := htokens

theorem overwrite (h : Quiet dead z w) (hfill : fill ∈ dead ∨ ∀ i, q.Covers i → ¬ z.Covers i) :
    Quiet dead z (w.overwrite q fill) := h.of_filled (filled_overwrite w q fill) hfill h.tokens

theorem claim (h : Quiet dead z w) (hfill : fill ∈ dead ∨ ∀ i, q.Covers i → ¬ z.Covers i) : Quiet dead z (w.claim q fill) :=
  h.of_filled (filled_claim w q fill) hfill h.tokens

theorem emit (h : Quiet dead z w) (category : Category) (hq : ¬ z.Covers q.start) : Quiet dead z (w.emit category q) := by
  unfold WorkingCopy.emit
  split_ifs
  · exact ⟨h.lineStart, h.text, List.forall_mem_append.2 ⟨h.tokens, List.forall_mem_singleton.2 hq⟩⟩
  · exact h

theorem mark (h : Quiet dead z w) (category : Category) (hn : ¬ z.Covers n) : Quiet dead z (w.mark category n) :=
  h.emit category hn

theorem take (h : Quiet dead z w) (category : Category) (hq : ¬ z.Covers q.start) (hfill : fill ∈ dead) :
    Quiet dead z (w.take category q fill) := by
  unfold WorkingCopy.take
  split_ifs
  · exact (h.emit category hq).claim (Or.inl hfill)
  · exact h

theorem foldl {α : Type} {step : Work → α → Work} {xs : List α} (h : Quiet dead z w)
    (hstep : ∀ a ∈ xs, ∀ v, Quiet dead z v → Quiet dead z (step v a)) : Quiet dead z (xs.foldl step w) := by
  induction xs generalizing w with
  | nil => exact h
  | cons a xs ih =>
    obtain ⟨ha, hxs⟩ := List.forall_mem_cons.1 hstep
    exact ih (ha w h) hxs

/-! ### Passes that need a finder only -/

theorem erase (h : Quiet dead z w) (f : Finder) (hfill : fill ∈ dead) : Quiet dead z (Tokenizer.erase f fill w) :=
  h.foldl fun _ _ _ hv => hv.overwrite (Or.inl hfill)

theorem classify_of_starts {category : Category} {swallows : Bool} (h : Quiet dead z w) (hfill : fill ∈ dead)
    (hstart : ∀ accept, ∀ hit ∈ f.hitsWhere accept w.text, ¬ z.Covers hit.token.start) :
    Quiet dead z (classify f category fill swallows w) := by
  refine h.foldl fun hit hmem v hv => ?_
  have htake := hv.take category (hstart _ hit hmem) hfill
  unfold classifyHit
  split_ifs
  · exact htake.claim (Or.inl hfill)
  · exact htake
  · exact hv

theorem classify {category : Category} {swallows : Bool} (h : Quiet dead z w) (hfill : fill ∈ dead)
    (hf : f.startsOff dead = true) : Quiet dead z (Tokenizer.classify f category fill swallows w) :=
  h.classify_of_starts hfill fun _ _ hmem => by
    obtain ⟨x, hx, hget⟩ := Finder.exists_token_of_startsOff hmem hf
    exact h.not_covers hget hx

end Quiet
end Tokenizer
end SourceLikeness
