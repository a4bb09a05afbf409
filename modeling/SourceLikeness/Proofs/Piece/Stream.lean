import SourceLikeness.Proofs.Piece.Basic
import SourceLikeness.Proofs.Token.Stream

/-!
# The tokens of pieces

* `Piece.tokens_perm` : what is recorded role by role is what the pieces have, in another order;
* `Piece.filter_tokens_congr` : the markers are those of the pieces whose bodies are empty;
* `Piece.stream_eq_tokens` : the stream has it in the order of the pieces;
* `Piece.Calm`, `Piece.Calm.eq_of_span_eq` : pieces of which the order of the markers does not matter.
-/

namespace SourceLikeness

namespace Piece
variable {ρ : Type} {p : Piece ρ} {ps : List (Piece ρ)} {o : Nat} {T : List (Token Category)}

/-! ## The tokens of pieces -/

section Tokens
variable {c d : ρ → Option Category} {t : Token Category} {s : Token Category} {n : Nat}

theorem mem_tokens_cons (ht : t ∈ tokens c o (p :: ps)) :
    (c p.role = some t.symbol ∧ t.span = p.span o) ∨ t ∈ tokens c (o + p.size) ps := by
  refine (List.mem_append.1 ht).imp_left fun ht => ?_
  obtain ⟨category, hcategory, rfl⟩ := List.mem_map.1 ht
  exact ⟨Option.mem_toList.1 hcategory, rfl⟩

theorem le_of_mem_tokens (ht : t ∈ tokens c o ps) : o ≤ t.start ∧ t.start ≤ t.stop := by
  induction ps generalizing o with
  | nil => exact absurd ht List.not_mem_nil
  | cons p ps ih =>
    rcases mem_tokens_cons ht with ⟨-, hspan⟩ | ht
    · have hstart : t.start = o + (Lexeme.text p.lead).length := congrArg Span.start hspan
      have hstop : t.stop = o + (Lexeme.text p.lead).length + (Lexeme.text p.body).length := congrArg Span.stop hspan
      omega
    · obtain ⟨hle, hle'⟩ := ih ht
      exact ⟨Nat.le_trans (Nat.le_add_right _ _) hle, hle'⟩

theorem pairwise_tokens (c : ρ → Option Category) (o : Nat) (ps : List (Piece ρ)) :
    (tokens c o ps).Pairwise fun s t => s.stop ≤ t.start := by
  induction ps generalizing o with
  | nil => exact .nil
  | cons p ps ih =>
    refine List.pairwise_append.2 ⟨?_, ih _, ?_⟩
    · cases c p.role with
      | none => exact .nil
      | some category => exact List.pairwise_singleton _ _
    · intro s hs t ht
      obtain ⟨category, -, rfl⟩ := List.mem_map.1 hs
      have hle := (le_of_mem_tokens ht).1
      simp only [span, size] at hle ⊢
      omega

/-- What two searches for different roles record is what one for both would record, but for the order. -/
theorem tokens_perm (hdisjoint : ∀ r, c r = none ∨ d r = none) (o : Nat) (ps : List (Piece ρ)) :
    (tokens c o ps ++ tokens d o ps).Perm (tokens (fun r => (c r).or (d r)) o ps) := by
  induction ps generalizing o with
  | nil => exact .refl _
  | cons p ps ih =>
    have hhead : ((c p.role).toList ++ (d p.role).toList : List Category) = ((c p.role).or (d p.role)).toList := by
      rcases hdisjoint p.role with h | h
      · rw [h]; rfl
      · rw [h, Option.or_none, Option.toList_none, List.append_nil]
    simp only [tokens]
    rw [← hhead, List.map_append, List.append_assoc, List.append_assoc]
    refine List.Perm.append_left _ (List.Perm.trans ?_ (List.Perm.append_left _ (ih _)))
    rw [← List.append_assoc, ← List.append_assoc]
    exact List.Perm.append_right _ List.perm_append_comm

/-- What is recorded with further pieces is what all of them have, in another order. -/
theorem append_perm_tokens {T : List (Token Category)} (hT : T.Perm (tokens c o ps)) (hdisjoint : ∀ r, c r = none ∨ d r = none) :
    (T ++ tokens d o ps).Perm (tokens (fun r => (c r).or (d r)) o ps) := (hT.append_right _).trans (tokens_perm hdisjoint o ps)

theorem symbols_tokens (c : ρ → Option Category) (o : Nat) (ps : List (Piece ρ)) :
    Token.symbols (tokens c o ps) = ps.filterMap fun p => c p.role := by
  induction ps generalizing o with
  | nil => rfl
  | cons p ps ih =>
    rw [tokens, Token.symbols, List.map_append, ← Token.symbols, ← Token.symbols, ih, List.filterMap_cons]
    cases c p.role <;> rfl

/-- The markers among the tokens are those of the pieces whose bodies are empty. -/
theorem filter_tokens_congr (h : ∀ p ∈ ps, Lexeme.text p.body = [] → c p.role = d p.role) (o n : Nat) :
    (tokens c o ps).filter (·.span == ⟨n, n⟩) = (tokens d o ps).filter (·.span == ⟨n, n⟩) := by
  have hwide : ∀ {e : ρ → Option Category} {p : Piece ρ} {o : Nat}, Lexeme.text p.body ≠ [] →
      ((e p.role).toList.map fun k => (⟨k, (p.span o).start, (p.span o).stop⟩ : Token Category)).filter (·.span == ⟨n, n⟩) = [] := by
    intro e p o hbody
    rw [List.filter_eq_nil_iff]
    rintro t ht hspan
    obtain ⟨k, -, rfl⟩ := List.mem_map.1 ht
    have hpos := List.length_pos_of_ne_nil hbody
    have hstart : (p.span o).start = n := congrArg Span.start (beq_iff_eq.1 hspan)
    have hstop : (p.span o).stop = n := congrArg Span.stop (beq_iff_eq.1 hspan)
    simp only [span] at hstart hstop
    omega
  induction ps generalizing o with
  | nil => rfl
  | cons p ps ih =>
    obtain ⟨hp, hps⟩ := List.forall_mem_cons.1 h
    rw [tokens, tokens, List.filter_append, List.filter_append, ih hps]
    by_cases hbody : Lexeme.text p.body = []
    · rw [hp hbody]
    · rw [hwide hbody, hwide hbody]

/-- **The stream of pieces.** Their tokens, recorded in any order, make the stream of their tokens in order, if the
markers of each place are all the same or were recorded in order. -/
theorem stream_eq_tokens {T : List (Token Category)} (hperm : T.Perm (tokens c 0 ps))
    (hmarkers : ∀ n, (∀ s ∈ tokens c 0 ps, ∀ t ∈ tokens c 0 ps, s.span = ⟨n, n⟩ → t.span = ⟨n, n⟩ → s = t) ∨
      T.filter (·.span == ⟨n, n⟩) = (tokens c 0 ps).filter (·.span == ⟨n, n⟩)) : Token.stream T = tokens c 0 ps := by
  have hpairwise := pairwise_tokens c 0 ps
  refine Token.stream_eq hperm (hpairwise.imp_of_mem fun {s t} hs ht hle => ?_) fun place => ?_
  · obtain ⟨-, hs⟩ := le_of_mem_tokens hs
    obtain ⟨-, ht⟩ := le_of_mem_tokens ht
    rw [Token.precedes_iff]
    omega
  · by_cases hplace : place.start = place.stop
    · obtain ⟨i, j⟩ := place
      obtain rfl : i = j := hplace
      exact hmarkers i
    · -- two tokens that have a width do not stand at one place
      refine Or.inl fun s hs t ht hsp htp => ?_
      have happart : (tokens c 0 ps).Pairwise fun s t => s.stop ≤ t.start ∨ t.stop ≤ s.start :=
        hpairwise.imp fun hle => Or.inl hle
      have : Std.Symm fun s t : Token Category => s.stop ≤ t.start ∨ t.stop ≤ s.start := ⟨fun _ _ => Or.symm⟩
      by_contra hne
      have hcases := happart.forall hs ht hne
      have hsle := (le_of_mem_tokens hs).2
      have hstart : s.start = place.start := congrArg Span.start hsp
      have hstop : s.stop = place.stop := congrArg Span.stop hsp
      have hstart' : t.start = place.start := congrArg Span.start htp
      have hstop' : t.stop = place.stop := congrArg Span.stop htp
      omega

/-- Two pieces of no size that touch have one role, and every body is empty only where the whole piece is. -/
structure Calm (ps : List (Piece ρ)) : Prop where
  touching : ps.IsChain fun p q => p.size = 0 → q.size = 0 → p.role = q.role
  body : ∀ p ∈ ps, p.body = [] → p.size = 0

theorem Calm.tail (h : Calm (p :: ps)) : Calm ps :=
  ⟨List.IsChain.of_cons h.touching, fun q hq => h.body q (List.mem_cons_of_mem p hq)⟩

theorem Calm.size_eq_zero (h : Calm (p :: ps)) (hsound : ∀ l ∈ p.body, l.Sound) (hspan : p.span o = ⟨n, n⟩) :
    p.size = 0 ∧ o = n := by
  have hstart : o + (Lexeme.text p.lead).length = n := congrArg Span.start hspan
  have hstop : o + (Lexeme.text p.lead).length + (Lexeme.text p.body).length = n := congrArg Span.stop hspan
  have hnil : p.body = [] := by
    cases hbody : p.body with
    | nil => rfl
    | cons l ls =>
      have hpos := Lexeme.length_pos (hsound l (by rw [hbody]; exact List.mem_cons_self))
      rw [hbody, Lexeme.text_cons, List.length_append] at hstop
      omega
  have hzero := h.body p List.mem_cons_self hnil
  refine ⟨hzero, ?_⟩
  rw [size] at hzero
  omega

/-- Behind a piece of no size, the markers of its place have its role. -/
theorem Calm.symbol_eq (h : Calm (p :: ps)) (hsound : ∀ q ∈ ps, ∀ l ∈ q.body, l.Sound) (hp : p.size = 0)
    (ht : t ∈ tokens c o ps) (hspan : t.span = ⟨o, o⟩) : c p.role = some t.symbol := by
  induction ps generalizing p with
  | nil => exact absurd ht List.not_mem_nil
  | cons q ps ih =>
    obtain ⟨hq, hps⟩ := List.forall_mem_cons.1 hsound
    have hrole := (List.isChain_cons_cons.1 h.touching).1 hp
    rcases mem_tokens_cons ht with ⟨hcategory, hq'⟩ | ht
    · have hzero := (h.tail.size_eq_zero hq (hq'.symm.trans hspan)).1
      rw [hrole hzero, hcategory]
    · have hle := (le_of_mem_tokens ht).1
      have hstart : t.start = o := congrArg Span.start hspan
      have hzero : q.size = 0 := by omega
      rw [hzero, Nat.add_zero] at ht
      rw [hrole hzero]
      exact ih h.tail hps hzero ht

/-- Where nothing disturbs, the markers of a place are all the same. -/
theorem Calm.eq_of_span_eq (h : Calm ps) (hsound : ∀ q ∈ ps, ∀ l ∈ q.body, l.Sound) (hs : s ∈ tokens c o ps)
    (ht : t ∈ tokens c o ps) (hspan : s.span = ⟨n, n⟩) (hspan' : t.span = ⟨n, n⟩) : s = t := by
  have heq : ∀ {s t : Token Category}, s.symbol = t.symbol → s.span = ⟨n, n⟩ → t.span = ⟨n, n⟩ → s = t := by
    rintro ⟨a, i, j⟩ ⟨b, k, l⟩ hsymbol hs ht
    obtain ⟨rfl, rfl⟩ := Span.mk.inj (hs.trans ht.symm)
    exact congrArg (Token.mk · i j) hsymbol
  induction ps generalizing o with
  | nil => exact absurd hs List.not_mem_nil
  | cons p ps ih =>
    obtain ⟨hp, hps⟩ := List.forall_mem_cons.1 hsound
    have hbehind : ∀ {s t : Token Category}, c p.role = some s.symbol → s.span = p.span o → s.span = ⟨n, n⟩ →
        t ∈ tokens c (o + p.size) ps → t.span = ⟨n, n⟩ → s.symbol = t.symbol := by
      intro s t hcategory hs hspan ht hspan'
      obtain ⟨hzero, rfl⟩ := h.size_eq_zero hp (hs.symm.trans hspan)
      rw [hzero, Nat.add_zero] at ht
      have hsymbol := h.symbol_eq hps hzero ht hspan'
      exact Option.some.inj (hcategory.symm.trans hsymbol)
    rcases mem_tokens_cons hs with ⟨hcs, hss⟩ | hs' <;> rcases mem_tokens_cons ht with ⟨hct, hts⟩ | ht'
    · exact heq (Option.some.inj (hcs.symm.trans hct)) hspan hspan'
    · exact heq (hbehind hcs hss hspan ht' hspan') hspan hspan'
    · exact heq (hbehind hct hts hspan' hs' hspan).symm hspan hspan'
    · exact ih h.tail hps hs' ht'

end Tokens

end Piece
end SourceLikeness
