import SourceLikeness.Category
import SourceLikeness.Proofs.Pattern.Spots
import SourceLikeness.WorkingCopy
import Mathlib.Data.List.Chain

/-!
# Texts made of pieces

A text is cut into pieces, each with a role. A pass finds the pieces of some roles and leaves the others as they are,
so that a working copy is known from the pieces and from what became of each role.

* `Piece`, `Piece.span` : a piece, and where its body stands, of which a token is made;
* `Inks`, `Piece.work` : what became of the roles, and the working copy of that;
* `Piece.Sound`, `Piece.Sound.stands` : pieces that can be told apart as words and signs, whatever became of them;
* `Piece.claim_span`, `Piece.overwrite_span` : writing over the body of a piece.
-/

namespace SourceLikeness
open Lexeme (Apart spots)

variable {ρ : Type}

/-- A part of a text that is taken as a whole. A token is made of its body. -/
structure Piece (ρ : Type) where
  role : ρ
  lead : List Lexeme
  body : List Lexeme
  trail : List Lexeme

/-- What something was filled with, and whether it was claimed. -/
structure Ink where
  fill : Char
  claimed : Bool

/-- What became of the pieces of each role. -/
abbrev Inks (ρ : Type) := ρ → Option Ink

/-- The pieces of some more roles are done with. -/
def Inks.add (φ : Inks ρ) (wanted : ρ → Bool) (ink : Ink) : Inks ρ := fun r => if wanted r then some ink else φ r

/-- Nothing has become of any piece. -/
abbrev untouched : Inks ρ := fun _ => none

/-- The cell of a character. -/
def Ink.cell (ink? : Option Ink) (c : Char) : Cell := ink?.elim ⟨c, false⟩ fun ink => ⟨ink.fill, ink.claimed⟩

/-- What is left to be read of some lexemes. -/
def Ink.cover (ink? : Option Ink) (ls : List Lexeme) : List Lexeme :=
  ink?.elim ls fun ink => List.replicate (Lexeme.text ls).length (.sign ink.fill)

namespace Piece

def size (p : Piece ρ) : Nat :=
  (Lexeme.text p.lead).length + (Lexeme.text p.body).length + (Lexeme.text p.trail).length

/-- Where the body of a piece stands that stands at an offset. -/
def span (o : Nat) (p : Piece ρ) : Span :=
  ⟨o + (Lexeme.text p.lead).length, o + (Lexeme.text p.lead).length + (Lexeme.text p.body).length⟩

def lexemes (φ : Inks ρ) (p : Piece ρ) : List Lexeme := p.lead ++ Ink.cover (φ p.role) p.body ++ p.trail

def cells (φ : Inks ρ) (p : Piece ρ) : List Cell :=
  (Lexeme.text p.lead).map (Ink.cell none) ++ (Lexeme.text p.body).map (Ink.cell (φ p.role)) ++
    (Lexeme.text p.trail).map (Ink.cell none)

/-- What is left to be read of some pieces. -/
def page (φ : Inks ρ) (ps : List (Piece ρ)) : List Lexeme := ps.flatMap (lexemes φ)

/-- The working copy of some pieces. -/
def work (φ : Inks ρ) (ps : List (Piece ρ)) (tokens : List (Token Category)) : WorkingCopy Category :=
  ⟨ps.flatMap (cells φ), tokens⟩

/-- The pieces are made of sound lexemes, no two words of which touch. -/
structure Sound (ps : List (Piece ρ)) : Prop where
  lexeme : ∀ l ∈ page (fun _ => none) ps, l.Sound
  apart : Apart (page (fun _ => none) ps)

/-- The bodies of the pieces of some roles. -/
def spans (wanted : ρ → Bool) : Nat → List (Piece ρ) → List Span
  | _, [] => []
  | o, p :: ps => (if wanted p.role then [p.span o] else []) ++ spans wanted (o + p.size) ps

/-- The tokens of the pieces. -/
def tokens (category : ρ → Option Category) : Nat → List (Piece ρ) → List (Token Category)
  | _, [] => []
  | o, p :: ps =>
    (category p.role).toList.map (⟨·, (p.span o).start, (p.span o).stop⟩) ++ tokens category (o + p.size) ps

/-- The number of characters of some pieces. -/
def sizes : List (Piece ρ) → Nat
  | [] => 0
  | p :: ps => p.size + sizes ps

variable {φ : Inks ρ} {p : Piece ρ} {ps qs : List (Piece ρ)} {o : Nat} {wanted : ρ → Bool} {ink : Ink}

theorem lexemes_of_none (h : φ p.role = none) : p.lexemes φ = p.lead ++ p.body ++ p.trail := by
  rw [lexemes, h]
  rfl

theorem lexemes_of_some (h : φ p.role = some ink) :
    p.lexemes φ = p.lead ++ List.replicate (Lexeme.text p.body).length (.sign ink.fill) ++ p.trail := by
  rw [lexemes, h]
  rfl

@[simp] theorem page_nil : page φ [] = [] := rfl

@[simp] theorem page_cons : page φ (p :: ps) = p.lexemes φ ++ page φ ps := rfl

@[simp] theorem page_append : page φ (ps ++ qs) = page φ ps ++ page φ qs := List.flatMap_append

/-! ## Cells and lexemes -/

theorem text_cover (ink? : Option Ink) (ls : List Lexeme) :
    Lexeme.text (Ink.cover ink? ls) = (Lexeme.text ls).map fun c => (Ink.cell ink? c).char := by
  cases ink? with
  | none => exact (List.map_id _).symm
  | some ink =>
    have hsigns : ∀ n, Lexeme.text (List.replicate n (.sign ink.fill)) = List.replicate n ink.fill := by
      intro n
      induction n with
      | zero => rfl
      | succ n ih => rw [List.replicate_succ, Lexeme.text_cons, ih, List.replicate_succ]; rfl
    exact (hsigns _).trans (List.map_const' (l := Lexeme.text ls)).symm

theorem map_char_cells (p : Piece ρ) : (p.cells φ).map (·.char) = Lexeme.text (p.lexemes φ) := by
  have hplain : ∀ cs : List Char, (cs.map (Ink.cell none)).map (·.char) = cs := fun cs => by
    rw [List.map_map]
    exact List.map_id cs
  rw [cells, lexemes, Lexeme.text_append, Lexeme.text_append, text_cover, List.map_append, List.map_append, hplain, hplain,
    List.map_map]
  rfl

theorem text_work (tokens : List (Token Category)) : (work φ ps tokens).text = Lexeme.text (page φ ps) := by
  unfold WorkingCopy.text work page
  induction ps with
  | nil => rfl
  | cons p ps ih =>
    rw [List.flatMap_cons, List.map_append, ih, List.flatMap_cons, map_char_cells, Lexeme.text_append]

theorem length_cells (p : Piece ρ) : (p.cells φ).length = p.size := by
  simp only [cells, size, List.length_append, List.length_map]

theorem length_lexemes (p : Piece ρ) : (Lexeme.text (p.lexemes φ)).length = p.size := by
  rw [← map_char_cells, List.length_map, length_cells]

@[simp] theorem sizes_nil : sizes ([] : List (Piece ρ)) = 0 := rfl

@[simp] theorem sizes_cons : sizes (p :: ps) = p.size + sizes ps := rfl

@[simp] theorem sizes_append : sizes (ps ++ qs) = sizes ps + sizes qs := by
  induction ps with
  | nil => exact (Nat.zero_add _).symm
  | cons p ps ih => rw [List.cons_append, sizes_cons, sizes_cons, ih, Nat.add_assoc]

theorem length_page (ps : List (Piece ρ)) : (Lexeme.text (page φ ps)).length = sizes ps := by
  induction ps with
  | nil => rfl
  | cons p ps ih => rw [page_cons, Lexeme.text_append, List.length_append, ih, length_lexemes, sizes_cons]

theorem tokens_append {category : ρ → Option Category} :
    tokens category o (ps ++ qs) = tokens category o ps ++ tokens category (o + sizes ps) qs := by
  induction ps generalizing o with
  | nil => rfl
  | cons p ps ih => rw [List.cons_append, tokens, tokens, ih, sizes_cons, List.append_assoc, Nat.add_assoc]

/-! ## Soundness under ink -/

/-- The inks are signs. -/
def IsDry (φ : Inks ρ) : Prop := ∀ r ink, φ r = some ink → (Lexeme.sign ink.fill).Sound

theorem isDry_untouched : IsDry (untouched : Inks ρ) := by
  intro r ink h
  cases h

theorem IsDry.add (hφ : IsDry φ) (hink : (Lexeme.sign ink.fill).Sound) : IsDry (φ.add wanted ink) := by
  intro r other hother
  rw [Inks.add] at hother
  split_ifs at hother
  · obtain rfl := Option.some.inj hother
    exact hink
  · exact hφ r other hother

theorem sound_masked : (Lexeme.sign WorkingCopy.masked).Sound := ⟨by decide, by decide, by decide⟩

theorem sound_operator : (Lexeme.sign WorkingCopy.operator).Sound := ⟨by decide, by decide, by decide⟩

theorem Sound.of_flatMap {ι : Type} {g : ι → Piece ρ} {as : List ι} (h : ∀ a ∈ as, ∀ l ∈ (g a).lexemes untouched, l.Sound)
    (hapart : Apart (as.flatMap fun a => (g a).lexemes untouched)) : Sound (as.map g) where
  lexeme l hl := by
    rw [page, List.flatMap_map] at hl
    obtain ⟨a, ha, hl⟩ := List.mem_flatMap.1 hl
    exact h a ha l hl
  apart := by rwa [page, List.flatMap_map]

theorem apart_cover {ks ls ms : List Lexeme} (h : Apart (ks ++ (ls ++ ms))) (hls : ∀ l ∈ ls, l.Sound) (ink? : Option Ink) :
    Apart (ks ++ (Ink.cover ink? ls ++ ms)) := by
  cases ink? with
  | none => exact h
  | some ink =>
    cases ls with
    | nil => exact h
    | cons l ls =>
      obtain ⟨hks, hrest, -⟩ := List.isChain_append.1 h
      obtain ⟨-, hms, -⟩ := List.isChain_append.1 hrest
      have hpos : 0 < (Lexeme.text (l :: ls)).length := by
        have hl := Lexeme.length_pos (hls l List.mem_cons_self)
        rw [Lexeme.text_cons, List.length_append]
        omega
      obtain ⟨n, hn⟩ := Nat.exists_eq_succ_of_ne_zero (Nat.ne_of_gt hpos)
      have hcover : Ink.cover (some ink) (l :: ls) = .sign ink.fill :: List.replicate n (.sign ink.fill) := by
        rw [Ink.cover, Option.elim_some, hn, List.replicate_succ]
      have hchain : Apart (.sign ink.fill :: List.replicate n (.sign ink.fill)) := by
        rw [← List.replicate_succ]
        exact List.isChain_replicate_of_rel _ rfl
      rw [hcover]
      -- next to a sign anything may stand
      refine List.isChain_append.2 ⟨hks, List.isChain_append.2 ⟨hchain, hms, fun k hk m _ => ?_⟩, fun k _ m hm => ?_⟩
      · rw [← List.replicate_succ] at hk
        obtain rfl := List.eq_of_mem_replicate (List.mem_of_mem_getLast? hk)
        rfl
      · obtain rfl := Option.some.inj hm
        exact Bool.and_false _

theorem Sound.apart_page (h : Sound ps) (φ : Inks ρ) : Apart (page φ ps) := by
  have hall : ∀ ks, Apart (ks ++ page (fun _ => none) ps) → Apart (ks ++ page φ ps) := by
    have hsound := h.lexeme
    clear h
    induction ps with
    | nil => exact fun _ => id
    | cons p ps ih =>
      intro ks hks
      rw [page_cons, List.forall_mem_append] at hsound
      have hbody : ∀ l ∈ p.body, l.Sound := fun l hl =>
        hsound.1 l (List.mem_append_left _ (List.mem_append_right _ hl))
      have hnone : p.lexemes (fun _ => none) = p.lead ++ p.body ++ p.trail := rfl
      rw [page_cons, hnone, List.append_assoc, List.append_assoc, ← List.append_assoc] at hks
      have hnext := ih hsound.2 (ks ++ p.lexemes φ) (by
        rw [lexemes, List.append_assoc, List.append_assoc, List.append_assoc, ← List.append_assoc]
        exact apart_cover hks hbody _)
      rwa [page_cons, ← List.append_assoc]
  exact hall [] h.apart

theorem Sound.sound_page (h : Sound ps) (hφ : IsDry φ) : ∀ l ∈ page φ ps, l.Sound := by
  intro l hl
  obtain ⟨p, hp, hl⟩ := List.mem_flatMap.1 hl
  have hplain : ∀ m ∈ p.lexemes fun _ => none, m.Sound := fun m hm => h.lexeme m (List.mem_flatMap.2 ⟨p, hp, hm⟩)
  rw [lexemes, List.forall_mem_append, List.forall_mem_append] at hplain
  rw [lexemes, List.mem_append, List.mem_append] at hl
  obtain ⟨⟨hlead, hbody⟩, htrail⟩ := hplain
  rcases hl with (hl | hl) | hl
  · exact hlead l hl
  · cases hink : φ p.role with
    | none =>
      rw [hink] at hl
      exact hbody l hl
    | some ink =>
      rw [hink] at hl
      obtain rfl := List.eq_of_mem_replicate hl
      exact hφ _ _ hink
  · exact htrail l hl

/-- The text of sound pieces stands as their lexemes. -/
theorem Sound.stands (h : Sound ps) (hφ : IsDry φ) : Stands (Lexeme.text (page φ ps)) 0 (page φ ps) :=
  .of_apart (h.sound_page hφ) (h.apart_page φ)

theorem Sound.isAscii (h : Sound ps) (hφ : IsDry φ) : ∀ c ∈ Lexeme.text (page φ ps), IsAscii c := by
  intro c hc
  obtain ⟨l, hl, hc⟩ := List.mem_flatMap.1 hc
  have hsound := h.sound_page hφ l hl
  cases l with
  | word w => exact Text.isAscii_of_isAsciiWord (hsound.2 c hc)
  | sign d =>
    obtain rfl := List.mem_singleton.1 hc
    exact hsound.2.1

/-! ## Pieces without leads -/

/-- Nothing that is left to be read of a piece is a lead: neither the lexemes around its body, nor those of the body or
what it was filled with. -/
def quiet (x : Leads) (ink? : Option Ink) (around body : List Lexeme) : Bool :=
  around.all (fun l => !l.leads x) && ink?.elim (body.all fun l => !l.leads x) fun ink => !(Lexeme.sign ink.fill).leads x

/-- A quiet piece has no leads if the further lexemes around its body and in it are none. -/
theorem not_leads_of_quiet {x : Leads} {around body : List Lexeme}
    (haround : (∀ l ∈ around, l.leads x = false) → (∀ l ∈ p.lead, l.leads x = false) ∧ ∀ l ∈ p.trail, l.leads x = false)
    (hbody : (∀ l ∈ body, l.leads x = false) → ∀ l ∈ p.body, l.leads x = false)
    (h : quiet x (φ p.role) around body = true) : ∀ l ∈ p.lexemes φ, l.leads x = false := by
  have hall : ∀ {ls : List Lexeme}, ls.all (fun l => !l.leads x) = true → ∀ l ∈ ls, l.leads x = false :=
    fun h l hl => by simpa using List.all_eq_true.1 h l hl
  obtain ⟨hquiet, hquiet'⟩ := Bool.and_eq_true_iff.1 h
  obtain ⟨hlead, htrail⟩ := haround (hall hquiet)
  rw [lexemes, List.forall_mem_append, List.forall_mem_append]
  refine ⟨⟨hlead, ?_⟩, htrail⟩
  cases hφ : φ p.role with
  | none =>
    rw [hφ] at hquiet'
    exact hbody (hall hquiet')
  | some ink =>
    rw [hφ] at hquiet'
    intro l hl
    obtain rfl := List.eq_of_mem_replicate hl
    simpa using hquiet'

/-- A text of pieces without leads lacks them. -/
theorem Sound.lacks {x : Leads} (h : Sound ps) (hφ : IsDry φ) (hleads : ∀ p ∈ ps, ∀ l ∈ p.lexemes φ, l.leads x = false)
    (htight : ∀ p ∈ ps, Lexeme.tightly x (p.lexemes φ) = true) (hx : x.tight.all (fun c => !Text.isAsciiWord c) = true) :
    x.Lacks (Lexeme.text (page φ ps)) := by
  refine (h.stands hφ).lacks (fun l hl => ?_) ?_ hx
  · obtain ⟨p, hp, hl⟩ := List.mem_flatMap.1 hl
    exact hleads p hp l hl
  · clear h hleads
    induction ps with
    | nil => rfl
    | cons p ps ih =>
      obtain ⟨hp, hps⟩ := List.forall_mem_cons.1 htight
      exact Lexeme.tightly_append hp (ih hps)

theorem Sound.body_ne_newline (h : Sound ps) (hp : p ∈ ps) : ∀ c ∈ Lexeme.text p.body, c ≠ '\n' := by
  intro c hc
  obtain ⟨l, hl, hc⟩ := List.mem_flatMap.1 hc
  have hsound := h.lexeme l (List.mem_flatMap.2 ⟨p, hp, List.mem_append_left _ (List.mem_append_right _ hl)⟩)
  cases l with
  | word w =>
    rintro rfl
    have hword := hsound.2 _ hc
    exact Bool.noConfusion hword
  | sign d =>
    obtain rfl := List.mem_singleton.1 hc
    exact hsound.2.2

end Piece

/-! ## Writing over a piece -/

namespace WorkingCopy
variable {α β : Type} {xs ys zs : List β}

theorem slice_middle : Span.slice ⟨xs.length, xs.length + ys.length⟩ (xs ++ (ys ++ zs)) = ys := by
  rw [Span.slice, List.drop_left, Nat.add_sub_cancel_left, List.take_left]

theorem le_length_middle : xs.length + ys.length ≤ (xs ++ (ys ++ zs)).length := by
  rw [List.length_append, List.length_append]
  omega

theorem mapSpan_of_length (f : β → β) (xs ys zs : List β) :
    mapSpan f ⟨xs.length, xs.length + ys.length⟩ (xs ++ (ys ++ zs)) = xs ++ (ys.map f ++ zs) := by
  have hmax : max xs.length (xs.length + ys.length) = (xs ++ ys).length := by
    rw [List.length_append, Nat.max_eq_right (Nat.le_add_right _ _)]
  rw [mapSpan, slice_middle, List.take_left, hmax, ← List.append_assoc, List.drop_left, List.append_assoc]

theorem mapSpan_middle (f : β → β) :
    mapSpan f ((⟨xs.length, xs.length + ys.length⟩ : Span).clamp (xs ++ (ys ++ zs)).length) (xs ++ (ys ++ zs)) =
      xs ++ (ys.map f ++ zs) := by
  have hclamp : (⟨xs.length, xs.length + ys.length⟩ : Span).clamp (xs ++ (ys ++ zs)).length =
      ⟨xs.length, xs.length + ys.length⟩ := by
    unfold Span.clamp
    dsimp only
    rw [Nat.min_eq_left le_length_middle, Nat.min_eq_left (Nat.le_add_right _ _)]
  rw [hclamp, mapSpan_of_length]

theorem isClaimed_middle {xs ys zs : List Cell} {tokens : List (Token α)} :
    (⟨xs ++ (ys ++ zs), tokens⟩ : WorkingCopy α).isClaimed ⟨xs.length, xs.length + ys.length⟩ = ys.any (·.claimed) := by
  simp only [isClaimed, size, slice_middle, le_length_middle, Nat.le_add_right, decide_true, Bool.true_and]

theorem admits_middle {xs ys zs : List Cell} {tokens : List (Token α)} (h : ys.any (·.claimed) = false) :
    (⟨xs ++ (ys ++ zs), tokens⟩ : WorkingCopy α).admits ⟨xs.length, xs.length + ys.length⟩ = true := by
  simp only [admits, isClaimed_middle, size, h, le_length_middle, Nat.le_add_right, decide_true, Bool.not_false, Bool.and_self]

end WorkingCopy

namespace Piece
open WorkingCopy
variable {φ : Inks ρ} {p : Piece ρ} {ps qs : List (Piece ρ)} {o : Nat} {wanted : ρ → Bool} {ink : Ink}
  {u v : List Cell} {T : List (Token Category)}

theorem any_claimed_plain (cs : List Char) : (cs.map (Ink.cell none)).any (·.claimed) = false := by
  rw [List.any_map]
  exact List.any_eq_false.2 fun c _ => Bool.false_ne_true

/-- A piece inside a working copy, cut at its body. -/
theorem cut (u v : List Cell) (p : Piece ρ) :
    u ++ (p.cells φ ++ v) = (u ++ (Lexeme.text p.lead).map (Ink.cell none)) ++
      ((Lexeme.text p.body).map (Ink.cell (φ p.role)) ++ ((Lexeme.text p.trail).map (Ink.cell none) ++ v)) := by
  simp only [cells, List.append_assoc]

theorem span_eq (u : List Cell) (p : Piece ρ) : p.span u.length =
    ⟨(u ++ (Lexeme.text p.lead).map (Ink.cell none)).length, (u ++ (Lexeme.text p.lead).map (Ink.cell none)).length +
      ((Lexeme.text p.body).map (Ink.cell (φ p.role))).length⟩ := by
  simp only [span, List.length_append, List.length_map]

theorem isClaimed_span (hfree : φ p.role = none) :
    (⟨u ++ (p.cells φ ++ v), T⟩ : WorkingCopy Category).isClaimed (p.span u.length) = false := by
  rw [cut, span_eq (φ := φ), isClaimed_middle, hfree]
  exact any_claimed_plain _

theorem admits_span (hfree : φ p.role = none) :
    (⟨u ++ (p.cells φ ++ v), T⟩ : WorkingCopy Category).admits (p.span u.length) = true := by
  rw [cut, span_eq (φ := φ)]
  refine admits_middle ?_
  rw [hfree]
  exact any_claimed_plain _

section Body
variable (hfree : φ p.role = none) (hwanted : wanted p.role = true)
include hfree hwanted

/-- What is done to each cell of the body of a piece is an ink for its role. -/
theorem mapSpan_span {f : Cell → Cell} (ink : Ink) (hf : ∀ c ∈ Lexeme.text p.body, f ⟨c, false⟩ = ⟨ink.fill, ink.claimed⟩) :
    mapSpan f ((p.span u.length).clamp (u ++ (p.cells φ ++ v)).length) (u ++ (p.cells φ ++ v)) =
      u ++ (p.cells (φ.add wanted ink) ++ v) := by
  have hrole : φ.add wanted ink p.role = some ink := if_pos hwanted
  have hbody : ((Lexeme.text p.body).map (Ink.cell none)).map f = (Lexeme.text p.body).map (Ink.cell (some ink)) := by
    rw [List.map_map]
    exact List.map_congr_left hf
  rw [cut, cut, span_eq (φ := φ), mapSpan_middle, hrole, hfree, hbody]

variable (hplain : ∀ c ∈ Lexeme.text p.body, c ≠ '\n') (fill : Char)
include hplain

theorem claim_span : (⟨u ++ (p.cells φ ++ v), T⟩ : WorkingCopy Category).claim (p.span u.length) fill =
    ⟨u ++ (p.cells (φ.add wanted ⟨fill, true⟩) ++ v), T⟩ := by
  rw [claim, WorkingCopy.size, mapSpan_span hfree hwanted ⟨fill, true⟩ fun c hc => ?_]
  have hfill : Cell.fill fill ⟨c, false⟩ = ⟨fill, false⟩ := if_neg (hplain c hc)
  exact congrArg (fun cell : Cell => { cell with claimed := true }) hfill

theorem overwrite_span : (⟨u ++ (p.cells φ ++ v), T⟩ : WorkingCopy Category).overwrite (p.span u.length) fill =
    ⟨u ++ (p.cells (φ.add wanted ⟨fill, false⟩) ++ v), T⟩ := by
  rw [overwrite, WorkingCopy.size, mapSpan_span hfree hwanted ⟨fill, false⟩ fun c hc => if_neg (hplain c hc)]

end Body

end Piece
end SourceLikeness
