import SourceLikeness.Proofs.Braces.Bodies
import SourceLikeness.Proofs.WorkingCopy.Edit

/-!
# Markers around bodies

* `Item.foldl_wrap` : bodies that start with something to be read are put between markers;
* `Item.Blocked`, `Stmt.blocked_braced` : with braces all bodies are blocks;
* `Item.apply_work_of_bounded` : without braces a marker comes where each body starts and where it stops;
* `Item.apply_work_of_blocked` : with braces none comes.
-/

namespace SourceLikeness

theorem Text.isBlank_of_isLayout {c : Char} (h : isLayout c = true) : isBlank c = true := by
  simp only [isLayout, Bool.or_eq_true, beq_iff_eq] at h
  rcases h with (((rfl | rfl) | rfl) | rfl) | rfl <;> decide

namespace Tokenizer
open Lexeme (word sign spots)
open Text (isAsciiWord isBlank isLayout)
open WorkingCopy

namespace Item
variable {wanted : Item → Bool} {a : Item} {as bs : List Item} {o : Nat} {C : List Cell} {T : List (Token Category)} {b : Span}

/-! ## Putting bodies between markers -/

theorem mark_eq {symbol : Category} {place : Nat} (h : place ≤ C.length) :
    (⟨C, T⟩ : Work).mark symbol place = ⟨C, T ++ [⟨symbol, place, place⟩]⟩ :=
  if_pos (admits_iff.2 ⟨Nat.le_refl _, h, fun _ _ hle hlt _ => absurd hlt (Nat.not_lt.2 hle)⟩)

/-- A body lies inside a text and starts with something to be read. -/
structure Starts (s : List Char) (b : Span) : Prop where
  start : b.start ≤ s.length
  stop : b.stop ≤ s.length
  head : (b.slice s).head?.any isBlank = false

theorem wrap_eq (h : Starts (C.map (·.char)) b) : BareBody.wrap ⟨C, T⟩ b = ⟨C, T ++ marksOf b⟩ := by
  have hstart := h.start
  have hstop := h.stop
  rw [List.length_map] at hstart hstop
  have hskip : (b.slice (⟨C, T⟩ : Work).text).takeWhile isLayout = [] := by
    have hhead := h.head
    change (b.slice (C.map (·.char))).takeWhile isLayout = []
    cases hslice : b.slice (C.map (·.char)) with
    | nil => rfl
    | cons c cs =>
      rw [hslice] at hhead
      refine List.takeWhile_cons_of_neg fun hc => ?_
      exact Bool.noConfusion (hhead.symm.trans (Text.isBlank_of_isLayout hc))
  rw [BareBody.wrap, hskip, List.length_nil, Nat.add_zero, mark_eq hstart, mark_eq hstop, List.append_assoc]
  rfl

theorem foldl_wrap {bodies : List Span} (h : ∀ b ∈ bodies, Starts (C.map (·.char)) b) :
    bodies.foldl BareBody.wrap ⟨C, T⟩ = ⟨C, T ++ bodies.flatMap marksOf⟩ := by
  induction bodies generalizing T with
  | nil => rw [List.foldl_nil, List.flatMap_nil, List.append_nil]
  | cons b bodies ih =>
    obtain ⟨hb, hbodies⟩ := List.forall_mem_cons.1 h
    rw [List.foldl_cons, wrap_eq hb, ih hbodies, List.flatMap_cons, List.append_assoc]

/-! ## Bodies without braces -/

theorem stop_le (o : Nat) (as : List Item) : stop o as ≤ o + Piece.sizes (as.map piece) := by
  induction as generalizing o with
  | nil => exact Nat.le_refl o
  | cons a as ih =>
    have hle := ih (o + a.piece.size)
    rw [Nat.add_assoc] at hle
    cases a with
    | assign x e => exact Nat.add_le_add_left (Nat.le_add_right _ _) o
    | _ => exact hle

theorem length_text (as : List Item) : (text as).length = Piece.sizes (as.map piece) := Piece.length_page _

theorem reaches_of_laneBehind {p : Item → Bool} (ha : a.laneBehind = some p) (h : reaches p as = true) :
    reaches (lane true true) as = true := by
  refine reaches_mono (fun b hb => ?_) h
  cases a with
  | whileHead _ | forHead _ _ | ifHead _ _ | elseWord | doWord =>
    obtain rfl := Option.some.inj ha
    exact Stmt.lane_mono _ _ b hb
  | _ => cases ha

/-- Every body starts with something to be read. -/
theorem starts_of_mem (h : Bounded as) (hb : b ∈ bodies isBodied o as) {u : List Char} (hu : u.length = o) : Starts (u ++ text as) b := by
  induction as generalizing o u with
  | nil => exact absurd hb List.not_mem_nil
  | cons a as ih =>
    have hnext : u ++ text (a :: as) = (u ++ a.chars) ++ text as := by rw [text_cons, List.append_assoc]
    have hlength : (u ++ a.chars).length = o + a.piece.size := by
      rw [List.length_append, hu]
      exact congrArg (o + ·) (Piece.length_lexemes _)
    rw [hnext]
    rcases List.mem_append.1 hb with hb | hb
    · split_ifs at hb with ha
      swap
      · exact absurd hb List.not_mem_nil
      obtain rfl := List.mem_singleton.1 hb
      obtain ⟨p, hp⟩ := Option.isSome_iff_exists.1 ha
      have hreaches := reaches_of_laneBehind hp (h.1 p hp)
      obtain ⟨w, v, hw, -, hne, hblank, hle, -⟩ := stops_of_reaches false hreaches (o + a.piece.size)
      rw [seen_false] at hw
      refine ⟨?_, ?_, ?_⟩
      · rw [List.length_append, hlength]
        exact Nat.le_add_right _ _
      · rw [List.length_append, hlength, length_text]
        exact stop_le _ _
      · obtain ⟨c, w, rfl⟩ := List.exists_cons_of_ne_nil hne
        obtain ⟨k, hk⟩ := Nat.exists_eq_add_of_lt (Nat.lt_of_lt_of_le (Nat.lt_succ_of_le (Nat.le_add_right _ _)) hle)
        rw [Span.slice, ← hlength, List.drop_left, hw, hlength, hk, Nat.add_assoc, Nat.add_sub_cancel_left]
        exact hblank
    · exact ih h.2 hb hlength

theorem collect_bareBody (hwanted : ∀ a, wanted a = true → a.isBodied = true) (h : Bounded as) :
    Piece.collect piece (bareBody wanted) o as = bodies wanted o as := by
  induction as generalizing o with
  | nil => rfl
  | cons a as ih =>
    rw [Piece.collect, bodies, ih h.2]
    congr 1
    split_ifs with ha
    · obtain ⟨p, hp⟩ := Option.isSome_iff_exists.1 (hwanted a ha)
      exact bareBody_of_reaches ha (reaches_of_laneBehind hp (h.1 p hp))
    · rw [Bool.not_eq_true] at ha
      exact bareBody_of_not ha

theorem isBodied_eq (a : Item) : a.isBodied = (a.isElse || a.isDo || a.isHeader) := by
  cases a <;> rfl

theorem isBodied_of (h : a.isElse = true ∨ a.isDo = true ∨ a.isHeader = true) : a.isBodied = true := by
  rw [isBodied_eq, Bool.or_eq_true, Bool.or_eq_true, or_assoc]
  exact h

/-- Without braces, the bodies of all pieces are found. -/
theorem bodies_perm_of_bounded (hfits : Fits as) (h : Bounded as) : (BareBody.bodies (text as)).Perm (bodies isBodied 0 as) := by
  rw [bodies_text hfits h.housed, collect_bareBody (fun a ha => isBodied_of (Or.inl ha)) h,
    collect_bareBody (fun a ha => isBodied_of (Or.inr (Or.inl ha))) h,
    collect_bareBody (fun a ha => isBodied_of (Or.inr (Or.inr ha))) h, show isBodied = _ from funext isBodied_eq]
  refine ((bodies_perm (fun a => ?_) 0 as).append_right _).trans (bodies_perm (fun a => ?_) 0 as)
  · cases a <;> first | exact Or.inl rfl | exact Or.inr rfl
  · cases a <;> first | exact Or.inl rfl | exact Or.inr rfl

/-- **Bodies without braces.** A marker comes where each of them starts and where it stops. -/
theorem apply_work_of_bounded (hfits : Fits as) (h : Bounded as) : ∃ T', T'.Perm (marks 0 as) ∧
    BareBody.apply (Piece.work untouched (as.map piece) T) = Piece.work untouched (as.map piece) (T ++ T') := by
  have hperm := bodies_perm_of_bounded hfits h
  refine ⟨_, hperm.flatMap_right marksOf, ?_⟩
  rw [BareBody.apply, Piece.text_work]
  refine foldl_wrap fun b hb => ?_
  have hstarts := starts_of_mem (u := []) h (hperm.mem_iff.1 hb) rfl
  have htext : (((as.map piece).flatMap (Piece.cells untouched)).map (·.char)) = text as := Piece.text_work (φ := untouched) []
  rw [htext]
  exact hstarts

/-! ## Bodies with braces -/

/-- All bodies are blocks. -/
def Blocked : List Item → Prop
  | [] => True
  | a :: as => (a.isBodied = true → braceNext as = true) ∧ Blocked as

theorem Blocked.housed (h : Blocked as) : Housed as := by
  induction as with
  | nil => trivial
  | cons a as ih =>
    refine ⟨fun p hp => Or.inl (h.1 ?_), ih h.2⟩
    rw [isBodied, hp]
    rfl

theorem Blocked.append (has : Blocked as) (hbs : Blocked bs) : Blocked (as ++ bs) := by
  induction as with
  | nil => exact hbs
  | cons a as ih =>
    refine ⟨fun ha => ?_, ih has.2⟩
    have hbrace := has.1 ha
    cases as with
    | nil => exact Bool.noConfusion hbrace
    | cons b as =>
      cases b with
      | openBrace => rfl
      | _ => exact Bool.noConfusion hbrace

theorem collect_eq_nil_of_blocked (hwanted : ∀ a, wanted a = true → a.isBodied = true) (h : Blocked as) :
    Piece.collect piece (bareBody wanted) o as = [] := by
  induction as generalizing o with
  | nil => rfl
  | cons a as ih =>
    rw [Piece.collect, ih h.2, List.append_nil]
    cases ha : wanted a with
    | false => exact bareBody_of_not ha
    | true => exact bareBody_of_brace (h.1 (hwanted a ha))

/-- **Bodies with braces.** No marker comes. -/
theorem apply_work_of_blocked (hfits : Fits as) (h : Blocked as) :
    BareBody.apply (Piece.work untouched (as.map piece) T) = Piece.work untouched (as.map piece) T := by
  have hbodies : BareBody.bodies (text as) = [] := by
    rw [bodies_text hfits h.housed, collect_eq_nil_of_blocked (fun a ha => isBodied_of (Or.inl ha)) h,
      collect_eq_nil_of_blocked (fun a ha => isBodied_of (Or.inr (Or.inl ha))) h,
      collect_eq_nil_of_blocked (fun a ha => isBodied_of (Or.inr (Or.inr ha))) h]
    rfl
  rw [BareBody.apply, Piece.text_work, ← text, hbodies, List.foldl_nil]

end Item

namespace Stmt
open Item

theorem blocked_braced (s : Stmt) (chained : Bool) : Blocked (s.braced chained) := by
  have hblock : ∀ {a : Item} {as bs : List Item}, Blocked as → Blocked bs → Blocked (a :: .openBrace :: as ++ .closeBrace :: bs) :=
    fun has hbs => ⟨fun _ => rfl, fun h => Bool.noConfusion h, has.append ⟨fun h => Bool.noConfusion h, hbs⟩⟩
  induction s generalizing chained with
  | assign _ x e => exact ⟨fun h => Bool.noConfusion h, trivial⟩
  | ifThen c s ih | whileDo c s ih | forDo i m s ih => exact hblock (ih false) trivial
  | doWhile s c ih => exact hblock (ih false) ⟨fun h => Bool.noConfusion h, trivial⟩
  | ifElse c s t ihs iht =>
    refine hblock (ihs false) ?_
    split_ifs
    · exact iht true
    · exact hblock (iht false) trivial

end Stmt
end Tokenizer
end SourceLikeness
