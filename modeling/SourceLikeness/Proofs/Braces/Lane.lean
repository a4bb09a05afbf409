import SourceLikeness.Proofs.Braces.Items

/-!
# Where bodies stop

A body without braces starts behind its header and stops behind the next assignment.

* `Item.reaches` : an assignment comes behind pieces of some kinds;
* `Item.Bounded` : one comes behind each header, and nothing in between where the search for the body would stop;
* `Item.stop`, `Item.bodies` : where the bodies of some headers start and stop;
* `Stmt.bounded_bare` : a statement whose bodies can be found is bounded;
* `Stmt.marks_bare` : the bodies of all its headers start and stop where its marks stand.
-/

namespace SourceLikeness.Tokenizer

namespace Item
variable {p q wanted : Item → Bool} {a : Item} {as bs : List Item} {o : Nat}

/-! ## Bodies -/

/-- What may come between a header and the assignment where its body stops. -/
def lane (fors dos : Bool) : Item → Bool
  | whileHead _ | ifHead false _ | openMark => true
  | forHead _ _ => fors
  | doWord => dos
  | _ => false

/-- An assignment comes behind pieces of some kinds. -/
def reaches (p : Item → Bool) : List Item → Bool
  | [] => false
  | assign _ _ :: _ => true
  | a :: as => p a && reaches p as

/-- What may come between a piece and the assignment where its body stops, if it has one. The header of a `for` is in the
way behind an `else` and a `do`, and another `do` behind a `do`. -/
def laneBehind : Item → Option (Item → Bool)
  | whileHead _ | forHead _ _ | ifHead _ _ => some (lane true true)
  | elseWord => some (lane false true)
  | doWord => some (lane false false)
  | _ => none

/-- All bodies stop. -/
def Bounded : List Item → Prop
  | [] => True
  | a :: as => (∀ p ∈ a.laneBehind, reaches p as = true) ∧ Bounded as

/-- Behind the next assignment. -/
def stop : Nat → List Item → Nat
  | o, [] => o
  | o, assign x e :: _ => o + (assign x e).piece.size
  | o, a :: as => stop (o + a.piece.size) as

/-- The bodies of some pieces. -/
def bodies (wanted : Item → Bool) : Nat → List Item → List Span
  | _, [] => []
  | o, a :: as => (if wanted a then [⟨o + a.piece.size, stop (o + a.piece.size) as⟩] else []) ++
      bodies wanted (o + a.piece.size) as

theorem reaches_append (h : reaches p as = true) (bs : List Item) : reaches p (as ++ bs) = true := by
  induction as with
  | nil => exact Bool.noConfusion h
  | cons a as ih =>
    cases a with
    | assign x e => rfl
    | _ =>
      obtain ⟨ha, has⟩ := Bool.and_eq_true_iff.1 h
      exact Bool.and_eq_true_iff.2 ⟨ha, ih has⟩

theorem reaches_mono (hpq : ∀ a, p a = true → q a = true) (h : reaches p as = true) : reaches q as = true := by
  induction as with
  | nil => exact Bool.noConfusion h
  | cons a as ih =>
    cases a with
    | assign x e => rfl
    | _ =>
      obtain ⟨ha, has⟩ := Bool.and_eq_true_iff.1 h
      exact Bool.and_eq_true_iff.2 ⟨hpq _ ha, ih has⟩

theorem stop_append (h : reaches p as = true) (bs : List Item) : stop o (as ++ bs) = stop o as := by
  induction as generalizing o with
  | nil => exact Bool.noConfusion h
  | cons a as ih =>
    cases a with
    | assign x e => rfl
    | _ => exact ih (Bool.and_eq_true_iff.1 h).2

theorem Bounded.free (ha : a.laneBehind = none) (h : Bounded as) : Bounded (a :: as) := by
  refine ⟨fun p hp => ?_, h⟩
  rw [ha] at hp
  cases hp

theorem Bounded.bodied (ha : a.laneBehind = some p) (hp : reaches p as = true) (h : Bounded as) : Bounded (a :: as) := by
  refine ⟨fun q hq => ?_, h⟩
  rw [ha] at hq
  obtain rfl := Option.some.inj hq
  exact hp

theorem Bounded.append (has : Bounded as) (hbs : Bounded bs) : Bounded (as ++ bs) := by
  induction as with
  | nil => exact hbs
  | cons a as ih => exact ⟨fun p hp => reaches_append (has.1 p hp) bs, ih has.2⟩

/-- A piece that a body follows. -/
def isBodied (a : Item) : Bool := a.laneBehind.isSome

theorem bodies_append (hwanted : ∀ a, wanted a = true → a.isBodied = true) (h : Bounded as) :
    bodies wanted o (as ++ bs) = bodies wanted o as ++ bodies wanted (o + Piece.sizes (as.map piece)) bs := by
  induction as generalizing o with
  | nil => rfl
  | cons a as ih =>
    have hstop : wanted a = true → stop (o + a.piece.size) (as ++ bs) = stop (o + a.piece.size) as := by
      intro ha
      obtain ⟨p, hp⟩ := Option.isSome_iff_exists.1 (hwanted a ha)
      exact stop_append (h.1 p hp) bs
    rw [List.cons_append, bodies, bodies, ih h.2, List.map_cons, Piece.sizes_cons, Nat.add_assoc, List.append_assoc]
    congr 1
    split_ifs with ha
    · rw [hstop ha]
    · rfl

/-- The bodies of the pieces of two kinds. -/
theorem bodies_perm (h : ∀ a, p a = false ∨ q a = false) (o : Nat) (as : List Item) :
    (bodies p o as ++ bodies q o as).Perm (bodies (fun a => p a || q a) o as) := by
  induction as generalizing o with
  | nil => exact .refl _
  | cons a as ih =>
    have hcomm : ∀ ws xs ys zs : List Span, ((ws ++ xs) ++ (ys ++ zs)).Perm ((ws ++ ys) ++ (xs ++ zs)) := by
      intro ws xs ys zs
      rw [List.append_assoc, List.append_assoc, ← List.append_assoc xs, ← List.append_assoc ys]
      exact (List.perm_append_comm.append_right zs).append_left ws
    refine (hcomm _ _ _ _).trans (List.Perm.append (List.Perm.of_eq ?_) (ih _))
    rcases h a with ha | ha <;> simp [ha]

/-! ## Marks -/

/-- The markers around a body. -/
def marksOf (b : Span) : List (Token Category) := [⟨.openBrace, b.start, b.start⟩, ⟨.closeBrace, b.stop, b.stop⟩]

/-- The category that a mark is recorded with. -/
def markCategory : Role → Option Category
  | .openMark => some .openBrace
  | .closeMark => some .closeBrace
  | _ => none

/-- The markers of the bodies of some pieces. -/
def marks (o : Nat) (as : List Item) : List (Token Category) := (bodies isBodied o as).flatMap marksOf

/-- The marks among some pieces. -/
def markTokens (o : Nat) (as : List Item) : List (Token Category) := Piece.tokens markCategory o (as.map piece)

theorem marks_append (h : Bounded as) : marks o (as ++ bs) = marks o as ++ marks (o + Piece.sizes (as.map piece)) bs := by
  rw [marks, bodies_append (fun _ => id) h, List.flatMap_append]
  rfl

theorem markTokens_append :
    markTokens o (as ++ bs) = markTokens o as ++ markTokens (o + Piece.sizes (as.map piece)) bs := by
  rw [markTokens, List.map_append, Piece.tokens_append]
  rfl

/-- A marker at the place where a body stops. -/
def closing (o : Nat) : Token Category := ⟨.closeBrace, o, o⟩

theorem marks_replicate (o n : Nat) : marks o (List.replicate n closeMark) = [] := by
  induction n with
  | zero => rfl
  | succ n ih => exact ih

theorem markTokens_replicate (o n : Nat) : markTokens o (List.replicate n closeMark) = List.replicate n (closing o) := by
  induction n with
  | zero => rfl
  | succ n ih => exact congrArg (closing o :: ·) ih

/-- The markers of a header with a body behind it. -/
theorem marks_block {n : Nat} (ha : a.isBodied = true) (hmark : markCategory a.piece.role = none)
    (h : (marks (o + a.piece.size) as ++ List.replicate (n + 1) (closing (stop (o + a.piece.size) as))).Perm
      (markTokens (o + a.piece.size) as)) :
    (marks o (a :: openMark :: as) ++ List.replicate n (closing (stop (o + a.piece.size) as))).Perm
      (markTokens o (a :: openMark :: as)) := by
  have hmarks : marks o (a :: openMark :: as) = ⟨.openBrace, o + a.piece.size, o + a.piece.size⟩ ::
      closing (stop (o + a.piece.size) as) :: marks (o + a.piece.size) as := by
    rw [marks, bodies, if_pos ha]
    rfl
  have htokens : markTokens o (a :: openMark :: as) =
      ⟨.openBrace, o + a.piece.size, o + a.piece.size⟩ :: markTokens (o + a.piece.size) as := by
    rw [markTokens, List.map_cons, Piece.tokens, hmark]
    rfl
  rw [hmarks, htokens]
  refine List.Perm.cons _ (List.Perm.trans ?_ h)
  rw [List.replicate_succ]
  exact List.perm_middle.symm

end Item

namespace Stmt
open Item
variable {s : Stmt} {fors dos : Bool} {o n : Nat}

/-- In a single statement, an assignment comes behind headers only. -/
theorem reaches_bare (h : s.single fors dos = true) (n : Nat) : reaches (lane fors dos) (s.bare false n) = true := by
  induction s generalizing fors dos n with
  | assign starred x e => rfl
  | ifElse c s t => exact Bool.noConfusion h
  | ifThen c s ih | whileDo c s ih => exact ih h (n + 1)
  | forDo i m s ih =>
    obtain ⟨hfors, hs⟩ := Bool.and_eq_true_iff.1 h
    exact Bool.and_eq_true_iff.2 ⟨hfors, ih hs (n + 1)⟩
  | doWhile s c ih =>
    obtain ⟨hdos, hs⟩ := Bool.and_eq_true_iff.1 h
    have hmono : ∀ a, lane false false a = true → lane fors dos a = true := by
      intro a ha
      cases a with
      | ifHead chained c => cases chained <;> exact ha
      | forHead _ _ | doWord => exact Bool.noConfusion ha
      | _ => exact ha
    have hbody := reaches_append (reaches_mono hmono (ih hs (n + 1))) [.doTail c]
    exact Bool.and_eq_true_iff.2 ⟨hdos, hbody⟩

theorem lane_mono (fors dos : Bool) (a : Item) (h : lane fors dos a = true) : lane true true a = true := by
  cases a with
  | ifHead chained c => cases chained <;> exact h
  | forHead _ _ | doWord => rfl
  | _ => exact h

/-- Single statements are bounded. -/
theorem bounded_bare_of_single (fors dos : Bool) (h : s.single fors dos = true) (chained : Bool) (n : Nat) : Bounded (s.bare chained n) := by
  induction s generalizing fors dos chained n with
  | assign starred x e =>
    refine .free rfl ?_
    induction n with
    | zero => trivial
    | succ n ih => exact .free rfl ih
  | ifElse c s t => exact Bool.noConfusion h
  | ifThen c s ih | whileDo c s ih =>
    exact .bodied rfl (reaches_mono (lane_mono fors dos) (reaches_bare (s := s) h (n + 1))) (.free rfl (ih _ _ h false (n + 1)))
  | forDo i m s ih =>
    obtain ⟨-, hs⟩ := Bool.and_eq_true_iff.1 h
    exact .bodied rfl (reaches_mono (lane_mono fors dos) (reaches_bare (s := s) hs (n + 1))) (.free rfl (ih _ _ hs false (n + 1)))
  | doWhile s c ih =>
    obtain ⟨-, hs⟩ := Bool.and_eq_true_iff.1 h
    have hbody : Bounded (.doWord :: .openMark :: s.bare false (n + 1)) :=
      .bodied rfl (reaches_bare (s := s) hs (n + 1)) (.free rfl (ih _ _ hs false (n + 1)))
    exact hbody.append (.free rfl trivial)

/-- **Bounded statements.** If the bodies of a statement can be found, they stop. -/
theorem bounded_bare (h : s.findable = true) (chained : Bool) : Bounded (s.bare chained 0) := by
  induction s generalizing chained with
  | assign starred x e => exact .free rfl trivial
  | ifThen c s => exact bounded_bare_of_single (s := ifThen c s) true true h chained 0
  | whileDo c s => exact bounded_bare_of_single (s := whileDo c s) true true h chained 0
  | forDo i m s => exact bounded_bare_of_single (s := forDo i m s) true true h chained 0
  | doWhile s c => exact bounded_bare_of_single (s := doWhile s c) true true h chained 0
  | ifElse c s t _ iht =>
    obtain ⟨hs, ht⟩ := Bool.and_eq_true_iff.1 h
    have hthen : Bounded (.ifHead chained c :: .openMark :: s.bare false 1) :=
      bounded_bare_of_single (s := ifThen c s) true true hs chained 0
    refine hthen.append ?_
    split_ifs at ht ⊢ with hif
    · exact iht ht true
    · exact .bodied rfl (reaches_bare (s := t) ht 1) (.free rfl (bounded_bare_of_single _ _ ht false 1))

/-- The bodies of a single statement start and stop where its marks stand, but for those that it is the end of. -/
theorem marks_bare_of_single (h : s.single fors dos = true) (chained : Bool) (n o : Nat) :
    (marks o (s.bare chained n) ++ List.replicate n (closing (stop o (s.bare chained n)))).Perm
      (markTokens o (s.bare chained n)) := by
  induction s generalizing fors dos chained n o with
  | assign starred x e =>
    have hmarks : marks o (bare chained n (assign starred x e)) = [] := marks_replicate _ n
    have htokens := markTokens_replicate (o + (Item.assign x e).piece.size) n
    rw [hmarks]
    exact List.Perm.of_eq htokens.symm
  | ifElse c s t => exact Bool.noConfusion h
  | ifThen c s ih => exact marks_block (a := .ifHead chained c) rfl (by rw [role_ifHead]; rfl) (ih h false (n + 1) _)
  | whileDo c s ih => exact marks_block (a := .whileHead c) rfl rfl (ih h false (n + 1) _)
  | forDo i m s ih => exact marks_block (a := .forHead i m) rfl rfl (ih (Bool.and_eq_true_iff.1 h).2 false (n + 1) _)
  | doWhile s c ih =>
    obtain ⟨-, hs⟩ := Bool.and_eq_true_iff.1 h
    have hreaches := reaches_bare (s := s) hs (n + 1)
    have hbody : Bounded (.doWord :: .openMark :: s.bare false (n + 1)) :=
      .bodied rfl hreaches (.free rfl (bounded_bare_of_single _ _ hs false (n + 1)))
    have hblock := marks_block (a := .doWord) (o := o) rfl rfl (ih hs false (n + 1) _)
    have hstop : stop o (.doWord :: .openMark :: s.bare false (n + 1) ++ [.doTail c]) =
        stop (o + Item.doWord.piece.size) (s.bare false (n + 1)) := stop_append hreaches [.doTail c]
    have htail : ∀ o, markTokens o [.doTail c] = [] := fun _ => rfl
    have htail' : ∀ o, marks o [.doTail c] = [] := fun _ => rfl
    rw [bare, hstop, marks_append hbody, markTokens_append, htail, htail', List.append_nil, List.append_nil]
    exact hblock

/-- **Marks of bodies.** If the bodies of a statement can be found, they start and stop where its marks stand. -/
theorem marks_bare (h : s.findable = true) (chained : Bool) (o : Nat) :
    (marks o (s.bare chained 0)).Perm (markTokens o (s.bare chained 0)) := by
  have hsingle : ∀ {s : Stmt} {f d : Bool} (chained : Bool) (o : Nat), s.single f d = true →
      (marks o (s.bare chained 0)).Perm (markTokens o (s.bare chained 0)) := by
    intro s f d chained o hs
    have hperm := marks_bare_of_single hs chained 0 o
    rwa [List.replicate_zero, List.append_nil] at hperm
  have hblock : ∀ {s : Stmt} {f d : Bool} {a : Item} (o : Nat), a.isBodied = true → markCategory a.piece.role = none →
      s.single f d = true → (marks o (a :: .openMark :: s.bare false 1)).Perm (markTokens o (a :: .openMark :: s.bare false 1)) := by
    intro s f d a o ha hmark hs
    have hperm := marks_block (n := 0) ha hmark (marks_bare_of_single hs false 1 (o + a.piece.size))
    rwa [List.replicate_zero, List.append_nil] at hperm
  induction s generalizing chained o with
  | assign starred x e => exact .refl _
  | ifThen c s => exact hsingle (s := ifThen c s) (f := true) (d := true) chained o h
  | whileDo c s => exact hsingle (s := whileDo c s) (f := true) (d := true) chained o h
  | forDo i m s => exact hsingle (s := forDo i m s) (f := true) (d := true) chained o h
  | doWhile s c => exact hsingle (s := doWhile s c) (f := true) (d := true) chained o h
  | ifElse c s t _ iht =>
    obtain ⟨hs, ht⟩ := Bool.and_eq_true_iff.1 h
    have hthen : Bounded (.ifHead chained c :: .openMark :: s.bare false 1) :=
      bounded_bare_of_single (s := ifThen c s) true true hs chained 0
    rw [bare, marks_append hthen, markTokens_append]
    refine (hblock o rfl (by rw [role_ifHead]; rfl) hs).append ?_
    split_ifs at ht ⊢ with hif
    · exact iht ht true _
    · exact hblock _ rfl rfl ht

end Stmt
end SourceLikeness.Tokenizer
