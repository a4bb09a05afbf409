import SourceLikeness.Proofs.Braces.BodyPattern
import SourceLikeness.Proofs.Braces.Lane
import SourceLikeness.Proofs.Braces.Steps
import SourceLikeness.Proofs.Piece.Sweep

/-!
# Hidden headers

While bodies behind a parenthesis are looked for, the headers of `for` loops are hidden.

* `Item.shape` : the pieces of a text in which they are hidden or not;
* `Item.withoutHeaders_text` : hiding them in the text of some pieces makes the text of these shapes;
* `Item.stops_of_reaches` : behind a header the next semicolon is that of the assignment where its body stops, unless the
  header of a `for` comes first and can be seen.
-/

namespace SourceLikeness.Tokenizer
open Lexeme (word sign spots Shut)
open Text (isAsciiWord isBlank)
open Pattern (reader)

namespace Item
variable {hides : Bool} {a : Item} {as bs : List Item} {o : Nat}

/-- A piece, with the inside of the header of a `for` hidden or not. -/
def shape (hides : Bool) : Item → Piece Role
  | forHead i n =>
    if hides then ⟨.loop, [], keyword "for" ::
      bracketed (List.replicate (Lexeme.text (counting i n)).length (sign WorkingCopy.masked)) ++ [sign ' '], []⟩
    else (forHead i n).piece
  | a => a.piece

@[simp] theorem shape_false (a : Item) : a.shape false = a.piece := by
  cases a <;> rfl

theorem map_shape_false (as : List Item) : as.map (shape false) = as.map piece :=
  List.map_congr_left fun a _ => shape_false a

theorem text_replicate (n : Nat) (c : Char) : Lexeme.text (List.replicate n (sign c)) = List.replicate n c := by
  induction n with
  | zero => rfl
  | succ n ih => rw [List.replicate_succ, Lexeme.text_cons, ih]; rfl

@[simp] theorem size_shape (hides : Bool) (a : Item) : (a.shape hides).size = a.piece.size := by
  cases hides with
  | false => rw [shape_false]
  | true =>
    cases a with
    | forHead i n =>
      simp only [shape, if_pos, piece, Piece.size, bracketed, Lexeme.text_cons, Lexeme.text_append, text_replicate,
        List.length_append, List.length_replicate]
    | _ => rfl

theorem sound_shape (hides : Bool) (a : Item) : ∀ l ∈ (a.shape hides).lexemes (fun _ => none), l.Sound := by
  have hpiece := sound_piece a
  cases hides with
  | false => rwa [shape_false]
  | true =>
    cases a with
    | forHead i n =>
      have hkeywords := sound_keyword
      have hsigns := sound_sign
      simp only [List.forall_mem_cons] at hkeywords hsigns
      have hmasked : (sign WorkingCopy.masked).Sound := ⟨by decide, by decide, by decide⟩
      simp [shape, Piece.lexemes, Ink.cover, bracketed, or_imp, forall_and, hkeywords, hsigns, hmasked]
    | _ => exact hpiece

theorem shut_shape (hides : Bool) (a : Item) : Shut ((a.shape hides).lexemes fun _ => none) := by
  have hpiece := shut_piece a
  cases hides with
  | false => rwa [shape_false]
  | true =>
    cases a with
    | forHead i n =>
      have hdots : Lexeme.Apart (List.replicate (Lexeme.text (counting i n)).length (sign WorkingCopy.masked)) :=
        List.isChain_replicate_of_rel _ rfl
      constructor <;>
        simp [shape, Piece.lexemes, Ink.cover, bracketed, keyword, Lexeme.isWord, List.getLast?_cons, hdots]
    | _ => exact hpiece

theorem sound_map_shape (hides : Bool) (as : List Item) : Piece.Sound (as.map (shape hides)) :=
  .of_flatMap (fun a _ => sound_shape hides a) (Lexeme.apart_flatMap fun a _ => shut_shape hides a)

/-- The text of some shapes. -/
def seen (hides : Bool) (as : List Item) : List Char := Lexeme.text (Piece.page (fun _ => none) (as.map (shape hides)))

theorem seen_false (as : List Item) : seen false as = text as := by
  rw [seen, map_shape_false]
  rfl

@[simp] theorem seen_cons (a : Item) (as : List Item) :
    seen hides (a :: as) = Lexeme.text ((a.shape hides).lexemes fun _ => none) ++ seen hides as := Lexeme.text_append _ _

/-! ## The next semicolon -/

theorem chars_forHead_hidden (i : Name) (n : Value) : Lexeme.text (((forHead i n).shape true).lexemes fun _ => none) =
    "for (".toList ++ List.replicate (Lexeme.text (counting i n)).length WorkingCopy.masked ++ ") ".toList := by
  simp [shape, Piece.lexemes, Ink.cover, keyword, Lexeme.chars, text_bracketed, text_replicate]

theorem le_stop (o : Nat) (as : List Item) : o ≤ stop o as := by
  induction as generalizing o with
  | nil => exact Nat.le_refl o
  | cons a as ih =>
    cases a with
    | assign x e => exact Nat.le_add_right _ _
    | _ => exact Nat.le_trans (Nat.le_add_right _ _) (ih _)

/-- The first semicolon of a text comes before an offset, or directly before it. -/
def Stops (exact : Bool) (o n : Nat) (w : List Char) : Prop :=
  ∃ u v, w = u ++ ';' :: v ∧ Plain u ∧ u ≠ [] ∧ u.head?.any isBlank = false ∧ o + u.length + 1 ≤ n ∧
    (exact = true → n = o + u.length + 1)

theorem Stops.append {exact : Bool} {n : Nat} {t w : List Char} (h : Stops exact (o + t.length) n w) (ht : Plain t)
    (hne : t ≠ []) (hblank : t.head?.any isBlank = false) : Stops exact o n (t ++ w) := by
  obtain ⟨u, v, rfl, hu, -, -, hle, heq⟩ := h
  have hlength : o + (t ++ u).length + 1 = o + t.length + u.length + 1 := by
    rw [List.length_append, ← Nat.add_assoc o]
  refine ⟨t ++ u, v, (List.append_assoc _ _ _).symm, ht.append hu, List.append_ne_nil_of_left_ne_nil hne u, ?_, ?_, ?_⟩
  · rwa [List.head?_append_of_ne_nil _ hne]
  · rwa [hlength]
  · rwa [hlength]

theorem stops_assign (exact : Bool) (x : Name) (e : Value) (o : Nat) (as : List Item) :
    Stops exact o (stop o (assign x e :: as)) (seen hides (assign x e :: as)) := by
  obtain ⟨b, w, hw⟩ := List.exists_cons_of_ne_nil x.isWord.1
  have hb : isAsciiWord b = true := x.isWord.2 b (by rw [hw]; exact List.mem_cons_self)
  have hplain : Plain (x.text.toList ++ " = ".toList ++ e.text.toList) :=
    (x.plain_text.append (by decide)).append e.plain_text
  have hstop : stop o (assign x e :: as) = o + (x.text.toList ++ " = ".toList ++ e.text.toList).length + 1 := by
    have hsize := Piece.length_lexemes (φ := fun _ => none) (assign x e).piece
    change (assign x e).chars.length = _ at hsize
    rw [stop, ← hsize, chars_assign, List.length_append, Nat.add_assoc o]
    rfl
  have hseen : seen hides (assign x e :: as) = (x.text.toList ++ " = ".toList ++ e.text.toList) ++ ';' :: seen hides as := by
    rw [seen_cons]
    change (assign x e).chars ++ _ = _
    rw [chars_assign, List.append_assoc _ ";".toList]
    rfl
  refine ⟨_, _, hseen, hplain, ?_, ?_, Nat.le_of_eq hstop.symm, fun _ => hstop⟩
  · exact List.append_ne_nil_of_left_ne_nil (List.append_ne_nil_of_left_ne_nil x.isWord.1 _) _
  · change ((x.chars ++ _ ++ _).head?.any isBlank) = false
    rw [hw]
    exact Text.isBlank_eq_false_of_isAsciiWord hb

/-- The header of a `for` has a semicolon, and ends with more than that. -/
theorem stops_forHead (i : Name) (n : Value) (o : Nat) (as : List Item) :
    Stops false o (stop o (forHead i n :: as)) (seen false (forHead i n :: as)) := by
  have hsize := Piece.length_lexemes (φ := fun _ => none) (forHead i n).piece
  change (forHead i n).chars.length = _ at hsize
  have hle := le_stop (o + (forHead i n).piece.size) as
  have hseen : seen false (forHead i n :: as) = ("for (".toList ++ i.text.toList ++ " = 0".toList) ++ ';' ::
      (" ".toList ++ i.text.toList ++ " < ".toList ++ n.text.toList ++ "; ".toList ++ i.text.toList ++ "++) ".toList ++ seen false as) := by
    rw [seen_cons]
    change (forHead i n).chars ++ _ = _
    simp
  refine ⟨_, _, hseen, ((by decide : Plain "for (".toList).append i.plain_text).append (by decide), List.cons_ne_nil _ _, rfl, ?_,
    fun h => Bool.noConfusion h⟩
  rw [chars_forHead] at hsize
  simp only [List.length_append] at hsize ⊢
  change _ ≤ stop (o + (forHead i n).piece.size) as
  simp at hsize ⊢
  omega

/-- Behind a header the next semicolon is that of the assignment where its body stops, unless the header of a `for` comes
first and can be seen. -/
theorem stops_of_reaches (hides : Bool) {fors dos : Bool} (h : reaches (lane fors dos) as = true) (o : Nat) :
    Stops (!fors || hides) o (stop o as) (seen hides as) := by
  have hheader : ∀ {a : Item} {as : List Item} {t : List Char} {o : Nat}, Lexeme.text ((a.shape hides).lexemes fun _ => none) = t →
      Stops (!fors || hides) (o + a.piece.size) (stop (o + a.piece.size) as) (seen hides as) → Plain t → t ≠ [] →
      t.head?.any isBlank = false → Stops (!fors || hides) o (stop (o + a.piece.size) as) (seen hides (a :: as)) := by
    intro a as t o hchars hrest ht hne hblank
    rw [seen_cons]
    rw [← size_shape hides, ← Piece.length_lexemes (φ := fun _ => none)] at hrest ⊢
    rw [← hchars] at ht hne hblank
    exact hrest.append ht hne hblank
  have hcondition : ∀ (c : Condition) {t : String}, Plain t.toList → Plain (t.toList ++ c.text.toList ++ ") ".toList) :=
    fun c t ht => (ht.append c.plain_text).append (by decide)
  induction as generalizing o with
  | nil => exact Bool.noConfusion h
  | cons a as ih =>
    cases a with
    | assign x e => exact stops_assign _ x e o as
    | whileHead c =>
      exact hheader (chars_whileHead c) (ih h _) (hcondition c (by decide)) (List.cons_ne_nil _ _) rfl
    | ifHead chained c =>
      cases chained with
      | false => exact hheader (chars_ifHead false c) (ih h _) (hcondition c (by decide)) (List.cons_ne_nil _ _) rfl
      | true => exact Bool.noConfusion h
    | doWord => exact hheader chars_doWord (ih (Bool.and_eq_true_iff.1 h).2 _) (by decide) (List.cons_ne_nil _ _) rfl
    | openMark => exact ih h o
    | forHead i n =>
      obtain ⟨hfors, has⟩ := Bool.and_eq_true_iff.1 h
      cases hides with
      | true =>
        have hdots : ∀ k : Nat, Plain (List.replicate k WorkingCopy.masked) := by
          intro k b hb
          obtain rfl := List.eq_of_mem_replicate hb
          decide
        exact hheader (chars_forHead_hidden i n) (ih has _) (((by decide : Plain "for (".toList).append (hdots _)).append (by decide))
          (List.cons_ne_nil _ _) rfl
      | false =>
        obtain rfl : fors = true := hfors
        exact stops_forHead i n o as
    | _ => exact Bool.noConfusion h

/-! ## Hiding headers -/

/-- What stands between the parentheses of a `for`. -/
def counters (o : Nat) : Item → List Item → List Span
  | forHead i n, _ => [⟨o + 5, o + 5 + (Lexeme.text (counting i n)).length⟩]
  | _, _ => []

theorem foldl_hide (u : List Char) (as : List Item) :
    (Piece.collect piece counters u.length as).foldl BareBody.hide (u ++ text as) = u ++ seen true as := by
  induction as generalizing u with
  | nil => rfl
  | cons a as ih =>
    have hnext : (Piece.collect piece counters (u.length + a.piece.size) as).foldl BareBody.hide
        (u ++ (Lexeme.text ((a.shape true).lexemes fun _ => none) ++ text as)) = u ++ seen true (a :: as) := by
      rw [seen_cons, ← List.append_assoc, ← List.append_assoc, ← size_shape true, ← Piece.length_lexemes (φ := fun _ => none),
        ← List.length_append]
      exact ih _
    rw [Piece.collect, List.foldl_append, text_cons, ← hnext]
    congr 1
    cases a with
    | forHead i n =>
      have hchars : (forHead i n).chars = "for (".toList ++ (Lexeme.text (counting i n) ++ ") ".toList) := by
        simp [chars, piece, Piece.lexemes, Ink.cover, keyword, Lexeme.chars, text_bracketed]
      have hhide := WorkingCopy.mapSpan_of_length (fun _ : Char => '.') (u ++ "for (".toList) (Lexeme.text (counting i n))
        (") ".toList ++ text as)
      rw [List.map_const'] at hhide
      rw [chars_forHead_hidden, hchars]
      simp only [List.append_assoc, List.length_append] at hhide ⊢
      exact hhide
    | _ => rfl

theorem text_counting (i : Name) (n : Value) : Lexeme.text (counting i n) = (i.text.toList ++ " = 0".toList) ++ ';' ::
    ((" ".toList ++ i.text.toList ++ " < ".toList ++ n.text.toList) ++ ';' :: (" ".toList ++ i.text.toList ++ "++".toList)) := by
  simp [counting, keyword, Lexeme.chars, Value.text_lexemes, Name.chars]

def forLeads : Leads := ⟨["for".toList], [], [], [], false⟩

theorem sweeps_forHeader (hs : Stands (text as) o (Piece.page untouched ((a :: bs).map piece))) :
    Piece.Sweeps (reader BareBody.forHeader) (text as) forLeads untouched piece (fun h => some h.token) counters o a bs := by
  have hquiet : ∀ {a : Item}, a.quiet forLeads untouched = true → counters o a bs = [] →
      Piece.Sweeps (reader BareBody.forHeader) (text as) forLeads untouched piece (fun h => some h.token) counters o a bs :=
    fun hq haim => Piece.sweeps_of_not_leads (not_leads_of_quiet (by decide) hq) haim
  cases a with
  | forHead i n =>
    have hplain : ∀ v : String, Plain v.toList → Plain (v.toList ++ i.text.toList) := fun v hv => hv.append i.plain_text
    have hclose : ')' ∉ " ".toList ++ i.text.toList ++ "++".toList := by simpa using i.close_not_mem
    have htext : (text as).drop o = "for (".toList ++ ((i.text.toList ++ " = 0".toList) ++ ';' ::
        ((" ".toList ++ i.text.toList ++ " < ".toList ++ n.text.toList) ++ ';' :: ((" ".toList ++ i.text.toList ++ "++".toList) ++
          ')' :: ' ' :: text bs))) := by
      have hdrop : (text as).drop o = text (forHead i n :: bs) := hs.text
      rw [hdrop]
      simp
    obtain ⟨hit, hhit, htoken, hwhole⟩ := hitOf_forHeader (g := [' ']) htext (hs.atWordEdge ((sound_map as).isAscii Piece.isDry_untouched))
      (by decide) (i.plain_text.append (by decide)) (((hplain " " (by decide)).append (by decide)).append n.plain_text)
      ((hplain " " (by decide)).append (by decide)) hclose
    rw [← text_counting, List.length_singleton] at htoken hwhole
    have hlexemes : (forHead i n).piece.lexemes untouched = [] ++ keyword "for" :: (bracketed (counting i n) ++ [sign ' ']) := by
      simp [piece, Piece.lexemes, Ink.cover]
    refine Or.inr ⟨o, ?_, Or.inr ⟨hit, hhit, congrArg (fun s => [s]) htoken, fun j hj => ?_⟩⟩
    · rw [hlexemes]
      exact Lexeme.spots_one (List.forall_mem_nil _) (by decide)
        (not_leads_bracketed ⟨rfl, rfl⟩ (not_leads_counting (by decide) ⟨rfl, rfl⟩ (by decide) i n)) o
    · have hle := Lexeme.le_of_mem_spots hj
      have hsize : (forHead i n).piece.size = 5 + (Lexeme.text (counting i n)).length + 2 := by
        rw [← Piece.length_lexemes (φ := untouched), hlexemes, List.nil_append, Lexeme.text_cons, Lexeme.text_append,
          text_bracketed]
        simp [Lexeme.chars, keyword]
        omega
      change hit.whole.stop ≤ j
      omega
  | ifHead chained c => cases chained <;> exact hquiet rfl rfl
  | _ => exact hquiet rfl rfl

theorem map_forHeaders (as : List Item) :
    (BareBody.forHeader.readings (text as)).map Hit.token = Piece.collect piece counters 0 as := by
  have hhits : ((reader BareBody.forHeader).hits (text as)).filterMap (fun h => some h.token) = Piece.collect piece counters 0 as := by
    refine Piece.filterMap_hits (x := forLeads) (by decide) (by decide) (sound_map as) Piece.isDry_untouched ?_
    exact fun o a bs _ hs => sweeps_forHeader hs
  rw [← hhits]
  exact (congrFun (List.filterMap_eq_map (f := Hit.token)) _).symm

/-- **Hiding headers.** The text without headers is that of the pieces with hidden headers. -/
theorem withoutHeaders_text (as : List Item) : BareBody.withoutHeaders (text as) = seen true as := by
  have hfold := foldl_hide [] as
  rw [List.nil_append, List.nil_append, List.length_nil] at hfold
  rw [BareBody.withoutHeaders, map_forHeaders, hfold]

end Item
end SourceLikeness.Tokenizer
