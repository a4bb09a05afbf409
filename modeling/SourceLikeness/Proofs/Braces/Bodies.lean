import SourceLikeness.Proofs.Braces.Hidden

/-!
# The bodies that are found

* `Item.Housed` : behind each header comes a block, or an assignment where its body stops;
* `Item.sweeps_else`, `Item.sweeps_do`, `Item.sweeps_headed` : the searches find the bodies that are no blocks, and nothing else;
* `Item.bodies_text` : all of them together.
-/

namespace SourceLikeness.Tokenizer
open Lexeme (word sign spots)
open Text (isAsciiWord isBlank)
open Pattern (reader)
open Finder (start)

namespace Item
variable {p wanted : Item → Bool} {a : Item} {as bs : List Item} {o : Nat} {u v s : List Char}

/-! ## Pieces with bodies -/

/-- A block comes next. -/
def braceNext : List Item → Bool
  | openBrace :: _ => true
  | _ => false

/-- Behind each header comes a block, or an assignment where its body stops. -/
def Housed : List Item → Prop
  | [] => True
  | a :: as => (∀ p ∈ a.laneBehind, braceNext as = true ∨ reaches p as = true) ∧ Housed as

theorem Housed.of_suffix (h : Housed bs) (has : a :: as <:+ bs) :
    ∀ p ∈ a.laneBehind, braceNext as = true ∨ reaches p as = true := by
  induction bs with
  | nil => exact absurd (List.suffix_nil.1 has) (List.cons_ne_nil a as)
  | cons b bs ih =>
    rcases List.suffix_cons_iff.1 has with heq | has
    · obtain ⟨rfl, rfl⟩ := List.cons.inj heq
      exact h.1
    · exact ih h.2 has

theorem Bounded.housed (h : Bounded as) : Housed as := by
  induction as with
  | nil => trivial
  | cons a as ih => exact ⟨fun p hp => Or.inr (h.1 p hp), ih h.2⟩

/-- The body of a piece, if it has one that is no block. -/
def bareBody (wanted : Item → Bool) (o : Nat) (a : Item) (as : List Item) : List Span :=
  if wanted a && !braceNext as then [⟨o + a.piece.size, stop (o + a.piece.size) as⟩] else []

theorem bareBody_of_not (h : wanted a = false) : bareBody wanted o a as = [] := by
  rw [bareBody, h, Bool.false_and, if_neg Bool.false_ne_true]

theorem bareBody_of_brace (h : braceNext as = true) : bareBody wanted o a as = [] := by
  rw [bareBody, h, Bool.not_true, Bool.and_false, if_neg Bool.false_ne_true]

theorem braceNext_of_reaches {fors dos : Bool} (h : reaches (lane fors dos) as = true) : braceNext as = false := by
  cases as with
  | nil => rfl
  | cons a as =>
    cases a with
    | openBrace => exact Bool.noConfusion h
    | _ => rfl

theorem bareBody_of_reaches {fors dos : Bool} (ha : wanted a = true) (h : reaches (lane fors dos) as = true) :
    bareBody wanted o a as = [⟨o + a.piece.size, stop (o + a.piece.size) as⟩] := by
  rw [bareBody, ha, braceNext_of_reaches h]
  rfl

theorem text_of_braceNext (hides : Bool) (h : braceNext as = true) : ∃ v, seen hides as = '\x7b' :: v := by
  cases as with
  | nil => exact Bool.noConfusion h
  | cons a as =>
    cases a with
    | openBrace => exact ⟨_, rfl⟩
    | _ => exact Bool.noConfusion h

/-- No lead comes before the assignment where a body stops. -/
theorem stop_le_of_mem_spots {x : Leads} (hx : Name.covers x = true) (h : reaches p as = true)
    (hp : ∀ a, p a = true → a.quiet x untouched = true) (hassign : ∀ v e, (assign v e).quiet x untouched = true) :
    ∀ j ∈ spots x o (Piece.page untouched (as.map piece)), stop o as ≤ j := by
  have hnone : ∀ {a : Item} {o : Nat}, a.quiet x untouched = true → spots x o (a.piece.lexemes untouched) = [] :=
    fun ha => Lexeme.spots_eq_nil (not_leads_of_quiet hx ha) _
  intro j hj
  induction as generalizing o with
  | nil => exact Bool.noConfusion h
  | cons a as ih =>
    rw [List.map_cons, Piece.page_cons, Lexeme.spots_append, Piece.length_lexemes] at hj
    cases a with
    | assign v e =>
      rw [hnone (hassign v e), List.nil_append] at hj
      exact Lexeme.le_of_mem_spots hj
    | _ =>
      obtain ⟨ha, has⟩ := Bool.and_eq_true_iff.1 h
      rw [hnone (hp _ ha), List.nil_append] at hj
      exact ih has hj

theorem slice_of_drop {n : Nat} (h : s.drop n = u ++ ';' :: v) : Span.slice ⟨n, n + u.length + 1⟩ s = u ++ [';'] := by
  have hlength : n + u.length + 1 - n = (u ++ [';']).length := by
    rw [List.length_append, List.length_singleton]
    omega
  rw [Span.slice, h, hlength, show u ++ ';' :: v = (u ++ [';']) ++ v by rw [List.append_assoc]; rfl, List.take_left]

/-! ## Bodies behind `else` -/

def isElse : Item → Bool
  | elseWord => true
  | _ => false

def elseLeads : Leads := ⟨[], ["else".toList], [], [], false⟩

/-- A body behind an `else`, unless it is an `if`. -/
def elseToken (s : List Char) (h : Hit) : Option Span :=
  Option.guard (fun t => (BareBody.leadingIf.readStart (t.slice s)).isNone) h.token

theorem elseToken_of_drop {n i : Nat} (h : s.drop n = u ++ ';' :: v) :
    elseToken s ⟨⟨i, n + u.length + 1⟩, [(.token, ⟨n, n + u.length + 1⟩)]⟩ =
      if (BareBody.leadingIf.readStart (u ++ [';'])).isNone then some ⟨n, n + u.length + 1⟩ else none := by
  rw [← slice_of_drop h]
  rfl

theorem quiet_of_lane {fors dos : Bool} (h : lane fors dos a = true) : a.quiet elseLeads untouched = true := by
  cases a with
  | ifHead chained c => cases chained <;> first | rfl | exact Bool.noConfusion h
  | whileHead _ | forHead _ _ | doWord | openMark => rfl
  | _ => exact Bool.noConfusion h

theorem not_if_of_semicolon {w : List Char} (h : ∀ v, u ++ ';' :: w = "if".toList ++ v → v.head?.any isAsciiWord = true) :
    ∀ v, u ++ [';'] = "if".toList ++ v → v.head?.any isAsciiWord = true := by
  intro v hv
  have hnext := h (v ++ w) (by rw [← List.append_assoc, ← hv, List.append_assoc]; rfl)
  cases v with
  | nil =>
    have hlast := congrArg List.getLast? hv
    rw [List.getLast?_concat] at hlast
    exact absurd (Option.some.inj hlast) (by decide)
  | cons b v => exact hnext

/-- Behind a piece no lead comes before the assignment where its body stops. -/
theorem stop_le_of_elseLeads {fors dos : Bool} (h : reaches (lane fors dos) bs = true) (o : Nat) :
    ∀ j ∈ spots elseLeads o (Piece.page untouched (bs.map piece)), stop o bs ≤ j :=
  stop_le_of_mem_spots (by decide) h (fun _ ha => quiet_of_lane ha) fun _ _ => rfl

theorem sweeps_elseWord (hfits : Fits as) (h : Housed as) (hbs : elseWord :: bs <:+ as)
    (hs : Stands (text as) o (Piece.page untouched ((elseWord :: bs).map piece))) : Piece.Sweeps (reader BareBody.elseBody)
      (text as) elseLeads untouched piece (elseToken (text as)) (bareBody isElse) o elseWord bs := by
  have hdrop : (text as).drop o = elseWord.chars ++ text bs := hs.text.trans (text_cons elseWord bs)
  have hascii := (sound_map as).isAscii Piece.isDry_untouched
  have htext : (text as).drop (o + 1) = "else".toList ++ ' ' :: text bs := by
    rw [← List.drop_drop, hdrop]
    rfl
  refine Or.inr ⟨o + 1, rfl, ?_⟩
  rcases h.of_suffix hbs _ rfl with hbrace | hreaches
  · obtain ⟨v, hv⟩ := text_of_braceNext false hbrace
    rw [seen_false] at hv
    rw [hv] at htext
    exact Or.inl ⟨elseBody_eq_none (u := [' ']) htext (by decide), bareBody_of_brace hbrace⟩
  · obtain ⟨u, v, hu, hplain, hne, hblank, -, hstop⟩ := stops_of_reaches false hreaches (o + 6)
    have hstop : stop (o + 6) bs = o + 6 + u.length + 1 := hstop rfl
    rw [seen_false] at hu
    rw [hu] at htext
    have hif := not_if_next isOpen_untouched (hfits.follows hbs)
    refine Or.inr ⟨_, hitOf_elseBody htext (hs.tail.atWordEdge hascii) hne hplain hblank, ?_, ?_⟩
    · have hdrop' : (text as).drop (o + 6) = u ++ ';' :: v := by
        rw [← hu, show o + 6 = o + " else ".toList.length from rfl, ← List.drop_drop, hdrop]
        exact List.drop_left
      have hnone : BareBody.leadingIf.readStart (u ++ [';']) = none := by
        refine leadingIf_eq_none ?_ (not_if_of_semicolon (w := v) ?_)
        · rwa [List.head?_append_of_ne_nil _ hne]
        · rw [← hu]
          exact hif
      have htoken := elseToken_of_drop (i := o + 1) hdrop'
      rw [hnone] at htoken
      rw [bareBody_of_reaches rfl hreaches]
      refine (congrArg Option.toList htoken).trans ?_
      change [(⟨o + 6, o + 6 + u.length + 1⟩ : Span)] = [⟨o + 6, stop (o + 6) bs⟩]
      rw [hstop]
    · intro j hj
      have hle : stop (o + 6) bs ≤ j := stop_le_of_elseLeads hreaches _ j hj
      rw [hstop] at hle
      exact hle

/-- The `if` of a chain. -/
def chainedIf (c : Condition) : List Char := "if (".toList ++ c.text.toList ++ ") ".toList

theorem plain_chainedIf (c : Condition) : Plain (chainedIf c) :=
  ((by decide : Plain "if (".toList).append c.plain_text).append (by decide)

theorem chars_elseIf (c : Condition) : (ifHead true c).chars = " else ".toList ++ chainedIf c := by
  rw [chars_ifHead, chainedIf]
  simp

theorem size_elseIf (c : Condition) : (ifHead true c).piece.size = 6 + (chainedIf c).length := by
  have hlength := Piece.length_lexemes (φ := untouched) (ifHead true c).piece
  change (ifHead true c).chars.length = _ at hlength
  rw [← hlength, chars_elseIf, List.length_append]
  rfl

theorem spots_elseIf (c : Condition) (o : Nat) : spots elseLeads o ((ifHead true c).piece.lexemes untouched) = [o + 1] := by
  have hlexemes : (ifHead true c).piece.lexemes untouched = [sign ' '] ++ keyword "else" ::
      (sign ' ' :: keyword "if" :: (bracketed c.lexemes ++ [sign ' '])) := by simp [piece, Piece.lexemes, Ink.cover]
  have hbracketed := not_leads_bracketed (c := ' ') ⟨rfl, rfl⟩ (c.not_leads (x := elseLeads) (by decide) (by decide))
  rw [hlexemes]
  refine Lexeme.spots_one (by decide) (by decide) ?_ o
  exact List.forall_mem_cons.2 ⟨rfl, List.forall_mem_cons.2 ⟨by decide, hbracketed⟩⟩

/-- The body that is found behind the `else` of a chain is an `if`, and left. -/
theorem sweeps_elseIf {c : Condition} (h : Housed as) (hbs : ifHead true c :: bs <:+ as)
    (hs : Stands (text as) o (Piece.page untouched ((ifHead true c :: bs).map piece))) : Piece.Sweeps (reader BareBody.elseBody)
      (text as) elseLeads untouched piece (elseToken (text as)) (bareBody isElse) o (ifHead true c) bs := by
  have hascii := (sound_map as).isAscii Piece.isDry_untouched
  have hplain := plain_chainedIf c
  have htext : (text as).drop (o + 1) = "else".toList ++ ' ' :: (chainedIf c ++ text bs) := by
    have hdrop : (text as).drop o = (ifHead true c).chars ++ text bs := hs.text.trans (text_cons (ifHead true c) bs)
    rw [← List.drop_drop, hdrop, chars_elseIf, List.append_assoc]
    rfl
  refine Or.inr ⟨o + 1, spots_elseIf c o, ?_⟩
  rcases h.of_suffix hbs _ rfl with hbrace | hreaches
  · obtain ⟨v, hv⟩ := text_of_braceNext false hbrace
    rw [seen_false] at hv
    rw [hv] at htext
    exact Or.inl ⟨elseBody_eq_none (u := ' ' :: chainedIf c) htext (hplain.cons (by decide)), bareBody_of_not rfl⟩
  · obtain ⟨u, v, hu, hu', -, -, hle, -⟩ := stops_of_reaches false hreaches (o + (ifHead true c).piece.size)
    rw [seen_false] at hu
    rw [hu, ← List.append_assoc] at htext
    refine Or.inr ⟨_, hitOf_elseBody htext (hs.tail.atWordEdge hascii) (List.cons_ne_nil _ _) (hplain.append hu') rfl, ?_, ?_⟩
    · have hdrop' : (text as).drop (o + 1 + 5) = (chainedIf c ++ u) ++ ';' :: v := by
        rw [← List.drop_drop, htext]
        rfl
      have happend : chainedIf c ++ u ++ [';'] = "if".toList ++ ' ' :: ("(".toList ++ c.text.toList ++ ") ".toList ++ u ++ [';']) := by
        simp [chainedIf]
      have hisIf : ¬ (BareBody.leadingIf.readStart (chainedIf c ++ u ++ [';'])).isNone := by
        rw [happend, Option.isNone_iff_eq_none]
        exact Option.isSome_iff_ne_none.1 (isSome_leadingIf _)
      have htoken := elseToken_of_drop (i := o + 1) hdrop'
      rw [if_neg hisIf] at htoken
      rw [bareBody_of_not rfl]
      exact congrArg Option.toList htoken
    · intro j hj
      have hle' : stop (o + (ifHead true c).piece.size) bs ≤ j := stop_le_of_elseLeads hreaches _ j hj
      change o + 1 + 5 + (chainedIf c ++ u).length + 1 ≤ j
      rw [size_elseIf] at hle hle'
      rw [List.length_append]
      omega

theorem sweeps_else (hfits : Fits as) (h : Housed as) (hbs : a :: bs <:+ as)
    (hs : Stands (text as) o (Piece.page untouched ((a :: bs).map piece))) :
    Piece.Sweeps (reader BareBody.elseBody) (text as) elseLeads untouched piece (elseToken (text as)) (bareBody isElse) o a bs := by
  have hquiet : ∀ {a : Item}, a.quiet elseLeads untouched = true → a.isElse = false →
      Piece.Sweeps (reader BareBody.elseBody) (text as) elseLeads untouched piece (elseToken (text as)) (bareBody isElse) o a bs :=
    fun hq ha => Piece.sweeps_of_not_leads (not_leads_of_quiet (by decide) hq) (bareBody_of_not ha)
  cases a with
  | elseWord => exact sweeps_elseWord hfits h hbs hs
  | ifHead chained c =>
    cases chained with
    | false => exact hquiet rfl rfl
    | true => exact sweeps_elseIf h hbs hs
  | _ => exact hquiet rfl rfl

/-! ## Bodies behind `do` -/

def isDo : Item → Bool
  | doWord => true
  | _ => false

theorem sweeps_do (h : Housed as) (hbs : a :: bs <:+ as)
    (hs : Stands (text as) o (Piece.page untouched ((a :: bs).map piece))) :
    Piece.Sweeps (reader BareBody.doBody) (text as) doLeads untouched piece (fun h => some h.token) (bareBody isDo) o a bs := by
  have hquiet : ∀ {a : Item}, a.quiet doLeads untouched = true → a.isDo = false →
      Piece.Sweeps (reader BareBody.doBody) (text as) doLeads untouched piece (fun h => some h.token) (bareBody isDo) o a bs :=
    fun hq ha => Piece.sweeps_of_not_leads (not_leads_of_quiet (by decide) hq) (bareBody_of_not ha)
  cases a with
  | doWord =>
    have htext : (text as).drop o = "do".toList ++ ' ' :: text bs := hs.text.trans (text_cons doWord bs)
    refine Or.inr ⟨o, rfl, ?_⟩
    rcases h.of_suffix hbs _ rfl with hbrace | hreaches
    · obtain ⟨v, hv⟩ := text_of_braceNext false hbrace
      rw [seen_false] at hv
      rw [hv] at htext
      exact Or.inl ⟨doBody_eq_none (u := [' ']) htext (by decide), bareBody_of_brace hbrace⟩
    · obtain ⟨u, v, hu, hplain, hne, hblank, -, hstop⟩ := stops_of_reaches false hreaches (o + 3)
      have hstop : stop (o + 3) bs = o + 3 + u.length + 1 := hstop rfl
      rw [seen_false] at hu
      rw [hu] at htext
      have hascii := (sound_map as).isAscii Piece.isDry_untouched
      refine Or.inr ⟨_, hitOf_doBody htext (hs.atWordEdge hascii) hne hplain hblank, ?_, fun j hj => ?_⟩
      · rw [bareBody_of_reaches rfl hreaches]
        change [(⟨o + 3, o + 3 + u.length + 1⟩ : Span)] = [⟨o + 3, stop (o + 3) bs⟩]
        rw [hstop]
      · have hlane : ∀ a, lane false false a = true → a.quiet doLeads untouched = true := by
          intro a ha
          cases a with
          | ifHead chained c => cases chained <;> rfl
          | whileHead _ | openMark => rfl
          | _ => exact Bool.noConfusion ha
        have hle : stop (o + 3) bs ≤ j := stop_le_of_mem_spots (by decide) hreaches hlane (fun _ _ => rfl) j hj
        rw [hstop] at hle
        exact hle
  | ifHead chained c => cases chained <;> exact hquiet rfl rfl
  | _ => exact hquiet rfl rfl

/-! ## Bodies behind headers -/

def isHeader : Item → Bool
  | whileHead _ | forHead _ _ | ifHead _ _ => true
  | _ => false

def headLeads : Leads := ⟨["while".toList, "if".toList, "for".toList], [], [], [], false⟩

/-- The body behind a header in a text. -/
def headedToken (s : List Char) (h : Hit) : Option Span :=
  (BareBody.headedBody.readStart (s.drop h.whole.start)).map fun body => body.token.shift h.whole.start

/-- A header with something in parentheses. -/
theorem sweeps_of_header (kw : String) (ks ls : List Lexeme) (h : Housed as) (hbs : a :: bs <:+ as)
    (hs : Stands (seen true as) o (Piece.page untouched ((a :: bs).map (shape true))))
    (ha : a.laneBehind = some (lane true true)) (hheader : a.isHeader = true) (hkw : kw ∈ BareBody.headed)
    (hlexemes : (a.shape true).lexemes untouched = ks ++ keyword kw :: (bracketed ls ++ [sign ' ']))
    (hks : ∀ l ∈ ks, l.leads headLeads = false) (hls : ∀ l ∈ ls, l.leads headLeads = false) (hu : Plain (Lexeme.text ls))
    (hu' : ')' ∉ Lexeme.text ls) (hne : Lexeme.text ls ≠ []) :
    Piece.Sweeps (reader (Pattern.word BareBody.headed)) (seen true as) headLeads untouched (shape true)
      (headedToken (seen true as)) (bareBody isHeader) o a bs := by
  generalize hi : o + (Lexeme.text ks).length = i
  generalize hlength : Lexeme.text ls = u at hu hu' hne
  have hleads : ∀ kw ∈ BareBody.headed, (keyword kw).leads headLeads = true := by decide
  have hspots : spots headLeads o ((a.shape true).lexemes untouched) = [i] := by
    rw [hlexemes, Lexeme.spots_one hks (hleads kw hkw) (not_leads_bracketed ⟨rfl, rfl⟩ hls), hi]
  have hstands : Stands (seen true as) i (keyword kw :: (bracketed ls ++ [sign ' '] ++ Piece.page untouched (bs.map (shape true)))) := by
    rw [List.map_cons, Piece.page_cons, hlexemes, List.append_assoc] at hs
    rw [← hi]
    exact hs.append
  have hedge := hstands.atWordEdge ((sound_map_shape true as).isAscii Piece.isDry_untouched)
  have hdrop : (seen true as).drop i = kw.toList ++ (" (".toList ++ u ++ ')' :: ([' '] ++ seen true bs)) := by
    rw [hstands.text, ← hlength]
    simp [keyword, Lexeme.chars, text_bracketed, seen]
  have hsize : o + a.piece.size = i + (kw.toList ++ (" (".toList ++ u ++ [')', ' '])).length := by
    rw [← size_shape true, ← Piece.length_lexemes (φ := untouched), hlexemes, Lexeme.text_append, List.length_append,
      ← Nat.add_assoc, hi, ← hlength]
    simp [keyword, Lexeme.chars, text_bracketed]
  refine Or.inr ⟨i, hspots, Or.inr ⟨_, hitOf_headed hkw hdrop hedge rfl, ?_, fun j hj => ?_⟩⟩
  · let n := (kw.toList ++ (" (".toList ++ u ++ [')', ' '])).length
    have htoken : headedToken (seen true as) ⟨⟨i, i + kw.toList.length⟩, []⟩ =
        (BareBody.headedBody.readStart (kw.toList ++ (" (".toList ++ u ++ ')' :: ([' '] ++ seen true bs)))).map
          fun body => body.token.shift i := by
      rw [← hdrop]
      rfl
    rcases h.of_suffix hbs _ ha with hbrace | hreaches
    · obtain ⟨v, hv⟩ := text_of_braceNext true hbrace
      have hplain : Plain (kw.toList ++ (" (".toList ++ u ++ [')', ' '])) := by
        have hheaded : ∀ kw ∈ BareBody.headed, Plain kw.toList := by decide
        exact (hheaded kw hkw).append (((by decide : Plain " (".toList).append hu).append (by decide))
      have happend : kw.toList ++ (" (".toList ++ u ++ ')' :: ([' '] ++ '\x7b' :: v)) =
          (kw.toList ++ (" (".toList ++ u ++ [')', ' '])) ++ '\x7b' :: v := by simp
      rw [htoken, bareBody_of_brace hbrace, hv, happend, headedBody_eq_none_of_brace hplain]
      rfl
    · obtain ⟨w, v, hw, hplain, hne', hblank, -, hstop⟩ := stops_of_reaches true hreaches (o + a.piece.size)
      rw [htoken, bareBody_of_reaches hheader hreaches, hw, readStart_headedBody hkw hu hu' hne hplain hne' hblank rfl,
        hstop rfl, hsize]
      change [(⟨n + i, n + w.length + 1 + i⟩ : Span)] = [⟨i + n, i + n + w.length + 1⟩]
      rw [Nat.add_comm n i, show n + w.length + 1 + i = i + n + w.length + 1 by omega]
  · have hle := Lexeme.le_of_mem_spots hj
    rw [size_shape] at hle
    change i + kw.toList.length ≤ j
    rw [hsize, List.length_append] at hle
    omega

theorem not_leads_condition (c : Condition) : ∀ l ∈ c.lexemes, l.leads headLeads = false := c.not_leads (by decide) (by decide)

/-- The header of a `for` with a hidden count. -/
theorem sweeps_forHead {i : Name} {n : Value} (h : Housed as) (hbs : forHead i n :: bs <:+ as)
    (hs : Stands (seen true as) o (Piece.page untouched ((forHead i n :: bs).map (shape true)))) :
    Piece.Sweeps (reader (Pattern.word BareBody.headed)) (seen true as) headLeads untouched (shape true)
      (headedToken (seen true as)) (bareBody isHeader) o (forHead i n) bs := by
  let dots : List Lexeme := List.replicate (Lexeme.text (counting i n)).length (sign WorkingCopy.masked)
  have hdots : Lexeme.text dots = List.replicate (Lexeme.text (counting i n)).length WorkingCopy.masked := text_replicate _ _
  have hmem : ∀ {b : Char}, b ∈ Lexeme.text dots → b = WorkingCopy.masked := by
    rw [hdots]
    exact fun hb => List.eq_of_mem_replicate hb
  have hleads : ∀ l ∈ dots, l.leads headLeads = false := by
    intro l hl
    obtain rfl := List.eq_of_mem_replicate hl
    decide
  refine sweeps_of_header "for" [] dots h hbs hs rfl rfl (by decide) ?_ (List.forall_mem_nil _) hleads ?_ ?_ ?_
  · simp only [shape, if_pos, Piece.lexemes, Ink.cover, Option.elim_none, List.nil_append, List.append_nil]
    rfl
  · intro b hb
    obtain rfl := hmem hb
    decide
  · exact fun hb => absurd (hmem hb) (by decide)
  · rw [hdots, text_counting]
    exact fun hnil => absurd (congrArg List.length hnil) (by simp)

/-- Behind the condition at the end of a `do` no body is found, since a semicolon follows it. -/
theorem sweeps_doTail {c : Condition} (hs : Stands (seen true as) o (Piece.page untouched ((doTail c :: bs).map (shape true)))) :
    Piece.Sweeps (reader (Pattern.word BareBody.headed)) (seen true as) headLeads untouched (shape true)
      (headedToken (seen true as)) (bareBody isHeader) o (doTail c) bs := by
  have hlexemes : ((doTail c).shape true).lexemes untouched = [sign ' '] ++ keyword "while" :: (bracketed c.lexemes ++ [sign ';']) := by
    simp [shape, piece, Piece.lexemes, Ink.cover]
  have hspots : spots headLeads o (((doTail c).shape true).lexemes untouched) = [o + 1] := by
    rw [hlexemes]
    exact Lexeme.spots_one (by decide) (by decide) (not_leads_bracketed ⟨rfl, rfl⟩ (not_leads_condition c)) o
  rw [List.map_cons, Piece.page_cons, hlexemes] at hs
  have hdrop : (seen true as).drop (o + 1) = "while".toList ++ ' ' :: ("(".toList ++ c.text.toList ++ ')' :: ';' :: seen true bs) := by
    rw [← List.drop_drop, hs.text]
    simp [keyword, Lexeme.chars, text_bracketed, Condition.text_lexemes, seen]
  have hedge : (start (seen true as) (o + 1)).atWordEdge = true :=
    hs.tail.atWordEdge ((sound_map_shape true as).isAscii Piece.isDry_untouched)
  have hclose : ')' ∉ "while (".toList ++ c.text.toList := by simpa using c.close_not_mem
  have hnone : headedToken (seen true as) ⟨⟨o + 1, o + 1 + "while".toList.length⟩, []⟩ = none := by
    have happend : "while".toList ++ ' ' :: ("(".toList ++ c.text.toList ++ ')' :: ';' :: seen true bs) =
        ("while (".toList ++ c.text.toList) ++ ')' :: ';' :: seen true bs := by simp
    rw [headedToken, hdrop, happend, headedBody_eq_none_of_closes hclose]
    rfl
  refine Or.inr ⟨o + 1, hspots, Or.inr ⟨_, hitOf_headed (by decide) hdrop hedge rfl, ?_, fun j hj => ?_⟩⟩
  · rw [hnone, bareBody_of_not rfl]
    rfl
  · have hle := Lexeme.le_of_mem_spots hj
    have hsize : 1 + "while".toList.length ≤ ((doTail c).shape true).size := by
      have hword : "while".toList.length ≤ (Lexeme.text (keyword "while" :: (bracketed c.lexemes ++ [sign ';']))).length := by
        rw [Lexeme.text_cons, List.length_append]
        exact Nat.le_add_right _ _
      rw [← Piece.length_lexemes (φ := untouched), hlexemes, Lexeme.text_append, List.length_append]
      exact Nat.add_le_add_left hword 1
    change o + 1 + "while".toList.length ≤ j
    omega

theorem sweeps_headed (h : Housed as) (hbs : a :: bs <:+ as)
    (hs : Stands (seen true as) o (Piece.page untouched ((a :: bs).map (shape true)))) :
    Piece.Sweeps (reader (Pattern.word BareBody.headed)) (seen true as) headLeads untouched (shape true)
      (headedToken (seen true as)) (bareBody isHeader) o a bs := by
  have hquiet : ∀ {a : Item}, a.quiet headLeads untouched = true → a.isHeader = false → a.shape true = a.piece →
      Piece.Sweeps (reader (Pattern.word BareBody.headed)) (seen true as) headLeads untouched (shape true)
        (headedToken (seen true as)) (bareBody isHeader) o a bs := by
    intro a hq ha hshape
    refine Piece.sweeps_of_not_leads ?_ (bareBody_of_not ha)
    rw [hshape]
    exact not_leads_of_quiet (by decide) hq
  have hheader : ∀ (kw : String) (ks : List Lexeme) (c : Condition), a.laneBehind = some (lane true true) → a.isHeader = true →
      kw ∈ BareBody.headed → (a.shape true).lexemes untouched = ks ++ keyword kw :: (bracketed c.lexemes ++ [sign ' ']) →
      (∀ l ∈ ks, l.leads headLeads = false) → Piece.Sweeps (reader (Pattern.word BareBody.headed)) (seen true as) headLeads
        untouched (shape true) (headedToken (seen true as)) (bareBody isHeader) o a bs := by
    intro kw ks c ha hheader hkw hlexemes hks
    refine sweeps_of_header kw ks c.lexemes h hbs hs ha hheader hkw hlexemes hks (not_leads_condition c) ?_ ?_ ?_
    all_goals rw [c.text_lexemes]
    · exact c.plain_text
    · exact c.close_not_mem
    · exact c.text_ne_nil
  cases a with
  | whileHead c =>
    refine hheader "while" [] c rfl rfl (by decide) ?_ (List.forall_mem_nil _)
    simp [shape, piece, Piece.lexemes, Ink.cover]
  | ifHead chained c =>
    cases chained with
    | false =>
      refine hheader "if" [] c rfl rfl (by decide) ?_ (List.forall_mem_nil _)
      simp [shape, piece, Piece.lexemes, Ink.cover]
    | true =>
      refine hheader "if" [sign ' ', keyword "else", sign ' '] c rfl rfl (by decide) ?_ (by decide)
      simp [shape, piece, Piece.lexemes, Ink.cover]
  | forHead i n => exact sweeps_forHead h hbs hs
  | doTail c => exact sweeps_doTail hs
  | _ => exact hquiet rfl rfl rfl

/-! ## All bodies -/

theorem collect_shape {α : Type} (aim : Nat → Item → List Item → List α) (o : Nat) (as : List Item) :
    Piece.collect (shape true) aim o as = Piece.collect piece aim o as := by
  induction as generalizing o with
  | nil => rfl
  | cons a as ih => rw [Piece.collect, Piece.collect, size_shape, ih]

/-- **The bodies that are found.** They are those behind `else`, those behind `do` and those behind headers. -/
theorem bodies_text (hfits : Fits as) (h : Housed as) : BareBody.bodies (text as) = Piece.collect piece (bareBody isElse) 0 as ++
    Piece.collect piece (bareBody isDo) 0 as ++ Piece.collect piece (bareBody isHeader) 0 as := by
  have helse : ((BareBody.elseBody.readings (text as)).map Hit.token).filter
      (fun t => (BareBody.leadingIf.readStart (t.slice (text as))).isNone) = Piece.collect piece (bareBody isElse) 0 as := by
    rw [← List.filterMap_eq_filter, List.filterMap_map]
    exact Piece.filterMap_hits (by decide) (by decide) (sound_map as) Piece.isDry_untouched fun o a bs hbs hs =>
      sweeps_else hfits h hbs hs
  have hdo : (BareBody.doBody.readings (text as)).map Hit.token = Piece.collect piece (bareBody isDo) 0 as := by
    rw [← List.filterMap_eq_map]
    exact Piece.filterMap_hits (by decide) (by decide) (sound_map as) Piece.isDry_untouched fun o a bs hbs hs =>
      sweeps_do h hbs hs
  have hheaded : BareBody.headedBodies (seen true as) = Piece.collect piece (bareBody isHeader) 0 as := by
    rw [← collect_shape]
    exact Piece.filterMap_hits (by decide) (by decide) (sound_map_shape true as) Piece.isDry_untouched fun o a bs hbs hs =>
      sweeps_headed h hbs hs
  rw [BareBody.bodies, helse, hdo, withoutHeaders_text, hheaded]

end Item
end SourceLikeness.Tokenizer
