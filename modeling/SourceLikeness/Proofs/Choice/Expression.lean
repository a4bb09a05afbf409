import SourceLikeness.Proofs.Braces.Markers
import SourceLikeness.Proofs.Choice.Steps

/-!
# The pass for conditional expressions over the pieces of a choice

* `ConditionalExpression.reads_finder` : what every reading starts with;
* `ConditionalExpression.run_finder` : how a choice is read from the blank before its equals sign or its `return` on;
* `Choice.hits_expression` : a choice is found there, and nowhere else;
* `Choice.apply_expression` : so its pieces are covered, and its marks are recorded.
-/

namespace SourceLikeness.Tokenizer
open Pattern
open Text (isAsciiWord isBlank)
open Finder (start)
variable {c d : Cursor} {s u v w t g : List Char} {o i : Nat}

namespace ConditionalExpression

/-! ## What every reading starts with -/

/-- The signs of comparisons. -/
def comparisonSigns : List Char := ['=', '<', '>']

def comparisons : List String := ["==", ">=", "<=", ">", "<"]

/-- A sign of a comparison stands in a reading behind blanks, what says where the value goes, and other characters. -/
theorem reads_finder (h : finder.pattern.Reads c d) : ∃ g l a op v, c.rest = g ++ l ++ a ++ op ++ v ∧ (∀ b ∈ g, isBlank b = true) ∧
    (l = [] ∨ l = "=".toList ∨ l = "return".toList) ∧ (∀ b ∈ a, b ∉ comparisonSigns) ∧ ∃ t ∈ comparisons, op = t.toList := by
  obtain ⟨e, hblanks, f, hlead, -, ⟨m, ⟨n, hplus, n', hcomparison, -⟩, -⟩, -⟩ := h
  obtain ⟨g, hg, hblank⟩ := reads_many hblanks
  simp only [holds_blank] at hblank
  have hop : ∃ t ∈ comparisons, n.rest = t.toList ++ n'.rest := reads_any_text hcomparison
  obtain ⟨t, ht, hop⟩ := hop
  obtain ⟨a, ha, hsigns⟩ : ∃ a, f.rest = a ++ n.rest ∧ ∀ b ∈ a, b ∉ comparisonSigns := by
    obtain ⟨f', ⟨b, v, hb, hhold, rfl⟩, hmany⟩ := hplus
    obtain ⟨a, ha, hholds⟩ := reads_many hmany
    refine ⟨b :: a, hb.trans (congrArg (b :: ·) ha), fun b' hb' hmem => ?_⟩
    have hin : b' ∈ ";<>=\x7b\x7d\n".toList := by
      have hsub : ∀ b ∈ comparisonSigns, b ∈ ";<>=\x7b\x7d\n".toList := by decide
      exact hsub b' hmem
    have hhold' : (CharSet.except (";<>=\x7b\x7d\n".toList.map .char)).holds b' = true := by
      rcases List.mem_cons.1 hb' with rfl | hb'
      · exact hhold
      · exact hholds b' hb'
    rw [holds_noneOf, List.contains_iff_mem.2 hin] at hhold'
    exact Bool.noConfusion hhold'
  obtain ⟨l, hl, hcases⟩ : ∃ l, e.rest = l ++ f.rest ∧ (l = [] ∨ l = "=".toList ∨ l = "return".toList) := by
    rcases hlead with (⟨f', h, rfl⟩ | ⟨_, ⟨_, ⟨-, rfl⟩, f', h, -, rfl⟩, rfl⟩) | rfl
    · have hrest : e.rest = "=".toList ++ f'.rest := reads_chars h
      exact ⟨_, hrest, Or.inr (Or.inl rfl)⟩
    · have hrest : e.rest = "return".toList ++ f'.rest := reads_chars h
      exact ⟨_, hrest, Or.inr (Or.inr rfl)⟩
    · exact ⟨[], rfl, Or.inl rfl⟩
  exact ⟨g, l, a, t.toList, n'.rest, by rw [hg, hl, ha, hop]; simp only [List.append_assoc], hblank, hcases, hsigns, t, ht, rfl⟩

/-- What stands before the first sign of a comparison. -/
theorem append_inj_of_signs {a b : Char} (hu : ∀ c ∈ u, c ∉ comparisonSigns) (hv : ∀ c ∈ v, c ∉ comparisonSigns)
    (ha : a ∈ comparisonSigns) (hb : b ∈ comparisonSigns) (h : u ++ a :: w = v ++ b :: g) : u = v ∧ a :: w = b :: g := by
  have htake : ∀ {u w : List Char} {a : Char}, (∀ c ∈ u, c ∉ comparisonSigns) → a ∈ comparisonSigns →
      (u ++ a :: w).takeWhile (· ∉ comparisonSigns) = u := by
    intro u w a hu ha
    rw [List.takeWhile_append_of_pos (by simpa using hu), List.takeWhile_cons_of_neg (by simpa using ha), List.append_nil]
  have heq : u = v := by rw [← htake hu ha, h, htake hv hb]
  subst heq
  exact ⟨rfl, List.append_cancel_left h⟩

theorem exists_cons_of_comparison {op : List Char} (h : ∃ t ∈ comparisons, op = t.toList) :
    ∃ b op', op = b :: op' ∧ b ∈ comparisonSigns ∧ (b = '=' → op' = ['=']) := by
  obtain ⟨t, ht, rfl⟩ := h
  simp only [comparisons, List.mem_cons, List.not_mem_nil, or_false] at ht
  rcases ht with rfl | rfl | rfl | rfl | rfl <;> exact ⟨_, _, rfl, by decide, by decide⟩

/-- Nothing is read where an equals sign comes first, and something else than blanks in front of it. -/
theorem not_reads_of_equals (hrest : c.rest = u ++ '=' :: ' ' :: w) (hu : ∀ b ∈ u, b ∉ comparisonSigns)
    (hsome : ∃ b ∈ u, isBlank b = false) : ¬ finder.pattern.Reads c d := by
  intro h
  obtain ⟨g, l, a, op, v, heq, hg, hl, ha, hop⟩ := reads_finder h
  obtain ⟨b, op', rfl, hb, hequals⟩ := exists_cons_of_comparison hop
  have hblank : ∀ b ∈ g, b ∉ comparisonSigns := by
    have hall : ∀ b ∈ comparisonSigns, isBlank b = false := by decide
    exact fun b hb hmem => Bool.noConfusion ((hg b hb).symm.trans (hall b hmem))
  rw [hrest] at heq
  have hfree : (∀ b ∈ l, b ∉ comparisonSigns) → False := by
    intro hl
    have hpre : ∀ b ∈ g ++ l ++ a, b ∉ comparisonSigns :=
      List.forall_mem_append.2 ⟨List.forall_mem_append.2 ⟨hblank, hl⟩, ha⟩
    rw [List.append_assoc (g ++ l ++ a), List.cons_append] at heq
    obtain ⟨-, htail⟩ := append_inj_of_signs hu hpre (by decide) hb heq
    obtain ⟨hb', hspace⟩ := List.cons.inj htail
    rw [hequals hb'.symm] at hspace
    exact absurd (List.cons.inj hspace).1 (by decide)
  rcases hl with rfl | rfl | rfl
  · exact hfree (List.forall_mem_nil _)
  · -- the equals sign says where the value goes, so nothing but blanks stands in front of it
    have heq : u ++ '=' :: ' ' :: w = g ++ '=' :: (a ++ (b :: op' ++ v)) := by
      rw [heq]
      simp
    obtain ⟨rfl, -⟩ := append_inj_of_signs hu hblank (by decide) (by decide) heq
    obtain ⟨b, hb, hnot⟩ := hsome
    exact Bool.noConfusion (hnot.symm.trans (hg b hb))
  · exact hfree (by decide)

/-- Nothing is read where no sign of a comparison comes. -/
theorem not_reads_of_no_signs (h : ∀ b ∈ c.rest, b ∉ comparisonSigns) : ¬ finder.pattern.Reads c d := by
  intro hreads
  obtain ⟨g, l, a, op, v, heq, -, -, -, hop⟩ := reads_finder hreads
  obtain ⟨b, op', rfl, hb, -⟩ := exists_cons_of_comparison hop
  exact h b (by rw [heq]; simp) hb

/-! ## How a choice is read -/

/-- A repetition that reads at least one character reads as far as it can. -/
theorem run_plus {β : Type} {k : Cursor → Option β} {y : β} {cs : String} (hrest : c.rest = u ++ v) (hne : u ≠ [])
    (hu : ∀ a ∈ u, a ∉ cs.toList) (hv : v.head?.any (· ∉ cs.toList) = false) (hk : k (c.past u v) = some y) :
    (plus (noneOf cs)).run c k = some y := by
  have hholds : ∀ a, (CharSet.except (cs.toList.map .char)).holds a = decide (a ∉ cs.toList) := fun a => by
    rw [holds_noneOf, List.contains_eq_mem, decide_not]
  obtain ⟨a, u, rfl⟩ := List.exists_cons_of_ne_nil hne
  obtain ⟨ha, hu⟩ := List.forall_mem_cons.1 hu
  rw [plus, run_seq, noneOf, run_one (v := u ++ v) hrest (by rw [hholds]; exact decide_eq_true ha)]
  refine run_many rfl (fun b hb => by rw [hholds]; exact decide_eq_true (hu b hb)) ?_ (by rw [Cursor.past_past]; exact hk)
  rw [← hv]
  exact congrArg (v.head?.any ·) (funext hholds)

/-- What stands in front of the condition. -/
def leadChars : Use → List Char
  | .assign _ => ['=']
  | .give => "return".toList

def leadPart : Use → Part
  | .assign _ => .assigned
  | .give => .returned

theorem run_lead {use : Use} {k : Cursor → Option Cursor} {y : Cursor} (hrest : c.rest = leadChars use ++ ' ' :: v)
    (hbefore : c.before = some ' ') (hk : k (c.note (leadPart use) (c.past (leadChars use) (' ' :: v))) = some y) :
    (opt (any [part .assigned (text "="), part .returned (word ["return"])])).run c k = some y := by
  refine run_opt_of_some ?_
  cases use with
  | assign x =>
    refine run_any_of_some ?_
    rw [run_part, run_text (v := ' ' :: v) hrest]
    exact hk
  | give =>
    have hstart : c.atWordEdge = true := by
      rw [Cursor.atWordEdge, hbefore, hrest]
      rfl
    have hfirst : (part .assigned (text "=")).run c k = none := by
      rw [run_part]
      refine run_text_eq_none (b := '=') rfl ?_
      rw [hrest]
      exact fun h => absurd (Option.some.inj h) (by decide)
    rw [run_any_of_none hfirst, any, run_part, word, run_all_cons, run_wordEdge hstart, run_all_cons]
    change (text "return").run c _ = some y
    rw [run_text (v := ' ' :: v) hrest, all, run_wordEdge (by rfl)]
    exact hk

theorem run_comparison {op : Comparison} {k : Cursor → Option Cursor} {y : Cursor} (hrest : c.rest = op.text.toList ++ ' ' :: v)
    (hk : k (c.past op.text.toList (' ' :: v)) = some y) :
    (any (comparisons.map text)).run c k = some y := by
  have hnone : ∀ t : String, (t.toList.length ≤ op.text.toList.length + 1 ∧ ¬ t.toList <+: op.text.toList ++ [' ']) →
      (text t).run c k = none := by
    rintro t ⟨hlength, hprefix⟩
    refine run_eq_none fun d h => absurd ?_ hprefix
    have htext : op.text.toList ++ [' '] ++ v = t.toList ++ d.rest := by
      rw [← reads_chars h, hrest, List.append_assoc]
      rfl
    exact List.prefix_of_prefix_length_le ⟨d.rest, htext.symm⟩ (List.prefix_append _ v) (by rwa [List.length_append])
  have hread : (text op.text).run c k = some y := (run_text hrest).trans hk
  cases op with
  | equal => exact run_any_of_some hread
  | atLeast =>
    rw [comparisons, List.map_cons, List.map_cons, run_any_of_none (hnone _ (by decide))]
    exact run_any_of_some hread
  | atMost =>
    simp only [comparisons, List.map_cons]
    rw [run_any_of_none (hnone "==" (by decide)), run_any_of_none (hnone ">=" (by decide))]
    exact run_any_of_some hread
  | above =>
    simp only [comparisons, List.map_cons]
    rw [run_any_of_none (hnone "==" (by decide)), run_any_of_none (hnone ">=" (by decide)), run_any_of_none (hnone "<=" (by decide))]
    exact run_any_of_some hread
  | below =>
    simp only [comparisons, List.map_cons]
    rw [run_any_of_none (hnone "==" (by decide)), run_any_of_none (hnone ">=" (by decide)), run_any_of_none (hnone "<=" (by decide)),
      run_any_of_none (hnone ">" (by decide))]
    exact hread

/-- The parts of a conditional expression behind what says where its value goes. -/
structure Shape where
  before : List Char
  comparison : Comparison
  behind : List Char
  yes : List Char
  no : List Char

namespace Shape

def text (x : Shape) (w : List Char) : List Char :=
  ' ' :: x.before ++ x.comparison.text.toList ++ ' ' :: x.behind ++ '?' :: x.yes ++ ':' :: x.no ++ ';' :: w

/-- None of the parts holds a sign that comes behind it. -/
structure Sound (x : Shape) : Prop where
  before : ∀ a ∈ x.before, a ∉ ";<>=\x7b\x7d\n".toList
  behind : ∀ a ∈ x.behind, a ∉ ";<>=?\x7b\x7d\n".toList
  yes : x.yes ≠ [] ∧ ∀ a ∈ x.yes, a ∉ ":;".toList
  no : x.no ≠ [] ∧ ∀ a ∈ x.no, a ∉ ";".toList

def condition (x : Shape) : List Char := ' ' :: x.before ++ x.comparison.text.toList ++ ' ' :: x.behind

/-- Where a choice is read whose first blank stands at an offset. -/
def hit (x : Shape) (use : Use) (o : Nat) : Hit :=
  let start := o + 1 + (leadChars use).length
  let question := start + x.condition.length
  let colon := question + (1 + x.yes.length)
  let stop := colon + (1 + x.no.length + 1)
  ⟨⟨o, stop⟩, [(.elseBranch, ⟨colon, stop⟩), (.thenBranch, ⟨question, colon⟩), (.condition, ⟨start, question⟩),
    (leadPart use, ⟨o + 1, start⟩)]⟩

end Shape

/-- **Reading a choice.** -/
theorem run_finder {use : Use} {x : Shape} (hx : x.Sound) (hrest : c.rest = ' ' :: (leadChars use ++ x.text w)) (hparts : c.parts = []) :
    ∃ b, finder.pattern.run c some = some ⟨(x.hit use c.offset).whole.stop, b, w, (x.hit use c.offset).parts⟩ := by
  have htext : x.text w = (' ' :: x.before) ++ (x.comparison.text.toList ++ ' ' :: (x.behind ++ '?' :: (x.yes ++ ':' ::
      (x.no ++ ';' :: w)))) := by
    simp [Shape.text]
  have hsign : (x.comparison.text.toList ++ ' ' :: (x.behind ++ '?' :: (x.yes ++ ':' :: (x.no ++ ';' :: w)))).head?.any
      (· ∉ ";<>=\x7b\x7d\n".toList) = false := by
    cases x.comparison <;> rfl
  rw [htext] at hrest
  refine ⟨some ';', ?_⟩
  rw [finder]
  refine run_many (u := [' ']) hrest (by decide) (by cases use <;> rfl) ?_
  refine run_lead (v := x.before ++ _) rfl rfl ?_
  rw [run_all_cons, run_part, condition, run_all_cons]
  refine run_plus (u := ' ' :: x.before) (by rfl) (List.cons_ne_nil _ _) ?_ hsign ?_
  · exact List.forall_mem_cons.2 ⟨by decide, hx.before⟩
  rw [run_all_cons]
  refine run_comparison rfl ?_
  refine run_plus (u := ' ' :: x.behind) (by rfl) (List.cons_ne_nil _ _) ?_ (by rfl) ?_
  · exact List.forall_mem_cons.2 ⟨by decide, hx.behind⟩
  rw [run_all_cons, run_part, run_all_cons, run_text (v := x.yes ++ ':' :: (x.no ++ ';' :: w)) (by rfl)]
  refine run_plus (u := x.yes) (by rfl) hx.yes.1 hx.yes.2 (by rfl) ?_
  change (part Part.elseBranch (all [text ":", plus (noneOf ";"), text ";"])).run _ some = _
  rw [run_part, run_all_cons, run_text (v := x.no ++ ';' :: w) (by rfl)]
  refine run_plus (u := x.no) (by rfl) hx.no.1 hx.no.2 (by rfl) ?_
  change (text ";").run _ _ = _
  rw [run_text (v := w) (by rfl)]
  have hequal : ∀ {d e : Cursor}, d.offset = e.offset → d.before = e.before → d.rest = e.rest → d.parts = e.parts →
      some d = some e := by
    rintro ⟨_, _, _, _⟩ ⟨_, _, _, _⟩ rfl rfl rfl rfl
    rfl
  refine hequal ?_ ?_ rfl ?_
  · simp [Shape.hit, Shape.condition, Cursor.note, Cursor.past]
    omega
  · rfl
  · simp [Shape.hit, Shape.condition, Cursor.note, Cursor.past, hparts]
    omega

end ConditionalExpression

/-! ## Where a choice is found -/

namespace Choice
open ConditionalExpression
open Segment (shown)
variable {k : Choice}

/-- The parts of the choice as a conditional expression. -/
def shape (k : Choice) : Shape where
  before := k.left.text.toList ++ [' ']
  comparison := k.comparison
  behind := k.right.text.toList ++ [' ']
  yes := ' ' :: k.yes.text.toList ++ [' ']
  no := ' ' :: k.no.text.toList

/-- What stands in front of the blank where a choice is found, but for the brace. -/
def front : Use → List Char
  | .assign x => ' ' :: x.chars
  | .give => []

theorem expression_eq (k : Choice) :
    k.expression.toList = '\x7b' :: front k.use ++ ' ' :: (leadChars k.use ++ k.shape.text [' ', '\x7d']) := by
  obtain ⟨l, op, r, y, n, x | _⟩ := k <;>
    simp [expression, front, leadChars, Shape.text, shape, Use.text, condition, Condition.text, Name.chars]

theorem condition_shape (k : Choice) : k.shape.condition = ' ' :: k.condition.text.toList ++ [' '] := by
  simp [Shape.condition, shape, condition, Condition.text]

/-- The characters of values and of the signs before them. -/
theorem mem_text_value {v : Value} {a : Char} (h : a ∈ v.text.toList) : isAsciiWord a = true ∨ a = '.' := by
  rw [← Value.text_lexemes] at h
  obtain ⟨l, hl, ha⟩ := List.mem_flatMap.1 h
  rcases Value.mem_lexemes hl with ⟨n, rfl⟩ | rfl
  · exact Or.inl (n.isWord.2 a ha)
  · exact Or.inr (List.mem_singleton.1 ha)

theorem sound_shape (k : Choice) : k.shape.Sound := by
  have hvalue : ∀ {cs : String}, cs.toList.all (fun b => !isAsciiWord b && b ∉ ['.', '-', '*', '&']) = true → ∀ v : Value,
      ∀ a ∈ v.text.toList, a ∉ cs.toList := by
    intro cs hcs v a ha hmem
    have hnot := List.all_eq_true.1 hcs a hmem
    rcases mem_text_value ha with hword | rfl
    · rw [hword] at hnot
      exact Bool.noConfusion hnot
    · exact absurd hnot (by decide)
  have hoperand : ∀ {cs : String}, cs.toList.all (fun b => !isAsciiWord b && b ∉ ['.', '-', '*', '&']) = true → ∀ u : Operand,
      ∀ a ∈ u.text.toList, a ∉ cs.toList := by
    rintro cs hcs ⟨m, v⟩ a ha
    rw [Operand.text, String.toList_append] at ha
    rcases List.mem_append.1 ha with ha | ha
    · cases m with
      | none => exact absurd ha List.not_mem_nil
      | some m =>
        rw [Option.elim_some, String.toList_singleton, List.mem_singleton] at ha
        subst ha
        intro hmem
        have hnot := List.all_eq_true.1 hcs _ hmem
        cases m <;> exact absurd hnot (by decide)
    · exact hvalue hcs v a ha
  refine ⟨fun a ha => ?_, fun a ha => ?_, ⟨List.cons_ne_nil _ _, fun a ha => ?_⟩, ⟨List.cons_ne_nil _ _, fun a ha => ?_⟩⟩
  · rcases List.mem_append.1 ha with ha | ha
    · exact hvalue (by decide) k.left a ha
    · obtain rfl := List.mem_singleton.1 ha
      decide
  · rcases List.mem_append.1 ha with ha | ha
    · exact hvalue (by decide) k.right a ha
    · obtain rfl := List.mem_singleton.1 ha
      decide
  · rcases List.mem_append.1 ha with ha | ha
    · rcases List.mem_cons.1 ha with rfl | ha
      · decide
      · exact hoperand (by decide) k.yes a ha
    · obtain rfl := List.mem_singleton.1 ha
      decide
  · rcases List.mem_cons.1 ha with rfl | ha
    · decide
    · exact hoperand (by decide) k.no a ha

theorem not_mem_comparisonSigns {a : Char} (h : isAsciiWord a = true) : a ∉ ConditionalExpression.comparisonSigns := by
  have hsigns : ∀ b ∈ ConditionalExpression.comparisonSigns, isAsciiWord b = false := by decide
  exact fun hmem => Bool.noConfusion (h.symm.trans (hsigns a hmem))

/-- Nothing is found in front of the blank. -/
theorem hitOf_eq_none_of_front {accept : Hit → Bool} (hi : i < 1 + (front k.use).length) :
    finder.hitOf accept k.expression.toList i = none := by
  cases i with
  | zero => exact hitOf_eq_none_of_before rfl
  | succ i =>
    cases huse : k.use with
    | give =>
      rw [huse, front, List.length_nil] at hi
      omega
    | assign x =>
      rw [huse, front, List.length_cons] at hi
      obtain ⟨b, y, hy, hb⟩ : ∃ b y, x.chars = y ++ [b] ∧ isAsciiWord b = true :=
        ⟨x.chars.getLast x.isWord.1, x.chars.dropLast, (List.dropLast_append_getLast x.isWord.1).symm, x.isWord.2 _ (List.getLast_mem _)⟩
      have hlength := congrArg List.length hy
      rw [List.length_append, List.length_singleton] at hlength
      have hrest : (start k.expression.toList (i + 1)).rest = ((' ' :: y).drop i ++ [b, ' ']) ++ '=' :: ' ' ::
          (k.shape.text [' ', '\x7d']).tail := by
        change k.expression.toList.drop (i + 1) = _
        rw [expression_eq, huse, front, hy, List.cons_append, List.drop_succ_cons, ← List.cons_append, List.append_assoc,
          List.drop_append_of_le_length (by rw [List.length_cons]; omega)]
        simp [leadChars, Shape.text]
      rw [Option.eq_none_iff_forall_ne_some]
      intro hit hhit
      obtain ⟨d, hd, -⟩ := Finder.read_of_hitOf hhit
      have hfront : ∀ a ∈ (' ' :: y).drop i ++ [b, ' '], a ∉ ConditionalExpression.comparisonSigns := by
        refine List.forall_mem_append.2 ⟨fun a ha => ?_, ?_⟩
        · rcases List.mem_cons.1 (List.mem_of_mem_drop ha) with rfl | ha
          · decide
          · exact not_mem_comparisonSigns (x.isWord.2 a (by rw [hy]; exact List.mem_append_left _ ha))
        · exact List.forall_mem_cons.2 ⟨not_mem_comparisonSigns hb, by decide⟩
      exact not_reads_of_equals hrest hfront ⟨b, by simp, Text.isBlank_eq_false_of_isAsciiWord hb⟩ (reads_of_read hd)

/-- Where a choice is found. -/
def place (k : Choice) : Nat := 1 + (front k.use).length

/-- **Finding a choice.** A choice is found at its blank, and nowhere else. -/
theorem hits_expression {accept : Hit → Bool} (haccept : accept (k.shape.hit k.use k.place) = true) :
    finder.hitsWhere accept k.expression.toList = [k.shape.hit k.use k.place] := by
  have htext : k.expression.toList = ('\x7b' :: front k.use) ++ ' ' :: (leadChars k.use ++ k.shape.text [' ', '\x7d']) :=
    k.expression_eq
  have hdrop : k.expression.toList.drop k.place = ' ' :: (leadChars k.use ++ k.shape.text [' ', '\x7d']) := by
    rw [htext, place, Nat.add_comm]
    exact List.drop_left
  have hlt : k.place < k.expression.toList.length := by
    rw [htext, List.length_append, place, Nat.add_comm]
    exact Nat.lt_add_of_pos_right (Nat.succ_pos _)
  obtain ⟨b, hread⟩ := run_finder (c := start k.expression.toList k.place) (sound_shape k) hdrop rfl
  have hbefore : finder.before (Text.charBefore k.expression.toList k.place) = true := by
    rw [Text.charBefore_of_drop htext hdrop (List.cons_ne_nil _ _)]
    cases k.use with
    | give => rfl
    | assign x =>
      have hlast : ('\x7b' :: front (.assign x)).getLast? = some (x.chars.getLast x.isWord.1) := by
        rw [front, List.getLast?_cons_cons, ← List.singleton_append, ← List.singleton_append, List.getLast?_append,
          List.getLast?_append, List.getLast?_eq_some_getLast x.isWord.1]
        rfl
      have hword := x.isWord.2 _ (List.getLast_mem x.isWord.1)
      rw [hlast]
      rw [isAsciiWord, Bool.or_eq_true, beq_iff_eq] at hword
      refine Bool.or_eq_true_iff.2 (hword.imp_right fun h => ?_)
      rw [h]
      rfl
  have hhit : finder.hitOf accept k.expression.toList k.place = some (k.shape.hit k.use k.place) :=
    Finder.hitOf_of_read hbefore rfl rfl hread haccept
  have hlater : finder.walk accept k.expression.toList (k.place + 1) (finder.resume (k.shape.hit k.use k.place)) = [] := by
    rw [List.eq_nil_iff_forall_not_mem]
    intro hit hmem
    obtain ⟨hfound, -, hresume, -⟩ := Finder.hitOf_of_mem_walk hmem
    obtain ⟨d, hd, -⟩ := Finder.read_of_hitOf hfound
    refine not_reads_of_no_signs (fun a ha => ?_) (reads_of_read hd)
    have hpast : k.expression.toList = ('\x7b' :: front k.use ++ ' ' :: (leadChars k.use ++ k.shape.text [])) ++ [' ', '\x7d'] := by
      rw [htext]
      simp [Shape.text]
    have hstop : ('\x7b' :: front k.use ++ ' ' :: (leadChars k.use ++ k.shape.text [])).length ≤ hit.whole.start := by
      refine Nat.le_trans (Nat.le_of_eq ?_) hresume
      simp [finder, Finder.resume, Shape.hit, Shape.text, Shape.condition, place]
      omega
    have ha : a ∈ k.expression.toList.drop hit.whole.start := ha
    rw [hpast, List.drop_append, List.drop_of_length_le hstop, List.nil_append] at ha
    have hsigns : ∀ a ∈ [' ', '\x7d'], a ∉ ConditionalExpression.comparisonSigns := by decide
    exact hsigns a (List.mem_of_mem_drop ha)
  rw [Finder.hitsWhere_eq_walk, Finder.walk_skip (n := k.place) (fun i hi => ?_) (by omega), Nat.zero_add, Finder.walk_of_lt hlt,
    if_neg (Nat.not_lt_zero _), hhit]
  · exact congrArg (_ :: ·) hlater
  · rw [Nat.zero_add]
    exact hitOf_eq_none_of_front hi

/-! ## What becomes of the pieces -/

end Choice

namespace Segment
open Lexeme (word sign)
open ConditionalExpression
variable {k : Choice}

/-- The marks of the pieces. -/
def Role.markCategory : Role → Option Category
  | mark category => some category
  | _ => none

theorem size_lead (carried : Bool) (use : Use) :
    (lead carried use).piece.size = (Choice.front use).length + 1 + (leadChars use).length := by
  cases use with
  | assign x => simp [lead, piece, Piece.size, Choice.front, leadChars, Lexeme.chars]
  | give => rfl

theorem size_condition (c : Condition) : (condition c).piece.size = (' ' :: c.text.toList ++ [' ']).length := by
  simp [piece, Piece.size, Lexeme.chars, Condition.text_lexemes]

theorem size_operand (joins : Bool) (u : Operand) : (operand joins u).piece.size = 1 + u.text.toList.length := by
  obtain ⟨_ | m, v⟩ := u <;> simp [operand, Operand.text, piece, Piece.size, Lexeme.chars, Value.text_lexemes] <;> omega

theorem span_lead (use : Use) (o : Nat) : (lead true use).piece.span o =
    ⟨o + (Choice.front use).length + 1, o + (Choice.front use).length + 1 + (leadChars use).length⟩ := by
  cases use with
  | assign x => simp [lead, piece, Piece.span, Choice.front, leadChars, Lexeme.chars, Nat.add_assoc]
  | give => rfl

theorem span_condition (c : Condition) (o : Nat) : (condition c).piece.span o = ⟨o, o + (' ' :: c.text.toList ++ [' ']).length⟩ := by
  simp [piece, Piece.span, Lexeme.chars, Condition.text_lexemes]

theorem role_lead (use : Use) : (lead true use).piece.role = .carried := by cases use <;> rfl

theorem markCategory_operand (joins : Bool) (u : Operand) : (operand joins u).piece.role.markCategory = none := by
  obtain ⟨_ | m, v⟩ := u <;> rfl

end Segment

namespace Choice
open Segment
open ConditionalExpression

/-- The pieces up to the question mark, those of its branch, and those of the other branch. -/
def conditionSegments (k : Choice) : List Segment := [.openBrace false, .lead true k.use, .condition k.condition]

def yesSegments (k : Choice) : List Segment := [.question, .operand true k.yes, .gap]

def noSegments (k : Choice) : List Segment := [.colon, .operand false k.no]

theorem expressionSegments_eq (k : Choice) : k.expressionSegments =
    k.conditionSegments ++ (k.openMarks ++ (k.yesSegments ++ ([.mark .closeBrace] ++ (k.openMarks ++ (k.noSegments ++
      ([.mark .closeBrace] ++ [.semicolon, .closeBrace])))))) := rfl

/-- Where the question mark, the colon and the semicolon stand. -/
def question (k : Choice) : Nat := k.place + 1 + (leadChars k.use).length + k.shape.condition.length

def colon (k : Choice) : Nat := k.question + (1 + k.shape.yes.length)

def semicolon (k : Choice) : Nat := k.colon + (1 + k.shape.no.length)

theorem sizes_condition (k : Choice) : Piece.sizes (k.conditionSegments.map piece) = k.question := by
  have hbrace : (Segment.openBrace false).piece.size = 1 := rfl
  simp only [conditionSegments, List.map_cons, List.map_nil, Piece.sizes_cons, Piece.sizes_nil, hbrace, size_lead, size_condition,
    question, condition_shape, place]
  omega

theorem sizes_yes (k : Choice) : Piece.sizes (k.yesSegments.map piece) = 1 + k.shape.yes.length := by
  have hquestion : Segment.question.piece.size = 1 := rfl
  have hgap : gap.piece.size = 1 := rfl
  simp only [yesSegments, List.map_cons, List.map_nil, Piece.sizes_cons, Piece.sizes_nil, hquestion, hgap, size_operand, shape,
    List.length_append, List.length_cons, List.length_nil]
  omega

theorem sizes_no (k : Choice) : Piece.sizes (k.noSegments.map piece) = 1 + k.shape.no.length := by
  have hcolon : Segment.colon.piece.size = 1 := rfl
  simp only [noSegments, List.map_cons, List.map_nil, Piece.sizes_cons, Piece.sizes_nil, hcolon, size_operand, shape, List.length_cons]
  omega

/-- The marks at the start of a block that starts at an offset. -/
def openTokens (k : Choice) (o : Nat) : List (Token Category) :=
  [⟨.conditional, o, o⟩, ⟨.openBrace, o, o⟩, ⟨k.use.category, o, o⟩]

/-- The marks of a choice. -/
def markTokens (k : Choice) : List (Token Category) :=
  k.openTokens k.question ++ ⟨.closeBrace, k.colon, k.colon⟩ :: k.openTokens k.colon ++ [⟨.closeBrace, k.semicolon, k.semicolon⟩]

theorem tokens_expressionSegments (k : Choice) :
    Piece.tokens Role.markCategory 0 (k.expressionSegments.map piece) = k.markTokens := by
  have hcondition : ∀ o, Piece.tokens Role.markCategory o (k.conditionSegments.map piece) = [] := fun o => by
    simp only [conditionSegments, List.map_cons, List.map_nil, Piece.tokens, role_lead]
    rfl
  have hyes : ∀ o, Piece.tokens Role.markCategory o (k.yesSegments.map piece) = [] := fun o => by
    simp only [yesSegments, List.map_cons, List.map_nil, Piece.tokens, markCategory_operand]
    rfl
  have hno : ∀ o, Piece.tokens Role.markCategory o (k.noSegments.map piece) = [] := fun o => by
    simp only [noSegments, List.map_cons, List.map_nil, Piece.tokens, markCategory_operand]
    rfl
  have hclose : ∀ o, Piece.tokens Role.markCategory o ([Segment.mark .closeBrace].map piece) = [⟨.closeBrace, o, o⟩] := fun _ => rfl
  have hopen : ∀ o, Piece.tokens Role.markCategory o (k.openMarks.map piece) = k.openTokens o := fun _ => rfl
  have hend : ∀ o, Piece.tokens Role.markCategory o ([Segment.semicolon, .closeBrace].map piece) = [] := fun _ => rfl
  have hmarks : Piece.sizes (k.openMarks.map piece) = 0 := rfl
  have hmark : Piece.sizes ([Segment.mark .closeBrace].map piece) = 0 := rfl
  simp only [expressionSegments_eq, List.map_append, Piece.tokens_append, hcondition, hyes, hno, hclose, hopen, hend, hmarks, hmark,
    sizes_condition, sizes_yes, sizes_no, Nat.zero_add, Nat.add_zero, List.nil_append, List.append_nil]
  rfl

/-- What is done with a conditional expression is done with one piece each. -/
theorem only_role (k : Choice) {r : Segment.Role} {as bs : List Segment} {a : Segment}
    (hr : r ∈ [.carried, .condition, .question, .colon]) (ha : a.piece.role = r) (has : k.expressionSegments = as ++ a :: bs) :
    ∀ q ∈ as.map piece ++ bs.map piece, (q.role == r) = false := by
  have hcount : (k.expressionSegments.map (·.piece.role)).count r = 1 := by
    simp only [List.mem_cons, List.not_mem_nil, or_false] at hr
    obtain ⟨l, op, c, ⟨_ | m, v⟩, ⟨_ | m', w⟩, x | _⟩ := k <;> rcases hr with rfl | rfl | rfl | rfl <;> rfl
  rw [has, List.map_append, List.map_cons, List.count_append, List.count_cons, ha, beq_self_eq_true, if_pos rfl] at hcount
  have hnone : ∀ {cs : List Segment}, (cs.map (·.piece.role)).count r = 0 → ∀ q ∈ cs.map piece, (q.role == r) = false := by
    intro cs hzero q hq
    obtain ⟨b, hb, rfl⟩ := List.mem_map.1 hq
    rw [← Bool.not_eq_true, beq_iff_eq]
    rintro rfl
    exact List.count_eq_zero.1 hzero (List.mem_map_of_mem hb)
  exact List.forall_mem_append.2 ⟨hnone (by omega), hnone (by omega)⟩

theorem claim_expression (k : Choice) (r : Segment.Role) (as : List Segment) (a : Segment) {φ : Inks Segment.Role} {bs : List Segment}
    {T : List (Token Category)} {b : Span}
    (hr : r ∈ [.carried, .condition, .question, .colon]) (ha : a.piece.role = r) (has : k.expressionSegments = as ++ a :: bs)
    (hφ : φ r = none) (hspan : b = a.piece.span (Piece.sizes (as.map piece))) (fill : Char) :
    (Piece.work φ (k.expressionSegments.map piece) T).claim b fill =
      Piece.work (φ.add (· == r) ⟨fill, true⟩) (k.expressionSegments.map piece) T := by
  have hmap : k.expressionSegments.map piece = as.map piece ++ a.piece :: bs.map piece := by rw [has, List.map_append, List.map_cons]
  have hplain : ∀ c ∈ Lexeme.text a.piece.body, c ≠ '\n' :=
    (sound_map k.expressionSegments).body_ne_newline (by rw [hmap]; exact List.mem_append_right _ List.mem_cons_self)
  rw [hmap, hspan]
  exact Piece.claim_work (by rw [ha, hφ]) hplain (by rw [ha, beq_self_eq_true]) (k.only_role hr ha has) fill

/-- **The pass for conditional expressions.** It covers the pieces of a choice and records its marks. -/
theorem apply_expression (k : Choice) : ConditionalExpression.apply (Piece.work untouched (k.expressionSegments.map piece) []) =
    Piece.work chosen (k.expressionSegments.map piece) k.markTokens := by
  have htext : (Piece.work untouched (k.expressionSegments.map piece) []).text = k.expression.toList := by
    rw [Piece.text_work]
    exact k.text_expression
  have hlead : lead? (k.shape.hit k.use k.place) = some (k.use.category, ⟨k.place + 1, k.place + 1 + (leadChars k.use).length⟩) := by
    cases k.use <;> rfl
  have hcondition : (k.shape.hit k.use k.place).part? .condition = some ⟨k.place + 1 + (leadChars k.use).length, k.question⟩ := rfl
  have hthen : (k.shape.hit k.use k.place).part? .thenBranch = some ⟨k.question, k.colon⟩ := rfl
  have helse : (k.shape.hit k.use k.place).part? .elseBranch = some ⟨k.colon, k.semicolon + 1⟩ := rfl
  have hfree : isFree (Piece.work untouched (k.expressionSegments.map piece) []) (k.shape.hit k.use k.place) = true := by
    rw [isFree, hthen, helse, Option.any_some, Option.any_some, Piece.isClaimed_untouched, Piece.isClaimed_untouched]
    rfl
  have hsize : k.semicolon ≤ (Piece.work untouched (k.expressionSegments.map piece) []).size := by
    rw [WorkingCopy.size_eq_length_text, Piece.text_work, Piece.length_page, expressionSegments_eq]
    simp only [List.map_append, Piece.sizes_append, sizes_condition, sizes_yes, sizes_no, semicolon, colon]
    omega
  have hmark : ∀ {T : List (Token Category)} (symbol : Category) {n : Nat}, n ≤ k.semicolon →
      (Piece.work untouched (k.expressionSegments.map piece) T).mark symbol n =
        Piece.work untouched (k.expressionSegments.map piece) (T ++ [⟨symbol, n, n⟩]) :=
    fun symbol n hn => Item.mark_eq (Nat.le_trans hn hsize)
  have hquestion : k.question ≤ k.semicolon := by simp only [semicolon, colon]; omega
  have hcolon : k.colon ≤ k.semicolon := Nat.le_add_right _ _
  rw [ConditionalExpression.apply, htext, hits_expression hfree, List.foldl_cons, List.foldl_nil, applyHit]
  simp only [hlead, hcondition, hthen, helse, Option.map_some, Option.elim_some, openBlock, Nat.add_sub_cancel, hmark _ hquestion,
    hmark _ hcolon, hmark _ (Nat.le_refl _)]
  have hbrace : (Segment.openBrace false).piece.size = 1 := rfl
  have hbranch : Piece.sizes ((k.conditionSegments ++ k.openMarks).map piece) = k.question := by
    rw [List.map_append, Piece.sizes_append, sizes_condition]
    rfl
  have hother : Piece.sizes ((k.conditionSegments ++ k.openMarks ++ k.yesSegments ++ [Segment.mark .closeBrace] ++ k.openMarks).map piece) =
      k.colon := by
    simp only [List.map_append, Piece.sizes_append, sizes_condition, sizes_yes, colon]
    rfl
  rw [k.claim_expression .carried [.openBrace false] (lead true k.use) (by decide) (role_lead k.use) rfl rfl,
    k.claim_expression .condition [.openBrace false, lead true k.use] (.condition k.condition) (by decide) rfl rfl rfl,
    k.claim_expression .question (k.conditionSegments ++ k.openMarks) .question (by decide) rfl rfl rfl,
    k.claim_expression .colon (k.conditionSegments ++ k.openMarks ++ k.yesSegments ++ [Segment.mark .closeBrace] ++ k.openMarks) .colon
      (by decide) rfl rfl rfl]
  · rfl
  · rw [hother]
    rfl
  · rw [hbranch]
    rfl
  · rw [List.map_cons, List.map_cons, List.map_nil, Piece.sizes_cons, Piece.sizes_cons, Piece.sizes_nil, size_lead, span_condition,
      ← condition_shape, hbrace, question, place]
    simp only [Span.mk.injEq]
    omega
  · rw [List.map_cons, List.map_nil, Piece.sizes_cons, Piece.sizes_nil, hbrace, span_lead, place]

end Choice
end SourceLikeness.Tokenizer
