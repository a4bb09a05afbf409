import SourceLikeness.Proofs.Pattern.Spelled
import SourceLikeness.Proofs.Text.Twin

/-!
# Patterns that cannot tell names apart

A pattern is blind to all that a lexicon does not tell if each of its tests either makes no difference between
word characters, or reads a word of the lexicon between two edges, an opening of the lexicon at an edge, or the
digits that a word begins with. Whether it is can be computed.

* `Pattern.dead` : the pattern asks for a character that is absent;
* `Pattern.blind x p e r` : `p` is blind; the flags are those of `Pattern.edges` and `Pattern.stops`;
* `rel_run` : in two texts that the lexicon does not tell apart, a blind pattern reads in step.
-/

namespace SourceLikeness
open Text (isAsciiWord inside wordAt wordBefore charBefore StandsAt StartsAt NumeralAt Alike Lexicon Twin)

/-! ## Places of two texts -/

namespace Cursor
variable {s t : List Char} {c d : Cursor}

/-- A relation between the pieces noted on two ways that stays when both note the same piece. -/
def Steady (R : List (Part × Span) → List (Part × Span) → Prop) : Prop :=
  ∀ piece l l', R l l' → R (piece :: l) (piece :: l')

theorem steady_eq : Steady Eq := fun _ _ _ h => by rw [h]

/-- Places at the same offset of two texts, with related pieces noted. -/
structure Beside (R : List (Part × Span) → List (Part × Span) → Prop) (s t : List Char) (c d : Cursor) : Prop where
  left : c.In s
  right : d.In t
  offset : c.offset = d.offset
  parts : R c.parts d.parts

variable {R : List (Part × Span) → List (Part × Span) → Prop}

theorem Beside.advance (h : Beside R s t c d) {x y : Char} {rest rest' : List Char} (hc : c.rest = x :: rest)
    (hd : d.rest = y :: rest') : Beside R s t (c.advance x rest) (d.advance y rest') where
  left := h.left.advance hc
  right := h.right.advance hd
  offset := congrArg (· + 1) h.offset
  parts := h.parts

theorem Beside.note {m n : Cursor} (hR : Steady R) (h : Beside R s t c d) (h' : Beside R s t m n) (name : Part) :
    Beside R s t (c.note name m) (d.note name n) where
  left := h'.left.note name c
  right := h'.right.note name d
  offset := h'.offset
  parts := by
    rw [Cursor.note, Cursor.note, h.offset, h'.offset]
    exact hR _ _ _ h'.parts

theorem Beside.inside_eq (h : Beside R s t c d) (ha : Alike s t) : c.inside = d.inside := by
  rw [h.left.inside_eq, h.right.inside_eq, h.offset, ha.inside_eq]

theorem Beside.length_rest (h : Beside R s t c d) (ha : Alike s t) : c.rest.length = d.rest.length := by
  rw [h.left.rest, h.right.rest, List.length_drop, List.length_drop, h.offset, ha.length]

/-- The next characters of two places are the same, or both word characters. -/
theorem Beside.char (h : Beside R s t c d) (ha : Alike s t) {x y : Char} {rest rest' : List Char}
    (hc : c.rest = x :: rest) (hd : d.rest = y :: rest') : x = y ∨ isAsciiWord x = true ∧ isAsciiWord y = true :=
  ha.char c.offset x y (h.left.getElem? hc) (h.offset ▸ h.right.getElem? hd)

theorem any_isWord_eq (y z : Char) (hy : isAsciiWord y = true) (hz : isAsciiWord z = true) :
    (some y).any Text.isWord = (some z).any Text.isWord := by
  rw [Option.any_some, Option.any_some, Text.isWord_eq_isAsciiWord (Text.isAscii_of_isAsciiWord hy),
    Text.isWord_eq_isAsciiWord (Text.isAscii_of_isAsciiWord hz), hy, hz]

theorem Beside.atWordEdge_eq (h : Beside R s t c d) (ha : Alike s t) : c.atWordEdge = d.atWordEdge := by
  rw [atWordEdge, atWordEdge, h.left.head?, h.right.head?, h.left.before, h.right.before, ← h.offset,
    ha.test_eq (f := fun o => o.any Text.isWord) any_isWord_eq,
    ha.test_charBefore_eq (f := fun o => o.any Text.isWord) any_isWord_eq]

theorem Beside.atLineStart_eq (h : Beside R s t c d) (ha : Alike s t) : c.atLineStart = d.atLineStart := by
  have hnewline : ∀ y, isAsciiWord y = true → (y == '\n') = false := by
    intro y hy
    rw [beq_eq_false_iff_ne]
    rintro rfl
    exact absurd hy (by decide)
  rw [atLineStart, atLineStart, h.left.before, h.right.before, ← h.offset]
  refine ha.test_charBefore_eq (f := fun o => o.all (· == '\n')) (fun y z hy hz => ?_) c.offset
  rw [Option.all_some, Option.all_some, hnewline y hy, hnewline z hz]

theorem Beside.isNone_before_eq (h : Beside R s t c d) (ha : Alike s t) : c.before.isNone = d.before.isNone := by
  rw [h.left.before, h.right.before, ← h.offset]
  exact ha.test_charBefore_eq (f := Option.isNone) (fun _ _ _ _ => rfl) c.offset

theorem Beside.moved (h : Beside R s t c d) (n : Nat) : Beside R s t (c.moved s n) (d.moved t n) where
  left := .moved n
  right := .moved n
  offset := congrArg (· + n) h.offset
  parts := h.parts

end Cursor

namespace Pattern
open Cursor (Beside Steady)
variable {R : List (Part × Span) → List (Part × Span) → Prop} {β γ : Type} {p : Pattern} {s t w : List Char} {c d : Cursor} {k : Cursor → Option β}
  {k' : Cursor → Option γ} {e r : Bool} {x : Lexicon} {E : β → γ → Prop}

/-! ## The checks -/

/-- The letters and the underscore. -/
def initials : CharSet := .only [.range 'A' 'Z', .range 'a' 'z', .char '_']

def digits : CharSet := .only [.range '0' '9']

/-- Every reading has one of the characters that are absent. -/
def dead (absent : List Char) : Pattern → Bool
  | one (.only [.char c]) => absent.contains c
  | seq first second => first.dead absent || second.dead absent
  | alt first second => first.dead absent && second.dead absent
  | part _ body => body.dead absent
  | _ => false

/-- The pattern spells out, from an edge on, a word of the lexicon that has to stop there, or an opening. -/
def keyword (x : Lexicon) (p : Pattern) (e r : Bool) : Bool :=
  match p.spelled? with
  | some w => e && (x.words.contains w && r || x.openings.contains w)
  | none => false

/-- The pattern reads digits from an edge on, and the lexicon has the digits of numerals. -/
def numeral (x : Lexicon) (p : Pattern) (e : Bool) : Bool :=
  match p with
  | seq (one first) (many (one further)) => x.numerals && e && first == digits && further == digits
  | _ => false

/-- The pattern reads nothing that the lexicon does not tell. -/
def blind (x : Lexicon) : Pattern → Bool → Bool → Bool
  | one set, e, _ => set.wordless || set.full || (x.numerals && e && set == initials)
  | seq first second, e, r =>
    keyword x (seq first second) e r || numeral x (seq first second) e || dead x.absent (seq first second) ||
      (first.blind x e (second.stops r) && second.blind x (first.edges e) r)
  | alt first second, e, r => first.blind x e r && second.blind x e r
  | many body, e, r => body.blind x (e && body.edges true) (r && body.stops false)
  | few body, e, r => body.blind x (e && body.edges true) (r && body.stops false)
  | part _ body, e, r => body.blind x e r
  | _, _, _ => true

/-! ## One character -/

theorem holds_eq_of_wordless_or_full {set : CharSet} (hset : set.wordless = true ∨ set.full = true) {y z : Char}
    (h : y = z ∨ isAsciiWord y = true ∧ isAsciiWord z = true) : set.holds y = set.holds z := by
  rcases h with rfl | ⟨hy, hz⟩
  · rfl
  · rcases hset with hset | hset
    · rw [CharSet.holds_eq_false hset hy, CharSet.holds_eq_false hset hz]
    · rw [CharSet.holds_eq_true hset hy, CharSet.holds_eq_true hset hz]

theorem holds_digits (y : Char) : digits.holds y = y.isDigit := by
  simp only [digits, CharSet.holds, List.any_cons, List.any_nil, Bool.or_false, CharSet.Entry.holds]
  rfl

theorem holds_initials (y : Char) : initials.holds y = (y.isAlpha || y == '_') := by
  simp only [initials, CharSet.holds, List.any_cons, List.any_nil, Bool.or_false, CharSet.Entry.holds, Text.isAlpha_eq,
    Bool.decide_and, Bool.or_assoc]
  rfl

/-- A word character is a digit or may start a name, and not both. -/
theorem holds_initials_of_isAsciiWord {y : Char} (hy : isAsciiWord y = true) : initials.holds y = !y.isDigit := by
  rw [holds_initials]
  cases hdigit : y.isDigit with
  | false =>
    rw [isAsciiWord, Char.isAlphanum, hdigit, Bool.or_false] at hy
    exact hy
  | true =>
    simp only [Char.isDigit, Bool.and_eq_true, decide_eq_true_eq, UInt32.le_iff_toNat_le, ge_iff_le] at hdigit
    have hlast : y.val.toNat ≤ 57 := hdigit.2
    simp only [Text.isAlpha_eq, Bool.decide_and, Bool.not_true, Bool.or_eq_false_iff,
      Bool.and_eq_false_iff, decide_eq_false_iff_not, beq_eq_false_iff_ne, UInt32.le_iff_toNat_le, ge_iff_le]
    refine ⟨⟨Or.inl ?_, Or.inl ?_⟩, ?_⟩
    · exact fun h => absurd (Nat.le_trans h hlast) (by decide)
    · exact fun h => absurd (Nat.le_trans h hlast) (by decide)
    · rintro rfl
      exact absurd hlast (by decide)

/-- The characters that two words begin with are both letters or both digits, if the lexicon has numerals. -/
theorem holds_initials_eq (h : Twin x s t) (hx : x.numerals = true) (hcd : Beside R s t c d) (hc : c.inside = false)
    {y z : Char} {rest rest' : List Char} (hrest : c.rest = y :: rest) (hrest' : d.rest = z :: rest') :
    initials.holds y = initials.holds z := by
  have hy := hcd.left.getElem? hrest
  have hz := hcd.right.getElem? hrest'
  rw [← hcd.offset] at hz
  rcases hcd.char h.toAlike hrest hrest' with rfl | ⟨hwy, hwz⟩
  · rfl
  · rw [hcd.left.inside_eq, inside, Text.wordAt_of_getElem? hy, hwy, Bool.and_true] at hc
    rw [holds_initials_of_isAsciiWord hwy, holds_initials_of_isAsciiWord hwz]
    -- a digit of one text at this edge stands in the other text too
    have hdigit : ∀ {u v : List Char} {a b : Char}, Text.Keeps x u v → wordBefore u c.offset = false →
        u[c.offset]? = some a → v[c.offset]? = some b → a.isDigit = true → a = b := by
      intro u v a b hkeeps hbefore ha hb hda
      have hnum : NumeralAt 1 u c.offset := by
        refine ⟨fun j hj => ?_, hbefore⟩
        rw [Nat.lt_one_iff.1 hj, Nat.add_zero, ha, Option.any_some, hda]
      have hsame := hkeeps.numeral hx 1 c.offset hnum 0 Nat.one_pos
      rw [Nat.add_zero, ha, hb] at hsame
      exact Option.some.inj hsame
    have hc' := hc
    rw [h.wordBefore_eq] at hc'
    cases hdy : y.isDigit with
    | true => rw [hdigit h.forward hc hy hz hdy] at hdy; rw [hdy]
    | false =>
      cases hdz : z.isDigit with
      | false => rfl
      | true =>
        rw [hdigit h.backward hc' hz hy hdz, hdy] at hdz
        exact Bool.noConfusion hdz

/-! ## Runs in step -/

theorem rel_orElse {a b : Option β} {a' b' : Option γ} (ha : Option.Rel E a a') (hb : Option.Rel E b b') :
    Option.Rel E (a <|> b) (a' <|> b') := by
  cases ha with
  | none => exact hb
  | some h => exact .some h

theorem rel_run_one {set : CharSet} (hcd : Beside R s t c d) (ha : Alike s t)
    (hset : ∀ (y z : Char) (rest rest' : List Char), c.rest = y :: rest → d.rest = z :: rest' →
      set.holds y = set.holds z)
    (hk : ∀ c' d', (one set).Reads c c' → Beside R s t c' d' → Option.Rel E (k c') (k' d')) :
    Option.Rel E ((one set).run c k) ((one set).run d k') := by
  have hlength := hcd.length_rest ha
  cases hc : c.rest with
  | nil =>
    have hd : d.rest = [] := List.eq_nil_of_length_eq_zero (by rw [← hlength, hc, List.length_nil])
    rw [run_one_of_nil hc, run_one_of_nil hd]
    exact .none
  | cons y rest =>
    obtain ⟨z, rest', hd⟩ : ∃ z rest', d.rest = z :: rest' :=
      List.exists_cons_of_length_pos (by rw [← hlength, hc]; exact Nat.succ_pos _)
    rw [run_one_of_cons hc, run_one_of_cons hd, ← hset y z rest rest' hc hd]
    split_ifs with hy
    · exact hk _ _ ⟨y, rest, hc, hy, rfl⟩ (hcd.advance hc hd)
    · exact .none

theorem rel_run_test {a b : Bool} (hab : a = b) (hk : a = true → Option.Rel E (k c) (k' d)) :
    Option.Rel E (if a then k c else none) (if b then k' d else none) := by
  subst hab
  split_ifs with ha
  · exact hk ha
  · exact .none

/-! ### Words of the lexicon -/

/-- A word that does not stand at an edge as a whole is not read there: the work fails inside words. -/
theorem run_eq_none_of_not_standsAt (hp : p.spelled? = some w) (hk : Halts true k) (he : c.inside = false)
    (hc : c.In s) (hw : ∀ a ∈ w, isAsciiWord a = true) (hne : w ≠ []) (hnot : ¬ StandsAt w s c.offset) :
    p.run c k = none := by
  rw [run_of_spelled hp hc]
  split_ifs with hr
  · have hstarts := startsAt_of_edge he hc hw hne hr
    have hpos := List.length_pos_of_ne_nil hne
    have hat : wordAt s (c.offset + w.length) = true := by
      rw [← Bool.not_eq_false]
      exact fun hafter => hnot ⟨hstarts.reads, hstarts.before, hafter⟩
    refine hk rfl _ ?_
    rw [(Cursor.In.moved w.length).inside_eq]
    change inside s (c.offset + w.length) = true
    rw [inside, hat, Bool.and_true, Text.wordBefore_of_pos (by omega),
      show c.offset + w.length - 1 = c.offset + (w.length - 1) by omega]
    exact Text.wordAt_of_reads hw hr (by omega)
  · rfl

theorem rel_run_keyword (hx : x.WellFormed) (h : Twin x s t) (hp : keyword x p e r = true) (hcd : Beside R s t c d)
    (hc : e = true → c.inside = false) (hr : Halts r k) (hr' : Halts r k')
    (hk : ∀ c' d', p.Reads c c' → Beside R s t c' d' → Option.Rel E (k c') (k' d')) :
    Option.Rel E (p.run c k) (p.run d k') := by
  unfold keyword at hp
  split at hp
  · rename_i w hw
    simp only [Bool.and_eq_true, Bool.or_eq_true, List.contains_iff_mem] at hp
    obtain ⟨he, hmem⟩ := hp
    have hce := hc he
    have hde : d.inside = false := by rw [← hcd.inside_eq h.toAlike, hce]
    have hread : w <+: s.drop c.offset → w <+: t.drop d.offset →
        Option.Rel E (p.run c k) (p.run d k') := by
      intro hs ht
      rw [run_of_spelled hw hcd.left, run_of_spelled hw hcd.right, if_pos hs, if_pos ht]
      exact hk _ _ (reads_of_spelled hw hcd.left hs) (hcd.moved _)
    rcases hmem with ⟨hmem, hrt⟩ | hmem
    · have hword : ∀ a ∈ w, isAsciiWord a = true := fun a ha => (hx.word w hmem a ha).1
      have hne : w ≠ [] := List.ne_nil_of_length_pos (Nat.lt_of_lt_of_le Nat.zero_lt_two (hx.two_le w hmem))
      have hiff : StandsAt w s c.offset ↔ StandsAt w t d.offset := by rw [h.standsAt_iff hmem, hcd.offset]
      by_cases hstands : StandsAt w s c.offset
      · exact hread hstands.reads (hiff.1 hstands).reads
      · rw [run_eq_none_of_not_standsAt hw (hrt ▸ hr) hce hcd.left hword hne hstands,
          run_eq_none_of_not_standsAt hw (hrt ▸ hr') hde hcd.right hword hne (mt hiff.2 hstands)]
        exact .none
    · have hword : ∀ a ∈ w, isAsciiWord a = true := fun a ha => (hx.opening w hmem a ha).1
      have hne := hx.ne_nil w hmem
      have hiff : StartsAt w s c.offset ↔ StartsAt w t d.offset := by rw [h.startsAt_iff hmem, hcd.offset]
      by_cases hs : w <+: s.drop c.offset
      · exact hread hs (hiff.1 (startsAt_of_edge hce hcd.left hword hne hs)).reads
      · have ht : ¬ w <+: t.drop d.offset := fun ht =>
          hs (hiff.2 (startsAt_of_edge hde hcd.right hword hne ht)).reads
        rw [run_of_spelled hw hcd.left, run_of_spelled hw hcd.right, if_neg hs, if_neg ht]
        exact .none
  · exact Bool.noConfusion hp

/-! ### Digits -/

/-- One more digit of a numeral is the same in both texts. -/
theorem numeralAt_succ {n i : Nat} {y : Char} (hx : x.numerals = true) (h : Text.Keeps x s t) (hs : NumeralAt n s i)
    (ht : NumeralAt n t i) (hy : s[i + n]? = some y) (hdigit : y.isDigit = true) :
    NumeralAt (n + 1) s i ∧ NumeralAt (n + 1) t i ∧ t[i + n]? = some y := by
  have hmore : ∀ {u : List Char}, NumeralAt n u i → u[i + n]? = some y → NumeralAt (n + 1) u i := by
    intro u hu hyu
    refine ⟨fun j hj => ?_, hu.before⟩
    rcases Nat.lt_succ_iff_lt_or_eq.1 hj with hlt | rfl
    · exact hu.digits j hlt
    · rw [hyu, Option.any_some, hdigit]
  have hs' := hmore hs hy
  have hyt : t[i + n]? = some y := by rw [← h.numeral hx (n + 1) i hs' n (Nat.lt_succ_self n), hy]
  exact ⟨hs', hmore ht hyt, hyt⟩

/-- Two next characters behind the same digits are the same if one of them is a digit. -/
theorem holds_digits_eq (h : Twin x s t) (hx : x.numerals = true) (hcd : Beside R s t c d) {n i : Nat}
    (hs : NumeralAt n s i) (ht : NumeralAt n t i) (hi : i + n = c.offset) {y z : Char} {rest rest' : List Char}
    (hrest : c.rest = y :: rest) (hrest' : d.rest = z :: rest') : digits.holds y = digits.holds z := by
  have hy := hcd.left.getElem? hrest
  have hz := hcd.right.getElem? hrest'
  rw [← hcd.offset] at hz
  rw [← hi] at hy hz
  rw [holds_digits, holds_digits]
  cases hdy : y.isDigit with
  | true =>
    obtain ⟨-, -, hyt⟩ := numeralAt_succ hx h.forward hs ht hy hdy
    rw [hyt] at hz
    rw [← Option.some.inj hz, hdy]
  | false =>
    cases hdz : z.isDigit with
    | false => rfl
    | true =>
      obtain ⟨-, -, hzs⟩ := numeralAt_succ hx h.backward ht hs hz hdz
      rw [hzs] at hy
      rw [Option.some.inj hy, hdy] at hdz
      exact Bool.noConfusion hdz

theorem rel_greedily_digits (h : Twin x s t) (hx : x.numerals = true) {left left' : List Char}
    (hleft : left.length = left'.length) (hcd : Beside R s t c d) {n i : Nat} (hs : NumeralAt n s i)
    (ht : NumeralAt n t i) (hi : i + n = c.offset)
    (hk : ∀ c' d', (many (one digits)).Reads c c' → Beside R s t c' d' → Option.Rel E (k c') (k' d')) :
    Option.Rel E (greedily (one digits).run left c k) (greedily (one digits).run left' d k') := by
  induction left generalizing left' c d n with
  | nil =>
    obtain rfl := List.eq_nil_of_length_eq_zero hleft.symm
    exact hk c d .refl hcd
  | cons _ left ih =>
    obtain ⟨_, left', rfl⟩ := List.exists_cons_of_length_eq_add_one hleft.symm
    refine rel_orElse ?_ (hk c d .refl hcd)
    refine rel_run_one hcd h.toAlike (fun _ _ _ _ => holds_digits_eq h hx hcd hs ht hi) ?_
    rintro c' d' ⟨y, rest, hrest, hy, rfl⟩ hcd'
    have hget := hcd.left.getElem? hrest
    rw [← hi] at hget
    rw [holds_digits] at hy
    obtain ⟨hs', ht', -⟩ := numeralAt_succ hx h.forward hs ht hget hy
    refine ih (Nat.succ.inj hleft) hcd' hs' ht' (congrArg (· + 1) hi) fun c'' d'' hsteps hcd'' => ?_
    refine hk c'' d'' (.head ⟨y, rest, hrest, ?_, rfl⟩ hsteps) hcd''
    rw [holds_digits, hy]

theorem rel_run_numeral (h : Twin x s t) (hp : numeral x p e = true) (hcd : Beside R s t c d)
    (hc : e = true → c.inside = false)
    (hk : ∀ c' d', p.Reads c c' → Beside R s t c' d' → Option.Rel E (k c') (k' d')) :
    Option.Rel E (p.run c k) (p.run d k') := by
  unfold numeral at hp
  split at hp
  · rename_i first further
    simp only [Bool.and_eq_true, beq_iff_eq] at hp
    obtain ⟨⟨⟨hx, he⟩, rfl⟩, rfl⟩ := hp
    have hce := hc he
    rw [hcd.left.inside_eq, Text.inside_eq_false_iff] at hce
    change Option.Rel E ((one digits).run c fun m => (many (one digits)).run m k)
      ((one digits).run d fun m => (many (one digits)).run m k')
    rcases hce with hbefore | hat
    · have hs : NumeralAt 0 s c.offset := ⟨nofun, hbefore⟩
      have ht : NumeralAt 0 t c.offset := ⟨nofun, by rw [← h.wordBefore_eq, hbefore]⟩
      refine rel_run_one hcd h.toAlike (fun _ _ _ _ => holds_digits_eq h hx hcd hs ht rfl) ?_
      rintro c' d' ⟨y, rest, hrest, hy, rfl⟩ hcd'
      have hdigit := hy
      rw [holds_digits] at hdigit
      obtain ⟨hs', ht', -⟩ := numeralAt_succ hx h.forward hs ht (hcd.left.getElem? hrest) hdigit
      refine rel_greedily_digits h hx (hcd'.length_rest h.toAlike) hcd' hs' ht' rfl ?_
      exact fun c'' d'' hsteps hcd'' => hk c'' d'' ⟨_, ⟨y, rest, hrest, hy, rfl⟩, hsteps⟩ hcd''
    · -- no word starts here, so there is no digit
      have hnone : ∀ y rest, c.rest = y :: rest → digits.holds y = false := by
        intro y rest hrest
        rw [Text.wordAt_of_getElem? (hcd.left.getElem? hrest)] at hat
        rw [holds_digits, ← Bool.not_eq_true]
        intro hdigit
        rw [Text.isAsciiWord_of_isDigit hdigit] at hat
        exact Bool.noConfusion hat
      refine rel_run_one hcd h.toAlike ?_ ?_
      · intro y z rest rest' hrest hrest'
        rcases hcd.char h.toAlike hrest hrest' with rfl | ⟨hword, -⟩
        · rfl
        · rw [Text.wordAt_of_getElem? (hcd.left.getElem? hrest), hword] at hat
          exact Bool.noConfusion hat
      · rintro c' d' ⟨y, rest, hrest, hy, -⟩ -
        rw [hnone y rest hrest] at hy
        exact Bool.noConfusion hy
  · exact Bool.noConfusion hp

/-! ### Absent characters -/

theorem Reads.not_dead {absent : List Char} (h : p.Reads c d) (hc : c.In s) (habsent : ∀ a ∈ absent, a ∉ s) :
    p.dead absent = false := by
  rw [← Bool.not_eq_true]
  intro hp
  induction p using dead.induct generalizing c d with
  | case1 a =>
    obtain ⟨y, rest, hrest, hy, -⟩ := h
    obtain rfl := holds_char_iff.1 hy
    exact habsent y (List.contains_iff_mem.1 hp) (List.mem_of_getElem? (hc.getElem? hrest))
  | case2 p q ihp ihq =>
    obtain ⟨m, hpm, hq⟩ := h
    rcases Bool.or_eq_true_iff.1 hp with hp | hp
    · exact ihp hpm hc hp
    · exact ihq hq (hpm.mem hc).1 hp
  | case3 p q ihp ihq =>
    obtain ⟨hpp, hpq⟩ := Bool.and_eq_true_iff.1 hp
    rcases h with h | h
    · exact ihp h hc hpp
    · exact ihq h hc hpq
  | case4 name body ih =>
    obtain ⟨m, hm, -⟩ := h
    exact ih hm hc hp
  | case5 p h1 h2 h3 h4 =>
    rw [dead.eq_5 absent p h1 h2 h3 h4] at hp
    exact Bool.noConfusion hp

/-! ### Repetition -/

/-- What goes on behind some steps of a body has no result where what comes behind them has none. -/
theorem halts_of_steps {g : Cursor → Option β} (hk : Halts r k)
    (hg : ∀ {c : Cursor} {y : β}, g c = some y → ∃ m, (many p).Reads c m ∧ k m = some y) : Halts (r && p.stops false) g := by
  intro hp c hc
  rw [Option.eq_none_iff_forall_ne_some]
  intro y hy
  obtain ⟨m, hm, hky⟩ := hg hy
  obtain ⟨hr, hin⟩ := Reads.stops (p := many p) hm hc hp
  rw [hk hr m hin] at hky
  exact nomatch hky

theorem halts_greedily (hk : Halts r k) (left : List Char) :
    Halts (r && p.stops false) fun c => greedily p.run left c k :=
  halts_of_steps hk (reads_of_greedily reads_of_run)

theorem halts_sparingly (hk : Halts r k) (left : List Char) :
    Halts (r && p.stops false) fun c => sparingly p.run left c k :=
  halts_of_steps hk (reads_of_sparingly reads_of_run)

section Repetition
variable {β γ : Type} {k : Cursor → Option β} {k' : Cursor → Option γ} {E : β → γ → Prop}
  (hedges : e = true → p.edges true = true)
  (ih : ∀ {c d : Cursor} {k : Cursor → Option β} {k' : Cursor → Option γ}, Beside R s t c d →
    (e = true → c.inside = false) → Halts (r && p.stops false) k → Halts (r && p.stops false) k' →
    (∀ c' d', p.Reads c c' → Beside R s t c' d' → Option.Rel E (k c') (k' d')) →
    Option.Rel E (p.run c k) (p.run d k'))
include hedges ih

theorem rel_greedily {left left' : List Char} (hleft : left.length = left'.length) (hcd : Beside R s t c d)
    (hc : e = true → c.inside = false) (hr : Halts r k) (hr' : Halts r k')
    (hk : ∀ c' d', (many p).Reads c c' → Beside R s t c' d' → Option.Rel E (k c') (k' d')) :
    Option.Rel E (greedily p.run left c k) (greedily p.run left' d k') := by
  induction left generalizing left' c d with
  | nil =>
    obtain rfl := List.eq_nil_of_length_eq_zero hleft.symm
    exact hk c d .refl hcd
  | cons _ left ihleft =>
    obtain ⟨_, left', rfl⟩ := List.exists_cons_of_length_eq_add_one hleft.symm
    refine rel_orElse ?_ (hk c d .refl hcd)
    refine ih hcd hc (halts_greedily hr left) (halts_greedily hr' left') fun c' d' hstep hcd' => ?_
    have hc' : e = true → c'.inside = false := fun he => hstep.inside_eq_false (fun _ => hc he) (hedges he)
    exact ihleft (Nat.succ.inj hleft) hcd' hc' fun c'' d'' hsteps => hk c'' d'' (.head hstep hsteps)

theorem rel_sparingly {left left' : List Char} (hleft : left.length = left'.length) (hcd : Beside R s t c d)
    (hc : e = true → c.inside = false) (hr : Halts r k) (hr' : Halts r k')
    (hk : ∀ c' d', (few p).Reads c c' → Beside R s t c' d' → Option.Rel E (k c') (k' d')) :
    Option.Rel E (sparingly p.run left c k) (sparingly p.run left' d k') := by
  induction left generalizing left' c d with
  | nil =>
    obtain rfl := List.eq_nil_of_length_eq_zero hleft.symm
    exact hk c d .refl hcd
  | cons _ left ihleft =>
    obtain ⟨_, left', rfl⟩ := List.exists_cons_of_length_eq_add_one hleft.symm
    refine rel_orElse (hk c d .refl hcd) ?_
    refine ih hcd hc (halts_sparingly hr left) (halts_sparingly hr' left') fun c' d' hstep hcd' => ?_
    have hc' : e = true → c'.inside = false := fun he => hstep.inside_eq_false (fun _ => hc he) (hedges he)
    exact ihleft (Nat.succ.inj hleft) hcd' hc' fun c'' d'' hsteps => hk c'' d'' (.head hstep hsteps)

end Repetition

/-! ## All patterns -/

/-- **Blind patterns read in step.** In two texts that a lexicon does not tell apart, a blind pattern has the same
readings in the same order of preference, if what comes behind it has. -/
theorem rel_run (hR : Steady R) (hx : x.WellFormed) (h : Twin x s t) (hp : p.blind x e r = true) (hcd : Beside R s t c d)
    (hc : e = true → c.inside = false) (hr : Halts r k) (hr' : Halts r k')
    (hk : ∀ c' d', p.Reads c c' → Beside R s t c' d' → Option.Rel E (k c') (k' d')) :
    Option.Rel E (p.run c k) (p.run d k') := by
  induction p generalizing c d k k' e r with
  | empty => exact hk c d rfl hcd
  | one set =>
    simp only [blind, Bool.or_eq_true, Bool.and_eq_true, beq_iff_eq] at hp
    refine rel_run_one hcd h.toAlike ?_ hk
    intro y z rest rest' hrest hrest'
    rcases hp with hset | ⟨⟨hnum, he⟩, rfl⟩
    · exact holds_eq_of_wordless_or_full hset (hcd.char h.toAlike hrest hrest')
    · exact holds_initials_eq h hnum hcd (hc he) hrest hrest'
  | seq p q ihp ihq =>
    simp only [blind, Bool.or_eq_true, Bool.and_eq_true] at hp
    rcases hp with ((hp | hp) | hp) | ⟨hpp, hpq⟩
    · exact rel_run_keyword hx h hp hcd hc hr hr' hk
    · exact rel_run_numeral h hp hcd hc hk
    · have hnone : ∀ {δ : Type} {u : List Char} {m : Cursor} {K : Cursor → Option δ}, m.In u →
          (∀ a ∈ x.absent, a ∉ u) → (seq p q).run m K = none := by
        intro δ u m K hm habsent
        refine run_eq_none fun n hn => ?_
        rw [hn.not_dead hm habsent] at hp
        exact Bool.noConfusion hp
      rw [hnone hcd.left h.forward.absent, hnone hcd.right h.backward.absent]
      exact .none
    · refine ihp hpp hcd hc hr.run hr'.run fun m n hm hmn => ?_
      refine ihq hpq hmn (fun he => hm.inside_eq_false hc he) hr hr' fun c' d' hq => ?_
      exact hk c' d' ⟨m, hm, hq⟩
  | alt p q ihp ihq =>
    obtain ⟨hpp, hpq⟩ := Bool.and_eq_true_iff.1 hp
    refine rel_orElse (ihp hpp hcd hc hr hr' fun c' d' hc' => hk c' d' (Or.inl hc')) ?_
    exact ihq hpq hcd hc hr hr' fun c' d' hc' => hk c' d' (Or.inr hc')
  | many body ih | few body ih =>
    have hedges : (e && body.edges true) = true → body.edges true = true := fun he => (Bool.and_eq_true_iff.1 he).2
    have hce : (e && body.edges true) = true → c.inside = false := fun he => hc (Bool.and_eq_true_iff.1 he).1
    first
    | exact rel_greedily hedges (ih hp) (hcd.length_rest h.toAlike) hcd hce hr hr' hk
    | exact rel_sparingly hedges (ih hp) (hcd.length_rest h.toAlike) hcd hce hr hr' hk
  | wordEdge => exact rel_run_test (hcd.atWordEdge_eq h.toAlike) fun hplace => hk c d ⟨hplace, rfl⟩ hcd
  | lineStart => exact rel_run_test (hcd.atLineStart_eq h.toAlike) fun hplace => hk c d ⟨hplace, rfl⟩ hcd
  | textStart => exact rel_run_test (hcd.isNone_before_eq h.toAlike) fun hplace => hk c d ⟨hplace, rfl⟩ hcd
  | part name body ih =>
    refine ih hp hcd hc ?_ ?_ fun m n hm hmn => ?_
    · exact fun hrt m hm => hr hrt _ hm
    · exact fun hrt m hm => hr' hrt _ hm
    · exact hk _ _ ⟨m, hm, rfl⟩ (hcd.note hR hmn name)

end Pattern
end SourceLikeness
