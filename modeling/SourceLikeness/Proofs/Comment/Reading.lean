import SourceLikeness.Proofs.Comment.Erasure
import SourceLikeness.Proofs.Pattern.Evaluation
import SourceLikeness.Proofs.Pattern.Leads

/-!
# Comments at the start of a text

* `Comment` : the forms of a comment, with what opens and closes them;
* `Comment.Stands` : a text starts with a comment that is closed at an offset;
* `Comment.Stands.hitOf` : the search for comments finds it; `Comment.Stands.erase_comments_eq` : two working copies that
  agree but for what is inside the comment are equal without it;
* `Comment.Stands.erase_literals` : erasing literals leaves it a comment if none lies across its end.
-/

namespace SourceLikeness
open Pattern WorkingCopy Tokenizer

/-! ## The forms of a comment -/

/-- The forms of a comment: to the end of the line and between two signs in the C family, to the end of the line in
a script. -/
inductive Comment where
  | line
  | block
  | script

/-- What the literals of a dialect read as. -/
def Dialect.literal : Dialect → Pattern
  | cFamily => Inert.cLiteral
  | python => Inert.pyLiteral

/-- What the comments of a dialect read as. -/
def Dialect.comment : Dialect → Pattern
  | cFamily => Inert.cComment
  | python => Inert.pyComment

namespace Comment

def dialect : Comment → Dialect
  | line | block => .cFamily
  | script => .python

def opener : Comment → List Char
  | line => ['/', '/']
  | block => ['/', '*']
  | script => ['#']

def closer : Comment → List Char
  | block => ['*', '/']
  | line | script => ['\n']

/-- The offset where a comment stops that is closed at another. The newline behind a line does not belong to it. -/
def stop (m : Nat) : Comment → Nat
  | block => m + 2
  | line | script => m

/-- The text starts with a comment that is closed at an offset. -/
structure Stands (k : Comment) (m : Nat) (s : List Char) : Prop where
  opener : k.opener <+: s
  le : k.opener.length ≤ m
  closer : k.closer <+: s.drop m
  first : ∀ i, k.opener.length ≤ i → i < m → ¬ k.closer <+: s.drop i

/-! ## Finding a comment -/

variable {k : Comment} {m : Nat} {s u v : List Char} {c : Cursor}

theorem Stands.exists_eq (h : k.Stands m s) : ∃ u v, s = k.opener ++ (u ++ (k.closer ++ v)) ∧
    k.opener.length + u.length = m ∧ ∀ u₁ u₂, u₁ ++ u₂ = u → u₂ ≠ [] → ¬ k.closer <+: u₂ ++ (k.closer ++ v) := by
  obtain ⟨t, rfl⟩ := h.opener
  obtain ⟨j, rfl⟩ := Nat.exists_eq_add_of_le h.le
  have hdrop : ∀ i, (k.opener ++ t).drop (k.opener.length + i) = t.drop i := fun i => by
    rw [← List.drop_drop, List.drop_left]
  obtain ⟨v, hv⟩ := h.closer
  rw [hdrop] at hv
  have hsplit : t = t.take j ++ (k.closer ++ v) := by rw [hv, List.take_append_drop]
  have hlen : (t.take j).length = j := by
    have hclosed : 0 < k.closer.length := by cases k <;> decide
    have := congrArg List.length hv
    rw [List.length_append, List.length_drop] at this
    rw [List.length_take]
    omega
  refine ⟨t.take j, v, congrArg (k.opener ++ ·) hsplit, congrArg _ hlen, fun u₁ u₂ hu hne hprefix => ?_⟩
  have hpos := List.length_pos_of_ne_nil hne
  have hsum := congrArg List.length hu
  rw [List.length_append, hlen] at hsum
  refine h.first (k.opener.length + u₁.length) (Nat.le_add_right _ _) (by omega) ?_
  rw [hdrop, hsplit, ← hu, List.append_assoc, List.drop_left]
  exact hprefix

end Comment

namespace Pattern
variable {c : Cursor} {u v w : List Char} {β : Type} {next : Cursor → Option β}

/-- A text is not read where it does not stand. -/
theorem run_text_of_not_prefix {t : String} (h : ¬ t.toList <+: c.rest) : (text t).run c next = none :=
  run_eq_none fun d hd => absurd ⟨d.rest, (reads_chars hd).symm⟩ h

theorem run_toLineEnd {opener : String} (hrest : c.rest = opener.toList ++ (u ++ '\n' :: v)) (hu : '\n' ∉ u) :
    (all [text opener, Shape.restOfLine]).run c some = some (c.past (opener.toList ++ u) ('\n' :: v)) := by
  rw [run_all_cons, run_text hrest]
  refine run_many (u := u) (v := '\n' :: v) rfl (fun a ha => ?_) rfl ?_
  · rw [holds_noneOf, Bool.not_eq_true', ← Bool.not_eq_true, List.contains_iff_mem]
    intro hmem
    obtain rfl := List.mem_singleton.1 hmem
    exact hu ha
  · rw [Cursor.past_past]

theorem run_toCloser {opener closer : String} (hrest : c.rest = opener.toList ++ (u ++ (closer.toList ++ v)))
    (hu : ∀ u₁ u₂, u₁ ++ u₂ = u → u₂ ≠ [] → ¬ closer.toList <+: u₂ ++ (closer.toList ++ v)) :
    (all [text opener, few anyChar, text closer]).run c some =
      some (c.past (opener.toList ++ u ++ closer.toList) v) := by
  rw [run_all_cons, run_text hrest, run_all_cons]
  refine run_few (u := u) (v := closer.toList ++ v) rfl (fun a _ => rfl) (fun u₁ u₂ hsplit hne => ?_) ?_
  · exact run_text_of_not_prefix (hu u₁ u₂ hsplit hne)
  · rw [all, run_text rfl, Cursor.past_past, Cursor.past_past, List.append_assoc]

end Pattern

namespace Comment
variable {k : Comment} {m : Nat} {s u v : List Char} {c : Cursor}

theorem not_mem_of_splits {x : Char} (hu : ∀ u₁ u₂, u₁ ++ u₂ = u → u₂ ≠ [] → ¬ [x] <+: u₂ ++ v) : x ∉ u := by
  intro hx
  obtain ⟨u₁, u₂, rfl⟩ := List.append_of_mem hx
  exact hu u₁ (x :: u₂) rfl (List.cons_ne_nil _ _) (List.cons_prefix_cons.2 ⟨rfl, List.nil_prefix⟩)

theorem Stands.exists_read (h : k.Stands m s) :
    ∃ d, k.dialect.comment.read (Finder.start s 0) = some d ∧ d.offset = k.stop m ∧ d.parts = [] := by
  obtain ⟨u, v, hs, rfl, hu⟩ := h.exists_eq
  have hrest : (Finder.start s 0).rest = k.opener ++ (u ++ (k.closer ++ v)) := hs
  cases k with
  | line =>
    refine ⟨_, run_any_of_some (run_toLineEnd hrest (not_mem_of_splits hu)), ?_, rfl⟩
    exact (Nat.zero_add _).trans List.length_append
  | block =>
    refine ⟨_, (run_any_of_none ?_).trans (run_toCloser hrest hu), ?_, rfl⟩
    · refine run_text_of_not_prefix ?_
      rw [hrest]
      exact fun hprefix => absurd (List.cons_prefix_cons.1 (List.cons_prefix_cons.1 hprefix).2).1 (by decide)
    · rw [Cursor.offset_past, List.length_append, List.length_append]
      exact Nat.zero_add _
  | script =>
    refine ⟨_, run_toLineEnd hrest (not_mem_of_splits hu), ?_, rfl⟩
    exact (Nat.zero_add _).trans List.length_append

/-- The finder of comments. -/
abbrev finder (k : Comment) : Finder := { pattern := k.dialect.comment }

/-- The finder of comments finds the one that a text starts with. -/
theorem Stands.hitOf (h : k.Stands m s) : k.finder.hitOf (fun _ => true) s 0 = some ⟨⟨0, k.stop m⟩, []⟩ := by
  obtain ⟨d, hd, hoffset, hparts⟩ := h.exists_read
  rw [Finder.hitOf_of_read rfl rfl rfl hd rfl, hoffset, hparts]

theorem partless_comment : k.finder.pattern.partless = true := by
  cases k <;> rfl

/-- A comment starts with a sign of its own. -/
theorem start_of_hit {h : Hit} (hmem : h ∈ k.finder.hits s) : s[h.whole.start]? = some '/' ∨ s[h.whole.start]? = some '#' := by
  have hled : k.finder.pattern.led { words := [], heads := [], signs := ['/', '#'], tight := [] } false false = true := by
    cases k <;> decide +kernel
  have hsolid : k.finder.pattern.solid = true := by cases k <;> decide
  cases Finder.at_of_hitOf hled hsolid (Finder.hitOf_of_mem hmem) with
  | word _ hw | head _ hw => exact absurd hw List.not_mem_nil
  | sign x hx hsign hchar =>
    rcases hx with hx | ⟨hgap, -⟩
    · simp only [List.mem_cons, List.not_mem_nil, or_false] at hx
      rcases hx with rfl | rfl
      · exact Or.inl hchar
      · exact Or.inr hchar
    · exact absurd hgap Bool.false_ne_true

namespace Stands

theorem getElem?_opener (h : k.Stands m s) {j : Nat} (hj : j < k.opener.length) : s[j]? = some k.opener[j] :=
  List.prefix_iff_getElem?.1 h.opener j hj

theorem getElem?_closer (h : k.Stands m s) {j : Nat} (hj : j < k.closer.length) : s[m + j]? = k.closer[j]? :=
  Text.prefix_drop_iff.1 h.closer j hj

theorem closed_le_length (h : k.Stands m s) : m + k.closer.length ≤ s.length := by
  have hle := h.closer.length_le
  rw [List.length_drop] at hle
  have hclosed : 0 < k.closer.length := by cases k <;> decide
  omega

/-- What belongs to the closer and not to the comment is the newline. -/
theorem newline_of_stop_le (h : k.Stands m s) {p : Nat} (hp : k.stop m ≤ p) (hlt : p < m + k.closer.length) :
    s[p]? = some '\n' := by
  cases k with
  | block => exact absurd hp (Nat.not_le.2 hlt)
  | line | script =>
    obtain rfl : p = m := Nat.le_antisymm (Nat.le_of_lt_succ hlt) hp
    exact h.getElem?_closer Nat.one_pos

theorem hits_eq (h : k.Stands m s) :
    k.finder.hits s = ⟨⟨0, k.stop m⟩, []⟩ :: k.finder.walk (fun _ => true) s 1 (k.stop m) := by
  have hpos : 0 < s.length := by
    have hclosed : 0 < k.closer.length := by cases k <;> decide
    have := h.closed_le_length
    omega
  change k.finder.walk (fun _ => true) s 0 0 = _
  rw [Finder.walk_of_lt hpos, if_neg (Nat.lt_irrefl 0), h.hitOf]
  rfl

theorem spares (h : k.Stands m s) : Spares k.finder (m + k.closer.length) (m + k.closer.length) s := by
  intro g hmem hlt
  have hsign := start_of_hit hmem
  rw [h.hits_eq] at hmem
  rcases List.mem_cons.1 hmem with rfl | hmem
  · cases k
    exacts [Nat.le_succ m, Nat.le_refl _, Nat.le_succ m]
  · obtain ⟨-, -, hstop, -⟩ := Finder.hitOf_of_mem_walk hmem
    rw [h.newline_of_stop_le hstop hlt] at hsign
    rcases hsign with hsign | hsign <;> exact absurd (Option.some.inj hsign) (by decide)

end Stands

/-- Two working copies that agree but for what is inside a comment are equal when the comment is erased. -/
theorem erase_comments_eq {w w' : Work} (h : Veiled m w w') (hs : k.Stands m w.text) (hs' : k.Stands m w'.text) :
    erase k.finder blank w = erase k.finder blank w' := by
  have hclosed : 0 < k.closer.length := by cases k <;> decide
  refine h.erase_eq partless_comment hs.spares hs'.spares (Nat.lt_add_of_pos_right hclosed) hs.closed_le_length fun p hp => ?_
  rcases Nat.lt_or_ge p (k.stop m) with hstop | hstop
  · refine Or.inr ⟨⟨⟨⟨0, k.stop m⟩, []⟩, ?_, Nat.zero_le p, hstop⟩, ⟨⟨0, k.stop m⟩, []⟩, ?_, Nat.zero_le p, hstop⟩
    · rw [hs.hits_eq]
      exact List.mem_cons_self
    · rw [hs'.hits_eq]
      exact List.mem_cons_self
  · exact Or.inl (hs.newline_of_stop_le hstop hp)

/-! ## Literals around a comment -/

/-- The finder of literals. -/
abbrev literals (k : Comment) : Finder := { pattern := k.dialect.literal }

def quoteSigns : List Char := ['"', '\'', '\x60']

theorem partless_literals {d : Dialect} : d.literal.partless = true := by
  cases d <;> rfl

/-- A literal starts with a quote. -/
theorem quote_of_hit {d : Dialect} {h : Hit} (hmem : h ∈ Finder.hits { pattern := d.literal } s) :
    ∃ q ∈ quoteSigns, s[h.whole.start]? = some q := by
  have hled : d.literal.led { words := [], heads := [], signs := quoteSigns, tight := [] } false false = true := by
    cases d <;> decide +kernel
  have hsolid : d.literal.solid = true := by cases d <;> decide
  cases Finder.at_of_hitOf hled hsolid (Finder.hitOf_of_mem hmem) with
  | word _ hw | head _ hw => exact absurd hw List.not_mem_nil
  | sign x hx hsign hchar => exact hx.elim (fun hx => ⟨x, hx, hchar⟩) fun hgap => absurd hgap.1 Bool.false_ne_true

theorem not_mem_opener {q : Char} (hq : q ∈ quoteSigns) : q ∉ k.opener := by
  revert q
  cases k <;> decide

theorem not_mem_closer {q : Char} (hq : q ∈ quoteSigns) : q ∉ k.closer := by
  revert q
  cases k <;> decide

namespace Stands

/-- No literal starts at the opener. -/
theorem opener_le_start (h : k.Stands m s) {g : Hit} (hmem : g ∈ k.literals.hits s) : k.opener.length ≤ g.whole.start := by
  obtain ⟨q, hq, hchar⟩ := quote_of_hit hmem
  by_contra hlt
  rw [h.getElem?_opener (Nat.lt_of_not_le hlt)] at hchar
  obtain rfl := Option.some.inj hchar
  exact not_mem_opener hq (List.getElem_mem _)

/-- No literal starts at the closer. -/
theorem not_start_closer (h : k.Stands m s) {g : Hit} (hmem : g ∈ k.literals.hits s) (hm : m ≤ g.whole.start) :
    m + k.closer.length ≤ g.whole.start := by
  obtain ⟨q, hq, hchar⟩ := quote_of_hit hmem
  by_contra hlt
  obtain ⟨j, hj⟩ := Nat.exists_eq_add_of_le hm
  have hcloser := h.getElem?_closer (j := j) (by omega)
  rw [← hj, hchar] at hcloser
  exact not_mem_closer hq (List.mem_of_getElem? hcloser.symm)

/-- A comment stays one when literals are erased none of which lies across its end. -/
theorem erase_literals {w : Work} (h : k.Stands m w.text) (hs : Spares k.literals (m + 1) m w.text) :
    k.Stands m (erase k.literals literal w).text := by
  have hfill : literal ≠ '\n' := by decide
  refine ⟨?_, h.le, ?_, fun i hi hm hprefix => h.first i hi hm ?_⟩
  · rw [List.prefix_iff_getElem?]
    intro j hj
    rw [getElem?_text_erase_of_not hfill fun g hmem hcovers => ?_]
    · exact h.getElem?_opener hj
    · exact absurd (h.opener_le_start hmem) (Nat.not_le.2 (Nat.lt_of_le_of_lt hcovers.1 hj))
  · rw [Text.prefix_drop_iff]
    intro j hj
    rw [getElem?_text_erase_of_not hfill fun g hmem hcovers => ?_]
    · exact h.getElem?_closer hj
    · obtain ⟨hstart, hstop⟩ := hcovers
      rcases Nat.lt_or_ge g.whole.start (m + 1) with hlt | hge
      · have := hs g hmem hlt
        omega
      · have := h.not_start_closer hmem (by omega)
        omega
  · rw [Text.prefix_drop_iff] at hprefix ⊢
    intro j hj
    have hchar := hprefix j hj
    rw [List.getElem?_eq_getElem hj] at hchar ⊢
    have hne : k.closer[j] ≠ literal := by
      have hall : ∀ x ∈ k.closer, x ≠ literal := by cases k <;> decide
      exact hall _ (List.getElem_mem hj)
    exact getElem?_of_erase hfill hne hchar

end Stands
end Comment
end SourceLikeness
