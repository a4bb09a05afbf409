import SourceLikeness.Proofs.Boundary.Tokenizer
import SourceLikeness.Proofs.Tokenizer.Invariants
import SourceLikeness.Proofs.Token.Locate

/-!
# The place of a run in a token stream

A marker can stand inside a token, since the passes for conditional expressions, for bodies without braces and for
labels set markers where a later pass may record a token. No other marker does: that of a compound assignment stands
where the token of its operator starts.

* `Pinned` : every marker has one of some categories, or stands where a token starts;
* `Action.pins`, `Action.pinned_apply` : the passes that keep it so, with one lemma for each kind of pass;
* `symbol_mem_of_splits` : a marker inside a token has one of the categories of its dialect, and Python has none;
* `locate_tokenize` : which runs are located, and when the span covers all of the run.
-/

namespace SourceLikeness.Tokenizer
open Pattern WorkingCopy
variable {cats : List Category} {w : Work} {ts us : List (Token Category)} {c : Category}

/-- Every marker has one of some categories, or stands where a token that is not empty starts. -/
def Pinned (cats : List Category) (ts : List (Token Category)) : Prop :=
  ∀ m ∈ ts, m.start = m.stop → m.symbol ∈ cats ∨ ∃ k ∈ ts, k.start = m.start ∧ k.start < k.stop

namespace Pinned

theorem append (h : Pinned cats ts) (h' : Pinned cats us) : Pinned cats (ts ++ us) := by
  intro m hm hmarker
  rcases List.mem_append.1 hm with hm | hm
  · exact (h m hm hmarker).imp_right fun ⟨k, hk, hstart⟩ => ⟨k, List.mem_append_left us hk, hstart⟩
  · exact (h' m hm hmarker).imp_right fun ⟨k, hk, hstart⟩ => ⟨k, List.mem_append_right ts hk, hstart⟩

theorem of_solid (h : ∀ t ∈ ts, t.start < t.stop) : Pinned cats ts :=
  fun m hm hmarker => absurd hmarker (Nat.ne_of_lt (h m hm))

theorem mark (h : Pinned cats w.tokens) (hc : c ∈ cats) (n : Nat) : Pinned cats (w.mark c n).tokens := by
  unfold WorkingCopy.mark emit
  split_ifs
  · exact h.append (List.forall_mem_singleton.2 fun _ => Or.inl hc)
  · exact h

theorem take {s : Span} (h : Pinned cats w.tokens) (hs : s.start < s.stop) (c : Category) (fill : Char) :
    Pinned cats (w.take c s fill).tokens := by
  unfold WorkingCopy.take emit
  split_ifs
  · exact h.append (of_solid (List.forall_mem_singleton.2 hs))
  · exact h

/-- Where no token splits another, a marker inside a token is not pinned. -/
theorem symbol_mem_of_splits (h : Pinned cats ts) (hapart : ts.Pairwise Token.Apart) {m k : Token Category} (hm : m ∈ ts)
    (hk : k ∈ ts) (hsplits : m.Splits k) : m.symbol ∈ cats := by
  obtain ⟨hmarker, hlt, hinside⟩ := hsplits
  refine (h m hm hmarker).resolve_right ?_
  rintro ⟨a, ha, hstart, hsolid⟩
  have hne : a ≠ k := by
    rintro rfl
    omega
  have hsymm : Std.Symm (Token.Apart (α := Category)) := ⟨fun _ _ => Token.Apart.symm⟩
  rcases hapart.forall ha hk hne hsolid (by omega) with hle | hle <;> omega

end Pinned

/-! ## The passes -/

theorem pinned_classify {f : Finder} (hf : f.solid = true) (category : Category) (fill : Char) (swallows : Bool)
    (h : Pinned cats w.tokens) : Pinned cats (classify f category fill swallows w).tokens := by
  refine List.foldlRecOn (motive := fun v : Work => Pinned cats v.tokens) _ _ h fun v hv hit hmem => ?_
  have htake := hv.take (Finder.token_lt_of_mem hmem hf) category fill
  unfold classifyHit
  dsimp only
  split_ifs
  · exact htake
  · exact htake
  · exact hv

theorem pinned_docstrings (h : Pinned cats w.tokens) : Pinned cats (Docstring.apply w).tokens :=
  List.foldlRecOn (motive := fun v : Work => Pinned cats v.tokens) _ _ h fun _ hv _ _ => hv

/-- The categories of the markers of conditional expressions. -/
def ConditionalExpression.categories : List Category := [.assign, .return, .conditional, .openBrace, .closeBrace]

namespace ConditionalExpression

theorem mem_categories_of_lead? {hit : Hit} {l : Category × Span} (hl : lead? hit = some l) : l.1 ∈ categories := by
  unfold lead? at hl
  split at hl
  · obtain rfl := Option.some.inj hl
    exact (by decide : Category.assign ∈ categories)
  · obtain ⟨s, -, rfl⟩ := Option.map_eq_some_iff.1 hl
    exact (by decide : Category.return ∈ categories)

theorem pinned_openBlock (hcats : categories ⊆ cats) {lead : Option Category} (hlead : ∀ c ∈ lead, c ∈ categories)
    (h : Pinned cats w.tokens) (n : Nat) : Pinned cats (openBlock lead n w).tokens := by
  have hopen := (h.mark (c := .conditional) (hcats (by decide)) n).mark (c := .openBrace) (hcats (by decide)) n
  cases lead with
  | none => exact hopen
  | some c => exact hopen.mark (hcats (hlead c rfl)) n

theorem pinned_applyHit (hcats : categories ⊆ cats) (h : Pinned cats w.tokens) (hit : Hit) :
    Pinned cats (applyHit w hit).tokens := by
  have hlead : ∀ c ∈ (lead? hit).map (·.1), c ∈ categories := by
    intro c hc
    obtain ⟨l, hl, rfl⟩ := Option.map_eq_some_iff.1 hc
    exact mem_categories_of_lead? hl
  have hclose : Category.closeBrace ∈ cats := hcats (by decide)
  unfold applyHit
  dsimp only
  generalize lead? hit = lead at hlead
  split
  · rename_i condition thenBranch elseBranch _ _ _
    have hfirst := (pinned_openBlock hcats hlead h thenBranch.start).mark hclose elseBranch.start
    have hsecond := (pinned_openBlock hcats hlead hfirst elseBranch.start).mark hclose (elseBranch.stop - 1)
    cases lead with
    | none => exact hsecond
    | some l => exact hsecond
  · exact h

end ConditionalExpression

theorem BareBody.pinned_wrap (hopen : .openBrace ∈ cats) (hclose : .closeBrace ∈ cats) (h : Pinned cats w.tokens) (body : Span) :
    Pinned cats (wrap w body).tokens := (h.mark hopen _).mark hclose _

namespace SwitchStatement

theorem pinned_applyLabel (hopen : .openBrace ∈ cats) (hclose : .closeBrace ∈ cats) (h : Pinned cats w.tokens) {label : Span}
    (hlabel : label.start < label.stop) (stop : Nat) : Pinned cats (applyLabel stop w label).tokens := by
  have htake := h.take hlabel .conditional terminator
  unfold applyLabel
  dsimp only
  split_ifs
  · exact htake
  · exact (htake.mark hopen _).mark hclose _
  · exact h

theorem pinned_applyHeader (hopen : .openBrace ∈ cats) (hclose : .closeBrace ∈ cats) (h : Pinned cats w.tokens) (header : Span) :
    Pinned cats (applyHeader w header).tokens := by
  unfold applyHeader
  split_ifs
  · exact h
  · split
    · exact h
    · rename_i stop _
      refine List.foldlRecOn (motive := fun v : Work => Pinned cats v.tokens) _ _ ?_
        fun v hv label hlabel => pinned_applyLabel hopen hclose hv (lt_of_mem_tokensWithin (by decide) hlabel) stop
      exact List.foldlRecOn (motive := fun v : Work => Pinned cats v.tokens) _ _ h fun _ hv _ _ => hv

end SwitchStatement

namespace CompoundAssignment

/-- The operator stands at the start of a compound assignment. -/
theorem start_token {s : List Char} {hit : Hit} (hmem : hit ∈ compound.readings s) :
    hit.token.start = hit.whole.start ∧ hit.token.stop ≤ hit.whole.stop := by
  obtain ⟨d, hd, heq⟩ := Finder.read_of_hitOf (Finder.hitOf_of_mem hmem)
  obtain ⟨m, ⟨n, hn, rfl⟩, hequals⟩ := reads_of_read hd
  have hin := (hn.mem (Finder.in_start s hit.whole.start)).1
  have hparts : d.parts = ((Finder.start s hit.whole.start).note .token n).parts := hequals.parts_eq rfl
  have htoken : hit.token = ⟨hit.whole.start, n.offset⟩ := by
    rw [heq, Hit.token, Hit.part?, hparts]
    rfl
  rw [htoken, heq]
  exact ⟨rfl, (hequals.mem (hin.note .token (Finder.start s hit.whole.start))).2⟩

/-- The marker of a compound assignment stands where the token of its operator starts. -/
theorem pinned_applyHit {hit : Hit} (hstart : hit.token.start = hit.whole.start) (hlt : hit.token.start < hit.token.stop)
    (hle : hit.token.stop ≤ hit.whole.stop) (hstop : hit.whole.stop ≤ w.size) (h : Pinned cats w.tokens) :
    Pinned cats (applyHit w hit).tokens := by
  unfold applyHit
  dsimp only
  split_ifs with hskip
  · exact h
  · have hfree : w.isClaimed hit.whole = false := by
      rw [← Bool.not_eq_true]
      exact fun hclaimed => hskip (by rw [hclaimed, Bool.true_or])
    have hwhole : w.admits hit.whole = true := by
      simp only [WorkingCopy.admits, hfree, hstop, decide_true, Bool.not_false, Bool.and_true, decide_eq_true_eq]
      omega
    obtain ⟨-, -, hclear⟩ := admits_iff.1 hwhole
    have hmark : (w.mark .assign hit.whole.start) = { w with tokens := w.tokens ++ [⟨.assign, hit.whole.start, hit.whole.start⟩] } :=
      if_pos (admits_iff.2 ⟨Nat.le_refl _, by change hit.whole.start ≤ _; omega, fun _ _ hle hlt _ => absurd hlt (Nat.not_lt.2 hle)⟩)
    have htoken : (w.mark .assign hit.whole.start).admits hit.token = true := by
      rw [hmark]
      refine admits_iff.2 ⟨Nat.le_of_lt hlt, Nat.le_trans hle hstop, fun p c hp hp' hc => hclear p c ?_ ?_ hc⟩ <;> omega
    have htokens : ((w.mark .assign hit.whole.start).take (category (hit.token.slice w.text)) hit.token WorkingCopy.operator).tokens =
        w.tokens ++ [⟨.assign, hit.whole.start, hit.whole.start⟩, ⟨category (hit.token.slice w.text), hit.token.start, hit.token.stop⟩] := by
      rw [WorkingCopy.take, if_pos htoken, emit, if_pos htoken, hmark]
      exact List.append_assoc _ _ _
    change Pinned cats ((w.mark .assign hit.whole.start).take (category (hit.token.slice w.text)) hit.token WorkingCopy.operator).tokens
    rw [htokens]
    refine h.append fun m hm hmarker => Or.inr ⟨_, List.mem_cons_of_mem _ List.mem_cons_self, ?_, hlt⟩
    rcases List.mem_pair.1 hm with rfl | rfl
    · exact hstart
    · rfl

theorem pinned_apply (h : Pinned cats w.tokens) : Pinned cats (apply w).tokens := by
  refine (List.foldlRecOn (motive := fun v : Work => v.size = w.size ∧ Pinned cats v.tokens) _ _ ⟨rfl, h⟩
    fun v ⟨hsize, hv⟩ hit hmem => ⟨(edits_applyHit v hit).grows.size_eq.trans hsize, ?_⟩).2
  obtain ⟨hstart, hle⟩ := start_token hmem
  have hstop := (within_of_mem_readings hmem).whole.stop_le
  rw [← size_eq_length_text, ← hsize] at hstop
  exact pinned_applyHit hstart (Finder.token_lt_of_mem hmem (by decide)) hle hstop hv

end CompoundAssignment

/-- The pass records no empty token, and sets markers of some categories only, but where a token starts. -/
def Action.pins (cats : List Category) : Action → Bool
  | .classify f _ _ _ => f.solid
  | .conditionalExpressions => ConditionalExpression.categories.all cats.contains
  | .bareBodies | .switches => cats.contains .openBrace && cats.contains .closeBrace
  | _ => true

theorem Action.pinned_apply {a : Action} (ha : a.pins cats = true) (h : Pinned cats w.tokens) : Pinned cats (a.apply w).tokens := by
  cases a with
  | erase f fill =>
    change Pinned cats (Tokenizer.erase f fill w).tokens
    rwa [tokens_erase]
  | classify f category fill swallows => exact pinned_classify ha category fill swallows h
  | docstrings => exact pinned_docstrings h
  | conditionalExpressions =>
    have hcats : ConditionalExpression.categories ⊆ cats := fun c hc => List.contains_iff_mem.1 (List.all_eq_true.1 ha c hc)
    exact List.foldlRecOn (motive := fun v : Work => Pinned cats v.tokens) _ _ h
      fun _ hv hit _ => ConditionalExpression.pinned_applyHit hcats hv hit
  | bareBodies =>
    simp only [pins, Bool.and_eq_true, List.contains_iff_mem] at ha
    exact List.foldlRecOn (motive := fun v : Work => Pinned cats v.tokens) _ _ h
      fun _ hv body _ => BareBody.pinned_wrap ha.1 ha.2 hv body
  | switches =>
    simp only [pins, Bool.and_eq_true, List.contains_iff_mem] at ha
    exact List.foldlRecOn (motive := fun v : Work => Pinned cats v.tokens) _ _ h
      fun _ hv header _ => SwitchStatement.pinned_applyHeader ha.1 ha.2 hv header
  | compoundAssignments => exact CompoundAssignment.pinned_apply h

/-! ## All passes -/

/-- The categories of the markers that may stand inside a token. -/
def splitters : Dialect → List Category
  | .cFamily => ConditionalExpression.categories
  | .python => []

theorem pins_of_keeps {a : Action} (ha : a.keeps closedFills = true) : a.pins (splitters .cFamily) = true := by
  cases a with
  | classify f category fill swallows =>
    simp only [Action.keeps, Bool.and_eq_true] at ha
    exact ha.1.1.2
  | _ => rfl

theorem pins_of_mem_passes {s : Settings} {p : Pass} (hp : p ∈ s.passes) : p.action.pins (splitters s.dialect) = true := by
  cases hdialect : s.dialect with
  | cFamily =>
    rw [Settings.passes, hdialect] at hp
    obtain ⟨front, control, operators, assignments, hpasses, hall⟩ : ∃ front control operators assignments,
        cPasses s = front ++ declarationPasses s ++ control ++ operators ++ assignments ++ bracePasses ∧
          (front ++ control ++ operators ++ assignments ++ bracePasses).all (·.action.pins (splitters .cFamily)) = true :=
      ⟨_, _, _, _, rfl, by decide⟩
    have hpins := List.all_eq_true.1 hall
    have hp : p ∈ cPasses s := hp
    rw [hpasses] at hp
    simp only [List.mem_append] at hp hpins
    by_cases hdeclaration : p ∈ declarationPasses s
    · exact pins_of_keeps (keeps_declarationPasses s p hdeclaration)
    · exact hpins p (by tauto)
  | python =>
    rw [Settings.passes, hdialect] at hp
    have hall : pyPasses.all (·.action.pins (splitters .python)) = true := by decide
    exact List.all_eq_true.1 hall p hp

theorem pinned_run (t : Tokenizer) (source : List Char) : Pinned (splitters t.settings.dialect) (t.run source).tokens := by
  refine List.foldlRecOn (motive := fun v : Work => Pinned _ v.tokens) _ _ (fun m hm => absurd hm List.not_mem_nil) ?_
  exact fun _ hv p hp => Action.pinned_apply (pins_of_mem_passes hp) hv

/-! ## The place of a run -/

theorem isStream_tokenize (t : Tokenizer) (source : List Char) : Token.IsStream (t.tokenize source) where
  ordered := by
    rw [tokenize, write, List.pairwise_map]
    exact Token.pairwise_stream _
  bounds k hk := by
    obtain ⟨k', hk', rfl⟩ := List.mem_map.1 ((tokenize_perm t source).mem_iff.1 hk)
    exact ((sound_run t source).bounds k' hk').1
  apart := by
    rw [(tokenize_perm t source).pairwise_iff Token.Apart.symm, List.pairwise_map]
    exact (sound_run t source).apart

/-- A marker inside a token has one of the categories of its dialect. -/
theorem symbol_mem_of_splits {t : Tokenizer} {source : List Char} {m k : Token Char} (hm : m ∈ t.tokenize source)
    (hk : k ∈ t.tokenize source) (hsplits : m.Splits k) :
    ∃ c ∈ splitters t.settings.dialect, m.symbol = t.alphabet.symbol c := by
  obtain ⟨m', hm', rfl⟩ := List.mem_map.1 ((tokenize_perm t source).mem_iff.1 hm)
  obtain ⟨k', hk', rfl⟩ := List.mem_map.1 ((tokenize_perm t source).mem_iff.1 hk)
  exact ⟨m'.symbol, (pinned_run t source).symbol_mem_of_splits (sound_run t source).apart hm' hk' hsplits, rfl⟩

/-- **The place of a run.** Symbols are located if and only if there are some and the stream of a source has them. The
span lies inside the source, and goes from the start of the first run of tokens that spells them to the stop of its last
token. It covers all of the run, if and only if that token is no marker inside another token of the run, and so whenever
its symbol is none that such a marker can have. -/
theorem locate_tokenize (t : Tokenizer) (source wanted : List Char) :
    ((Token.locate wanted (t.tokenize source)).isSome = true ↔
      wanted ≠ [] ∧ wanted <:+: Token.symbols (t.tokenize source)) ∧
    ∀ s, Token.locate wanted (t.tokenize source) = some s → s.start ≤ s.stop ∧ s.stop ≤ (utf8 source).length ∧
      ∃ before run after, Token.FirstRun wanted (t.tokenize source) before run after ∧ Token.reach? run = some s ∧
        ((∀ k ∈ run, Token.Covers s k) ↔ ∀ last ∈ run.getLast?, ∀ k ∈ run, ¬ last.Splits k) ∧
        ((∀ c ∈ splitters t.settings.dialect, wanted.getLast? ≠ some (t.alphabet.symbol c)) →
          ∀ k ∈ run, Token.Covers s k) := by
  refine ⟨Token.isSome_locate_iff, fun s hs => ?_⟩
  obtain ⟨hne, hinfix⟩ := Token.isSome_locate_iff.1 (Option.isSome_of_eq_some hs)
  obtain ⟨before, run, after, hfirst⟩ := Token.exists_firstRun hinfix
  have hreach : Token.reach? run = some s := hfirst.locate_eq.symm.trans hs
  have hsub : run <:+: t.tokenize source := ⟨before, after, hfirst.split.symm⟩
  have hstream := (isStream_tokenize t source).mono hsub
  have hcovers := hstream.covers_iff_not_splits hreach
  obtain ⟨first, last, hhead, hlast, rfl⟩ := Token.exists_of_reach? hreach
  have hmem : last ∈ run := List.mem_of_getLast? hlast
  refine ⟨?_, ?_, before, run, after, hfirst, hreach, hcovers, fun hsymbols => hcovers.2 ?_⟩
  · exact Nat.le_trans (hstream.start_le hhead hmem) (hstream.bounds last hmem)
  · obtain ⟨last', hlast', rfl⟩ := List.mem_map.1 ((tokenize_perm t source).mem_iff.1 (hsub.subset hmem))
    rw [← size_run t source]
    exact ((sound_run t source).bounds last' hlast').2
  · intro last' hlast' k hk hsplits
    obtain ⟨c, hc, hsymbol⟩ := symbol_mem_of_splits (hsub.subset (List.mem_of_getLast? hlast')) (hsub.subset hk) hsplits
    refine hsymbols c hc ?_
    rw [← hfirst.spells, Token.symbols, List.getLast?_map, hlast', Option.map_some, hsymbol]

/-- The condition and the body of a Python source, located from the start of the one to the stop of the other. -/
theorem locate_tokenize_python :
    let t : Tokenizer := ⟨.ofDialect .python, by decide⟩
    let source := "if x > 0:\n y = 1\n".toList
    Token.locate ['I', 'A'] (t.tokenize source) = some ⟨0, 14⟩ ∧
      ∃ before run after, Token.FirstRun ['I', 'A'] (t.tokenize source) before run after ∧
        ∀ k ∈ run, Token.Covers ⟨0, 14⟩ k := by
  intro t source
  have hlocate : Token.locate ['I', 'A'] (t.tokenize source) = some ⟨0, 14⟩ := by decide +kernel
  obtain ⟨-, -, before, run, after, hfirst, -, -, hcovers⟩ := (locate_tokenize t source ['I', 'A']).2 ⟨0, 14⟩ hlocate
  exact ⟨hlocate, before, run, after, hfirst, hcovers fun c hc => absurd hc List.not_mem_nil⟩

/-- The marker that opens the body of this loop stands inside the token of its header, and a run that ends with it is cut
off there. -/
theorem not_covers_loop :
    let t : Tokenizer := ⟨.ofDialect .cFamily, by decide⟩
    let source := "while (f(a)) x = 1;".toList
    t.tokenize source = [⟨'S', 0, 13⟩, ⟨'\x7b', 11, 11⟩, ⟨'A', 15, 16⟩, ⟨'\x7d', 19, 19⟩] ∧
      Token.locate ['S', '\x7b'] (t.tokenize source) = some ⟨0, 11⟩ ∧ ¬ Token.Covers ⟨0, 11⟩ (⟨'S', 0, 13⟩ : Token Char) := by
  intro t source
  have htokens : t.tokenize source = [⟨'S', 0, 13⟩, ⟨'\x7b', 11, 11⟩, ⟨'A', 15, 16⟩, ⟨'\x7d', 19, 19⟩] := by decide +kernel
  refine ⟨htokens, ?_, by decide⟩
  rw [htokens]
  decide

end SourceLikeness.Tokenizer
