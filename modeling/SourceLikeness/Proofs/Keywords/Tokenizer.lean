import Mathlib.Data.Finset.Lattice.Lemmas
import SourceLikeness.Proofs.Config.Usable
import SourceLikeness.Proofs.Keywords.Order
import SourceLikeness.Tokenizer.Pipeline

/-!
# Lists of type keywords as sets

Settings give canonical alternations. What is left of a list of keywords is which texts it holds once blanks are collapsed.

* `keywordSet`, `mem_keywords_iff` : the keywords of a list as a set of texts, which determines its canonical list;
* `SameKeywords` : settings with the same sets of keywords, which have the same faults and the same passes;
* `alternations`, `Pass.Alternates` : the keywords that the passes for declarations try, in this order;
* `pairwise_alternations` : none of them extends an earlier one;
* `tokenize_of_sameKeywords` : lists of keywords are sets as far as tokens are concerned.
-/

namespace SourceLikeness.Tokenizer
open Pattern Shape Statement Text
variable {s s' : Settings} {types types' : List String} {ks : List Keyword} {j k : Keyword} {a b : Nat}

/-! ## Sets of keywords -/

/-- The keywords of a list as a set. Neither the blanks around a keyword nor the kind of blanks between its words count. -/
def keywordSet (types : List String) : Finset (List Char) := (types.map fun t => collapse t.toList).toFinset

theorem mem_keywordSet {u : List Char} : u ∈ keywordSet types ↔ ∃ t ∈ types, collapse t.toList = u := by
  rw [keywordSet, List.mem_toFinset, List.mem_map]

theorem keywordSet_append : keywordSet (types ++ types') = keywordSet types ∪ keywordSet types' := by
  rw [keywordSet, List.map_append, List.toFinset_append, keywordSet, keywordSet]

theorem keywordSet_eq_empty_iff : keywordSet types = ∅ ↔ types = [] := by
  rw [keywordSet, List.toFinset_eq_empty_iff, List.map_eq_nil_iff]

/-- The set of the texts decides which keywords a canonical list holds. -/
theorem mem_keywords_iff : k ∈ keywords types ↔ AreWords k ∧ [' '].intercalate k ∈ keywordSet types := by
  rw [mem_keywords, mem_keywordSet]
  constructor
  · rintro ⟨t, ht, rfl⟩
    exact ⟨areWords_words t.toList, t, ht, (join_words t.toList).symm⟩
  · rintro ⟨hk, t, ht, heq⟩
    exact ⟨t, ht, by rw [← words_collapse, heq, words_join hk]⟩

theorem keywords_eq_of_keywordSet (h : keywordSet types = keywordSet types') : keywords types = keywords types' :=
  keywords_congr fun k => by rw [mem_keywords_iff, mem_keywords_iff, h]

theorem eq_nil_iff_of_keywordSet (h : keywordSet types = keywordSet types') : types = [] ↔ types' = [] := by
  rw [← keywordSet_eq_empty_iff, h, keywordSet_eq_empty_iff]

/-- A keyword of nothing but blanks is the empty text in the set. -/
theorem exists_trim_eq_nil_iff : (∃ t ∈ types, trim t.toList = []) ↔ [] ∈ keywordSet types := by
  rw [mem_keywordSet]
  refine exists_congr fun t => and_congr_right fun _ => ?_
  rw [trim_eq_nil_iff, show ([] : List Char) = collapse [] from rfl, collapse_eq_collapse_iff]
  rfl

/-! ## Settings -/

/-- The settings name the same keywords, list by list. -/
structure SameKeywords (s s' : Settings) : Prop where
  int : keywordSet s.intTypes = keywordSet s'.intTypes
  char : keywordSet s.charTypes = keywordSet s'.charTypes
  float : keywordSet s.floatTypes = keywordSet s'.floatTypes

theorem SameKeywords.pointer (h : SameKeywords s s') : keywordSet s.types = keywordSet s'.types := by
  simp only [Settings.types, keywordSet_append, h.int, h.char, h.float]

theorem Settings.fault?_congr (halphabet : s.alphabet = s'.alphabet) (h : SameKeywords s s') : s.fault? = s'.fault? := by
  have hblank : (s.types.any fun k => trim k.toList = []) = s'.types.any fun k => trim k.toList = [] := by
    rw [Bool.eq_iff_iff, List.any_eq_true, List.any_eq_true]
    simp only [decide_eq_true_eq]
    rw [exists_trim_eq_nil_iff, exists_trim_eq_nil_iff, h.pointer]
  delta Settings.fault?
  rw [halphabet, hblank]

theorem pointerDeclaration_congr (h : keywordSet types = keywordSet types') :
    pointerDeclaration types = pointerDeclaration types' := by
  rw [pointerDeclaration, pointerDeclaration, keywords_eq_of_keywordSet h]

theorem declaration_congr (h : keywordSet types = keywordSet types') : declaration types = declaration types' := by
  rw [declaration, declaration, keywords_eq_of_keywordSet h]

theorem declarationPasses_congr (h : SameKeywords s s') : declarationPasses s = declarationPasses s' := by
  simp only [declarationPasses, pointerDeclaration_congr h.pointer, declaration_congr h.int, declaration_congr h.char,
    declaration_congr h.float, eq_nil_iff_of_keywordSet h.pointer, eq_nil_iff_of_keywordSet h.int,
    eq_nil_iff_of_keywordSet h.char, eq_nil_iff_of_keywordSet h.float]

theorem passes_congr (hs : s.dialect = .cFamily) (hs' : s'.dialect = .cFamily) (h : SameKeywords s s') :
    s.passes = s'.passes := by
  rw [Settings.passes, hs, Settings.passes, hs']
  change cPasses s = cPasses s'
  rw [cPasses, cPasses, declarationPasses_congr h]

theorem build_map_congr {α : Type} {f : Tokenizer → α} (hfault : s.fault? = s'.fault?)
    (h : ∀ t t', t.settings = s → t'.settings = s' → f t = f t') : (build s).map f = (build s').map f := by
  unfold build
  split
  case h_1 fault hs =>
    split
    case h_1 fault' hs' =>
      obtain rfl := Option.some.inj (hs.symm.trans (hfault.trans hs'))
      rfl
    case h_2 hs' => exact nomatch hs.symm.trans (hfault.trans hs')
  case h_2 hs =>
    split
    case h_1 fault' hs' => exact nomatch hs.symm.trans (hfault.trans hs')
    case h_2 hs' => exact congrArg Except.ok (h ⟨s, hs⟩ ⟨s', hs'⟩ rfl rfl)

/-! ## Alternations -/

/-- The keywords that the passes for declarations try, pass by pass. A pointer may point to no type at all. -/
def alternations (s : Settings) : List (List Keyword) :=
  let group (last : List Keyword) (types : List String) : List (List Keyword) :=
    if types = [] then [] else [keywords types ++ last]
  group [["void".toList]] s.types ++ group [] s.charTypes ++ group [] s.floatTypes ++ group [] s.intTypes

/-- At the edge of a word the pass tries the keywords one after the other. -/
def Pass.Alternates (p : Pass) (ks : List Keyword) : Prop :=
  ∃ rest category, p =
    .construct p.name (all [wordEdge, part .token (all (any (ks.map Statement.keyword) :: rest)), declarationEnd]) category

/-- The first keyword is the second one with further words. -/
def Extends (k j : Keyword) : Prop := ∃ more, more ≠ [] ∧ k = j ++ more

theorem alternates_pointerDeclaration (name : String) (category : Category) (types : List String) :
    (Pass.construct name (pointerDeclaration types) category).Alternates (keywords types ++ [["void".toList]]) := by
  have hvoid : (keywords types ++ [["void".toList]]).map Statement.keyword =
      (keywords types).map Statement.keyword ++ [text "void"] := List.map_append
  unfold Pass.Alternates
  rw [hvoid]
  exact ⟨_, category, rfl⟩

theorem alternates_declaration (name : String) (category : Category) (types : List String) :
    (Pass.construct name (declaration types) category).Alternates (keywords types ++ []) := by
  rw [List.append_nil]
  exact ⟨_, category, rfl⟩

theorem forall₂_alternates (s : Settings) : List.Forall₂ Pass.Alternates (declarationPasses s) (alternations s) := by
  have group : ∀ {p : Pass} {ks : List Keyword} (types : List String), p.Alternates ks →
      List.Forall₂ Pass.Alternates (if types = [] then [] else [p]) (if types = [] then [] else [ks]) := by
    intro p ks types h
    split
    · exact .nil
    · exact .cons h .nil
  refine List.rel_append (List.rel_append (List.rel_append ?_ ?_) ?_) ?_
  · exact group s.types (alternates_pointerDeclaration _ _ s.types)
  · exact group s.charTypes (alternates_declaration _ _ s.charTypes)
  · exact group s.floatTypes (alternates_declaration _ _ s.floatTypes)
  · exact group s.intTypes (alternates_declaration _ _ s.intTypes)

theorem not_extends_self (k : Keyword) : ¬ Extends k k := by
  rintro ⟨more, hne, heq⟩
  exact hne (List.self_eq_append_right.1 heq)

theorem not_extends_keywords (types : List String) : (keywords types).Pairwise fun j k => ¬ Extends k j := by
  refine (pairwise_keywords types).imp_of_mem fun {j k} _ hk hlt => ?_
  rintro ⟨more, hne, rfl⟩
  have hmore : AreWords more := fun w hw => areWords_of_mem_keywords hk w (List.mem_append_right j hw)
  exact hlt.asymm (comesBefore_iff.1 (comesBefore_of_extends hmore hne))

/-- A single word extends nothing but the keyword without words, which is in no list that can be used. -/
theorem not_extends_word (h : ∀ t ∈ types, trim t.toList ≠ []) (w : List Char) :
    ∀ j ∈ keywords types, ¬ Extends [w] j := by
  rintro j hj ⟨more, hne, heq⟩
  obtain ⟨t, ht, rfl⟩ := mem_keywords.1 hj
  obtain ⟨hnil, -⟩ | ⟨-, hnil⟩ := List.append_eq_singleton_iff.1 heq.symm
  · exact h t ht (trim_eq_nil_iff.2 hnil)
  · exact hne hnil

theorem pairwise_alternations (hs : s.fault? = none) : ∀ ks ∈ alternations s, ks.Pairwise fun j k => ¬ Extends k j := by
  have group : ∀ (last : List Keyword) (types : List String),
      ((keywords types ++ last).Pairwise fun j k => ¬ Extends k j) →
        ∀ ks ∈ (if types = [] then [] else [keywords types ++ last]), ks.Pairwise fun j k => ¬ Extends k j := by
    intro last types h ks hks
    split at hks
    · exact nomatch hks
    · exact List.mem_singleton.1 hks ▸ h
  have hnumber : ∀ types, (keywords types ++ []).Pairwise fun j k => ¬ Extends k j := fun types => by
    rw [List.append_nil]
    exact not_extends_keywords types
  have hpointer : (keywords s.types ++ [["void".toList]]).Pairwise fun j k => ¬ Extends k j := by
    -- `void` comes last, whatever the keywords are: as a single word it extends none of them.
    refine List.pairwise_append.2 ⟨not_extends_keywords s.types, List.pairwise_singleton _ _, fun j hj k hk => ?_⟩
    rw [List.mem_singleton.1 hk]
    exact not_extends_word (Settings.fault?_eq_none_iff.1 hs).2 _ j hj
  unfold alternations
  simp only [List.forall_mem_append]
  exact ⟨⟨⟨group _ _ hpointer, group _ _ (hnumber _)⟩, group _ _ (hnumber _)⟩, group _ _ (hnumber _)⟩

/-- Where no keyword extends an earlier one, a keyword that extends another stands before it. -/
theorem lt_of_extends (h : ks.Pairwise fun j k => ¬ Extends k j) (hk : ks[a]? = some k) (hj : ks[b]? = some j)
    (hext : Extends k j) : a < b := by
  by_contra hle
  obtain ⟨ha, rfl⟩ := List.getElem?_eq_some_iff.1 hk
  obtain ⟨hb, rfl⟩ := List.getElem?_eq_some_iff.1 hj
  obtain heq | hlt := Nat.eq_or_lt_of_le (not_lt.1 hle)
  · subst heq
    exact not_extends_self _ hext
  · exact List.pairwise_iff_getElem.1 h b a hb ha hlt hext

/-! ## Tokens -/

/-- **Lists of type keywords are sets.** Settings for the C family with one alphabet and, list by list, the same keywords
give the same tokens for every source, or none for the same reason. In the alternation of each pass for declarations a
keyword that extends another one by further words comes before it. -/
theorem tokenize_of_sameKeywords :
    (∀ s s' : Settings, s.dialect = .cFamily → s'.dialect = .cFamily → s.alphabet = s'.alphabet → SameKeywords s s' →
      ∀ source, (build s).map (·.tokenize source) = (build s').map (·.tokenize source)) ∧
      ∀ t : Tokenizer, List.Forall₂ Pass.Alternates (declarationPasses t.settings) (alternations t.settings) ∧
        ∀ ks ∈ alternations t.settings, ∀ (a b : Nat) (k j : Keyword),
          ks[a]? = some k → ks[b]? = some j → Extends k j → a < b := by
  constructor
  · intro s s' hs hs' halphabet h source
    refine build_map_congr (Settings.fault?_congr halphabet h) fun t t' ht ht' => ?_
    have hpasses : t.passes = t'.passes := by
      rw [passes, passes, ht, ht', passes_congr hs hs' h]
    rw [tokenize, tokenize, write, write, alphabet, alphabet, ht, ht', halphabet, classes, classes, run, run, hpasses]
  · intro t
    exact ⟨forall₂_alternates t.settings, fun ks hks a b k j => lt_of_extends (pairwise_alternations t.usable ks hks)⟩

/-- The keywords in another order, one of them twice and with other blanks. -/
theorem tokenize_of_sameKeywords_unsigned :
    (let s : Settings := ⟨.cFamily, .default, ["unsigned", "unsigned long", "a+"], [], ["float"]⟩
      let s' : Settings := ⟨.cFamily, .default, ["a+", " unsigned\t  long", "unsigned", "a+ "], [], ["float"]⟩
      SameKeywords s s' ∧ ∀ source, (build s).map (·.tokenize source) = (build s').map (·.tokenize source)) ∧
      ∃ t : Tokenizer, ∃ ks ∈ alternations t.settings, ∃ a b : Nat,
        ks[a]? = some ["unsigned".toList, "long".toList] ∧ ks[b]? = some ["unsigned".toList] ∧ a < b := by
  constructor
  · have h : SameKeywords ⟨.cFamily, .default, ["unsigned", "unsigned long", "a+"], [], ["float"]⟩
        ⟨.cFamily, .default, ["a+", " unsigned\t  long", "unsigned", "a+ "], [], ["float"]⟩ :=
      ⟨by decide +kernel, rfl, rfl⟩
    exact ⟨h, tokenize_of_sameKeywords.1 _ _ rfl rfl rfl h⟩
  · let t : Tokenizer := ⟨⟨.cFamily, .default, ["unsigned", "unsigned long"], [], []⟩, by decide +kernel⟩
    have hks : alternations t.settings = [[["unsigned".toList, "long".toList], ["unsigned".toList], ["void".toList]],
        [["unsigned".toList, "long".toList], ["unsigned".toList]]] := by decide +kernel
    refine ⟨t, _, hks ▸ List.mem_cons_self, 0, 1, rfl, rfl, ?_⟩
    exact (tokenize_of_sameKeywords.2 t).2 _ (hks ▸ List.mem_cons_self) 0 1 _ _ rfl rfl ⟨["long".toList], nofun, rfl⟩

end SourceLikeness.Tokenizer
