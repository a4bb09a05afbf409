import SourceLikeness.Config.Document
import SourceLikeness.Proofs.Relabeling.Detector

/-!
# Configurations that can be used

A configuration is checked with the settings that it gives for the C family. That is enough for Python as well, whose
own lists of type keywords are empty.

* `Tokenizer.Settings.fault?_eq_none_iff` : what it means that settings have no fault;
* `Config.Flawed`, `Config.fault?_eq_none_iff` : the flaws of a configuration, said without the order of the checks;
* `Config.types_python_subset` : a type keyword in force for Python is in force for the C family;
* `Config.parse_eq_ok_iff` : a text is accepted if it spells a configuration without a flaw;
* `Config.parse_usable` : and then a detector can be built.
-/

namespace SourceLikeness
open Text (isBlank isControl trim)

namespace Tokenizer.Settings
variable {s : Settings}

theorem fault?_eq_none_iff : s.fault? = none ↔ s.alphabet.fault? = none ∧ ∀ k ∈ s.types, trim k.toList ≠ [] := by
  -- The equation of `fault?` is slow to make: it looks into all categories.
  delta fault?
  cases s.alphabet.fault? with
  | some fault => exact iff_of_false nofun fun h => nomatch h.1
  | none =>
    change (if s.types.any (fun k => trim k.toList = []) = true then some Fault.emptyKeyword else none) = none ↔ _
    rw [ite_eq_right_iff, and_iff_right rfl]
    simp only [List.any_eq_true, decide_eq_true_eq, reduceCtorEq, imp_false, not_exists, not_and, ne_eq]

end Tokenizer.Settings

namespace Config
variable {c : Config} {path : String} {text : List Char}

/-- A category is written as a blank or a control character, or two categories as one character, or a type keyword in
force for the C family holds nothing but blanks. -/
def Flawed (c : Config) : Prop :=
  (∃ k, isBlank (c.alphabet.symbol k) = true ∨ isControl (c.alphabet.symbol k) = true) ∨
    (∃ j k, j ≠ k ∧ c.alphabet.symbol j = c.alphabet.symbol k) ∨
    ∃ k ∈ (c.settings .cFamily).types, trim k.toList = []

/-- The configuration that a text spells, whether it can be used or not. -/
def spelled? (text : List Char) : Option Config := (Toml.read? text).bind ofToml?

/-- The check finds a fault exactly if there is a flaw. -/
theorem fault?_eq_none_iff (c : Config) : c.fault? = none ↔ ¬ c.Flawed := by
  have halphabet : (c.settings .cFamily).alphabet = c.alphabet := rfl
  rw [fault?, Tokenizer.Settings.fault?_eq_none_iff, halphabet, Alphabet.fault?_eq_none_iff, Flawed, not_or, not_or, and_assoc]
  refine and_congr ?_ (and_congr ?_ ?_)
  · simp only [Alphabet.IsSeen, not_exists, not_or, Bool.not_eq_true]
  · simp only [Function.Injective, not_exists, not_and, not_imp_not, ne_eq]
  · simp only [not_exists, not_and, ne_eq]

/-! ## Both dialects -/

theorem getD_subset {α : Type} (list : Option (List α)) (default : List α) : list.getD [] ⊆ list.getD default := by
  cases list with
  | none => exact List.nil_subset default
  | some list => exact List.Subset.refl list

/-- Lists that are given are in force for both dialects, and Python has no others. -/
theorem types_python_subset (c : Config) : (c.settings .python).types ⊆ (c.settings .cFamily).types := by
  intro k hk
  simp only [Tokenizer.Settings.types, List.mem_append] at hk ⊢
  refine hk.imp (Or.imp ?_ ?_) ?_
  · exact fun h => getD_subset c.intTypes _ h
  · exact fun h => getD_subset c.charTypes _ h
  · exact fun h => getD_subset c.floatTypes _ h

/-- Settings for the C family that can be used can be used for Python. -/
theorem usable_of_fault? (h : c.fault? = none) (dialect : Dialect) : (c.settings dialect).fault? = none := by
  cases dialect with
  | cFamily => exact h
  | python =>
    rw [fault?, Tokenizer.Settings.fault?_eq_none_iff] at h
    exact Tokenizer.Settings.fault?_eq_none_iff.2 ⟨h.1, fun k hk => h.2 k (types_python_subset c hk)⟩

theorem exists_build (h : c.fault? = none) :
    ∃ d, Detector.build c = .ok d ∧ ∀ dialect, (d.tokenizer dialect).settings = c.settings dialect := by
  have hsettings : ∀ dialect, (Detector.tokenizer ⟨c, ⟨_, usable_of_fault? h .cFamily⟩, ⟨_, usable_of_fault? h .python⟩⟩
      dialect).settings = c.settings dialect := fun dialect => by cases dialect <;> rfl
  exact ⟨_, Detector.build_eq_ok_iff.2 ⟨rfl, hsettings⟩, hsettings⟩

/-! ## Texts -/

/-- What spells a configuration is judged by its fault alone. -/
theorem parse_of_spelled? (path : String) (h : spelled? text = some c) : parse path text =
    match c.fault? with
    | some fault => .error (.config path fault.toFailure.message)
    | none => .ok c := by
  have hread : (Toml.read? text).bind ofToml? = some c := h
  delta parse
  generalize (Toml.read? text).bind ofToml? = read at hread ⊢
  subst hread
  rfl

theorem parse_of_not_spelled (path : String) (h : spelled? text = none) :
    parse path text = .error (.config path unreadable) := by
  delta parse
  rw [show (Toml.read? text).bind ofToml? = none from h]

theorem parse_eq_ok_iff : parse path text = .ok c ↔ spelled? text = some c ∧ ¬ c.Flawed := by
  rw [← fault?_eq_none_iff]
  cases hspelled : spelled? text with
  | none =>
    rw [parse_of_not_spelled path hspelled]
    exact iff_of_false nofun fun h => nomatch h.1
  | some c' =>
    rw [parse_of_spelled? path hspelled, Option.some.injEq]
    cases hfault : c'.fault? with
    | none =>
      constructor
      · intro h
        obtain rfl := Except.ok.inj h
        exact ⟨rfl, hfault⟩
      · rintro ⟨rfl, -⟩
        rfl
    | some fault =>
      refine iff_of_false nofun ?_
      rintro ⟨rfl, h⟩
      exact nomatch hfault.symm.trans h

/-- **A configuration that loads can be used.** For every text that is accepted a detector can be built, with the
settings of the configuration for either dialect. A text that spells a configuration is rejected exactly if that has a
flaw, and otherwise gives this configuration. -/
theorem parse_usable (path : String) (text : List Char) :
    (∀ c, parse path text = .ok c →
      ∃ d, Detector.build c = .ok d ∧ ∀ dialect, (d.tokenizer dialect).settings = c.settings dialect) ∧
      ∀ c, spelled? text = some c → ((∃ failure, parse path text = .error failure) ↔ c.Flawed) ∧
        (¬ c.Flawed → parse path text = .ok c) := by
  refine ⟨fun c h => exists_build ((fault?_eq_none_iff c).2 (parse_eq_ok_iff.1 h).2), fun c h => ?_⟩
  have hok : parse path text = .ok c ↔ ¬ c.Flawed := parse_eq_ok_iff.trans (and_iff_right h)
  refine ⟨⟨?_, fun hflawed => ?_⟩, hok.2⟩
  · rintro ⟨failure, hfailure⟩
    by_contra hsound
    exact nomatch (hok.2 hsound).symm.trans hfailure
  · cases hparse : parse path text with
    | error failure => exact ⟨failure, rfl⟩
    | ok c' =>
      obtain ⟨hspelled, hsound⟩ := parse_eq_ok_iff.1 hparse
      obtain rfl := Option.some.inj (h.symm.trans hspelled)
      exact absurd hflawed hsound

/-- Calls are written as `K`, which no other category is, or as `A`, which assignments are as well. -/
theorem parse_usable_calls :
    (∃ c d, parse "sleuth.toml" "[tokenizer]\nint_types = [\"i32\"]\nalphabet.call = \"K\"\n".toList = .ok c ∧
      Detector.build c = .ok d ∧ ∀ dialect, (d.tokenizer dialect).settings = c.settings dialect) ∧
      ∃ c failure, spelled? "[tokenizer.alphabet]\ncall = \"A\"\n".toList = some c ∧
        parse "sleuth.toml" "[tokenizer.alphabet]\ncall = \"A\"\n".toList = .error failure ∧ c.Flawed := by
  constructor
  · have hok : (parse "sleuth.toml" "[tokenizer]\nint_types = [\"i32\"]\nalphabet.call = \"K\"\n".toList).isOk = true := by
      decide +kernel
    generalize htext : "[tokenizer]\nint_types = [\"i32\"]\nalphabet.call = \"K\"\n".toList = text at hok ⊢
    cases hparse : parse "sleuth.toml" text with
    | error failure => rw [hparse] at hok; cases hok
    | ok c =>
      obtain ⟨d, hd⟩ := (parse_usable "sleuth.toml" text).1 c hparse
      exact ⟨c, d, rfl, hd⟩
  · have hspelled : (spelled? "[tokenizer.alphabet]\ncall = \"A\"\n".toList).isSome = true := by decide +kernel
    have herror : (parse "sleuth.toml" "[tokenizer.alphabet]\ncall = \"A\"\n".toList).isOk = false := by decide +kernel
    generalize htext : "[tokenizer.alphabet]\ncall = \"A\"\n".toList = text at hspelled herror ⊢
    obtain ⟨c, hc⟩ := Option.isSome_iff_exists.1 hspelled
    cases hparse : parse "sleuth.toml" text with
    | error failure => exact ⟨c, failure, hc, rfl, ((parse_usable "sleuth.toml" text).2 c hc).1.1 ⟨failure, hparse⟩⟩
    | ok c => rw [hparse] at herror; cases herror

end Config
end SourceLikeness
