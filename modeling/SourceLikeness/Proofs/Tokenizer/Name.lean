import SourceLikeness.Proofs.Pattern.Spots
import SourceLikeness.Proofs.Renaming.Pipeline

/-!
# Names

* `Name` : a name or a number that the passes for the C family cannot take for anything else;
* `Name.isWord`, `Name.not_leads` : it is a word, and not one of those that a pass looks for.
-/

namespace SourceLikeness.Tokenizer
open Text (isAsciiWord)

/-- A word that is not reserved and does not begin with `else`: a name or a number. -/
structure Name where
  text : String
  usable : (!text.toList.isEmpty && text.toList.all isAsciiWord && !(cWords.map String.toList).contains text.toList &&
    !"else".toList.isPrefixOf text.toList) = true := by decide

namespace Name

def chars (n : Name) : List Char := n.text.toList

theorem isWord (n : Name) : Leads.IsWord n.chars := by
  have h := n.usable
  simp only [Bool.and_eq_true, Bool.not_eq_true', List.isEmpty_eq_false_iff, List.all_eq_true] at h
  exact ⟨h.1.1.1, h.1.1.2⟩

theorem not_reserved (n : Name) : n.chars ∉ cWords.map String.toList := by
  have h := n.usable
  simp only [Bool.and_eq_true, Bool.not_eq_true'] at h
  rw [chars, ← List.contains_iff_mem, h.1.2]
  exact Bool.false_ne_true

theorem not_else (n : Name) : "else".toList.isPrefixOf n.chars = false := by
  have h := n.usable
  simp only [Bool.and_eq_true, Bool.not_eq_true'] at h
  exact h.2

/-- All words of the leads are reserved, and a word can begin like one of them with `else` only. -/
def covers (x : Leads) : Bool :=
  x.words.all (fun w => (cWords.map String.toList).contains w) && x.heads.all (· == "else".toList)

/-- A name is none of the words that a pass looks for. -/
theorem not_leads (n : Name) {x : Leads} (hx : covers x = true) : (Lexeme.word n.chars).leads x = false := by
  obtain ⟨hwords, hheads⟩ := Bool.and_eq_true_iff.1 hx
  rw [Lexeme.leads, Bool.or_eq_false_iff, ← Bool.not_eq_true, List.contains_iff_mem, ← Bool.not_eq_true, List.any_eq_true]
  refine ⟨fun hmem => ?_, fun hmem => ?_⟩
  · exact n.not_reserved (List.contains_iff_mem.1 (List.all_eq_true.1 hwords _ hmem))
  · obtain ⟨w, hw, hleads⟩ := hmem
    obtain rfl := beq_iff_eq.1 (List.all_eq_true.1 hheads w hw)
    rw [n.not_else] at hleads
    exact Bool.noConfusion hleads

end Name
end SourceLikeness.Tokenizer
