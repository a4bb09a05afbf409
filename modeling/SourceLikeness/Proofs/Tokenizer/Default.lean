import SourceLikeness.Proofs.WorkingCopy.Source
import SourceLikeness.Tokenizer.Pipeline

/-!
# The tokenizers of the dialects

* `ofDialect` : the tokenizer of a dialect when nothing is said;
* `text_ofSource_of_ascii` : it starts from the source itself if that is ASCII.
-/

namespace SourceLikeness

namespace WorkingCopy
variable {α : Type} {source : List Char}

theorem cells_ofSource_of_ascii (h : ∀ c ∈ source, IsAscii c) :
    (ofSource source : WorkingCopy α).cells = source.map (⟨·, false⟩) := by
  induction source with
  | nil => rfl
  | cons c source ih =>
    obtain ⟨hc, hsource⟩ := List.forall_mem_cons.1 h
    have hcells : cellsOf c = [⟨c, false⟩] := if_pos hc
    have hrest : source.flatMap cellsOf = source.map (⟨·, false⟩) := ih hsource
    change (c :: source).flatMap cellsOf = _
    rw [List.flatMap_cons, hcells, hrest]
    rfl

theorem text_ofSource_of_ascii (h : ∀ c ∈ source, IsAscii c) : (ofSource source : WorkingCopy α).text = source := by
  rw [text, cells_ofSource_of_ascii h, List.map_map]
  exact List.map_id _

end WorkingCopy

namespace Tokenizer

/-- The tokenizer of a dialect when nothing is said. -/
def ofDialect (d : Dialect) : Tokenizer := ⟨.ofDialect d, by cases d <;> decide⟩

end Tokenizer
end SourceLikeness
