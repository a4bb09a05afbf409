import SourceLikeness.Proofs.Pattern.Evaluation
import SourceLikeness.Proofs.Pattern.Within
import SourceLikeness.Proofs.WorkingCopy.Edit
import SourceLikeness.Tokenizer.BareBody
import SourceLikeness.Tokenizer.ConditionalExpression
import SourceLikeness.Tokenizer.SwitchStatement

/-!
# Where things stand that passes find

* `ConditionalExpression.Sections`, `ConditionalExpression.exists_sections` : the pieces of a conditional expression and the
  places between them;
* `BareBody.within_of_mem_bodies` : bodies without braces, those behind a header in the text from the header on;
* `SwitchStatement.within_of_mem_tokensWithin` : what is found in a region of a text.
-/

namespace SourceLikeness.Tokenizer
variable {s : List Char}

namespace ConditionalExpression
open Pattern
open Text (charBefore)
variable {c m n k d : Cursor} {h : Hit}

/-! ## Conditional expressions -/

/-- What says where the value goes. -/
def target : Pattern := any [part .assigned (text "="), part .returned (word ["return"])]

def lead : Pattern := opt target

def thenBranch : Pattern := all [text "?", plus (noneOf ":;")]

def elseBranch : Pattern := all [text ":", plus (noneOf ";"), text ";"]

def branches : Pattern := all [part .thenBranch thenBranch, part .elseBranch elseBranch]

/-- What a conditional expression is from its condition on. -/
def body : Pattern := seq (part .condition condition) branches

theorem pattern_eq : finder.pattern = seq blanks (seq lead body) := rfl

/-- The pieces of a hit: its condition goes from `c` to `m`, the branches from there to `n` and on to `k`. -/
structure Sections (h : Hit) (c m n k : Cursor) : Prop where
  condition : condition.Reads c m
  thenBranch : thenBranch.Reads (c.note .condition m) n
  elseBranch : elseBranch.Reads ((c.note .condition m).note .thenBranch n) k
  stop : h.whole.stop = k.offset
  condition? : h.part? .condition = some ⟨c.offset, m.offset⟩
  thenBranch? : h.part? .thenBranch = some ⟨m.offset, n.offset⟩
  elseBranch? : h.part? .elseBranch = some ⟨n.offset, k.offset⟩

theorem exists_sections (hbody : body.Reads c d) (hstop : h.whole.stop = d.offset) (hparts : h.parts = d.parts) :
    ∃ m n k, Sections h c m n k := by
  obtain ⟨_, ⟨m, hcondition, rfl⟩, _, ⟨n, hthen, rfl⟩, k, helse, rfl⟩ := hbody
  have hthenParts : n.parts = (.condition, ⟨c.offset, m.offset⟩) :: m.parts := hthen.parts_eq rfl
  have helseParts : k.parts = (.thenBranch, ⟨m.offset, n.offset⟩) :: n.parts := helse.parts_eq rfl
  have hall : h.parts = (.elseBranch, ⟨n.offset, k.offset⟩) :: (.thenBranch, ⟨m.offset, n.offset⟩) ::
      (.condition, ⟨c.offset, m.offset⟩) :: m.parts := by
    rw [hparts, ← hthenParts, ← helseParts]
    rfl
  have hpart? : ∀ name, h.part? name = List.lookup name ((.elseBranch, ⟨n.offset, k.offset⟩) ::
      (.thenBranch, ⟨m.offset, n.offset⟩) :: (.condition, ⟨c.offset, m.offset⟩) :: m.parts) := fun name => by
    rw [Hit.part?, hall]
  exact ⟨m, n, k, hcondition, hthen, helse, hstop, hpart? _, hpart? _, hpart? _⟩

namespace Sections
variable (hs : Sections h c m n k) (hc : c.In s)
include hs hc

theorem in_question : (c.note .condition m).In s ∧ c.offset ≤ m.offset := by
  obtain ⟨hm, hle⟩ := hs.condition.mem hc
  exact ⟨hm.note _ c, hle⟩

theorem in_colon : ((c.note .condition m).note .thenBranch n).In s ∧ m.offset ≤ n.offset := by
  obtain ⟨hn, hle⟩ := hs.thenBranch.mem (hs.in_question hc).1
  exact ⟨hn.note _ _, hle⟩

theorem question : s[m.offset]? = some '?' := by
  obtain ⟨_, htext, -⟩ := hs.thenBranch
  exact (hs.in_question hc).1.head?.symm.trans (head?_of_reads_text (t := "?") rfl htext)

theorem colon : s[n.offset]? = some ':' := by
  obtain ⟨_, htext, -⟩ := hs.elseBranch
  exact (hs.in_colon hc).1.head?.symm.trans (head?_of_reads_text (t := ":") rfl htext)

theorem lt_stop : n.offset < k.offset := hs.elseBranch.lt_of_solid (hs.in_colon hc).1 (by decide)

/-- The last character is a semicolon. -/
theorem semicolon : charBefore s k.offset = some ';' := by
  obtain ⟨hk, -⟩ := hs.elseBranch.mem (hs.in_colon hc).1
  obtain ⟨_, -, _, -, y, rest, -, hy, rfl⟩ := hs.elseBranch
  exact hk.before.symm.trans (congrArg some (holds_char_iff.1 hy))

end Sections

end ConditionalExpression

/-! ## Bodies without braces -/

namespace BareBody

theorem length_hide (s : List Char) (p : Span) : (hide s p).length = s.length := WorkingCopy.length_mapSpan _ _ _

theorem getElem?_hide (s : List Char) (p : Span) (i : Nat) :
    (hide s p)[i]? = if p.start ≤ i ∧ i < p.stop then s[i]?.map fun _ => '.' else s[i]? := by
  rw [hide, WorkingCopy.mapSpan_eq, getElem?_window]
  refine if_congr ?_ rfl rfl
  omega

theorem length_withoutHeaders (s : List Char) : (withoutHeaders s).length = s.length := by
  unfold withoutHeaders
  induction (forHeader.readings s).map Hit.token generalizing s with
  | nil => rfl
  | cons p ps ih => exact (ih (hide s p)).trans (length_hide s p)

theorem within_of_mem_headedBodies {body : Span} (h : body ∈ headedBodies s) : body.Within 0 s.length := by
  obtain ⟨hit, hmem, hbody⟩ := List.mem_filterMap.1 h
  obtain ⟨hit', hread, rfl⟩ := Option.map_eq_some_iff.1 hbody
  have hstart := (Pattern.within_of_mem_readings hmem).whole
  have htoken := (Pattern.within_of_readStart hread).token
  have hstop := htoken.stop_le
  rw [List.length_drop] at hstop
  have hle := Nat.le_trans hstart.start_le_stop hstart.stop_le
  exact ⟨Nat.zero_le _, Nat.add_le_add_right htoken.start_le_stop _,
    by change hit'.token.stop + hit.whole.start ≤ _; omega⟩

/-- Bodies lie inside the text. -/
theorem within_of_mem_bodies {body : Span} (h : body ∈ bodies s) : body.Within 0 s.length := by
  rcases List.mem_append.1 h with h | h
  · rcases List.mem_append.1 h with h | h
    · obtain ⟨hit, hmem, rfl⟩ := List.mem_map.1 (List.mem_filter.1 h).1
      exact (Pattern.within_of_mem_readings hmem).token.mono (Nat.zero_le _) (Nat.le_refl _)
    · obtain ⟨hit, hmem, rfl⟩ := List.mem_map.1 h
      exact (Pattern.within_of_mem_readings hmem).token.mono (Nat.zero_le _) (Nat.le_refl _)
  · rw [← length_withoutHeaders s]
    exact within_of_mem_headedBodies h

end BareBody

/-! ## Switch statements -/

namespace SwitchStatement

/-- What is found in a region lies in it. -/
theorem within_of_mem_tokensWithin {p : Pattern} {region q : Span} (hregion : region.start ≤ region.stop)
    (hq : q ∈ tokensWithin p region s) : q.Within region.start region.stop := by
  obtain ⟨hit, hmem, rfl⟩ := List.mem_map.1 hq
  exact ((Pattern.within_of_mem_readings hmem).token.mono (Nat.zero_le _) (Nat.le_refl _)).shift hregion

end SwitchStatement
end SourceLikeness.Tokenizer
