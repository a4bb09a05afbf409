import SourceLikeness.Proofs.Checked.Passes
import SourceLikeness.Proofs.Renaming.Statement
import SourceLikeness.Proofs.Tokenizer.Invariants

/-!
# No check fails

The pass for switches with all checks, and the tokenizer put together from the checked passes.

* `SwitchStatement.closingBrace?`, `caseEnd?`, `startsWord?` : the two scans for the end of a block, which count depths
  down, and the comparison with a word, which looks at the text from an offset on and at the character before it;
* `SwitchStatement.applied?_eq` : the spans of a switch are in order and lie in the text;
* `Action.applied?_eq`, `runPass?_eq` : what a pass does, with all checks;
* `tokenize?_eq` : the tokenizer with all checks gives the token stream of every source.
-/

namespace SourceLikeness.Tokenizer
open Text (isAsciiWord isLayout)
open WorkingCopy (Edits claim?_eq take?_eq size_eq_length_text foldlM_eq)
variable {w : Work}

/-! ## Switch statements -/

namespace SwitchStatement

/-- Where the block is closed that stands open `depth` deep at the start of a text. The depth is taken down by one
before it is compared with zero. -/
def closingBrace? (depth offset : Nat) : List Char → Option (Option Nat)
  | [] => some none
  | c :: rest =>
    if c = '\x7b' then closingBrace? (depth + 1) (offset + 1) rest
    else if c = '\x7d' then do
      let depth ← sub? depth 1
      if depth = 0 then some (some offset) else closingBrace? depth (offset + 1) rest
    else closingBrace? depth (offset + 1) rest

/-- The character before an offset. There is none at the start of the text. -/
def charBefore? (s : List Char) (i : Nat) : Option (Option Char) := if i = 0 then some none else (sub? i 1).map (s[·]?)

/-- Whether a word stands at an offset of a text, and no word goes on before or behind it. -/
def startsWord? (word : String) (s : List Char) (i : Nat) : Option Bool := do
  let rest ← from? s i
  let before ← charBefore? s i
  some (word.toList.isPrefixOf rest && !before.any isAsciiWord && !s[i + word.toList.length]?.any isAsciiWord)

/-- Where a case ends, looked for from an offset of a text on. -/
def caseEnd? (s : List Char) (depth i : Nat) : List Char → Option (Option Nat)
  | [] => some none
  | c :: rest =>
    if c = '\x7b' then caseEnd? s (depth + 1) (i + 1) rest
    else if c = '\x7d' then
      if depth = 0 then some (some i)
      else do
        let depth ← sub? depth 1
        caseEnd? s depth (i + 1) rest
    else if depth = 0 then do
      let atCase ← startsWord? "case" s i
      let atDefault ← startsWord? "default" s i
      if c == WorkingCopy.switchEnd || atCase || atDefault then some (some i) else caseEnd? s depth (i + 1) rest
    else caseEnd? s depth (i + 1) rest

def applyLabel? (stop : Nat) (w : Work) (label : Span) : Option Work :=
  if w.admits label then do
    let w ← w.take? .conditional label WorkingCopy.terminator
    let text := w.text
    let rest ← from? text label.stop
    let body := label.stop + (rest.takeWhile isLayout).length
    if text[body]? = some '\x7b' then some w
    else do
      let found ← caseEnd? text 0 body (text.drop body)
      some ((w.mark .openBrace label.stop).mark .closeBrace (found.getD stop))
  else some w

/-- The readings of a pattern inside a span, which is cut out of the text. -/
def tokensWithin? (p : Pattern) (region : Span) (text : List Char) : Option (List Span) := do
  let part ← slice? text region
  some ((p.readings part).map fun hit => hit.token.shift region.start)

def applyRegion? (header : Span) (stop : Nat) (w : Work) : Option Work := do
  let region : Span := ⟨header.stop, stop⟩
  let w ← w.claim? ⟨stop, stop + 1⟩ WorkingCopy.switchEnd
  let breaks ← tokensWithin? caseBreak region w.text
  let w ← breaks.foldlM (·.claim? · WorkingCopy.masked) w
  let w ← w.claim? header WorkingCopy.terminator
  let labels ← tokensWithin? label region w.text
  labels.foldlM (applyLabel? stop) w

def applyHeader? (w : Work) (header : Span) : Option Work :=
  if w.isClaimed header then some w
  else do
    match ← closingBrace? 1 header.stop (w.text.drop header.stop) with
    | none => some w
    | some stop => applyRegion? header stop w

def applied? (w : Work) : Option Work := ((header.readings w.text).map Hit.whole).foldlM applyHeader? w

/-! ## The scans -/

/-- The scan starts one deep and ends as soon as it is no longer, so that the depth is never taken below zero. -/
theorem closingBrace?_eq {depth : Nat} (hdepth : 0 < depth) (offset : Nat) (s : List Char) :
    closingBrace? depth offset s = some (closingBrace depth offset s) := by
  induction s generalizing depth offset with
  | nil => rfl
  | cons c rest ih =>
    unfold closingBrace? closingBrace
    split_ifs with hopen hclose hle
    · exact ih (Nat.succ_pos _) _
    · rw [sub?_eq hdepth, Option.bind_eq_bind, Option.bind_some, if_pos (Nat.sub_eq_zero_of_le hle)]
    · have hpos : 0 < depth - 1 := by omega
      rw [sub?_eq hdepth, Option.bind_eq_bind, Option.bind_some, if_neg (Nat.ne_of_gt hpos)]
      exact ih hpos _
    · exact ih hdepth _

theorem charBefore?_eq (s : List Char) (i : Nat) : charBefore? s i = some (charBefore s i) := by
  cases i with
  | zero => rfl
  | succ n =>
    rw [charBefore?, if_neg (Nat.succ_ne_zero n), sub?_eq (Nat.le_add_left 1 n)]
    rfl

theorem startsWord?_eq {s : List Char} (hs : AllAscii s) (word : String) {i : Nat} (hi : i ≤ s.length) :
    startsWord? word s i = some (startsWord word (charBefore s i) (s.drop i)) := by
  rw [startsWord?, hs.from?_eq hi, charBefore?_eq, startsWord, List.drop_drop, List.head?_drop]
  rfl

theorem caseEnd?_eq {s : List Char} (hs : AllAscii s) (depth : Nat) {i : Nat} {rest : List Char} (hrest : s.drop i = rest) :
    caseEnd? s depth i rest = some (caseEnd depth i (charBefore s i) rest) := by
  induction rest generalizing depth i with
  | nil => rfl
  | cons c rest ih =>
    have hi : i < s.length := by
      have hlength := congrArg List.length hrest
      rw [List.length_drop, List.length_cons] at hlength
      omega
    have hc : charBefore s (i + 1) = some c := by
      have hhead := congrArg List.head? hrest
      rwa [List.head?_drop] at hhead
    have hnext : ∀ depth, caseEnd? s depth (i + 1) rest = some (caseEnd depth (i + 1) (some c) rest) := by
      intro depth
      rw [← hc]
      refine ih depth ?_
      rw [← List.tail_drop, hrest, List.tail_cons]
    unfold caseEnd? caseEnd
    rw [startsWord?_eq hs "case" (Nat.le_of_lt hi), startsWord?_eq hs "default" (Nat.le_of_lt hi), hrest]
    simp only [Option.bind_eq_bind, Option.bind_some, hnext]
    by_cases hopen : c = '\x7b'
    · rw [if_pos hopen, if_pos hopen]
    rw [if_neg hopen, if_neg hopen]
    by_cases hzero : depth = 0
    · simp only [hzero, if_true, decide_true, Bool.true_and]
      split_ifs <;> rfl
    · rw [sub?_eq (Nat.pos_of_ne_zero hzero)]
      simp only [hzero, if_false, decide_false, Bool.false_and, Option.bind_some]
      split_ifs <;> simp_all

/-! ## The spans of a switch -/

theorem applyLabel?_eq (hw : AllAscii w.text) (stop : Nat) {label : Span} (hlabel : label.Within 0 w.text.length) :
    applyLabel? stop w label = some (applyLabel stop w label) := by
  have htake : Edits w (w.take .conditional label WorkingCopy.terminator) := .take .refl _ _ isAscii_terminator
  have hascii := htake.allAscii hw
  have hstop := hlabel.stop_le
  rw [← size_eq_length_text, ← htake.grows.size_eq, size_eq_length_text] at hstop
  unfold applyLabel? applyLabel
  simp only [take?_eq hw, hascii.from?_eq hstop, caseEnd?_eq hascii 0 rfl, Option.bind_eq_bind, Option.bind_some]
  split_ifs <;> rfl

theorem tokensWithin?_eq {s : List Char} (hs : AllAscii s) (p : Pattern) {region : Span} (hregion : region.Within 0 s.length) :
    tokensWithin? p region s = some (tokensWithin p region s) := by
  rw [tokensWithin?, hs.slice?_eq hregion.start_le_stop hregion.stop_le]
  rfl

theorem applyRegion?_eq (hw : AllAscii w.text) {header : Span} {stop : Nat} (hregion : Span.Within 0 w.text.length ⟨header.stop, stop⟩) :
    applyRegion? header stop w = some (applyRegion header stop w) := by
  have hshell : Edits w (w.claim ⟨stop, stop + 1⟩ WorkingCopy.switchEnd) := .claim .refl _ isAscii_switchEnd
  have hregion' : ∀ {v : Work}, Edits w v → Span.Within 0 v.text.length ⟨header.stop, stop⟩ := by
    intro v hv
    rwa [← size_eq_length_text, hv.grows.size_eq, size_eq_length_text]
  have hclaim : ∀ (v : Work) (s : Span), Edits v (v.claim s WorkingCopy.masked) := fun v s =>
    .claim .refl s isAscii_masked
  unfold applyRegion? applyRegion
  dsimp only [Option.bind_eq_bind]
  rw [claim?_eq hw, Option.bind_some, tokensWithin?_eq (hshell.allAscii hw) _ (hregion' hshell), Option.bind_some]
  generalize tokensWithin caseBreak ⟨header.stop, stop⟩ _ = breaks
  have hbroken := hshell.foldl hclaim breaks
  have hheader := hbroken.claim header isAscii_terminator
  rw [foldlM_eq hclaim (hshell.allAscii hw) fun v _ hv s _ => claim?_eq hv s WorkingCopy.masked, Option.bind_some,
    claim?_eq (hbroken.allAscii hw), Option.bind_some, tokensWithin?_eq (hheader.allAscii hw) _ (hregion' hheader),
    Option.bind_some]
  refine foldlM_eq (edits_applyLabel stop) (hheader.allAscii hw) fun v hv hascii q hq => applyLabel?_eq hascii stop ?_
  have hwithin := (within_of_mem_tokensWithin (hregion' hheader).start_le_stop hq).mono (Nat.zero_le _) (hregion' hheader).stop_le
  rwa [← size_eq_length_text, ← hv.grows.size_eq, size_eq_length_text] at hwithin

theorem applyHeader?_eq (hw : AllAscii w.text) (header : Span) : applyHeader? w header = some (applyHeader w header) := by
  unfold applyHeader? applyHeader
  rw [closingBrace?_eq Nat.one_pos, Option.bind_eq_bind, Option.bind_some]
  split_ifs
  · rfl
  · cases hstop : closingBrace 1 header.stop (w.text.drop header.stop) with
    | none => rfl
    | some stop =>
      -- The closing brace stands behind the header and inside the text.
      obtain ⟨hle, hget⟩ := getElem?_closingBrace hstop
      rw [List.getElem?_drop, Nat.add_sub_cancel' hle] at hget
      have hlt := (List.getElem?_eq_some_iff.1 hget).1
      exact applyRegion?_eq hw ⟨Nat.zero_le _, hle, Nat.le_of_lt hlt⟩

theorem applied?_eq (hw : AllAscii w.text) : applied? w = some (apply w) :=
  foldlM_eq edits_applyHeader hw fun _ _ hascii header _ => applyHeader?_eq hascii header

end SwitchStatement

/-! ## All passes -/

def Action.applied? : Action → Work → Option Work
  | .erase finder fill, w => Tokenizer.erase? finder fill w
  | .classify finder category fill swallows, w => Tokenizer.classify? finder category fill swallows w
  | docstrings, w => Docstring.applied? w
  | conditionalExpressions, w => ConditionalExpression.applied? w
  | bareBodies, w => BareBody.applied? w
  | switches, w => SwitchStatement.applied? w
  | compoundAssignments, w => CompoundAssignment.applied? w

/-- One pass. The number of tokens that it recorded is the difference of two. -/
def runPass? (w : Work) (p : Pass) : Option Work := do
  let after ← p.action.applied? w
  let _ ← sub? after.tokens.length w.tokens.length
  some after

/-- The token stream of a source, if no check fails. -/
def tokenize? (t : Tokenizer) (source : List Char) : Option (List (Token Char)) := do
  let w ← t.passes.foldlM runPass? (.ofSource source)
  some (t.write (Token.stream w.tokens))

theorem Action.applied?_eq {a : Action} (h : a.IsPlain) (hw : AllAscii w.text) : a.applied? w = some (a.apply w) := by
  cases a with
  | erase finder fill => exact erase?_eq hw finder h
  | classify finder category fill swallows => exact classify?_eq hw finder category h swallows
  | docstrings => exact Docstring.applied?_eq hw
  | conditionalExpressions => exact ConditionalExpression.applied?_eq hw
  | bareBodies => exact BareBody.applied?_eq hw
  | switches => exact SwitchStatement.applied?_eq hw
  | compoundAssignments => exact CompoundAssignment.applied?_eq hw

theorem runPass?_eq {p : Pass} (h : p.action.IsPlain) (hw : AllAscii w.text) : runPass? w p = some (p.apply w) := by
  have htokens : w.tokens.length ≤ (p.action.apply w).tokens.length := (Action.edits_apply h w).grows.tokens.length_le
  rw [runPass?, Action.applied?_eq h hw, Option.bind_eq_bind, Option.bind_some, sub?_eq htokens]
  rfl

theorem foldlM_runPass?_eq {passes : List Pass} (h : ∀ p ∈ passes, p.action.IsPlain) (hw : AllAscii w.text) :
    passes.foldlM runPass? w = some (runPasses passes w) := by
  induction passes generalizing w with
  | nil => rfl
  | cons p ps ih =>
    obtain ⟨hp, hps⟩ := List.forall_mem_cons.1 h
    rw [List.foldlM_cons, runPass?_eq hp hw, Option.bind_eq_bind, Option.bind_some]
    exact ih hps ((Action.edits_apply hp w).allAscii hw)

/-- **The tokenizer never fails.** With a check at every slice, at every offset that is used and at every difference, the
passes of a tokenizer go through on every source, and the token stream is the one without the checks. -/
theorem tokenize?_eq (t : Tokenizer) (source : List Char) : t.tokenize? source = some (t.tokenize source) := by
  have hplain : ∀ p ∈ t.passes, p.action.IsPlain := fun p hp => isPlain_of_mem_passes hp
  rw [tokenize?, foldlM_runPass?_eq hplain (WorkingCopy.ascii_ofSource source)]
  rfl

end SourceLikeness.Tokenizer
