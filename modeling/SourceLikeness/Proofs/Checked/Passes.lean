import SourceLikeness.Proofs.Checked.Basic
import SourceLikeness.Proofs.Pattern.Leads
import SourceLikeness.Proofs.Text.Cut
import SourceLikeness.Proofs.Tokenizer.Edits
import SourceLikeness.Proofs.Tokenizer.Places

/-!
# The passes with all checks

The passes once more, with an operation that can fail wherever an offset is used or a difference is taken. For each of
them, no check fails on a text of ASCII.

* `Finder.hitsWhere?` : the search, which slices the token of a hit to compare its first word;
* `erase?`, `classify?` : the passes that need a finder only;
* `Docstring.applied?`, `ConditionalExpression.applied?`, `BareBody.applied?`, `CompoundAssignment.applied?` : the passes with
  their own offsets;
* `Finder.hitsWhere?_eq`, `ConditionalExpression.applied?_eq`, … : all checks hold.
-/

namespace SourceLikeness
open Text (isAsciiWord isLayout trim trimStart pieces)
open WorkingCopy (Edits overwrite?_eq claim?_eq take?_eq size_eq_length_text foldlM_eq)

theorem mapM_eq_some {α β : Type} {f? : α → Option β} {f : α → β} {xs : List α} (h : ∀ x ∈ xs, f? x = some (f x)) :
    xs.mapM f? = some (xs.map f) := by
  induction xs with
  | nil => rfl
  | cons x xs ih =>
    obtain ⟨hx, hxs⟩ := List.forall_mem_cons.1 h
    rw [List.mapM_cons, hx, ih hxs]
    rfl

/-! ## Searching -/

namespace Finder
variable {f : Finder} {accept : Hit → Bool} {s : List Char}

/-- The word that a token begins with, cut off where it stops. -/
def leadingWord? (token : List Char) : Option (List Char) :=
  (cut? (utf8 (token.takeWhile isAsciiWord)).length token).map (·.1)

/-- Whether the token of a hit begins with a barred word. The token is a slice of the whole text. -/
def bars? (f : Finder) (h : Hit) (s : List Char) : Option Bool :=
  if f.barred = [] then some false
  else do
    let word ← leadingWord? (← slice? s h.token)
    some (f.barred.any fun w => w.toList == word)

def hitAt? (f : Finder) (accept : Hit → Bool) (s : List Char) (before : Option Char) (offset : Nat)
    (text : List Char) : Option (Option Hit) :=
  if f.before before then
    match f.pattern.read ⟨offset, before, text, []⟩ with
    | none => some none
    | some t =>
      let hit : Hit := ⟨⟨offset, t.offset⟩, t.parts⟩
      if f.after t.rest.head? then do
        let barred ← f.bars? hit s
        some (if !barred && accept hit then some hit else none)
      else some none
  else some none

def hitsFrom? (f : Finder) (accept : Hit → Bool) (s : List Char) (before : Option Char) (offset resume : Nat)
    (text : List Char) : Option (List Hit) :=
  let found := if offset < resume then some none else f.hitAt? accept s before offset text
  match text with
  | [] => found.map Option.toList
  | c :: rest =>
    found.bind fun
      | none => hitsFrom? f accept s (some c) (offset + 1) resume rest
      | some hit => (hitsFrom? f accept s (some c) (offset + 1) (f.resume hit) rest).map (hit :: ·)

def hitsWhere? (f : Finder) (accept : Hit → Bool) (s : List Char) : Option (List Hit) :=
  f.hitsFrom? accept s none 0 0 s

theorem leadingWord?_eq {token : List Char} (h : AllAscii token) : leadingWord? token = some (leadingWord token) := by
  have hword : token.takeWhile isAsciiWord = token.take (token.takeWhile isAsciiWord).length :=
    Text.takeWhile_eq_take isAsciiWord token
  rw [leadingWord?, (h.sublist (List.takeWhile_sublist _)).length_utf8, h.cut?_eq (List.takeWhile_sublist _).length_le,
    Option.map_some, ← hword, leadingWord]

theorem bars?_eq (hs : AllAscii s) {h : Hit} (hh : h.Within h.whole.start s.length) :
    f.bars? h s = some (f.bars h (s.drop h.whole.start)) := by
  have htoken := hh.token
  unfold bars? bars
  dsimp only
  rw [slice_drop htoken.le, hs.slice?_eq htoken.start_le_stop htoken.stop_le]
  split_ifs with hbarred
  · rw [hbarred]
    rfl
  · rw [Option.bind_eq_bind, Option.bind_some, leadingWord?_eq (hs.slice _)]
    rfl

theorem hitAt?_eq (hs : AllAscii s) {i : Nat} (hi : i ≤ s.length) :
    f.hitAt? accept s (Text.charBefore s i) i (s.drop i) = some (f.hitOf accept s i) := by
  unfold hitAt? hitOf hitAt
  split_ifs
  · cases hread : f.pattern.read ⟨i, Text.charBefore s i, s.drop i, []⟩ with
    | none => rfl
    | some d =>
      dsimp only
      rw [bars?_eq hs (hit_within hi hread)]
      cases f.after d.rest.head? <;> rfl
  · rfl

theorem hitsFrom?_eq (hs : AllAscii s) {i : Nat} (hi : i ≤ s.length) (resume : Nat) :
    f.hitsFrom? accept s (Text.charBefore s i) i resume (s.drop i) = some (f.walk accept s i resume) := by
  have hhit : (if i < resume then some none else f.hitAt? accept s (Text.charBefore s i) i (s.drop i)) =
      some (if i < resume then none else f.hitOf accept s i) := by
    split_ifs
    · rfl
    · exact hitAt?_eq hs hi
  induction hn : s.length - i generalizing i resume with
  | zero =>
    rw [hitsFrom?.eq_def, hhit, walk_of_length_le (by omega), List.drop_eq_nil_of_le (by omega)]
    rfl
  | succ n ih =>
    have hlt : i < s.length := by omega
    have hbefore : some s[i] = Text.charBefore s (i + 1) := (List.getElem?_eq_getElem hlt).symm
    have hnext : ∀ resume, f.hitsFrom? accept s (some s[i]) (i + 1) resume (s.drop (i + 1)) =
        some (f.walk accept s (i + 1) resume) := by
      intro resume
      rw [hbefore]
      refine ih hlt resume ?_ (by omega)
      split_ifs
      · rfl
      · exact hitAt?_eq hs hlt
    rw [hitsFrom?.eq_def, hhit, walk_of_lt hlt, List.drop_eq_getElem_cons hlt]
    dsimp only
    rw [Option.bind_some]
    cases (if i < resume then none else f.hitOf accept s i) with
    | none => exact hnext resume
    | some hit => exact congrArg (Option.map (hit :: ·)) (hnext (f.resume hit))

theorem hitsWhere?_eq (hs : AllAscii s) : f.hitsWhere? accept s = some (f.hitsWhere accept s) :=
  hitsFrom?_eq hs (Nat.zero_le _) 0

end Finder

namespace Tokenizer
variable {w : Work}

/-! ## The passes that need a finder only -/

def erase? (f : Finder) (fill : Char) (w : Work) : Option Work := do
  let hits ← f.hitsWhere? (fun _ => true) w.text
  hits.foldlM (fun w hit => w.overwrite? hit.whole fill) w

def classifyHit? (category : Category) (fill : Char) (swallows : Bool) (w : Work) (hit : Hit) : Option Work :=
  if w.admits hit.token then do
    let w ← w.take? category hit.token fill
    if swallows then w.claim? hit.whole fill else some w
  else some w

def classify? (f : Finder) (category : Category) (fill : Char) (swallows : Bool) (w : Work) : Option Work := do
  let hits ← f.hitsWhere? (fun hit => !w.isClaimed hit.token) w.text
  hits.foldlM (classifyHit? category fill swallows) w

theorem erase?_eq (hw : AllAscii w.text) (f : Finder) {fill : Char} (hfill : IsAscii fill) :
    erase? f fill w = some (erase f fill w) := by
  rw [erase?, Finder.hitsWhere?_eq hw, Option.bind_eq_bind, Option.bind_some]
  exact foldlM_eq (fun _ (hit : Hit) => .overwrite .refl hit.whole hfill) hw fun _ _ hv (hit : Hit) _ => overwrite?_eq hv hit.whole fill

theorem classifyHit?_eq (hw : AllAscii w.text) (category : Category) {fill : Char} (hfill : IsAscii fill) (swallows : Bool)
    (hit : Hit) : classifyHit? category fill swallows w hit = some (classifyHit category fill swallows w hit) := by
  have htaken := Edits.allAscii (.take .refl category hit.token hfill) hw
  unfold classifyHit? classifyHit
  rw [take?_eq hw, Option.bind_eq_bind, Option.bind_some, claim?_eq htaken]
  split_ifs <;> rfl

theorem classify?_eq (hw : AllAscii w.text) (f : Finder) (category : Category) {fill : Char} (hfill : IsAscii fill)
    (swallows : Bool) : classify? f category fill swallows w = some (classify f category fill swallows w) := by
  rw [classify?, Finder.hitsWhere?_eq hw, Option.bind_eq_bind, Option.bind_some]
  exact foldlM_eq (fun v hit => edits_classifyHit category hfill swallows v hit) hw
    fun _ _ hv hit _ => classifyHit?_eq hv category hfill swallows hit

/-! ## Docstrings -/

namespace Docstring

/-- The spans of the literals that stand alone on their lines, with lengths in bytes. -/
def spansFrom? (offset : Nat) : List (List Char) → Option (List Span)
  | [] => some []
  | line :: rest =>
    let body := trim line
    let following := spansFrom? (offset + (utf8 line).length + 1) rest
    if body ≠ [] && body.all (· == WorkingCopy.literal) then do
      let skipped ← sub? (utf8 line).length (utf8 (trimStart line)).length
      let start := offset + skipped
      following.map (⟨start, start + (utf8 body).length⟩ :: ·)
    else following

def applied? (w : Work) : Option Work := do
  let spans ← spansFrom? 0 (pieces (· == '\n') w.text)
  spans.foldlM (fun w s => w.overwrite? s WorkingCopy.blank) w

theorem sublist_trimStart (line : List Char) : (trimStart line).Sublist line := List.dropWhile_sublist _

theorem sublist_trim (line : List Char) : (trim line).Sublist line := by
  have hend : (Text.trimEnd (trimStart line)).Sublist (trimStart line) := by
    rw [Text.trimEnd, ← List.reverse_sublist, List.reverse_reverse]
    exact sublist_trimStart _
  exact hend.trans (sublist_trimStart line)

theorem spansFrom?_eq {lines : List (List Char)} (h : ∀ line ∈ lines, AllAscii line) (offset : Nat) :
    spansFrom? offset lines = some (spansFrom offset lines) := by
  induction lines generalizing offset with
  | nil => rfl
  | cons line lines ih =>
    obtain ⟨hline, hlines⟩ := List.forall_mem_cons.1 h
    have hstart := (sublist_trimStart line).length_le
    rw [spansFrom?, spansFrom, hline.length_utf8, (hline.sublist (sublist_trimStart line)).length_utf8,
      (hline.sublist (sublist_trim line)).length_utf8, ih hlines, sub?_eq hstart]
    dsimp only
    split_ifs <;> rfl

theorem mem_of_mem_pieces {separates : Char → Bool} {s line : List Char} (h : line ∈ pieces separates s) {c : Char}
    (hc : c ∈ line) : c ∈ s := by
  induction s generalizing line with
  | nil =>
    obtain rfl := List.mem_singleton.1 h
    exact hc
  | cons d s ih =>
    rw [pieces] at h
    split_ifs at h
    · rcases List.mem_cons.1 h with rfl | h
      · exact absurd hc List.not_mem_nil
      · exact List.mem_cons_of_mem d (ih h hc)
    · cases hpieces : pieces separates s with
      | nil =>
        rw [hpieces, Text.joinFirst, List.mem_singleton] at h
        subst h
        exact List.mem_singleton.1 hc ▸ List.mem_cons_self
      | cons piece rest =>
        rw [hpieces] at ih
        rw [hpieces, Text.joinFirst] at h
        rcases List.mem_cons.1 h with rfl | h
        · rcases List.mem_cons.1 hc with rfl | hc
          · exact List.mem_cons_self
          · exact List.mem_cons_of_mem d (ih List.mem_cons_self hc)
        · exact List.mem_cons_of_mem d (ih (List.mem_cons_of_mem piece h) hc)

theorem applied?_eq (hw : AllAscii w.text) : applied? w = some (apply w) := by
  rw [applied?, spansFrom?_eq fun line hline c hc => hw c (mem_of_mem_pieces hline hc)]
  exact foldlM_eq (fun _ s => .overwrite .refl s isAscii_blank) hw fun _ _ hv s _ => overwrite?_eq hv s WorkingCopy.blank

end Docstring

/-! ## Conditional expressions -/

namespace ConditionalExpression

/-- Writes over what a conditional expression has been recorded for. -/
def cover? (lead : Option Span) (condition thenBranch elseBranch : Span) (w : Work) : Option Work := do
  let w ← lead.elim (some w) (w.claim? · WorkingCopy.masked)
  let w ← w.claim? condition WorkingCopy.masked
  let w ← w.claim? (first thenBranch) WorkingCopy.masked
  w.claim? (first elseBranch) WorkingCopy.terminator

/-- Records a conditional expression. What stands in front of its condition is read from the text, and the last marker
stands one before the end of the second branch. -/
def applyHit? (w : Work) (hit : Hit) : Option Work :=
  match hit.part? .condition, hit.part? .thenBranch, hit.part? .elseBranch with
  | some condition, some thenBranch, some elseBranch => do
    let lead := lead? hit
    let _ ← lead.elim (some []) fun l => slice? w.text l.2
    let question := thenBranch.start
    let colon := elseBranch.start
    let semicolon ← sub? elseBranch.stop 1
    let w := openBlock (lead.map (·.1)) question w
    let w := w.mark .closeBrace colon
    let w := openBlock (lead.map (·.1)) colon w
    let w := w.mark .closeBrace semicolon
    cover? (lead.map (·.2)) condition thenBranch elseBranch w
  | _, _, _ => some w

def applied? (w : Work) : Option Work := do
  let hits ← finder.hitsWhere? (isFree w) w.text
  hits.foldlM applyHit? w

theorem within_of_lead {a n : Nat} {hit : Hit} (h : hit.Within a n) {l : Category × Span} (hl : lead? hit = some l) :
    l.2.Within a n := by
  unfold lead? at hl
  split at hl
  · rename_i s hs
    obtain rfl := Option.some.inj hl
    exact h.part? hs
  · obtain ⟨s, hs, rfl⟩ := Option.map_eq_some_iff.1 hl
    exact h.part? hs

theorem cover?_eq (hw : AllAscii w.text) (lead : Option (Category × Span)) (condition thenBranch elseBranch : Span) :
    cover? (lead.map (·.2)) condition thenBranch elseBranch w =
      some ((((lead.elim w fun l => w.claim l.2 WorkingCopy.masked).claim condition WorkingCopy.masked).claim
        (first thenBranch) WorkingCopy.masked).claim (first elseBranch) WorkingCopy.terminator) := by
  have hlead : Edits w (lead.elim w fun l => w.claim l.2 WorkingCopy.masked) := by
    cases lead with
    | none => exact .refl
    | some l => exact .claim .refl l.2 isAscii_masked
  have hlead? : (lead.map (·.2)).elim (some w) (w.claim? · WorkingCopy.masked) =
      some (lead.elim w fun l => w.claim l.2 WorkingCopy.masked) := by
    cases lead with
    | none => rfl
    | some l => exact claim?_eq hw l.2 WorkingCopy.masked
  have hcondition := hlead.claim condition isAscii_masked
  have hthen := hcondition.claim (first thenBranch) isAscii_masked
  simp only [cover?, hlead?, Option.bind_eq_bind, Option.bind_some, claim?_eq (hlead.allAscii hw),
    claim?_eq (hcondition.allAscii hw), claim?_eq (hthen.allAscii hw)]

theorem applyHit?_eq (hw : AllAscii w.text) {hit : Hit} (hwithin : hit.Within hit.whole.start w.text.length)
    (hpos : ∀ q, hit.part? .elseBranch = some q → q.start < q.stop) : applyHit? w hit = some (applyHit w hit) := by
  have hslice : (lead? hit).elim (some []) (fun l => slice? w.text l.2) =
      some ((lead? hit).elim [] fun l => l.2.slice w.text) := by
    cases hlead : lead? hit with
    | none => rfl
    | some l =>
      have hl := within_of_lead hwithin hlead
      exact hw.slice?_eq hl.start_le_stop hl.stop_le
  unfold applyHit? applyHit
  dsimp only
  rw [hslice]
  cases hit.part? .condition with
  | none => rfl
  | some condition =>
    cases hit.part? .thenBranch with
    | none => rfl
    | some thenBranch =>
      cases helse : hit.part? .elseBranch with
      | none => rfl
      | some elseBranch =>
        have hstop : 1 ≤ elseBranch.stop := Nat.lt_of_le_of_lt (Nat.zero_le _) (hpos _ helse)
        have hmarked := Edits.mark (edits_openBlock ((lead? hit).map (·.1)) elseBranch.start
          (.mark (edits_openBlock ((lead? hit).map (·.1)) thenBranch.start (Relation.ReflTransGen.refl (a := w)))
            .closeBrace elseBranch.start)) .closeBrace (elseBranch.stop - 1)
        dsimp only
        rw [sub?_eq hstop, Option.bind_eq_bind, Option.bind_some, Option.bind_eq_bind, Option.bind_some]
        exact cover?_eq (hmarked.allAscii hw) (lead? hit) condition thenBranch elseBranch

theorem applied?_eq (hw : AllAscii w.text) : applied? w = some (apply w) := by
  rw [applied?, Finder.hitsWhere?_eq hw, Option.bind_eq_bind, Option.bind_some]
  refine foldlM_eq edits_applyHit hw fun v hv hascii hit hmem => applyHit?_eq hascii ?_ fun q hq => ?_
  · rw [← size_eq_length_text, hv.grows.size_eq, size_eq_length_text]
    exact Finder.within_of_mem hmem
  · exact Finder.start_lt_stop_of_part hmem hq (by decide)

end ConditionalExpression

/-! ## Bodies without braces -/

namespace BareBody
open Pattern (word)

/-- Replaces a span of a text by as many dots. -/
def hide? (text : List Char) (s : Span) : Option (List Char) := (slice? text s).map fun _ => hide text s

def withoutHeaders? (text : List Char) : Option (List Char) :=
  ((forHeader.readings text).map Hit.token).foldlM hide? text

/-- The body behind a header, looked for in the text from the header on. -/
def bodyBehind? (text : List Char) (header : Hit) : Option (Option Span) := do
  let rest ← from? text header.whole.start
  some ((headedBody.readStart rest).map fun body => body.token.shift header.whole.start)

def headedBodies? (text : List Char) : Option (List Span) :=
  (((word headed).readings text).mapM (bodyBehind? text)).map (List.filterMap id)

def bodies? (text : List Char) : Option (List Span) := do
  let elseBodies := ((elseBody.readings text).map Hit.token).filter fun s =>
    (leadingIf.readStart (s.slice text)).isNone
  let headed ← headedBodies? (← withoutHeaders? text)
  some (elseBodies ++ (doBody.readings text).map Hit.token ++ headed)

def wrap? (w : Work) (body : Span) : Option Work := do
  let text ← slice? w.text body
  let skipped := (text.takeWhile isLayout).length
  some ((w.mark .openBrace (body.start + skipped)).mark .closeBrace body.stop)

def applied? (w : Work) : Option Work := do
  let bodies ← bodies? w.text
  bodies.foldlM wrap? w

variable {s : List Char}

theorem allAscii_hide (hs : AllAscii s) (p : Span) : AllAscii (hide s p) := by
  intro c hc
  simp only [hide, WorkingCopy.mapSpan, List.mem_append, List.mem_map] at hc
  rcases hc with (hc | ⟨_, -, rfl⟩) | hc
  · exact hs c (List.mem_of_mem_take hc)
  · decide
  · exact hs c (List.mem_of_mem_drop hc)

theorem foldlM_hide?_eq (hs : AllAscii s) {spans : List Span} (hspans : ∀ p ∈ spans, p.Within 0 s.length) :
    spans.foldlM hide? s = some (spans.foldl hide s) ∧ AllAscii (spans.foldl hide s) := by
  induction spans generalizing s with
  | nil => exact ⟨rfl, hs⟩
  | cons p spans ih =>
    obtain ⟨hp, hrest⟩ := List.forall_mem_cons.1 hspans
    have hide?_eq : hide? s p = some (hide s p) := by
      rw [hide?, hs.slice?_eq hp.start_le_stop hp.stop_le]
      rfl
    rw [List.foldlM_cons, hide?_eq, Option.bind_eq_bind, Option.bind_some]
    exact ih (allAscii_hide hs p) fun q hq => length_hide s p ▸ hrest q hq

theorem token_within {p : Pattern} {q : Span} (hq : q ∈ (p.readings s).map Hit.token) : q.Within 0 s.length := by
  obtain ⟨hit, hmem, rfl⟩ := List.mem_map.1 hq
  exact (Pattern.within_of_mem_readings hmem).token.mono (Nat.zero_le _) (Nat.le_refl _)

theorem headedBodies?_eq (hs : AllAscii s) : headedBodies? s = some (headedBodies s) := by
  have hbody : ∀ header ∈ (word headed).readings s, bodyBehind? s header =
      some ((headedBody.readStart (s.drop header.whole.start)).map fun body => body.token.shift header.whole.start) := by
    intro header hmem
    rw [bodyBehind?, hs.from?_eq (Finder.start_le_of_mem hmem)]
    rfl
  rw [headedBodies?, mapM_eq_some hbody, Option.map_some, List.filterMap_map]
  rfl

theorem bodies?_eq (hs : AllAscii s) : bodies? s = some (bodies s) := by
  obtain ⟨hhide, hascii⟩ := foldlM_hide?_eq hs fun p hp => token_within (p := forHeader) hp
  have hwithout : withoutHeaders? s = some (withoutHeaders s) := hhide
  change AllAscii (withoutHeaders s) at hascii
  rw [bodies?, hwithout, Option.bind_eq_bind, Option.bind_some, headedBodies?_eq hascii]
  rfl

theorem applied?_eq (hw : AllAscii w.text) : applied? w = some (apply w) := by
  rw [applied?, bodies?_eq hw, Option.bind_eq_bind, Option.bind_some]
  refine foldlM_eq edits_wrap hw fun v hv hascii p hp => ?_
  have hwithin := within_of_mem_bodies hp
  rw [← size_eq_length_text, ← hv.grows.size_eq, size_eq_length_text] at hwithin
  rw [wrap?, hascii.slice?_eq hwithin.start_le_stop hwithin.stop_le]
  rfl

end BareBody

/-! ## Compound assignments -/

namespace CompoundAssignment

def applyHit? (w : Work) (hit : Hit) : Option Work :=
  if w.isClaimed hit.whole || w.text[hit.whole.stop]? == some '=' then some w
  else do
    let operator ← slice? w.text hit.token
    let w := w.mark .assign hit.whole.start
    let w ← w.take? (category operator) hit.token WorkingCopy.operator
    w.claim? hit.whole WorkingCopy.operator

def applied? (w : Work) : Option Work := (compound.readings w.text).foldlM applyHit? w

theorem applied?_eq (hw : AllAscii w.text) : applied? w = some (apply w) := by
  refine foldlM_eq edits_applyHit hw fun v hv hascii hit hmem => ?_
  have hwithin := (Pattern.within_of_mem_readings hmem).token
  rw [← size_eq_length_text, ← hv.grows.size_eq, size_eq_length_text] at hwithin
  unfold applyHit? applyHit
  dsimp only
  split_ifs
  · rfl
  · have hmarked := Edits.allAscii (.mark .refl Category.assign hit.whole.start) hascii
    have htaken := Edits.allAscii (.take .refl (category (hit.token.slice v.text)) hit.token isAscii_operator) hmarked
    rw [hascii.slice?_eq hwithin.start_le_stop hwithin.stop_le, Option.bind_eq_bind, Option.bind_some, take?_eq hmarked,
      Option.bind_eq_bind, Option.bind_some, claim?_eq htaken]

end CompoundAssignment

end Tokenizer
end SourceLikeness
