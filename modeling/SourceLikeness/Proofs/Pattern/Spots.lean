import SourceLikeness.Proofs.Pattern.Leads
import Mathlib.Data.List.Chain

/-!
# Texts made of words and signs

A text that is put together from words and signs has leads where its words and signs are leads.

* `Lexeme`, `Lexeme.text` : words and signs, and the text that they make;
* `Stands s o ls` : the text `s` goes on with the lexemes `ls` from `o` on, and no two words of them touch;
* `Stands.eq_zero_of_at` : a lead stands at the start of a lexeme that is one;
* `Stands.lacks` : a text none of whose lexemes is a lead;
* `Finder.pick` : a search that looks at some places only;
* `Finder.walk_eq_pick` : those where a lead stands are enough.
-/

namespace SourceLikeness
open Text (isAsciiWord isBlank inside wordAt wordBefore charBefore StandsAt StartsAt)

/-- A word or a sign. -/
inductive Lexeme where
  | word (w : List Char)
  | sign (c : Char)
deriving DecidableEq, Repr

namespace Lexeme

def chars : Lexeme → List Char
  | word w => w
  | sign c => [c]

def isWord : Lexeme → Bool
  | word _ => true
  | sign _ => false

/-- A word has word characters only, and a sign is another character of ASCII that stands on a line. -/
def Sound : Lexeme → Prop
  | word w => Leads.IsWord w
  | sign c => isAsciiWord c = false ∧ IsAscii c ∧ c ≠ '\n'

/-- Whether the lexeme is a lead. -/
def leads (x : Leads) : Lexeme → Bool
  | word w => x.words.contains w || x.heads.any (·.isPrefixOf w)
  | sign c => x.signs.contains c || (x.gaps && isBlank c)

/-- Whether a word has to come behind the lexeme. -/
def isTight (x : Leads) : Lexeme → Bool
  | word _ => false
  | sign c => x.tight.contains c

/-- The text of some lexemes. -/
def text (ls : List Lexeme) : List Char := ls.flatMap chars

@[simp] theorem text_nil : text [] = [] := rfl

@[simp] theorem text_cons (l : Lexeme) (ls : List Lexeme) : text (l :: ls) = l.chars ++ text ls := rfl

@[simp] theorem text_append (ls ms : List Lexeme) : text (ls ++ ms) = text ls ++ text ms := List.flatMap_append

theorem length_pos {l : Lexeme} (h : l.Sound) : 0 < l.chars.length := by
  cases l with
  | word w => exact List.length_pos_of_ne_nil h.1
  | sign c => exact Nat.one_pos

/-- No two words touch. -/
def Apart (ls : List Lexeme) : Prop := ls.IsChain fun l m => (l.isWord && m.isWord) = false

@[simp] theorem apart_nil : Apart [] := List.isChain_nil

@[simp] theorem apart_singleton (l : Lexeme) : Apart [l] := List.isChain_singleton l

@[simp] theorem apart_sign_cons {c : Char} {ls : List Lexeme} : Apart (sign c :: ls) ↔ Apart ls :=
  List.isChain_cons.trans (and_iff_right fun _ _ => rfl)

@[simp] theorem apart_word_cons {w : List Char} {c : Char} {ls : List Lexeme} :
    Apart (word w :: sign c :: ls) ↔ Apart ls :=
  List.isChain_cons_cons.trans ((and_iff_right rfl).trans apart_sign_cons)

/-- Words on both sides of a sign do not touch. -/
@[simp] theorem apart_append_sign {c : Char} {ls ms : List Lexeme} : Apart (ls ++ sign c :: ms) ↔ Apart ls ∧ Apart ms := by
  refine List.isChain_append.trans ⟨fun h => ⟨h.1, apart_sign_cons.1 h.2.1⟩, fun h => ⟨h.1, apart_sign_cons.2 h.2, ?_⟩⟩
  rintro l - m hm
  obtain rfl := Option.some.inj hm
  exact Bool.and_false _

/-- A word comes behind each lexeme that has to have one there. -/
def tightly (x : Leads) : List Lexeme → Bool
  | [] => true
  | l :: ls => (!l.isTight x || ls.head?.any isWord) && tightly x ls

theorem isTight_word (x : Leads) (w : List Char) : (word w).isTight x = false := rfl

theorem tightly_cons {x : Leads} {l : Lexeme} {ls : List Lexeme} (hl : l.isTight x = false) (h : tightly x ls = true) :
    tightly x (l :: ls) = true := by
  rw [tightly, hl, h]
  rfl

theorem tightly_sign_word {x : Leads} {c : Char} {w : List Char} {ls : List Lexeme} (h : tightly x (word w :: ls) = true) :
    tightly x (sign c :: word w :: ls) = true := by
  rw [tightly, h, List.head?_cons, Option.any_some, isWord, Bool.or_true]
  rfl

theorem tightly_append {x : Leads} {ls ms : List Lexeme} (hls : tightly x ls = true) (hms : tightly x ms = true) :
    tightly x (ls ++ ms) = true := by
  induction ls with
  | nil => exact hms
  | cons l ls ih =>
    obtain ⟨hl, hls⟩ := Bool.and_eq_true_iff.1 hls
    rw [List.cons_append, tightly, ih hls, Bool.and_true]
    cases ls with
    | nil =>
      rw [List.head?_nil, Option.any_none, Bool.or_false] at hl
      rw [hl, Bool.true_or]
    | cons m ls => exact hl

theorem tightly_of_forall {x : Leads} {ls : List Lexeme} (h : ∀ l ∈ ls, l.isTight x = false) : tightly x ls = true := by
  induction ls with
  | nil => rfl
  | cons l ls ih =>
    obtain ⟨hl, hls⟩ := List.forall_mem_cons.1 h
    rw [tightly, hl, ih hls]
    rfl

/-- The places of the lexemes that are leads, in a text that has the lexemes from an offset on. -/
def spots (x : Leads) : Nat → List Lexeme → List Nat
  | _, [] => []
  | o, l :: ls => (if l.leads x then [o] else []) ++ spots x (o + l.chars.length) ls

theorem spots_append (x : Leads) (o : Nat) (ls ms : List Lexeme) :
    spots x o (ls ++ ms) = spots x o ls ++ spots x (o + (text ls).length) ms := by
  induction ls generalizing o with
  | nil => rfl
  | cons l ls ih =>
    rw [List.cons_append, spots, spots, ih, text_cons, List.length_append, List.append_assoc, Nat.add_assoc]

theorem spots_eq_nil {x : Leads} {ls : List Lexeme} (h : ∀ l ∈ ls, l.leads x = false) (o : Nat) : spots x o ls = [] := by
  induction ls generalizing o with
  | nil => rfl
  | cons l ls ih =>
    rw [spots, h l List.mem_cons_self, ih fun m hm => h m (List.mem_cons_of_mem l hm)]
    rfl

theorem le_of_mem_spots {x : Leads} {o i : Nat} {ls : List Lexeme} (h : i ∈ spots x o ls) : o ≤ i := by
  induction ls generalizing o with
  | nil => exact absurd h List.not_mem_nil
  | cons l ls ih =>
    rcases List.mem_append.1 h with h | h
    · split_ifs at h
      · exact Nat.le_of_eq (List.mem_singleton.1 h).symm
      · exact absurd h List.not_mem_nil
    · exact Nat.le_trans (Nat.le_add_right _ _) (ih h)

theorem lt_of_mem_spots {x : Leads} {o i : Nat} {ls : List Lexeme} (hls : ∀ l ∈ ls, l.Sound) (h : i ∈ spots x o ls) :
    i < o + (text ls).length := by
  induction ls generalizing o with
  | nil => exact absurd h List.not_mem_nil
  | cons l ls ih =>
    obtain ⟨hl, hls⟩ := List.forall_mem_cons.1 hls
    have hpos := length_pos hl
    rw [text_cons, List.length_append]
    rcases List.mem_append.1 h with h | h
    · split_ifs at h
      · have hi := List.mem_singleton.1 h
        omega
      · exact absurd h List.not_mem_nil
    · have hlt := ih hls h
      omega

/-- Only one of some lexemes is a lead. -/
theorem spots_one {x : Leads} {ks ls : List Lexeme} {l : Lexeme} (hks : ∀ m ∈ ks, m.leads x = false) (hl : l.leads x = true)
    (hls : ∀ m ∈ ls, m.leads x = false) (o : Nat) : spots x o (ks ++ l :: ls) = [o + (text ks).length] := by
  rw [spots_append, spots_eq_nil hks, spots, if_pos hl, spots_eq_nil hls]
  rfl

end Lexeme

open Lexeme (Apart tightly spots)

/-- A text goes on with some lexemes from an offset on. -/
structure Stands (s : List Char) (o : Nat) (ls : List Lexeme) : Prop where
  text : s.drop o = Lexeme.text ls
  sound : ∀ l ∈ ls, l.Sound
  apart : Apart ls
  before : ls.head?.any Lexeme.isWord = true → wordBefore s o = false

namespace Stands
variable {x : Leads} {s : List Char} {o i k : Nat} {l : Lexeme} {ls ms : List Lexeme}

theorem of_apart (hsound : ∀ l ∈ ls, l.Sound) (hapart : Apart ls) : Stands (Lexeme.text ls) 0 ls :=
  ⟨List.drop_zero, hsound, hapart, fun _ => rfl⟩

theorem drop (h : Stands s o (l :: ls)) : s.drop o = l.chars ++ Lexeme.text ls := h.text

theorem soundHead (h : Stands s o (l :: ls)) : l.Sound := h.sound l List.mem_cons_self

theorem getElem? (h : Stands s o (l :: ls)) (hk : k < l.chars.length) : s[o + k]? = l.chars[k]? := by
  rw [← List.getElem?_drop, h.drop, List.getElem?_append_left hk]

theorem length_le (h : Stands s o (l :: ls)) : o + l.chars.length ≤ s.length := by
  have hlength := congrArg List.length h.drop
  have hpos := Lexeme.length_pos h.soundHead
  rw [List.length_drop, List.length_append] at hlength
  omega

/-- What comes behind the first lexeme. -/
theorem tail (h : Stands s o (l :: ls)) : Stands s (o + l.chars.length) ls where
  text := by rw [← List.drop_drop, h.drop, List.drop_left]
  sound m hm := h.sound m (List.mem_cons_of_mem l hm)
  apart := List.IsChain.of_cons h.apart
  before hword := by
    have hpos := Lexeme.length_pos h.soundHead
    obtain ⟨m, hm, hmword⟩ := (Option.any_eq_true _ _).1 hword
    cases l with
    | word w =>
      cases ls with
      | nil => exact nomatch hm
      | cons n ns =>
        obtain rfl := Option.some.inj hm
        have hboth := (List.isChain_cons_cons.1 h.apart).1
        rw [hmword] at hboth
        exact Bool.noConfusion hboth
    | sign c =>
      have hc : s[o]? = some c := h.getElem? (k := 0) Nat.one_pos
      change wordAt s o = false
      rw [Text.wordAt_of_getElem? hc]
      exact h.soundHead.1

theorem append (h : Stands s o (ls ++ ms)) : Stands s (o + (Lexeme.text ls).length) ms := by
  induction ls generalizing o with
  | nil => exact h
  | cons l ls ih =>
    rw [Lexeme.text_cons, List.length_append, ← Nat.add_assoc]
    exact ih h.tail

/-- A word is not continued. -/
theorem wordAt_end (h : Stands s o (l :: ls)) (hl : l.isWord = true) : wordAt s (o + l.chars.length) = false := by
  cases ls with
  | nil =>
    refine Text.wordAt_of_length_le ?_
    have hnil := congrArg List.length h.tail.text
    rw [List.length_drop, Lexeme.text_nil, List.length_nil] at hnil
    omega
  | cons m ls =>
    have hboth := (List.isChain_cons_cons.1 h.apart).1
    rw [hl, Bool.true_and] at hboth
    cases m with
    | word w => exact Bool.noConfusion hboth
    | sign c =>
      have hc := h.tail.getElem? (k := 0) Nat.one_pos
      rw [Nat.add_zero] at hc
      rw [Text.wordAt_of_getElem? hc]
      exact h.tail.soundHead.1

theorem standsAt {w : List Char} (h : Stands s o (.word w :: ls)) : StandsAt w s o :=
  ⟨⟨Lexeme.text ls, h.drop.symm⟩, h.before rfl, h.wordAt_end rfl⟩

/-- A word of a text starts at an edge. -/
theorem atWordEdge {w : List Char} (h : Stands s o (.word w :: ls)) (hs : ∀ c ∈ s, IsAscii c) :
    (Finder.start s o).atWordEdge = true := by
  have hword : Text.wordAt s (o + 0) = true :=
    Text.wordAt_of_reads h.soundHead.2 h.standsAt.reads (List.length_pos_of_ne_nil h.soundHead.1)
  rw [(Finder.in_start s o).atWordEdge_eq hs]
  change (Text.wordBefore s o != Text.wordAt s (o + 0)) = true
  rw [hword, h.before rfl]
  rfl

/-- Two words that stand at one place are one word. -/
theorem eq_of_standsAt {v w : List Char} (hv : Leads.IsWord v) (hw : Leads.IsWord w) (h : StandsAt v s i)
    (h' : StandsAt w s i) : v = w := by
  have hle : ∀ {v w : List Char}, Leads.IsWord w → StandsAt v s i → StandsAt w s i → w.length ≤ v.length := by
    intro v w hw h h'
    by_contra hlt
    have hat := Text.wordAt_of_reads hw.2 h'.reads (Nat.lt_of_not_le hlt)
    rw [h.after] at hat
    exact Bool.noConfusion hat
  exact (List.prefix_of_prefix_length_le h.reads h'.reads (hle hv h' h)).eq_of_length (Nat.le_antisymm (hle hv h' h) (hle hw h h'))

/-- A lead stands at the start of a lexeme that is one. -/
theorem eq_zero_of_at (h : Stands s o (l :: ls)) (hk : k < l.chars.length) (hat : x.At s (o + k)) :
    k = 0 ∧ l.leads x = true := by
  have hchar : s[o + k]? = some l.chars[k] := by rw [h.getElem? hk, List.getElem?_eq_getElem hk]
  cases l with
  | word w =>
    have hword : ∀ j < w.length, wordAt s (o + j) = true := fun j hj =>
      Text.wordAt_of_reads h.soundHead.2 h.standsAt.reads hj
    have hzero : wordBefore s (o + k) = false → k = 0 := by
      intro hbefore
      by_contra hne
      rw [Text.wordBefore_of_pos (by omega), show o + k - 1 = o + (k - 1) by omega,
        hword (k - 1) (Nat.lt_of_le_of_lt (Nat.sub_le k 1) hk)] at hbefore
      exact Bool.noConfusion hbefore
    cases hat with
    | word v hv hvword hstands =>
      obtain rfl := hzero hstands.before
      obtain rfl := eq_of_standsAt hvword h.soundHead hstands h.standsAt
      refine ⟨rfl, ?_⟩
      rw [Lexeme.leads, List.contains_iff_mem.2 hv, Bool.true_or]
    | head v hv hvword hstarts =>
      obtain rfl := hzero hstarts.before
      refine ⟨rfl, ?_⟩
      have hle : v.length ≤ w.length := by
        by_contra hlt
        have hafter := Text.wordAt_of_reads hvword.2 hstarts.reads (Nat.lt_of_not_le hlt)
        rw [Nat.add_zero] at hafter
        rw [h.standsAt.after] at hafter
        exact Bool.noConfusion hafter
      have hbegins := List.prefix_of_prefix_length_le hstarts.reads h.standsAt.reads hle
      have hany : x.heads.any (·.isPrefixOf w) = true :=
        List.any_eq_true.2 ⟨v, hv, List.isPrefixOf_iff_prefix.2 hbegins⟩
      rw [Lexeme.leads, hany, Bool.or_true]
    | sign c hc hsign hget =>
      have hat := hword k hk
      rw [Text.wordAt_of_getElem? hget, hsign] at hat
      exact Bool.noConfusion hat
  | sign c =>
    obtain rfl := Nat.lt_one_iff.1 hk
    refine ⟨rfl, ?_⟩
    have hnot : ∀ {v : List Char}, Leads.IsWord v → ¬ v <+: s.drop (o + 0) := by
      intro v hv hreads
      have hat := Text.wordAt_of_reads hv.2 hreads (List.length_pos_of_ne_nil hv.1)
      rw [Text.wordAt_of_getElem? hchar] at hat
      exact Bool.false_ne_true (h.soundHead.1.symm.trans hat)
    cases hat with
    | word v hv hvword hstands => exact absurd hstands.reads (hnot hvword)
    | head v hv hvword hstarts => exact absurd hstarts.reads (hnot hvword)
    | sign d hd _ hget =>
      obtain rfl := Option.some.inj (hchar.symm.trans hget)
      rwa [Lexeme.leads, Bool.or_eq_true, List.contains_iff_mem, Bool.and_eq_true]

/-- At the end of the text stands no lead. -/
theorem not_at_end (h : Stands s o []) : ¬ x.At s (o + k) := by
  have hnone : ∀ j, s[o + j]? = none := by
    intro j
    rw [← List.getElem?_drop, h.text]
    rfl
  have hnot : ∀ {v : List Char}, Leads.IsWord v → ¬ v <+: s.drop (o + k) := by
    intro v hv hreads
    have hat := Text.wordAt_of_reads hv.2 hreads (List.length_pos_of_ne_nil hv.1)
    rw [wordAt, Nat.add_zero, hnone] at hat
    exact Bool.noConfusion hat
  intro hat
  cases hat with
  | word v hv hvword hstands => exact hnot hvword hstands.reads
  | head v hv hvword hstarts => exact hnot hvword hstarts.reads
  | sign d hd _ hget =>
    rw [hnone] at hget
    cases hget

/-- Every offset is one of the first lexeme or comes behind it. -/
theorem lt_or_exists (l : Lexeme) (o : Nat) {i : Nat} (hi : o ≤ i) :
    (∃ k < l.chars.length, i = o + k) ∨ o + l.chars.length ≤ i := by
  rcases Nat.lt_or_ge i (o + l.chars.length) with hlt | hge
  · exact Or.inl ⟨i - o, by omega, by omega⟩
  · exact Or.inr hge

theorem not_at (h : Stands s o ls) (hleads : ∀ l ∈ ls, l.leads x = false) (hi : o ≤ i) : ¬ x.At s i := by
  induction ls generalizing o with
  | nil =>
    obtain ⟨k, rfl⟩ := Nat.exists_eq_add_of_le hi
    exact h.not_at_end
  | cons l ls ih =>
    rcases lt_or_exists l o hi with ⟨k, hk, rfl⟩ | hge
    · intro hat
      obtain ⟨-, hlead⟩ := h.eq_zero_of_at hk hat
      rw [hleads l List.mem_cons_self] at hlead
      exact Bool.noConfusion hlead
    · exact ih h.tail (fun m hm => hleads m (List.mem_cons_of_mem l hm)) hge

theorem wordAt_of_tight (h : Stands s o ls) (htight : tightly x ls = true) (hx : ∀ c ∈ x.tight, isAsciiWord c = false)
    (hi : o ≤ i) {c : Char} (hc : c ∈ x.tight) (hget : s[i]? = some c) : wordAt s (i + 1) = true := by
  induction ls generalizing o with
  | nil =>
    have hnil := congrArg List.length h.text
    rw [List.length_drop, Lexeme.text_nil, List.length_nil] at hnil
    have hlt := (List.getElem?_eq_some_iff.1 hget).1
    omega
  | cons l ls ih =>
    obtain ⟨hl, hls⟩ := Bool.and_eq_true_iff.1 htight
    rcases lt_or_exists l o hi with ⟨k, hk, rfl⟩ | hge
    · rw [h.getElem? hk] at hget
      cases l with
      | word w =>
        have hword := h.soundHead.2 c (List.mem_of_getElem? hget)
        rw [hx c hc] at hword
        exact Bool.noConfusion hword
      | sign d =>
        obtain rfl := Nat.lt_one_iff.1 hk
        obtain rfl := Option.some.inj hget
        rw [Lexeme.isTight, List.contains_iff_mem.2 hc, Bool.not_true, Bool.false_or] at hl
        cases ls with
        | nil => exact Bool.noConfusion hl
        | cons m ls =>
          cases m with
          | word w =>
            have hpos := List.length_pos_of_ne_nil h.tail.soundHead.1
            exact Text.wordAt_of_reads (j := 0) h.tail.soundHead.2 h.tail.standsAt.reads hpos
          | sign e => exact Bool.noConfusion hl
    · exact ih h.tail hls hge

/-- **Texts that lack leads.** None of the lexemes is a lead, and a word comes behind each that has to have one. -/
theorem lacks (h : Stands s 0 ls) (hleads : ∀ l ∈ ls, l.leads x = false) (htight : tightly x ls = true)
    (hx : x.tight.all (fun c => !isAsciiWord c) = true) : x.Lacks s where
  lead _ := h.not_at hleads (Nat.zero_le _)
  tight _ c hc hget := by
    refine h.wordAt_of_tight htight (fun c hc => ?_) (Nat.zero_le _) hc hget
    rw [← Bool.not_eq_true']
    exact List.all_eq_true.1 hx c hc

end Stands

/-! ## Searches that look at some places only -/

namespace Finder
variable {x : Leads} {f : Finder} {accept : Hit → Bool} {s : List Char} {h : Hit} {o i n : Nat} {ls : List Lexeme}

/-- A search that looks at some places only. -/
def pick (f : Finder) (accept : Hit → Bool) (s : List Char) : List Nat → Nat → List Hit
  | [], _ => []
  | i :: is, resume =>
    if i < resume then pick f accept s is resume
    else match f.hitOf accept s i with
      | none => pick f accept s is resume
      | some h => h :: pick f accept s is (f.resume h)

theorem pick_of_lt {is : List Nat} {resume : Nat} (his : ∀ i ∈ is, i < resume) (js : List Nat) :
    f.pick accept s (is ++ js) resume = f.pick accept s js resume := by
  induction is with
  | nil => rfl
  | cons i is ih =>
    rw [List.cons_append, pick, if_pos (his i List.mem_cons_self)]
    exact ih fun j hj => his j (List.mem_cons_of_mem i hj)

theorem pick_of_none {is : List Nat} {resume : Nat} (his : ∀ i ∈ is, f.hitOf accept s i = none) (js : List Nat) :
    f.pick accept s (is ++ js) resume = f.pick accept s js resume := by
  induction is with
  | nil => rfl
  | cons i is ih =>
    rw [List.cons_append, pick, his i List.mem_cons_self]
    have hrest := ih fun j hj => his j (List.mem_cons_of_mem i hj)
    split_ifs
    · exact hrest
    · exact hrest

theorem pick_of_some {is : List Nat} {resume : Nat} (hi : resume ≤ i) (h' : f.hitOf accept s i = some h) :
    f.pick accept s (i :: is) resume = h :: f.pick accept s is (f.resume h) := by
  rw [pick, if_neg (Nat.not_lt.2 hi), h']

/-- The walk passes offsets without hits. -/
theorem walk_skip {resume : Nat} (hnone : ∀ k < n, f.hitOf accept s (i + k) = none) (hle : i + n ≤ s.length) :
    f.walk accept s i resume = f.walk accept s (i + n) resume := by
  induction n generalizing i with
  | zero => rfl
  | succ n ih =>
    have hfirst : f.hitOf accept s i = none := hnone 0 (Nat.succ_pos n)
    have hstep : f.walk accept s i resume = f.walk accept s (i + 1) resume := by
      rw [walk_of_lt (by omega), hfirst, ite_self]
    rw [hstep, ih (i := i + 1) (fun k hk => ?_) (by omega), Nat.add_right_comm, Nat.add_assoc]
    have hnext := hnone (k + 1) (Nat.succ_lt_succ hk)
    rwa [Nat.add_right_comm, Nat.add_assoc]

/-- A search that finds something at one place only. -/
theorem hitsWhere_eq_singleton (h' : f.hitOf accept s n = some h) (hn : n < s.length)
    (hnone : ∀ i, i ≠ n → f.hitOf accept s i = none) : f.hitsWhere accept s = [h] := by
  have hrest : f.walk accept s (n + 1) (f.resume h) = [] := by
    refine List.eq_nil_iff_forall_not_mem.2 fun g hg => ?_
    obtain ⟨hhit, hle, -, -⟩ := hitOf_of_mem_walk hg
    rw [hnone _ (by omega)] at hhit
    exact nomatch hhit
  rw [hitsWhere_eq_walk, walk_skip (n := n) (fun k hk => hnone _ (by omega)) (by omega), Nat.zero_add, walk_of_lt hn,
    if_neg (Nat.not_lt_zero n), h']
  exact congrArg (h :: ·) hrest

/-- **Hits of lexemes.** The hits of a pattern that is led by leads are found where they stand. -/
theorem walk_eq_pick (hled : f.pattern.led x false false = true) (hsolid : f.pattern.solid = true)
    (h' : Stands s o ls) (resume : Nat) :
    f.walk accept s o resume = f.pick accept s (spots x o ls) resume := by
  have hnone : ∀ {i}, ¬ x.At s i → f.hitOf accept s i = none := by
    intro i hnot
    rw [Option.eq_none_iff_forall_ne_some]
    exact fun h hhit => hnot (at_of_hitOf hled hsolid hhit)
  induction ls generalizing o resume with
  | nil =>
    have hend := congrArg List.length h'.text
    rw [List.length_drop, Lexeme.text_nil, List.length_nil] at hend
    rw [walk_of_length_le (by omega), hnone (i := o) (h'.not_at_end (k := 0)), ite_self]
    rfl
  | cons l ls ih =>
    have hpos := Lexeme.length_pos h'.soundHead
    have hle := h'.length_le
    have hinner : ∀ k < l.chars.length, 0 < k → f.hitOf accept s (o + k) = none := fun k hk hkpos =>
      hnone fun hat => Nat.ne_of_gt hkpos (h'.eq_zero_of_at hk hat).1
    have hrest : ∀ r, f.walk accept s (o + 1) r = f.pick accept s (spots x (o + l.chars.length) ls) r := by
      intro r
      rw [← ih h'.tail r, show o + l.chars.length = o + 1 + (l.chars.length - 1) by omega]
      refine walk_skip (fun k hk => ?_) (by omega)
      have hnext := hinner (k + 1) (by omega) (Nat.succ_pos k)
      rwa [Nat.add_right_comm, Nat.add_assoc]
    rw [walk_of_lt (by omega), spots]
    cases hl : l.leads x with
    | false =>
      have hfirst : f.hitOf accept s o = none := hnone fun hat => by
        have hlead := (h'.eq_zero_of_at (k := 0) hpos hat).2
        rw [hl] at hlead
        exact Bool.noConfusion hlead
      rw [hfirst, ite_self]
      exact hrest resume
    | true =>
      change _ = f.pick accept s (o :: spots x (o + l.chars.length) ls) resume
      rw [pick]
      split_ifs
      · exact hrest resume
      · cases f.hitOf accept s o with
        | none => exact hrest resume
        | some h => exact congrArg (h :: ·) (hrest _)

theorem hitsWhere_eq_pick (hled : f.pattern.led x false false = true) (hsolid : f.pattern.solid = true)
    (h' : Stands s 0 ls) : f.hitsWhere accept s = f.pick accept s (spots x 0 ls) 0 := by
  rw [hitsWhere_eq_walk, walk_eq_pick hled hsolid h']

end Finder
end SourceLikeness
