import SourceLikeness.Proofs.Ngram.Windows

/-!
# What a profile counts

* `substrings` : the pieces of a text of a given length, as a set; of length 0 there is none;
* `mem_grams`, `nodup_grams` : the n-grams of a text list that set;
* `Profile.counts_substrings` : the numbers of a profile are those of two such sets, of what they share and of what
  they are together.
-/

namespace SourceLikeness.Ngram

/-- The pieces of a text of a given length. Of length 0 there is none. -/
def substrings {α : Type} (width : Nat) (text : List α) : Set (List α) :=
  {g | width ≠ 0 ∧ g <:+: text ∧ g.length = width}

variable {a b : List Char} {width : Nat}

/-! ## The n-grams of a text -/

theorem grams_of_pos (hwidth : 0 < width) (a : List Char) : grams a width = (windows width a).eraseDups :=
  if_neg (Nat.ne_of_gt hwidth)

/-- The n-grams of a text are its pieces of that length. -/
theorem mem_grams {g : List Char} : g ∈ grams a width ↔ g ∈ substrings width a := by
  rcases Nat.eq_zero_or_pos width with rfl | hwidth
  · exact iff_of_false List.not_mem_nil fun h => h.1 rfl
  · rw [grams_of_pos hwidth, List.mem_eraseDups, mem_windows hwidth]
    exact (and_iff_right (Nat.ne_of_gt hwidth)).symm

theorem nodup_grams (a : List Char) (width : Nat) : (grams a width).Nodup := by
  rw [grams]
  split_ifs
  · exact List.nodup_nil
  · exact nodup_eraseDups _

/-- There are at most as many n-grams as places at which one can start. -/
theorem length_grams_le (a : List Char) (width : Nat) : (grams a width).length ≤ a.length + 1 - width := by
  rcases Nat.eq_zero_or_pos width with rfl | hwidth
  · exact Nat.zero_le _
  · rw [grams_of_pos hwidth, ← length_windows hwidth]
    exact (eraseDups_sublist _).length_le

theorem finite_substrings (a : List Char) (width : Nat) : (substrings width a).Finite :=
  (List.finite_toSet (grams a width)).subset fun _ hg => mem_grams.2 hg

theorem ncard_substrings (a : List Char) (width : Nat) : (substrings width a).ncard = (grams a width).length :=
  ncard_eq_length (nodup_grams a width) fun _ => mem_grams.symm

namespace Profile

/-! ## The numbers of a profile -/

theorem shared_eq (a b : List Char) (width : Nat) :
    (build a b width).shared = (substrings width a ∩ substrings width b).ncard := by
  refine (ncard_eq_length ((nodup_grams a width).filter _) fun g => ?_).symm
  rw [List.mem_filter, List.contains_iff_mem, mem_grams, mem_grams, Set.mem_inter_iff]

theorem union_eq (a b : List Char) (width : Nat) :
    (build a b width).union = (substrings width a ∪ substrings width b).ncard := by
  have hnew : ∀ g, g ∈ (grams b width).filter (fun g => !(grams a width).contains g) ↔
      g ∈ substrings width b ∧ g ∉ substrings width a := fun g => by
    rw [List.mem_filter, Bool.not_eq_true', ← Bool.not_eq_true, List.contains_iff_mem, mem_grams, mem_grams]
  have hnodup : (grams a width ++ (grams b width).filter fun g => !(grams a width).contains g).Nodup :=
    (nodup_grams a width).append ((nodup_grams b width).filter _) fun g ha hb => ((hnew g).1 hb).2 (mem_grams.1 ha)
  rw [ncard_eq_length hnodup fun g => by
    rw [List.mem_append, hnew, mem_grams, Set.mem_union, or_and_left, and_iff_left (Classical.em _)]]
  exact List.length_append.symm

/-- Texts the other way round: their own numbers change places, and those of both stay. -/
theorem build_comm (a b : List Char) (width : Nat) : build b a width =
    ⟨width, (build a b width).reference, (build a b width).candidate, (build a b width).shared,
      (build a b width).union⟩ := by
  rw [shared_eq, union_eq, Set.inter_comm, Set.union_comm, ← shared_eq, ← union_eq]
  rfl

/-- **A profile counts pieces of two texts.** The n-grams of a text are its pieces of a given number of characters, each
once, none for the number 0; cutting the text by bytes gives the same ones. A profile holds how many there are of either
text, of both and of one or the other, so that what is shared counts twice; a text has no more of them than places at
which one can start, and the order of the texts does not matter. -/
theorem counts_substrings (a b : List Char) (width : Nat) :
    (∀ g, g ∈ grams a width ↔ width ≠ 0 ∧ g <:+: a ∧ g.length = width) ∧ (grams a width).Nodup ∧
      grams a width = (if width = 0 then [] else (slices width a).eraseDups) ∧
      (build a b width).candidate = (substrings width a).ncard ∧
      (build a b width).reference = (substrings width b).ncard ∧
      (build a b width).shared = (substrings width a ∩ substrings width b).ncard ∧
      (build a b width).union = (substrings width a ∪ substrings width b).ncard ∧
      (build a b width).candidate + (build a b width).reference =
        (build a b width).shared + (build a b width).union ∧
      (build a b width).candidate ≤ a.length + 1 - width ∧
      build b a width = ⟨width, (build a b width).reference, (build a b width).candidate, (build a b width).shared,
        (build a b width).union⟩ := by
  have hcandidate : (build a b width).candidate = (substrings width a).ncard := (ncard_substrings a width).symm
  have hreference : (build a b width).reference = (substrings width b).ncard := (ncard_substrings b width).symm
  have hsum := Set.ncard_union_add_ncard_inter (substrings width a) (substrings width b) (finite_substrings a width)
    (finite_substrings b width)
  refine ⟨fun _ => mem_grams, nodup_grams a width, ?_, hcandidate, hreference, shared_eq a b width, union_eq a b width,
    ?_, length_grams_le a width, build_comm a b width⟩
  · rw [grams]
    split_ifs with hwidth
    · rfl
    · rw [slices_eq (Nat.pos_of_ne_zero hwidth)]
  · rw [hcandidate, hreference, shared_eq, union_eq, ← hsum, Nat.add_comm]

/-- Windows of two characters, one of which takes two bytes. -/
example : build ['é', 'A', 'é', 'A'] ['A', 'é', '\x7b'] 2 = ⟨2, 2, 2, 1, 3⟩ := by decide

end Profile
end SourceLikeness.Ngram
