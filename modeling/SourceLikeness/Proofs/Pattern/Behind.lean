import SourceLikeness.Proofs.Pattern.Hits

/-!
# Hits behind an offset

What a search finds behind an offset depends on the text from there on, unless a hit lies across the offset.

* `walk_eq_of_drop` : two texts that agree from an offset on have the same hits behind it;
* `walk_of_resume_le` : where the search goes on does not matter once it went on;
* `walk_eq_append` : if no hit lies across an offset, the hits are some before it and those of a walk from there on.
-/

namespace SourceLikeness.Finder
open Text (charBefore)
variable {f : Finder} {accept : Hit → Bool} {s t : List Char} {i n r : Nat}

theorem charBefore_eq_of_drop (hdrop : s.drop n = t.drop n) (hi : n < i) : charBefore s i = charBefore t i := by
  obtain ⟨j, rfl⟩ := Nat.exists_eq_add_of_lt hi
  change s[n + j]? = t[n + j]?
  rw [← List.getElem?_drop, hdrop, List.getElem?_drop]

theorem walk_eq_of_drop (hdrop : s.drop n = t.drop n) (hi : n < i) (r : Nat) :
    f.walk accept s i r = f.walk accept t i r := by
  have hrest : s.drop i = t.drop i := by
    rw [← Nat.add_sub_cancel' (Nat.le_of_lt hi), ← List.drop_drop, hdrop, List.drop_drop]
  rw [walk, walk, charBefore_eq_of_drop hdrop hi, hrest]

theorem walk_of_resume_le (hr : r ≤ i) : f.walk accept s i r = f.walk accept s i 0 := by
  induction hn : s.length - i generalizing i with
  | zero => rw [walk_of_length_le (by omega), walk_of_length_le (by omega), if_neg (Nat.not_lt.2 hr), if_neg (Nat.not_lt_zero i)]
  | succ n ih =>
    have hlt : i < s.length := by omega
    rw [walk_of_lt hlt, walk_of_lt hlt, if_neg (Nat.not_lt.2 hr), if_neg (Nat.not_lt_zero i), ih (by omega) (by omega)]

/-- If the walk goes on no later than at an offset behind each hit that starts before it, then from the offset on it
finds what a walk that starts there finds. -/
theorem walk_eq_append (hi : i ≤ n) (hn : n ≤ s.length) (hr : r ≤ n)
    (hhits : ∀ h ∈ f.walk accept s i r, h.whole.start < n → f.resume h ≤ n) :
    ∃ before, f.walk accept s i r = before ++ f.walk accept s n 0 ∧ ∀ h ∈ before, h.whole.start < n := by
  induction hk : n - i generalizing i r with
  | zero =>
    obtain rfl : i = n := by omega
    exact ⟨[], walk_of_resume_le hr, List.forall_mem_nil _⟩
  | succ k ih =>
    have hlt : i < s.length := by omega
    rcases walk_cases f accept s i r with ⟨hwalk, -⟩ | ⟨h, -, hhit, hwalk⟩
    · rw [if_pos hlt] at hwalk
      rw [hwalk] at hhits ⊢
      exact ih (by omega) hr hhits (by omega)
    · rw [if_pos hlt] at hwalk
      rw [hwalk] at hhits ⊢
      obtain ⟨hfirst, hhits⟩ := List.forall_mem_cons.1 hhits
      have hstart : h.whole.start < n := by
        rw [start_of_hitOf hhit]
        omega
      obtain ⟨before, happend, hbefore⟩ := ih (by omega) (hfirst hstart) hhits (by omega)
      exact ⟨h :: before, by rw [happend, List.cons_append], List.forall_mem_cons.2 ⟨hstart, hbefore⟩⟩

end SourceLikeness.Finder
