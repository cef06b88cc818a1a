/-!
# Tables of code points

A character class is given by the closed ranges of code points that belong to it, in ascending
order.  Looking a character up walks the table and stops at the first range that starts behind
it, so a character near the beginning of the code space is decided after a few comparisons.
-/

namespace CallByNeed.Text

/-- Closed ranges `(lo, hi)` of code points. -/
abbrev Ranges := List (Nat × Nat)

namespace Ranges

/-- The code point `n` lies in one of the ranges.  The ranges are in ascending order: a range that
starts behind `n` ends the search. -/
def contains : Ranges → Nat → Bool
  | [], _ => false
  | (lo, hi) :: ranges, n => if n < lo then false else n ≤ hi || contains ranges n

/-- **Only members are found**: a code point that is found lies in a range of the table. -/
theorem exists_mem_of_contains {ranges : Ranges} {n : Nat} (h : ranges.contains n = true) :
    ∃ r ∈ ranges, r.1 ≤ n ∧ n ≤ r.2 := by
  induction ranges with
  | nil => simp [contains] at h
  | cons r ranges ih =>
    obtain ⟨lo, hi⟩ := r
    rw [contains] at h
    split at h
    · simp at h
    · rename_i hlo
      rcases Bool.or_eq_true _ _ ▸ h with hhi | htail
      · exact ⟨(lo, hi), List.mem_cons_self, by simpa using hlo, by simpa using hhi⟩
      · obtain ⟨r, hr, hn⟩ := ih htail
        exact ⟨r, List.mem_cons_of_mem _ hr, hn⟩

end Ranges

end CallByNeed.Text
