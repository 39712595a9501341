/-!
# Ranges of characters

A class of characters is given by the closed ranges of its code points, in ascending order.
-/

namespace SchemaModels.Text

abbrev Ranges := List (Nat × Nat)

/-- Whether a code point lies in one of the ranges; the search stops at the first that begins
beyond it. -/
def Ranges.contains : Ranges → Nat → Bool
  | [], _ => false
  | (low, high) :: rs, n => low ≤ n && (n ≤ high || Ranges.contains rs n)

theorem Ranges.exists_of_contains {rs : Ranges} {n : Nat} (h : rs.contains n = true) :
    ∃ r ∈ rs, r.1 ≤ n ∧ n ≤ r.2 := by
  induction rs with
  | nil => simp [contains] at h
  | cons r rs ih =>
    simp only [contains, Bool.and_eq_true, Bool.or_eq_true, decide_eq_true_eq] at h
    rcases h with ⟨hl, hh | hr⟩
    · exact ⟨r, by simp, hl, hh⟩
    · obtain ⟨r', hm, hb⟩ := ih hr
      exact ⟨r', by simp [hm], hb⟩

end SchemaModels.Text
