import SchemaModels.Text.Basic
import SchemaModels.Text.Ranges

/-!
# Classes of characters

A text of one class holds no character from outside of it. Letters and digits lie in different
ranges, and no blank lies in one of them; the blanks are few enough to be listed (`mem_blanks`).
-/

namespace SchemaModels.Text

/-- A character of a class is none of those outside of it. -/
theorem not_mem_of_any {f : Char → Bool} {c : Char} (h : f c = true) {cs : List Char}
    (hcs : cs.any f = false) : c ∉ cs := by
  intro hc
  rw [List.any_eq_true.2 ⟨c, hc, h⟩] at hcs
  cases hcs

theorem not_mem_of_all {f : Char → Bool} {t : Text} (h : t.all f = true) {c : Char}
    (hc : f c = false) : c ∉ t := by
  intro hm
  rw [List.all_eq_true.1 h c hm] at hc
  cases hc

theorem isBlank_of_isDigit {c : Char} (h : c.isDigit = true) : isBlank c = false := by
  have hc : 48 ≤ c.toNat ∧ c.toNat ≤ 57 := by
    simpa [Char.isDigit, UInt32.le_iff_toNat_le] using h
  simp [isBlank]
  omega

theorem toNat_of_isAlpha {c : Char} (h : c.isAlpha = true) :
    (65 ≤ c.toNat ∧ c.toNat ≤ 90) ∨ (97 ≤ c.toNat ∧ c.toNat ≤ 122) := by
  unfold Char.isAlpha Char.isUpper Char.isLower at h
  simpa [UInt32.le_iff_toNat_le] using h

theorem isBlank_of_isAlpha {c : Char} (h : c.isAlpha = true) : isBlank c = false := by
  have hc := toNat_of_isAlpha h
  simp [isBlank]
  omega

theorem isDigit_of_isAlpha {c : Char} (h : c.isAlpha = true) : c.isDigit = false := by
  have hc := toNat_of_isAlpha h
  simp [Char.isDigit, UInt32.le_iff_toNat_le]
  omega

theorem isAlpha_of_isDigit {c : Char} (h : c.isDigit = true) : c.isAlpha = false :=
  Bool.eq_false_iff.2 fun halpha => by
    rw [isDigit_of_isAlpha halpha] at h
    cases h

/-! ### Blanks -/

/-- The blank characters, as ranges. -/
def blankRanges : Ranges :=
  [(9, 13), (32, 32), (0x85, 0x85), (0xA0, 0xA0), (0x1680, 0x1680), (0x2000, 0x200A),
    (0x2028, 0x2029), (0x202F, 0x202F), (0x205F, 0x205F), (0x3000, 0x3000)]

/-- The blank characters one by one. -/
def blanks : List Char :=
  blankRanges.flatMap fun r => (List.range (r.2 + 1 - r.1)).map fun i => Char.ofNat (r.1 + i)

theorem mem_blanks {c : Char} (h : isBlank c = true) : c ∈ blanks := by
  have hrange : ∃ r ∈ blankRanges, r.1 ≤ c.toNat ∧ c.toNat ≤ r.2 := by
    simp only [isBlank, Bool.or_eq_true, Bool.and_eq_true, decide_eq_true_eq,
      beq_iff_eq] at h
    simp only [blankRanges, List.mem_cons, List.not_mem_nil, or_false, exists_eq_or_imp,
      exists_eq_left]
    omega
  obtain ⟨r, hr, hlow, hhigh⟩ := hrange
  refine List.mem_flatMap.2 ⟨r, hr, List.mem_map.2 ⟨c.toNat - r.1, ?_, ?_⟩⟩
  · exact List.mem_range.2 (by omega)
  · rw [Nat.add_sub_cancel' hlow]
    exact Char.ofNat_toNat c

end SchemaModels.Text
