import SchemaModels.Proofs.Text.Characters

/-!
# The case of letters

Making a character a capital changes small letters only (`toUpper_eq_self_iff`), keeps letters
letters and makes each of them a capital.
-/

namespace SchemaModels

namespace Text

theorem toNat_toUpper (c : Char) :
    c.toUpper.toNat = if 97 ≤ c.toNat ∧ c.toNat ≤ 122 then c.toNat - 32 else c.toNat := by
  unfold Char.toUpper
  split
  · rename_i hc
    have hfirst := UInt32.le_iff_toNat_le.1 hc.1
    have hlast := UInt32.le_iff_toNat_le.1 hc.2
    simp [UInt32.toNat_add] at hfirst hlast ⊢
    rw [if_pos ⟨hfirst, hlast⟩]
    omega
  · rename_i hc
    simp [UInt32.le_iff_toNat_le] at hc ⊢
    omega

theorem isUpper_toUpper {c : Char} (h : isLetter c = true) : c.toUpper.isUpper = true := by
  have hrange := toNat_of_isAlpha h
  unfold Char.toUpper
  split
  · rename_i hc
    have hfirst := UInt32.le_iff_toNat_le.1 hc.1
    have hlast := UInt32.le_iff_toNat_le.1 hc.2
    unfold Char.isUpper
    simp [UInt32.le_iff_toNat_le, UInt32.toNat_add] at hfirst hlast ⊢
    omega
  · rename_i hc
    unfold Char.isUpper
    simp [UInt32.le_iff_toNat_le] at hc ⊢
    omega

theorem toUpper_eq_self_iff (c : Char) : c.toUpper = c ↔ c.isLower = false := by
  unfold Char.toUpper
  split
  · rename_i hc
    have hlower : c.isLower = true := by
      unfold Char.isLower
      simpa using hc
    rw [hlower]
    refine iff_of_false (fun he => ?_) (by decide)
    have hval := congrArg (fun d : Char => d.val.toNat) he
    have hfirst := UInt32.le_iff_toNat_le.1 hc.1
    have hlast := UInt32.le_iff_toNat_le.1 hc.2
    simp [UInt32.toNat_add] at hval hfirst hlast
    omega
  · rename_i hc
    refine iff_of_true rfl ?_
    unfold Char.isLower
    simpa using hc

/-- A capital is no small letter. -/
theorem isLower_of_isUpper {c : Char} (h : c.isUpper = true) : c.isLower = false := by
  unfold Char.isUpper at h
  unfold Char.isLower
  simp [UInt32.le_iff_toNat_le] at h ⊢
  omega

theorem isLetter_of_isLower {c : Char} (h : c.isLower = true) : isLetter c = true := by
  unfold isLetter Char.isAlpha
  rw [h, Bool.or_true]

theorem toUpper_toUpper (c : Char) : c.toUpper.toUpper = c.toUpper := by
  rw [toUpper_eq_self_iff]
  cases hc : c.isLower with
  | false => rw [(toUpper_eq_self_iff c).2 hc, hc]
  | true =>
      have hletter : isLetter c = true := isLetter_of_isLower hc
      exact isLower_of_isUpper (isUpper_toUpper hletter)

theorem isLetter_toUpper_eq (c : Char) : isLetter c.toUpper = isLetter c := by
  cases hc : c.isLower with
  | false => rw [(toUpper_eq_self_iff c).2 hc]
  | true =>
      have hletter : isLetter c = true := isLetter_of_isLower hc
      rw [isLetter_toUpper hletter, hletter]

end Text

end SchemaModels
