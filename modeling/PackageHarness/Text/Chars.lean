/-
# PackageHarness.Text.Chars — ASCII letters and digits by their code points.

The character classes of the core library compare 32-bit values; these lemmas say the same in natural
numbers, where arithmetic decides.
-/
import Mathlib.Data.List.Basic

namespace PackageHarness.Text

variable {c d : Char}

theorem isAlpha_iff : c.isAlpha = true ↔
    (65 ≤ c.toNat ∧ c.toNat ≤ 90) ∨ (97 ≤ c.toNat ∧ c.toNat ≤ 122) := by
  change (decide (c.val ≥ 'A'.val ∧ c.val ≤ 'Z'.val) || (c.val ≥ 'a'.val && c.val ≤ 'z'.val)) = true ↔ _
  simp only [Bool.or_eq_true, Bool.and_eq_true, decide_eq_true_eq, ge_iff_le, UInt32.le_iff_toNat_le]
  exact Iff.rfl

theorem isDigit_iff : c.isDigit = true ↔ 48 ≤ c.toNat ∧ c.toNat ≤ 57 := by
  change (c.val ≥ '0'.val && c.val ≤ '9'.val) = true ↔ _
  simp only [Bool.and_eq_true, decide_eq_true_eq, ge_iff_le, UInt32.le_iff_toNat_le]
  exact Iff.rfl

theorem isAlphanum_iff : c.isAlphanum = true ↔
    (65 ≤ c.toNat ∧ c.toNat ≤ 90) ∨ (97 ≤ c.toNat ∧ c.toNat ≤ 122) ∨
      (48 ≤ c.toNat ∧ c.toNat ≤ 57) := by
  change (c.isAlpha || c.isDigit) = true ↔ _
  rw [Bool.or_eq_true, isAlpha_iff, isDigit_iff, or_assoc]

theorem isHexDigit_iff : c.isHexDigit = true ↔
    (48 ≤ c.toNat ∧ c.toNat ≤ 57) ∨ (97 ≤ c.toNat ∧ c.toNat ≤ 102) ∨
      (65 ≤ c.toNat ∧ c.toNat ≤ 70) := by
  change (c.isDigit || (c.val ≥ 'a'.val && c.val ≤ 'f'.val) ||
    (c.val ≥ 'A'.val && c.val ≤ 'F'.val)) = true ↔ _
  rw [Bool.or_eq_true, Bool.or_eq_true, isDigit_iff, or_assoc]
  simp only [Bool.and_eq_true, decide_eq_true_eq, ge_iff_le, UInt32.le_iff_toNat_le]
  exact Iff.rfl

theorem toLower_of_not_alpha (h : c.isAlpha = false) : c.toLower = c := by
  apply dif_neg
  rintro ⟨hlow, hhigh⟩
  have hletter : c.isAlpha = true :=
    isAlpha_iff.mpr (Or.inl ⟨UInt32.le_iff_toNat_le.mp hlow, UInt32.le_iff_toNat_le.mp hhigh⟩)
  rw [h] at hletter
  cases hletter

/-- Only an uppercase letter is changed into another character, and then into a letter. -/
theorem eq_of_toLower_eq (h : c.toLower = d) (hd : d.isAlpha = false) : c = d := by
  by_cases hupper : c.val ≥ 'A'.val ∧ c.val ≤ 'Z'.val
  · have hlower : c.toLower.val = c.val + ('a'.val - 'A'.val) := congrArg Char.val (dif_pos hupper)
    have hletter : c.toLower.isAlpha = true := by
      rw [isAlpha_iff]
      have hvalue : c.toLower.toNat = c.toNat + 32 := by
        show c.toLower.val.toNat = c.val.toNat + 32
        have hle : c.val.toNat ≤ 90 := UInt32.le_iff_toNat_le.mp hupper.2
        rw [hlower, UInt32.toNat_add, show ('a'.val - 'A'.val).toNat = 32 from rfl]
        omega
      have hlow : 65 ≤ c.toNat := UInt32.le_iff_toNat_le.mp hupper.1
      have hhigh : c.toNat ≤ 90 := UInt32.le_iff_toNat_le.mp hupper.2
      omega
    rw [h, hd] at hletter
    cases hletter
  · have hkeep : c.toLower = c := dif_neg hupper
    rw [← h, hkeep]

end PackageHarness.Text
