import Mathlib.Data.List.Basic
import Mathlib.Tactic.IntervalCases

/-!
# Letters and digits

The kinds of ASCII characters are ranges of code points (`isUpper_iff`, `isLower_iff`, `isDigit_iff`). From this follows
how they stand apart and what lower case does to them.
-/

namespace TypedSettings.Text

variable {c : Char}

theorem isUpper_iff : c.isUpper = true ↔ 65 ≤ c.toNat ∧ c.toNat ≤ 90 := decide_eq_true_iff

theorem isLower_iff : c.isLower = true ↔ 97 ≤ c.toNat ∧ c.toNat ≤ 122 :=
  Bool.and_eq_true_iff.trans (and_congr decide_eq_true_iff decide_eq_true_iff)

theorem isDigit_iff : c.isDigit = true ↔ 48 ≤ c.toNat ∧ c.toNat ≤ 57 :=
  Bool.and_eq_true_iff.trans (and_congr decide_eq_true_iff decide_eq_true_iff)

theorem isAlpha_iff : c.isAlpha = true ↔ c.isUpper = true ∨ c.isLower = true := Bool.or_eq_true_iff

theorem not_isDigit_of_isAlpha (h : c.isAlpha = true) : ¬c.isDigit = true := by
  rw [isAlpha_iff, isUpper_iff, isLower_iff] at h
  rw [isDigit_iff]
  omega

theorem isUpper_eq_false_of_isDigit (h : c.isDigit = true) : c.isUpper = false := by
  rw [isDigit_iff] at h
  rw [← Bool.not_eq_true, isUpper_iff]
  omega

/-! ## Lower case -/

theorem toLower_eq_self (h : c.isUpper = false) : c.toLower = c := dif_neg (of_decide_eq_false h)

theorem isLower_toLower (h : c.isUpper = true) : c.toLower.isLower = true := by
  obtain ⟨h₁, h₂⟩ := isUpper_iff.mp h
  rw [← Char.ofNat_toNat c]
  generalize c.toNat = n at h₁ h₂
  interval_cases n <;> decide

theorem isUpper_toLower (c : Char) : c.toLower.isUpper = false := by
  cases h : c.isUpper with
  | false => rwa [toLower_eq_self h]
  | true =>
    have hlower := isLower_iff.mp (isLower_toLower h)
    rw [← Bool.not_eq_true, isUpper_iff]
    omega

theorem isAlpha_toLower (h : c.isAlpha = true) : c.toLower.isAlpha = true := by
  cases hupper : c.isUpper with
  | false => rwa [toLower_eq_self hupper]
  | true => exact isAlpha_iff.mpr (Or.inr (isLower_toLower hupper))

end TypedSettings.Text
