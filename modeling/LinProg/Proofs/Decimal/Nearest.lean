import Mathlib.Algebra.Order.Field.Power
import Mathlib.Tactic.FieldSimp
import LinProg.Decimal.Basic
import LinProg.Proofs.Binary64.Nearest

set_option autoImplicit false

/-! # The number nearest to a decimal

A decimal is read as the number nearest to what it says (`exists_isNearest_toBinary64`). Between the
two powers of ten at which reading decides by the place of the first digit this is the rounding of a
quotient; outside of them the place of the first digit is enough to know the nearest magnitude. -/

namespace LinProg.Decimal

open Binary64

def value (d : Decimal) : ℚ :=
  d.significand * 10 ^ d.exponent

/-- As many units as the rounded quotient counts make up the decimal. -/
theorem value_eq_quotient (d : Decimal) :
    d.value = ((d.significand * Nat.pow 10 d.exponent.toNat) <<< 1074 : Nat) /
      (Nat.pow 10 (-d.exponent).toNat : Nat) / 2 ^ 1074 := by
  have hten : (10 : ℚ) ≠ 0 := by norm_num
  have hsplit : d.exponent = (d.exponent.toNat : Int) - ((-d.exponent).toNat : Int) := by omega
  have hpow : (10 : ℚ) ^ d.exponent = 10 ^ d.exponent.toNat / 10 ^ (-d.exponent).toNat := by
    conv_lhs => rw [hsplit]
    rw [zpow_sub₀ hten, zpow_natCast, zpow_natCast]
  rw [value, hpow, Nat.pow_eq, Nat.pow_eq]
  generalize 1074 = shift
  rw [Nat.shiftLeft_eq]
  push_cast
  field_simp

theorem value_lt (d : Decimal) : d.value < 10 ^ d.magnitude := by
  have hten : (10 : ℚ) ≠ 0 := by norm_num
  have hdigits : d.significand < 10 ^ d.digits.length :=
    (Nat.length_toDigits_le_iff (by decide) Nat.length_toDigits_pos).1 Nat.le.refl
  have hcast : (d.significand : ℚ) < 10 ^ d.digits.length := by exact_mod_cast hdigits
  rw [value, Decimal.magnitude, zpow_add₀ hten, zpow_natCast]
  exact mul_lt_mul_of_pos_right hcast (zpow_pos (by norm_num) _)

theorem le_value {d : Decimal} (h : d.significand ≠ 0) : 10 ^ (d.magnitude - 1) ≤ d.value := by
  have hten : (10 : ℚ) ≠ 0 := by norm_num
  obtain ⟨places, hplaces⟩ : ∃ places, d.digits.length = places + 1 :=
    Nat.exists_eq_succ_of_ne_zero (Nat.ne_of_gt Nat.length_toDigits_pos)
  have hdigits : 10 ^ places ≤ d.significand := by
    rcases Nat.eq_zero_or_pos places with rfl | hpos
    · exact Nat.pos_of_ne_zero h
    · by_contra hlt
      have hlength := (Nat.length_toDigits_le_iff (by decide) hpos).2 (Nat.not_le.1 hlt)
      rw [digits] at hplaces
      omega
  have hcast : (10 : ℚ) ^ places ≤ d.significand := by exact_mod_cast hdigits
  have hexponent : d.magnitude - 1 = places + d.exponent := by
    rw [Decimal.magnitude, hplaces]
    omega
  rw [hexponent, zpow_add₀ hten, zpow_natCast]
  exact mul_le_mul_of_nonneg_right hcast (zpow_nonneg (by norm_num) _)

/-- Below `10 ^ -324` zero is nearest. -/
theorem isNearest_zero {exact : ℚ} (h : exact ≤ 10 ^ (-324 : Int)) : IsNearest exact 0 := by
  refine isNearest_of_midpoints ?_ ?_ ?_
  · intro other hother
    have hunit : (1 : ℚ) ≤ units other := by exact_mod_cast units_pos hother
    have hpowers : (2 : ℚ) * 2 ^ 1074 ≤ 10 ^ 324 := by
      exact_mod_cast (by decide +kernel : 2 * 2 ^ 1074 ≤ 10 ^ 324)
    have hten : (0 : ℚ) < 10 ^ 324 := by positivity
    rw [magnitude_zero, zero_add, Binary64.magnitude, le_div_iff₀ (pow_pos two_pos 1074)]
    calc 2 * exact * 2 ^ 1074 = exact * (2 * 2 ^ 1074) := by rw [mul_comm 2, mul_assoc]
      _ ≤ (10 ^ 324)⁻¹ * (2 * 2 ^ 1074) := mul_le_mul_of_nonneg_right h (by positivity)
      _ ≤ (10 ^ 324)⁻¹ * 10 ^ 324 := mul_le_mul_of_nonneg_left hpowers (by positivity)
      _ = 1 := inv_mul_cancel₀ hten.ne'
      _ ≤ units other := hunit
  · intro other hother
    exact absurd hother (Nat.not_lt_zero _)
  · intro other _ _
    rfl

/-- From `10 ^ 309` on no finite magnitude is nearest. -/
theorem le_of_isNearest {exact : ℚ} {rank : Nat} (h : 10 ^ (309 : Int) ≤ exact)
    (hrank : IsNearest exact rank) : finiteMagnitudes ≤ rank := by
  by_contra hlt
  have hbelow := Binary64.magnitude_strictMono (Nat.not_le.1 hlt)
  have hmid := (abs_sub_le_abs_sub_iff_of_lt hbelow).1 (hrank.nearest finiteMagnitudes)
  have hlast : Binary64.magnitude finiteMagnitudes ≤ 10 ^ (309 : Int) := by
    have hunits : (units finiteMagnitudes : ℚ) ≤ 10 ^ 309 * 2 ^ 1074 := by
      exact_mod_cast (by decide +kernel : units finiteMagnitudes ≤ 10 ^ 309 * 2 ^ 1074)
    rw [Binary64.magnitude, div_le_iff₀ (pow_pos two_pos 1074)]
    exact hunits
  linarith

/-- A decimal is read as the number nearest to what it says. -/
theorem exists_isNearest_toBinary64 (d : Decimal) :
    ∃ rank, IsNearest d.value rank ∧ ∀ sign, d.toBinary64 sign = ofRank sign rank := by
  have hden : 0 < Nat.pow 10 (-d.exponent).toNat := Nat.pow_pos (by decide)
  have hround := isNearest_roundRank ((d.significand * Nat.pow 10 d.exponent.toNat) <<< 1074) hden
  rw [← value_eq_quotient] at hround
  by_cases hlow : d.significand = 0 ∨ d.magnitude ≤ -324
  · refine ⟨0, isNearest_zero ?_, fun sign => by rw [toBinary64, if_pos hlow]⟩
    rcases hlow with hzero | hlow
    · rw [value, hzero, Nat.cast_zero, zero_mul]
      exact zpow_nonneg (by norm_num) _
    · exact (value_lt d).le.trans (zpow_le_zpow_right₀ (by norm_num) hlow)
  · by_cases hhigh : 309 < d.magnitude
    · refine ⟨_, hround, ?_⟩
      intro sign
      have hvalue : 10 ^ (309 : Int) ≤ d.value :=
        (zpow_le_zpow_right₀ (by norm_num) (by omega)).trans (le_value (not_or.1 hlow).1)
      rw [toBinary64, if_neg hlow, if_pos hhigh, ofRank_of_le sign (le_of_isNearest hvalue hround)]
    · exact ⟨_, hround, fun sign => by rw [toBinary64, if_neg hlow, if_neg hhigh, ofQuotient]⟩

end LinProg.Decimal
