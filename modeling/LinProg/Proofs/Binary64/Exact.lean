import Mathlib.Tactic.Ring
import LinProg.Binary64.Round

set_option autoImplicit false

/-! # Exact magnitudes

Rounding does nothing to a magnitude that the format has: `roundRank_units_mul` gives back the rank,
whatever the denominator of the quotient is. The reason is that the logarithm of a magnitude tells
its binade (`log2_units_sub`), so that the quotient is a whole number of steps.

It follows that a number is read back from its exact magnitude and that adding it to `+0` does not
change it. -/

namespace LinProg.Binary64

/-! ## Parts of a rank -/

theorem mantissa_lt (rank : Nat) : mantissa rank < 2 ^ 53 := by
  simp only [mantissa, binade, binadeSize]
  omega

theorem le_mantissa {rank : Nat} (h : 0 < binade rank) : 2 ^ 52 ≤ mantissa rank := by
  simp only [mantissa, binade, binadeSize] at *
  omega

theorem binade_mul_add_mantissa (rank : Nat) :
    binade rank * binadeSize + mantissa rank = rank := by
  simp only [mantissa, binade, binadeSize]
  omega

theorem binade_le {rank : Nat} (h : rank < finiteMagnitudes) : binade rank ≤ 2045 := by
  simp only [binade, binadeSize, finiteMagnitudes] at *
  omega

theorem mantissa_pos {rank : Nat} (h : 0 < rank) : 0 < mantissa rank := by
  simp only [mantissa, binade, binadeSize]
  omega

theorem units_eq (rank : Nat) : units rank = mantissa rank * 2 ^ binade rank :=
  Nat.shiftLeft_eq _ _

theorem units_pos {rank : Nat} (h : 0 < rank) : 0 < units rank := by
  rw [units_eq]
  exact Nat.mul_pos (mantissa_pos h) (Nat.two_pow_pos _)

/-- A magnitude is below the power of two that its binade gives. -/
theorem units_lt {rank : Nat} (n : Nat) (h : 53 + binade rank ≤ n) : units rank < 2 ^ n := by
  calc units rank = mantissa rank * 2 ^ binade rank := units_eq rank
    _ < 2 ^ 53 * 2 ^ binade rank :=
      Nat.mul_lt_mul_of_pos_right (mantissa_lt rank) (Nat.two_pow_pos _)
    _ = 2 ^ (53 + binade rank) := (Nat.pow_add 2 53 _).symm
    _ ≤ 2 ^ n := Nat.pow_le_pow_right Nat.two_pos h

/-! ## Rounding -/

/-- The logarithm of a magnitude tells its binade. -/
theorem log2_units_sub (rank : Nat) : (units rank).log2 - 52 = binade rank := by
  have hlt := mantissa_lt rank
  rw [units_eq]
  rcases Nat.eq_zero_or_pos (binade rank) with hb | hb
  · -- In the lowest binade the mantissa may be small.
    rw [hb, Nat.pow_zero, Nat.mul_one]
    rcases Nat.eq_zero_or_pos (mantissa rank) with hm | hm
    · rw [hm, Nat.log2_zero]
    · have := (Nat.log2_lt (Nat.ne_of_gt hm)).2 hlt
      omega
  · have hle := le_mantissa hb
    have hne : mantissa rank * 2 ^ binade rank ≠ 0 :=
      Nat.ne_of_gt (Nat.mul_pos (by omega) (Nat.two_pow_pos _))
    have hlog : (mantissa rank * 2 ^ binade rank).log2 = 52 + binade rank := by
      rw [Nat.log2_eq_iff hne]
      constructor
      · rw [Nat.pow_add]
        exact Nat.mul_le_mul_right _ hle
      · rw [Nat.add_right_comm, Nat.pow_add]
        exact Nat.mul_lt_mul_of_pos_right hlt (Nat.two_pow_pos _)
    rw [hlog, Nat.add_sub_cancel_left]

theorem roundDiv_mul_mul_right (num den : Nat) {c : Nat} (h : 0 < c) :
    roundDiv (num * c) (den * c) = roundDiv num den := by
  simp only [roundDiv, Nat.mul_div_mul_right _ _ h, Nat.mul_mod_mul_right, ← Nat.mul_assoc,
    Nat.mul_lt_mul_right h]

theorem roundRank_mul_mul_right (num den : Nat) {c : Nat} (h : 0 < c) :
    roundRank (num * c) (den * c) = roundRank num den := by
  have hshift : ∀ step, (den * c) <<< step = den <<< step * c := by
    intro step
    rw [Nat.shiftLeft_eq, Nat.shiftLeft_eq, Nat.mul_right_comm]
  simp only [roundRank, Nat.mul_div_mul_right _ _ h, hshift, roundDiv_mul_mul_right _ _ h]

theorem roundRank_congr {num den num' den' : Nat} (h : 0 < den) (h' : 0 < den')
    (heq : num * den' = num' * den) : roundRank num den = roundRank num' den' := by
  rw [← roundRank_mul_mul_right num den h', heq, Nat.mul_comm den, roundRank_mul_mul_right _ _ h]

/-- A magnitude that the format has is not rounded. -/
theorem roundRank_units_mul (rank : Nat) {den : Nat} (h : 0 < den) :
    roundRank (units rank * den) den = rank := by
  have hsteps : units rank * den = mantissa rank * den <<< binade rank := by
    rw [units_eq, Nat.shiftLeft_eq, Nat.mul_right_comm, Nat.mul_assoc]
  have hpos : 0 < den <<< binade rank := by
    rw [Nat.shiftLeft_eq]
    exact Nat.mul_pos h (Nat.two_pow_pos _)
  simp only [roundRank, Nat.mul_div_cancel _ h, log2_units_sub]
  rw [hsteps, roundDiv_mul_self _ hpos, binade_mul_add_mantissa]

theorem ofQuotient_units_mul (sign : Sign) (rank : Fin finiteMagnitudes) {den : Nat}
    (h : 0 < den) : ofQuotient sign (units rank.val * den) den = .finite sign rank := by
  rw [ofQuotient, roundRank_units_mul rank.val h, ofRank_of_lt sign rank.isLt]

/-! ## Adding to zero -/

theorem ofUnits_apply (sign : Sign) (rank : Fin finiteMagnitudes) (h : rank.val ≠ 0) :
    ofUnits (sign.apply (units rank.val : Int)) = .finite sign rank := by
  have hpos := units_pos (Nat.pos_of_ne_zero h)
  have hexact := ofQuotient_units_mul sign rank Nat.one_pos
  rw [Nat.mul_one] at hexact
  cases sign with
  | plus =>
    have hneg : ¬ (units rank.val : Int) < 0 := by omega
    rw [Sign.apply, ofUnits, if_neg hneg, Int.natAbs_natCast]
    exact hexact
  | minus =>
    have hneg : -(units rank.val : Int) < 0 := by omega
    rw [Sign.apply, ofUnits, if_pos hneg, Int.natAbs_neg, Int.natAbs_natCast]
    exact hexact

/-- Adding a number other than zero to `+0` gives the number. -/
theorem zero_add_of_isZero {x : Binary64} (h : x.isZero = false) : (0 : Binary64) + x = x := by
  cases x with
  | nan => rfl
  | infinite sign => rfl
  | finite sign rank =>
    have hne : rank.val ≠ 0 := by simpa [isZero] using h
    show Binary64.add zero (.finite sign rank) = .finite sign rank
    rw [zero, Binary64.add, if_neg (fun hc => hne hc.2.1), units_zero, Sign.apply, Int.natCast_zero,
      Int.zero_add]
    exact ofUnits_apply sign rank hne

end LinProg.Binary64
