import LinProg.Proofs.Binary64.Nearest

set_option autoImplicit false

/-! # Integers among the numbers

Every integer up to `2 ^ 53` is a magnitude of the format (`exists_magnitude_eq`), and what is
nearest to it is nothing else. So a number that should be such an integer is one (`IsInteger`):
integers keep to their sums as long as those are not larger (`IsInteger.add`), whatever the sign of
a zero among them is. -/

namespace LinProg.Binary64

/-! ## Magnitudes -/

/-- Some power of two takes a positive integer to the mantissas of a binade. -/
theorem exists_binade {n : Nat} (hpos : 0 < n) (h : n ≤ 2 ^ 53) :
    ∃ shift ≤ 52, binadeSize ≤ n * 2 ^ shift ∧ n * 2 ^ shift ≤ 2 * binadeSize := by
  rcases Nat.lt_or_eq_of_le h with hlt | rfl
  · have hne : n ≠ 0 := Nat.ne_of_gt hpos
    have hlog : n.log2 < 53 := (Nat.log2_lt hne).2 hlt
    have hlow_exponent : n.log2 + (52 - n.log2) = 52 := by omega
    have hhigh_exponent : n.log2 + 1 + (52 - n.log2) = 53 := by omega
    have hlog_le : 2 ^ n.log2 ≤ n := Nat.log2_self_le hne
    have hlt_log : n < 2 ^ (n.log2 + 1) := Nat.lt_log2_self
    have hlow := Nat.mul_le_mul_right (2 ^ (52 - n.log2)) hlog_le
    have hhigh := Nat.mul_le_mul_right (2 ^ (52 - n.log2)) hlt_log.le
    rw [← pow_add, hlow_exponent] at hlow
    rw [← pow_add, hhigh_exponent] at hhigh
    exact ⟨52 - n.log2, Nat.sub_le _ _, hlow, hhigh⟩
  · exact ⟨0, by decide, by decide, by decide⟩

/-- An integer up to `2 ^ 53` is a finite magnitude. -/
theorem exists_magnitude_eq {n : Nat} (h : n ≤ 2 ^ 53) :
    ∃ rank < finiteMagnitudes, magnitude rank = n := by
  rcases Nat.eq_zero_or_pos n with rfl | hpos
  · exact ⟨0, by decide, by rw [magnitude_zero, Nat.cast_zero]⟩
  · obtain ⟨shift, hshift, hlow, hhigh⟩ := exists_binade hpos h
    refine ⟨(1074 - shift) * binadeSize + n * 2 ^ shift, ?_, ?_⟩
    · have hstep : (1074 - shift) * binadeSize ≤ 1074 * binadeSize :=
        Nat.mul_le_mul_right _ (Nat.sub_le _ _)
      simp only [binadeSize, finiteMagnitudes] at hhigh hstep ⊢
      omega
    · have hunits : units ((1074 - shift) * binadeSize + n * 2 ^ shift) = n * 2 ^ 1074 := by
        have hexponent : shift + (1074 - shift) = 1074 := by omega
        rw [units_steps (Or.inr hlow) hhigh, Nat.mul_assoc, ← pow_add, hexponent]
      have hunit : (2 : ℚ) ^ 1074 ≠ 0 := (pow_pos two_pos 1074).ne'
      rw [magnitude, hunits, Nat.cast_mul, Nat.cast_pow, Nat.cast_ofNat,
        mul_div_cancel_right₀ _ hunit]

/-- The magnitude nearest to such an integer is the integer. -/
theorem IsNearest.eq_natCast {n rank : Nat} (hrank : IsNearest n rank) (h : n ≤ 2 ^ 53) :
    rank < finiteMagnitudes ∧ magnitude rank = n := by
  obtain ⟨exact_rank, hlt, hmagnitude⟩ := exists_magnitude_eq h
  obtain rfl := hrank.unique (hmagnitude ▸ isNearest_magnitude exact_rank)
  exact ⟨hlt, hmagnitude⟩

/-! ## Numbers -/

/-- A number is finite and an integer. -/
structure IsInteger (x : Binary64) (n : Int) : Prop where
  isFinite : x.isFinite = true
  toRat_eq : x.toRat = n

theorem toRat_neg (x : Binary64) : (-x).toRat = -x.toRat := by
  cases x with
  | finite sign rank =>
    show sign.opposite.apply (magnitude rank) = -sign.apply (magnitude rank)
    cases sign with
    | plus => rfl
    | minus => exact (Rat.neg_neg _).symm
  | infinite sign => exact neg_zero.symm
  | nan => exact neg_zero.symm

theorem isInteger_zero : IsInteger 0 0 :=
  ⟨rfl, by rw [toRat_zero, Int.cast_zero]⟩

/-- The number at the rank nearest to an integer is the integer, under its sign. -/
theorem isInteger_ofRank (sign : Sign) {n rank : Nat} (hrank : IsNearest n rank) (h : n ≤ 2 ^ 53) :
    IsInteger (ofRank sign rank) (sign.apply (n : Int)) := by
  obtain ⟨hlt, hmagnitude⟩ := hrank.eq_natCast h
  rw [ofRank_of_lt sign hlt]
  refine ⟨rfl, ?_⟩
  show sign.apply (magnitude rank) = _
  rw [hmagnitude]
  cases sign <;> simp [Sign.apply]

namespace IsInteger

variable {x y : Binary64} {m n : Int}

theorem apply (h : IsInteger x n) (sign : Sign) : IsInteger (sign.apply x) (sign.apply n) := by
  cases sign with
  | plus => exact h
  | minus =>
    refine ⟨?_, ?_⟩
    · have hfinite := h.isFinite
      cases x with
      | finite sign rank => rfl
      | infinite sign => cases hfinite
      | nan => cases hfinite
    · rw [Sign.apply, Sign.apply, toRat_neg, h.toRat_eq, Int.cast_neg]

theorem exists_finite (h : IsInteger x n) : ∃ sign rank, x = finite sign rank := by
  have hfinite := h.isFinite
  cases x with
  | finite sign rank => exact ⟨sign, rank, rfl⟩
  | infinite sign => cases hfinite
  | nan => cases hfinite

/-- A number is the integer zero exactly if it compares equal to zero. -/
theorem isZero_iff (h : IsInteger x n) : x.isZero = true ↔ n = 0 := by
  obtain ⟨sign, rank, rfl⟩ := h.exists_finite
  have hvalue : sign.apply (magnitude rank) = (n : ℚ) := h.toRat_eq
  have hzero : magnitude rank = 0 ↔ rank.val = 0 := by
    rw [← magnitude_zero, magnitude_strictMono.injective.eq_iff]
  rw [isZero, beq_iff_eq, ← hzero, ← Int.cast_eq_zero (α := ℚ), ← hvalue]
  cases sign with
  | plus => rfl
  | minus => exact neg_eq_zero.symm

/-- The sum of two integers is not rounded if it is one of those that the format has. -/
theorem add (hx : IsInteger x m) (hy : IsInteger y n) (h : (m + n).natAbs ≤ 2 ^ 53) :
    IsInteger (x + y) (m + n) := by
  obtain ⟨s, a, rfl⟩ := hx.exists_finite
  obtain ⟨t, b, rfl⟩ := hy.exists_finite
  obtain ⟨sign, rank, hnearest, heq, hneg, hpos⟩ := exists_isNearest_add s t a b
  have htotal : toRat (finite s a) + toRat (finite t b) = ((m + n : Int) : ℚ) := by
    rw [hx.toRat_eq, hy.toRat_eq, Int.cast_add]
  rw [htotal] at hnearest hneg hpos
  have habs : |((m + n : Int) : ℚ)| = ((m + n).natAbs : ℚ) := by
    rw [Nat.cast_natAbs, Int.cast_abs]
  rw [habs] at hnearest
  have hsum := isInteger_ofRank sign hnearest h
  have hsign : sign.apply ((m + n).natAbs : Int) = m + n := by
    rcases lt_trichotomy (m + n) 0 with hlt | hzero | hgt
    · rw [hneg (Int.cast_lt_zero.2 hlt), Sign.apply]
      omega
    · rw [hzero]
      cases sign <;> rfl
    · rw [hpos (Int.cast_pos.2 hgt), Sign.apply]
      omega
  rw [heq, ← hsign]
  exact hsum

/-- There is one number for each integer other than zero. -/
theorem unique (hx : IsInteger x n) (hy : IsInteger y n) (h : n ≠ 0) : x = y := by
  obtain ⟨s, a, rfl⟩ := hx.exists_finite
  obtain ⟨t, b, rfl⟩ := hy.exists_finite
  have hvalue : s.apply (magnitude a) = t.apply (magnitude b) :=
    hx.toRat_eq.trans hy.toRat_eq.symm
  have hzero : s.apply (magnitude a) ≠ 0 := by
    intro heq
    exact h (Int.cast_eq_zero.1 (hx.toRat_eq.symm.trans heq))
  have ha : 0 ≤ magnitude a := div_nonneg (Nat.cast_nonneg _) (pow_pos two_pos 1074).le
  have hb : 0 ≤ magnitude b := div_nonneg (Nat.cast_nonneg _) (pow_pos two_pos 1074).le
  have hmagnitude : s = t ∧ magnitude a = magnitude b := by
    cases s <;> cases t <;> simp only [Sign.apply] at hvalue hzero
    · exact ⟨rfl, hvalue⟩
    · exact absurd (le_antisymm (by linarith) ha) hzero
    · exact absurd (by linarith) hzero
    · exact ⟨rfl, neg_injective hvalue⟩
  rw [hmagnitude.1, Fin.ext (magnitude_strictMono.injective hmagnitude.2)]

end IsInteger

end LinProg.Binary64
