import LinProg.Decimal.Shortest
import LinProg.Proofs.Binary64.Exact

set_option autoImplicit false

/-! # Reading a shortest decimal back

Whatever grid the search for a shortest decimal ends on, the decimal it returns has been read back,
or is the exact value. So one thing is left to show: the exact value of a magnitude is read as the
magnitude (`toBinary64_exact`). It lies between the two powers of ten from which on the answer is
known from the place of the first digit, and between them the quotient that is rounded is a whole
number of units. -/

namespace LinProg.Decimal

open Binary64

/-! ## What a decimal is read as -/

/-- The sign does not bear on the magnitude. -/
theorem exists_toBinary64_eq_ofRank (d : Decimal) :
    ∃ rank, ∀ sign, d.toBinary64 sign = ofRank sign rank := by
  by_cases hlow : d.significand = 0 ∨ d.magnitude ≤ -324
  · refine ⟨0, ?_⟩
    intro sign
    rw [toBinary64, if_pos hlow]
  · by_cases hhigh : 309 < d.magnitude
    · refine ⟨finiteMagnitudes, ?_⟩
      intro sign
      rw [toBinary64, if_neg hlow, if_pos hhigh, ofRank_of_le sign Nat.le.refl]
    · refine ⟨roundRank ((d.significand * Nat.pow 10 d.exponent.toNat) <<< 1074)
        (Nat.pow 10 (-d.exponent).toNat), ?_⟩
      intro sign
      rw [toBinary64, if_neg hlow, if_neg hhigh, ofQuotient]

/-- The rank of a finite number is determined by the number. -/
theorem eq_of_ofRank_eq {sign : Sign} {rank rank' : Nat} (h : rank < finiteMagnitudes)
    (heq : ofRank sign rank' = ofRank sign rank) : rank' = rank := by
  rw [ofRank_of_lt sign h] at heq
  by_cases h' : rank' < finiteMagnitudes
  · rw [ofRank_of_lt sign h'] at heq
    simpa using heq
  · rw [ofRank_of_le sign (Nat.not_lt.1 h')] at heq
    cases heq

/-- Reading back under `+` is reading back under either sign. -/
theorem toBinary64_of_readsAs {d : Decimal} {rank : Nat} (h : rank < finiteMagnitudes)
    (hread : d.readsAs rank = true) (sign : Sign) : d.toBinary64 sign = ofRank sign rank := by
  obtain ⟨rank', hrank'⟩ := exists_toBinary64_eq_ofRank d
  have hplus : ofRank .plus rank' = ofRank .plus rank := by
    rw [← hrank', of_decide_eq_true hread]
  rw [hrank', eq_of_ofRank_eq h hplus]

theorem toBinary64_of_magnitude (sign : Sign) {d : Decimal} (hne : d.significand ≠ 0)
    (hlow : -324 < d.magnitude) (hhigh : d.magnitude ≤ 309) :
    d.toBinary64 sign = ofQuotient sign ((d.significand * Nat.pow 10 d.exponent.toNat) <<< 1074)
      (Nat.pow 10 (-d.exponent).toNat) := by
  rw [toBinary64, if_neg (by omega), if_neg (by omega)]

/-! ## The exact value -/

/-- Halvings below the point are places below the point. -/
theorem shiftLeft_mul_pow (m b n : Nat) :
    (m <<< (b - n) * 5 ^ (n - b)) <<< n = m * 2 ^ b * 10 ^ (n - b) := by
  have hpow : 2 ^ (b - n) * 2 ^ n = 2 ^ b * 2 ^ (n - b) := by
    rw [← Nat.pow_add, ← Nat.pow_add]
    congr 1
    omega
  rw [Nat.shiftLeft_eq, Nat.shiftLeft_eq]
  calc m * 2 ^ (b - n) * 5 ^ (n - b) * 2 ^ n
      = m * (2 ^ (b - n) * 2 ^ n) * 5 ^ (n - b) := by ring
    _ = m * 2 ^ b * (2 ^ (n - b) * 5 ^ (n - b)) := by rw [hpow]; ring
    _ = m * 2 ^ b * 10 ^ (n - b) := by rw [← Nat.mul_pow]

/-- The exact value counts the same as the units. -/
theorem significand_exact (rank : Nat) :
    (exact rank).significand <<< 1074 = units rank * 10 ^ (1074 - binade rank) := by
  rw [units_eq]
  exact shiftLeft_mul_pow (mantissa rank) (binade rank) 1074

/-- A number that is not too small has enough digits. -/
theorem places_lt {s u digits places : Nat} (n bound : Nat) (heq : s <<< n = u * 10 ^ places)
    (hu : 0 < u) (hs : s < 10 ^ digits) (hn : 2 ^ n ≤ 10 ^ bound) : places < digits + bound := by
  -- Otherwise the units would not reach the power of ten that the places stand for.
  apply Nat.not_le.1
  intro hle
  have hlt : s <<< n < 10 ^ places := by
    calc s <<< n = s * 2 ^ n := Nat.shiftLeft_eq s n
      _ < 10 ^ digits * 2 ^ n := Nat.mul_lt_mul_of_pos_right hs (Nat.two_pow_pos n)
      _ ≤ 10 ^ digits * 10 ^ bound := Nat.mul_le_mul_left _ hn
      _ = 10 ^ (digits + bound) := (Nat.pow_add 10 digits bound).symm
      _ ≤ 10 ^ places := Nat.pow_le_pow_right (by decide) hle
  rw [heq] at hlt
  exact absurd (Nat.le_mul_of_pos_left _ hu) (Nat.not_le.2 hlt)

/-- A number that is not too large does not have too many digits. -/
theorem lt_pow_add {s u places : Nat} (n m bound : Nat) (heq : s <<< n = u * 10 ^ places)
    (hu : u < 2 ^ (m + n)) (hm : 2 ^ m ≤ 10 ^ bound) : s < 10 ^ (bound + places) := by
  have hscaled : s * 2 ^ n < 10 ^ (bound + places) * 2 ^ n := by
    calc s * 2 ^ n = u * 10 ^ places := (Nat.shiftLeft_eq s n).symm.trans heq
      _ < 2 ^ (m + n) * 10 ^ places := Nat.mul_lt_mul_of_pos_right hu (Nat.pow_pos (by decide))
      _ = 2 ^ m * (10 ^ places * 2 ^ n) := by ring
      _ ≤ 10 ^ bound * (10 ^ places * 2 ^ n) := Nat.mul_le_mul_right _ hm
      _ = 10 ^ (bound + places) * 2 ^ n := by ring
  exact Nat.lt_of_mul_lt_mul_right hscaled

theorem magnitude_exact (rank : Nat) :
    (exact rank).magnitude = (exact rank).digits.length - (1074 - binade rank : Nat) :=
  rfl

/-- The exact value of a magnitude other than zero is at least `10 ^ -324`. -/
theorem lt_magnitude_exact {rank : Nat} (h : 0 < rank) : -324 < (exact rank).magnitude := by
  have hdigits : (exact rank).significand < 10 ^ (exact rank).digits.length :=
    (Nat.length_toDigits_le_iff (by decide) Nat.length_toDigits_pos).1 Nat.le.refl
  have hplaces := places_lt 1074 324 (significand_exact rank) (units_pos h) hdigits
    (by decide +kernel)
  rw [magnitude_exact]
  omega

/-- The exact value of a finite magnitude is below `10 ^ 309`. -/
theorem magnitude_exact_le {rank : Nat} (h : rank < finiteMagnitudes) :
    (exact rank).magnitude ≤ 309 := by
  have hbinade : 53 + binade rank ≤ 1024 + 1074 := Nat.add_le_add_left (binade_le h) 53
  have hsignificand := lt_pow_add 1074 1024 309 (significand_exact rank)
    (units_lt (1024 + 1074) hbinade) (by decide +kernel)
  have hlength : (exact rank).digits.length ≤ 309 + (1074 - binade rank) :=
    (Nat.length_toDigits_le_iff (by decide) (by omega)).2 hsignificand
  rw [magnitude_exact]
  omega

/-- The exact value is read back. -/
theorem toBinary64_exact {rank : Nat} (h : rank < finiteMagnitudes) (hpos : 0 < rank)
    (sign : Sign) : (exact rank).toBinary64 sign = ofRank sign rank := by
  have hunits := significand_exact rank
  have hne : (exact rank).significand ≠ 0 := by
    intro hzero
    rw [hzero, Nat.zero_shiftLeft] at hunits
    exact absurd hunits.symm
      (Nat.ne_of_gt (Nat.mul_pos (units_pos hpos) (Nat.pow_pos (by decide))))
  have hscale : (exact rank).exponent.toNat = 0 := by
    simp [exact]
  have hplaces : (-(exact rank).exponent).toNat = 1074 - binade rank := by
    simp [exact]
  rw [toBinary64_of_magnitude sign hne (lt_magnitude_exact hpos) (magnitude_exact_le h), hscale,
    hplaces, Nat.pow_eq, Nat.pow_eq, Nat.pow_zero, Nat.mul_one, hunits, ofQuotient,
    roundRank_units_mul rank (Nat.pow_pos (by decide))]

/-! ## The search -/

theorem readsAs_of_neighbour? {tie : Tie} {rank places : Nat} {d d' : Decimal}
    (h : neighbour? tie rank d places = some d') : d'.readsAs rank = true := by
  unfold neighbour? at h
  grind

theorem readsAs_coarsest {tie : Tie} {rank : Nat} {d : Decimal} (h : d.readsAs rank = true)
    (places : Nat) : (coarsest tie rank d places).readsAs rank = true := by
  induction places with
  | zero => exact h
  | succ places ih =>
    rw [coarsest]
    cases hn : neighbour? tie rank d (places + 1) with
    | none => exact ih
    | some d' => exact readsAs_of_neighbour? hn

/-- The shortest decimal of a magnitude is read as the magnitude, under either sign. -/
theorem toBinary64_shortest (tie : Tie) (sign : Sign) (rank : Fin finiteMagnitudes) :
    (shortest tie rank.val).toBinary64 sign = .finite sign rank := by
  have hrank := ofRank_of_lt sign rank.isLt
  by_cases hzero : rank.val = 0
  · rw [shortest, if_pos hzero, toBinary64, if_pos (Or.inl rfl), ← hrank, hzero]
  · have hexact : (exact rank.val).readsAs rank.val = true :=
      decide_eq_true (toBinary64_exact rank.isLt (Nat.pos_of_ne_zero hzero) .plus)
    rw [shortest, if_neg hzero, ← hrank]
    exact toBinary64_of_readsAs rank.isLt (readsAs_coarsest hexact _) sign

end LinProg.Decimal
