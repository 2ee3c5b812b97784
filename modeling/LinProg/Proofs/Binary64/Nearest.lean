import Mathlib.Algebra.Order.Field.Basic
import Mathlib.Algebra.Order.Ring.Rat
import Mathlib.Data.Nat.Cast.Order.Field
import Mathlib.Tactic.Linarith
import LinProg.Proofs.Binary64.Exact

set_option autoImplicit false

/-! # Nearest magnitudes

What the rounding of a quotient is to find, said without rounding: the rank of a magnitude that no
other is nearer than, and an even rank if another is equally near (`IsNearest`). There is at most
one such rank (`IsNearest.unique`), and `roundRank` finds it (`isNearest_roundRank`). Both rest on
the midpoints between magnitudes: a rank is nearest if the quotient lies between the midpoints with
the ranks below it and those with the ranks above it. A sum of two numbers is the one nearest to
their exact sum (`exists_isNearest_add`).

The magnitudes go on past the largest finite one as if there were no limit. A quotient that is
rounded to one of those is rounded to infinity. -/

namespace LinProg

/-! ## Rounding to integers -/

/-- Rounding does not go past an integer above the quotient. -/
theorem roundDiv_le {num den n : Nat} (hden : 0 < den) (h : num ≤ n * den) :
    roundDiv num den ≤ n := by
  have hle := Nat.div_le_of_le_mul (Nat.mul_comm n den ▸ h)
  unfold roundDiv
  dsimp only
  rcases Nat.lt_or_eq_of_le hle with hlt | heq
  · split
    · exact hle
    · split <;> omega
  · -- The quotient is the integer itself, and nothing is left to round.
    have hrest : num % den = 0 := by
      have hm := Nat.div_add_mod num den
      rw [heq, Nat.mul_comm] at hm
      omega
    rw [hrest, if_pos hden]
    exact hle

/-- Rounding does not go past an integer below the quotient. -/
theorem le_roundDiv {num den n : Nat} (hden : 0 < den) (h : n * den ≤ num) :
    n ≤ roundDiv num den := by
  have hle := (Nat.le_div_iff_mul_le hden).2 h
  unfold roundDiv
  dsimp only
  split
  · exact hle
  · split <;> omega

/-- Where a quotient is halfway between two integers the even one is taken. -/
theorem roundDiv_mod_two_of_tie (num : Nat) {den : Nat} (h : 0 < den)
    (htie : 2 * num + den ≤ 2 * (roundDiv num den * den) ∨
      2 * (roundDiv num den * den) + den ≤ 2 * num) : roundDiv num den % 2 = 0 := by
  have hm := Nat.div_add_mod num den
  have hlt := Nat.mod_lt num h
  rw [Nat.mul_comm] at hm
  unfold roundDiv at htie ⊢
  dsimp only at htie ⊢
  generalize num / den = quotient at *
  generalize num % den = rest at *
  split at htie
  · omega
  · split at htie
    · rw [Nat.add_mul] at htie
      omega
    · rw [if_neg (by omega), if_neg (by omega)]
      omega

namespace Binary64

/-! ## Magnitudes in order -/

theorem units_strictMono : StrictMono units := by
  refine strictMono_nat_of_lt_succ ?_
  intro rank
  rw [units_succ, Nat.shiftLeft_eq, Nat.one_mul]
  exact Nat.lt_add_of_pos_right (Nat.two_pow_pos _)

def magnitude (rank : Nat) : ℚ :=
  units rank / 2 ^ 1074

theorem magnitude_strictMono : StrictMono magnitude := by
  intro a b h
  have hunits : (units a : ℚ) < units b := by exact_mod_cast units_strictMono h
  exact div_lt_div_of_pos_right hunits (pow_pos two_pos 1074)

@[simp] theorem magnitude_zero : magnitude 0 = 0 := by
  rw [magnitude, units_zero, Nat.cast_zero, zero_div]

/-! ## The nearest one -/

/-- The magnitude of a rank is nearest to an exact one, and if another is equally near the rank is
    even. -/
structure IsNearest (exact : ℚ) (rank : Nat) : Prop where
  nearest : ∀ other, |magnitude rank - exact| ≤ |magnitude other - exact|
  even : ∀ other, other ≠ rank → |magnitude rank - exact| = |magnitude other - exact| →
    rank % 2 = 0

/-- Of two numbers the smaller one is at least as near as the larger one up to their midpoint. -/
theorem abs_sub_le_abs_sub_iff_of_lt {a b x : ℚ} (h : a < b) :
    |a - x| ≤ |b - x| ↔ 2 * x ≤ a + b := by
  rw [← sq_le_sq]
  constructor
  · intro hsq
    nlinarith
  · intro hle
    nlinarith

/-- The larger one is from their midpoint on. -/
theorem abs_sub_le_abs_sub_iff_of_gt {a b x : ℚ} (h : b < a) :
    |a - x| ≤ |b - x| ↔ a + b ≤ 2 * x := by
  rw [← sq_le_sq]
  constructor
  · intro hsq
    nlinarith
  · intro hle
    nlinarith

/-- Two numbers are equally near only at their midpoint. -/
theorem abs_sub_eq_abs_sub_iff {a b x : ℚ} (h : a ≠ b) : |a - x| = |b - x| ↔ 2 * x = a + b := by
  rw [abs_eq_abs]
  constructor
  · rintro (heq | heq)
    · exact absurd (sub_left_injective heq) h
    · linarith
  · intro heq
    right
    linarith

theorem isNearest_of_midpoints {exact : ℚ} {rank : Nat}
    (habove : ∀ other, rank < other → 2 * exact ≤ magnitude rank + magnitude other)
    (hbelow : ∀ other < rank, magnitude rank + magnitude other ≤ 2 * exact)
    (heven : ∀ other, other ≠ rank → 2 * exact = magnitude rank + magnitude other →
      rank % 2 = 0) : IsNearest exact rank := by
  refine ⟨?_, ?_⟩
  · intro other
    rcases Nat.lt_trichotomy rank other with hlt | rfl | hlt
    · exact (abs_sub_le_abs_sub_iff_of_lt (magnitude_strictMono hlt)).2 (habove other hlt)
    · exact le_rfl
    · exact (abs_sub_le_abs_sub_iff_of_gt (magnitude_strictMono hlt)).2 (hbelow other hlt)
  · intro other hne heq
    refine heven other hne ?_
    exact (abs_sub_eq_abs_sub_iff (magnitude_strictMono.injective.ne hne.symm)).1 heq

/-- A magnitude that the format has is nearest to itself. -/
theorem isNearest_magnitude (rank : Nat) : IsNearest (magnitude rank) rank := by
  refine ⟨?_, ?_⟩
  · intro other
    rw [sub_self, abs_zero]
    exact abs_nonneg _
  · intro other hne heq
    rw [sub_self, abs_zero, eq_comm, abs_eq_zero, sub_eq_zero] at heq
    exact absurd (magnitude_strictMono.injective heq) hne

theorem IsNearest.unique {exact : ℚ} {a b : Nat} (ha : IsNearest exact a)
    (hb : IsNearest exact b) : a = b := by
  wlog hle : a ≤ b generalizing a b
  · exact (this hb ha (Nat.le_of_not_le hle)).symm
  by_contra hne
  have hlt : a < b := Nat.lt_of_le_of_ne hle hne
  have heq := le_antisymm (ha.nearest b) (hb.nearest a)
  -- Two nearest ranks would both be even, and a nearer one would be between them.
  have heven := ha.even b (Ne.symm hne) heq
  have heven' := hb.even a hne heq.symm
  have hmid := (abs_sub_eq_abs_sub_iff (magnitude_strictMono hlt).ne).1 heq
  have hbetween : magnitude (a + 1) < magnitude b := magnitude_strictMono (by omega)
  have hnear := (abs_sub_le_abs_sub_iff_of_lt (magnitude_strictMono (Nat.lt_succ_self a))).1
    (ha.nearest (a + 1))
  linarith

/-! ## Rounding a quotient -/

/-- Steps of a binade, up to the first magnitude of the next one. -/
theorem units_steps {step steps : Nat} (hlow : step = 0 ∨ binadeSize ≤ steps)
    (hhigh : steps ≤ 2 * binadeSize) : units (step * binadeSize + steps) = steps * 2 ^ step := by
  rw [units_eq]
  rcases Nat.lt_or_eq_of_le hhigh with hlt | rfl
  · have hbinade : binade (step * binadeSize + steps) = step := by
      simp only [binade, binadeSize] at *
      omega
    rw [mantissa, hbinade, Nat.add_sub_cancel_left]
  · have hrank : step * binadeSize + 2 * binadeSize = (step + 2) * binadeSize :=
      (Nat.add_mul step 2 binadeSize).symm
    have hbinade : binade ((step + 2) * binadeSize) = step + 1 := by
      rw [binade, Nat.mul_div_cancel _ (by decide)]
      rfl
    rw [hrank, mantissa, hbinade, ← Nat.sub_mul, Nat.add_sub_add_left, Nat.one_mul, Nat.pow_succ]
    ring

/-- The rank of a rounded quotient: steps of a binade in which the quotient lies. -/
theorem exists_steps (num : Nat) {den : Nat} (h : 0 < den) :
    ∃ step, let steps := roundDiv num (den * 2 ^ step)
      roundRank num den = step * binadeSize + steps ∧ steps ≤ 2 * binadeSize ∧
        (step = 0 ∨ binadeSize ≤ steps ∧ binadeSize * (den * 2 ^ step) ≤ num) := by
  refine ⟨(num / den).log2 - 52, ?_⟩
  generalize hstep : (num / den).log2 - 52 = step
  intro steps
  have hpos : 0 < den * 2 ^ step := Nat.mul_pos h (Nat.two_pow_pos _)
  refine ⟨by rw [roundRank, hstep, Nat.shiftLeft_eq], roundDiv_le hpos ?_, ?_⟩
  · have hquotient : num / den < 2 ^ 53 * 2 ^ step := by
      rw [← Nat.pow_add]
      exact Nat.lt_log2_self.trans_le (Nat.pow_le_pow_right Nat.two_pos (by omega))
    rw [Nat.div_lt_iff_lt_mul h] at hquotient
    calc num ≤ 2 ^ 53 * 2 ^ step * den := Nat.le_of_lt hquotient
      _ = 2 * binadeSize * (den * 2 ^ step) := by
        rw [binadeSize]
        ring
  · rcases Nat.eq_zero_or_pos step with hzero | hstep_pos
    · exact Or.inl hzero
    · have hne : num / den ≠ 0 := by
        intro hzero
        rw [hzero, Nat.log2_zero] at hstep
        omega
      have hquotient : 2 ^ 52 * 2 ^ step ≤ num / den := by
        rw [← Nat.pow_add, ← Nat.le_log2 hne]
        omega
      rw [Nat.le_div_iff_mul_le h] at hquotient
      have hle : binadeSize * (den * 2 ^ step) ≤ num := by
        calc binadeSize * (den * 2 ^ step) = 2 ^ 52 * 2 ^ step * den := by
              rw [binadeSize]
              ring
          _ ≤ num := hquotient
      exact Or.inr ⟨le_roundDiv hpos hle, hle⟩

section RoundRank

variable (num : Nat) {den other : Nat} (h : 0 < den)

include h

/-- The quotient is not past the midpoint with a larger magnitude. -/
theorem two_mul_le_of_roundRank_lt (hother : roundRank num den < other) :
    2 * num ≤ (units (roundRank num den) + units other) * den ∧
      (2 * num = (units (roundRank num den) + units other) * den →
        roundRank num den % 2 = 0) := by
  obtain ⟨step, hrank, hhigh, hlow⟩ := exists_steps num h
  have hpos : 0 < den * 2 ^ step := Nat.mul_pos h (Nat.two_pow_pos _)
  have hunits := units_steps (hlow.imp_right And.left) hhigh
  have hround := (two_mul_roundDiv_mul_le num hpos).2
  have htie := roundDiv_mod_two_of_tie num hpos
  generalize roundDiv num (den * 2 ^ step) = steps at *
  rw [← hrank] at hunits
  -- The next magnitude is at least a step away.
  have hstep : step ≤ binade (roundRank num den) := by
    rw [hrank, binade]
    simp only [binadeSize] at *
    omega
  have hgap : steps * 2 ^ step + 2 ^ step ≤ units other := by
    calc steps * 2 ^ step + 2 ^ step
        ≤ units (roundRank num den) + 1 <<< binade (roundRank num den) := by
          rw [hunits, Nat.shiftLeft_eq, Nat.one_mul]
          exact Nat.add_le_add_left (Nat.pow_le_pow_right Nat.two_pos hstep) _
      _ = units (roundRank num den + 1) := (units_succ _).symm
      _ ≤ units other := units_strictMono.monotone hother
  have hmid : 2 * (steps * (den * 2 ^ step)) + den * 2 ^ step ≤
      (units (roundRank num den) + units other) * den := by
    calc 2 * (steps * (den * 2 ^ step)) + den * 2 ^ step
        = (steps * 2 ^ step + (steps * 2 ^ step + 2 ^ step)) * den := by ring
      _ ≤ (units (roundRank num den) + units other) * den := by
        rw [hunits]
        exact Nat.mul_le_mul_right den (Nat.add_le_add_left hgap _)
  refine ⟨hround.trans hmid, ?_⟩
  intro heq
  have heven := htie (Or.inr (heq ▸ hmid))
  rw [hrank]
  simp only [binadeSize]
  omega

/-- The quotient is not before the midpoint with a smaller magnitude. -/
theorem le_two_mul_of_lt_roundRank (hother : other < roundRank num den) :
    (units (roundRank num den) + units other) * den ≤ 2 * num ∧
      (2 * num = (units (roundRank num den) + units other) * den →
        roundRank num den % 2 = 0) := by
  obtain ⟨step, hrank, hhigh, hlow⟩ := exists_steps num h
  have hpos : 0 < den * 2 ^ step := Nat.mul_pos h (Nat.two_pow_pos _)
  have hunits := units_steps (hlow.imp_right And.left) hhigh
  have hround := (two_mul_roundDiv_mul_le num hpos).1
  have htie := roundDiv_mod_two_of_tie num hpos
  generalize roundDiv num (den * 2 ^ step) = steps at *
  rw [← hrank] at hunits
  by_cases hfirst : step ≠ 0 ∧ steps = binadeSize
  · -- The first magnitude of a binade: the quotient is not below it.
    have hle := (hlow.resolve_left hfirst.1).2
    have hlt : (units (roundRank num den) + units other) * den < 2 * num := by
      calc (units (roundRank num den) + units other) * den
          < (units (roundRank num den) + units (roundRank num den)) * den :=
            Nat.mul_lt_mul_of_pos_right (Nat.add_lt_add_left (units_strictMono hother) _) h
        _ = 2 * (binadeSize * (den * 2 ^ step)) := by
          rw [hunits, hfirst.2]
          ring
        _ ≤ 2 * num := Nat.mul_le_mul_left 2 hle
    exact ⟨Nat.le_of_lt hlt, fun heq => absurd heq (Nat.ne_of_gt hlt)⟩
  · -- The magnitude before it is a step away.
    obtain ⟨before, rfl⟩ : ∃ before, steps = before + 1 := Nat.exists_eq_succ_of_ne_zero (by
      rintro rfl
      simp only [binadeSize] at *
      omega)
    have hbefore : units (step * binadeSize + before) = before * 2 ^ step :=
      units_steps (by omega) (by omega)
    have hgap : units other ≤ before * 2 ^ step :=
      hbefore ▸ units_strictMono.monotone (by omega)
    have hmid : (units (roundRank num den) + units other) * den + den * 2 ^ step ≤
        2 * ((before + 1) * (den * 2 ^ step)) := by
      calc (units (roundRank num den) + units other) * den + den * 2 ^ step
          ≤ ((before + 1) * 2 ^ step + before * 2 ^ step) * den + den * 2 ^ step :=
            Nat.add_le_add_right
              (Nat.mul_le_mul_right den (hunits ▸ Nat.add_le_add_left hgap _)) _
        _ = 2 * ((before + 1) * (den * 2 ^ step)) := by ring
    refine ⟨by omega, ?_⟩
    intro heq
    have heven := htie (Or.inl (heq ▸ hmid))
    rw [hrank]
    simp only [binadeSize]
    omega

/-- A quotient is rounded to the nearest magnitude. -/
theorem isNearest_roundRank : IsNearest (num / den / 2 ^ 1074) (roundRank num den) := by
  have hden : (0 : ℚ) < den := by exact_mod_cast h
  have hunit : (0 : ℚ) < 2 ^ 1074 := pow_pos two_pos 1074
  -- Midpoints are compared as integers, without the two denominators.
  have hdouble : 2 * ((num : ℚ) / den / 2 ^ 1074) = 2 * num / den / 2 ^ 1074 := by
    rw [mul_div_assoc, mul_div_assoc]
  have hmid : ∀ a b,
      magnitude a + magnitude b = (units a + units b : ℚ) * den / den / 2 ^ 1074 := by
    intro a b
    rw [mul_div_cancel_right₀ _ hden.ne', magnitude, magnitude, add_div]
  refine isNearest_of_midpoints ?_ ?_ ?_
  · intro other hother
    rw [hdouble, hmid, div_le_div_iff_of_pos_right hunit, div_le_div_iff_of_pos_right hden]
    exact_mod_cast (two_mul_le_of_roundRank_lt num h hother).1
  · intro other hother
    rw [hdouble, hmid, div_le_div_iff_of_pos_right hunit,
      div_le_div_iff_of_pos_right hden]
    exact_mod_cast (le_two_mul_of_lt_roundRank num h hother).1
  · intro other hne heq
    rw [hdouble, hmid, div_left_inj' hunit.ne', div_left_inj' hden.ne'] at heq
    have htie : 2 * num = (units (roundRank num den) + units other) * den := by
      exact_mod_cast heq
    rcases Nat.lt_or_gt_of_ne hne with hlt | hgt
    · exact (le_two_mul_of_lt_roundRank num h hlt).2 htie
    · exact (two_mul_le_of_roundRank_lt num h hgt).2 htie

end RoundRank

/-! ## Sums -/

/-- An integer count of units is the number nearest to it. -/
theorem exists_isNearest_ofUnits (total : Int) :
    ∃ rank, IsNearest |(total : ℚ) / 2 ^ 1074| rank ∧
      ofUnits total = ofRank (if total < 0 then .minus else .plus) rank := by
  have hround := isNearest_roundRank total.natAbs Nat.one_pos
  have hunit : (0 : ℚ) < 2 ^ 1074 := pow_pos two_pos 1074
  have habs : |(total : ℚ) / 2 ^ 1074| = (total.natAbs : ℚ) / (1 : Nat) / 2 ^ 1074 := by
    rw [abs_div, abs_of_pos hunit, Nat.cast_one, div_one, Nat.cast_natAbs, Int.cast_abs]
  exact ⟨_, habs ▸ hround, rfl⟩

def toRat : Binary64 → ℚ
  | .finite sign rank => sign.apply ((units rank : ℚ) / 2 ^ 1074)
  | _ => 0

@[simp] theorem toRat_zero : toRat 0 = 0 := by
  show Sign.apply .plus ((units 0 : ℚ) / 2 ^ 1074) = 0
  rw [units_zero]
  simp [Sign.apply]

/-- A finite number is a count of units. -/
theorem toRat_finite (sign : Sign) (rank : Fin finiteMagnitudes) :
    toRat (finite sign rank) = (sign.apply (units rank : Int) : Int) / 2 ^ 1074 := by
  rw [toRat]
  cases sign with
  | plus => rw [Sign.apply, Sign.apply, Int.cast_natCast]
  | minus => rw [Sign.apply, Sign.apply, Int.cast_neg, Int.cast_natCast, neg_div]

/-- The sum of two finite numbers is the number nearest to the exact sum, with its sign. -/
theorem exists_isNearest_add (s t : Sign) (a b : Fin finiteMagnitudes) :
    let total := toRat (finite s a) + toRat (finite t b)
    ∃ sign rank, IsNearest |total| rank ∧ finite s a + finite t b = ofRank sign rank ∧
      (total < 0 → sign = .minus) ∧ (0 < total → sign = .plus) := by
  have hunit : (0 : ℚ) < 2 ^ 1074 := pow_pos two_pos 1074
  have hcount : toRat (finite s a) + toRat (finite t b) =
      ((s.apply (units a : Int) + t.apply (units b : Int) : Int) : ℚ) / 2 ^ 1074 := by
    rw [toRat_finite, toRat_finite, ← add_div, ← Int.cast_add]
  rw [hcount]
  dsimp only
  by_cases hzero : a.val = 0 ∧ b.val = 0 ∧ s = t
  · -- The sum of zeros with the same sign keeps the sign.
    have htotal : s.apply (units a : Int) + t.apply (units b : Int) = 0 := by
      rw [hzero.1, hzero.2.1, units_zero]
      cases s <;> cases t <;> rfl
    rw [htotal, Int.cast_zero, zero_div, abs_zero]
    refine ⟨s, 0, ?_, ?_, fun h => absurd h (lt_irrefl 0), fun h => absurd h (lt_irrefl 0)⟩
    · have hnearest := isNearest_magnitude 0
      rwa [magnitude_zero] at hnearest
    · show Binary64.add _ _ = _
      rw [Binary64.add, if_pos hzero, ← ofRank_of_lt s a.isLt, hzero.1]
  · have hadd : finite s a + finite t b =
        ofUnits (s.apply (units a : Int) + t.apply (units b : Int)) := if_neg hzero
    rw [hadd]
    generalize s.apply (units a : Int) + t.apply (units b : Int) = total
    obtain ⟨rank, hnearest, heq⟩ := exists_isNearest_ofUnits total
    refine ⟨_, rank, hnearest, heq, ?_, ?_⟩
    · intro hneg
      rw [div_lt_iff₀ hunit, zero_mul, Int.cast_lt_zero] at hneg
      exact if_pos hneg
    · intro hpos
      rw [lt_div_iff₀ hunit, zero_mul, Int.cast_pos] at hpos
      exact if_neg (by omega)

end Binary64

end LinProg
