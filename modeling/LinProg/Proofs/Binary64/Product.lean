import LinProg.Proofs.Binary64.Nearest

set_option autoImplicit false

/-! # Products with a sign

The sign before a term acts on its coefficient as a factor of one or minus one, and that is the same
as keeping or negating the coefficient (`factor_mul`): the exact product is a magnitude that the
format has, so nothing is rounded. -/

namespace LinProg

def Sign.times : Sign → Sign → Sign
  | .plus, s => s
  | .minus, s => s.opposite

namespace Binary64

theorem oneRank_lt : 1023 * binadeSize < finiteMagnitudes := by decide

def oneRank : Fin finiteMagnitudes :=
  ⟨1023 * binadeSize, oneRank_lt⟩

/-- As many units as there are in one make up a whole. -/
theorem units_oneRank : units oneRank.val = 2 ^ 1074 := by decide +kernel

/-- The product, rounded to nearest: as many units as there are in one make up a whole. An infinity
    times a zero is no number. -/
protected def mul : Binary64 → Binary64 → Binary64
  | .nan, _ => .nan
  | _, .nan => .nan
  | .infinite s, .infinite t => .infinite (s.times t)
  | .infinite s, .finite t b => if b.val = 0 then .nan else .infinite (s.times t)
  | .finite s a, .infinite t => if a.val = 0 then .nan else .infinite (s.times t)
  | .finite s a, .finite t b => ofQuotient (s.times t) (units b * units a) (units oneRank)

instance : Mul Binary64 := ⟨Binary64.mul⟩

def factor (sign : Sign) : Binary64 :=
  .finite sign oneRank

theorem apply_finite (s sign : Sign) (rank : Fin finiteMagnitudes) :
    s.apply (Binary64.finite sign rank) = .finite (s.times sign) rank := by
  cases s <;> rfl

theorem apply_infinite (s sign : Sign) :
    s.apply (Binary64.infinite sign) = .infinite (s.times sign) := by
  cases s <;> rfl

/-- Multiplying by one keeps a number, and multiplying by minus one negates it. -/
theorem factor_mul (s : Sign) (x : Binary64) : factor s * x = s.apply x := by
  show Binary64.mul (factor s) x = s.apply x
  cases x with
  | nan => cases s <;> rfl
  | infinite sign => rw [factor, Binary64.mul, if_neg (by decide), apply_infinite]
  | finite sign rank =>
    have hpos : 0 < units oneRank.val := units_pos (by decide)
    rw [factor, Binary64.mul, ofQuotient_units_mul _ rank hpos, apply_finite]

end Binary64

end LinProg
