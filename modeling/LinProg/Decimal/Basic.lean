import LinProg.Binary64.Round

set_option autoImplicit false

/-! # Decimals

A decimal is a natural number of units of some power of ten. It is what a numeral says before a
binary64 number is chosen for it, and what is written for one. `toBinary64` chooses the nearest
number. Far outside the range of the format the answer is known from the place of the first digit
alone, so that no power of ten is larger than the numeral that is read. -/

namespace LinProg

/-- The number `significand * 10 ^ exponent`. -/
structure Decimal where
  /-- The digits, read as one natural number. -/
  significand : Nat
  /-- The power of ten that the last digit counts. -/
  exponent : Int
  deriving DecidableEq

namespace Decimal

/-- The decimal written with the given digits before and after the point. -/
def ofDigits (whole fraction : List Char) : Decimal :=
  ⟨Nat.ofDigitChars 10 (whole ++ fraction) 0, -fraction.length⟩

def digits (d : Decimal) : List Char :=
  Nat.toDigits 10 d.significand

/-- The number `m` with `10 ^ (m - 1) ≤ d < 10 ^ m`, for a decimal `d` other than zero. -/
def magnitude (d : Decimal) : Int :=
  d.digits.length + d.exponent

def scale (d : Decimal) (power : Int) : Decimal :=
  { d with exponent := d.exponent + power }

/-- The binary64 number nearest to a decimal, with the given sign. From `10 ^ 309` on that is
    infinity, and below `10 ^ -324` it is zero. -/
def toBinary64 (sign : Sign) (d : Decimal) : Binary64 :=
  if d.significand = 0 ∨ d.magnitude ≤ -324 then .ofRank sign 0
  else if 309 < d.magnitude then .infinite sign
  else .ofQuotient sign ((d.significand * Nat.pow 10 d.exponent.toNat) <<< 1074)
    (Nat.pow 10 (-d.exponent).toNat)

end Decimal

end LinProg
