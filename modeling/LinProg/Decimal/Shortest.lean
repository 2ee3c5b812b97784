import LinProg.Decimal.Basic

set_option autoImplicit false

/-! # Shortest decimals

Every finite binary64 number is a decimal, but one of up to 767 digits. The *shortest* decimal of a
number is the one with the fewest digits that is still read as that number, and among those the
nearest to it. It is found on the grids of the powers of ten, from the coarsest down: on a grid only
the two neighbours of the exact value have to be tried, and on the finest one the exact value itself
is a point. Where both neighbours are equally near, a rule for ties decides. -/

namespace LinProg

/-- Which of two equally near decimals is taken. -/
inductive Tie where
  /-- The larger one. -/
  | up
  /-- The one whose last digit is even. -/
  | even
  deriving DecidableEq

namespace Decimal

/-- The magnitude of a rank, exactly: below the point it has a place for each halving. -/
def exact (rank : Nat) : Decimal :=
  let places := 1074 - Binary64.binade rank
  ⟨Binary64.mantissa rank <<< (Binary64.binade rank - 1074) * Nat.pow 5 places, -places⟩

/-- Whether a decimal is read as the magnitude of a rank. -/
def readsAs (rank : Nat) (d : Decimal) : Bool :=
  d.toBinary64 .plus = .ofRank .plus rank

/-- The multiple of `10 ^ places` units of `d` that is nearest to `d` among its two neighbours that
    are read as the magnitude of the rank. -/
def neighbour? (tie : Tie) (rank : Nat) (d : Decimal) (places : Nat) : Option Decimal :=
  let step := Nat.pow 10 places
  let quotient := d.significand / step
  let twice := 2 * (d.significand % step)
  let below : Decimal := ⟨quotient, d.exponent + places⟩
  let above : Decimal := ⟨quotient + 1, d.exponent + places⟩
  match below.readsAs rank, above.readsAs rank with
  | false, false => none
  | true, false => some below
  | false, true => some above
  | true, true =>
    if twice < step then some below
    else if step < twice then some above
    else match tie with
      | .up => some above
      | .even => if quotient % 2 = 0 then some below else some above

/-- The first hit on the grids of `10 ^ places` units of `d` and finer, `d` itself at the end. -/
def coarsest (tie : Tie) (rank : Nat) (d : Decimal) : Nat → Decimal
  | 0 => d
  | places + 1 => (neighbour? tie rank d (places + 1)).getD (coarsest tie rank d places)

/-- The decimal with the fewest digits that is read as the magnitude of a rank. -/
def shortest (tie : Tie) (rank : Nat) : Decimal :=
  if rank = 0 then ⟨0, 0⟩
  else
    let value := exact rank
    coarsest tie rank value value.digits.length

end Decimal

end LinProg
