import LinProg.Binary64.Basic

set_option autoImplicit false

/-! # Rounding to binary64

An exact magnitude is a quotient of natural numbers, counted in units of `2 ^ -1074`. It becomes
the nearest finite magnitude, and of two equally near ones the one with the even mantissa; past the
largest finite magnitude and half a step more it becomes infinite. The rank of the result comes out
in one step: with `k` the binade in which the quotient lies, the quotient is rounded to a whole
number `m` of steps `2 ^ k`, and the rank is `k * binadeSize + m`, also when rounding moves `m` up
to the first magnitude of the next binade.

Addition is exact addition followed by rounding. -/

namespace LinProg

/-- The integer nearest to `num / den`, the even one of two that are equally near. -/
def roundDiv (num den : Nat) : Nat :=
  let quotient := num / den
  let twice := 2 * (num % den)
  if twice < den then quotient
  else if den < twice then quotient + 1
  else quotient + quotient % 2

/-- A whole quotient is not rounded. -/
@[simp] theorem roundDiv_mul_self (n : Nat) {den : Nat} (h : 0 < den) :
    roundDiv (n * den) den = n := by
  simp [roundDiv, Nat.mul_div_cancel n h, h]

/-- A rounded quotient is at most half an integer away. -/
theorem two_mul_roundDiv_mul_le (num : Nat) {den : Nat} (h : 0 < den) :
    2 * (roundDiv num den * den) ≤ 2 * num + den ∧
      2 * num ≤ 2 * (roundDiv num den * den) + den := by
  have hm := Nat.div_add_mod num den
  have hlt := Nat.mod_lt num h
  rw [Nat.mul_comm] at hm
  unfold roundDiv
  dsimp only
  generalize num / den = quotient at *
  generalize num % den = rest at *
  split
  · omega
  · split
    · rw [Nat.add_mul]; omega
    · rcases Nat.mod_two_eq_zero_or_one quotient with h₂ | h₂ <;> rw [h₂, Nat.add_mul] <;> omega

namespace Binary64

/-- The rank of the magnitude nearest to `num / den` units, at least `finiteMagnitudes` when that
    is infinity. -/
def roundRank (num den : Nat) : Nat :=
  let step := (num / den).log2 - 52
  step * binadeSize + roundDiv num (den <<< step)

/-- The number nearest to `num / den` units, with the given sign. -/
def ofQuotient (sign : Sign) (num den : Nat) : Binary64 :=
  ofRank sign (roundRank num den)

/-- The number nearest to an integer count of units. Zero units are `+0`. -/
def ofUnits (total : Int) : Binary64 :=
  ofQuotient (if total < 0 then .minus else .plus) total.natAbs 1

/-- The sum, rounded to nearest. Two zeros add up to `-0` only if both are `-0`, opposite numbers
    to `+0`, and opposite infinities to no number. -/
protected def add : Binary64 → Binary64 → Binary64
  | .nan, _ => .nan
  | _, .nan => .nan
  | .infinite s, .infinite t => if s = t then .infinite s else .nan
  | .infinite s, .finite .. => .infinite s
  | .finite .., .infinite t => .infinite t
  | .finite s a, .finite t b =>
    if a.val = 0 ∧ b.val = 0 ∧ s = t then .finite s a
    else ofUnits (s.apply (units a : Int) + t.apply (units b : Int))

instance : Add Binary64 := ⟨Binary64.add⟩

end Binary64

end LinProg
