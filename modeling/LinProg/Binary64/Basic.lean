import LinProg.Sign

set_option autoImplicit false

/-! # Binary64 numbers

The numbers of the format binary64 of IEEE 754. All finite magnitudes are multiples of `2 ^ -1074`,
so a finite number is a sign and the place of its magnitude in the increasing list of them, its
*rank*. The rank is also what the low 63 bits of the interchange form hold. `units` gives the
magnitude of a rank, as a count of `2 ^ -1074`: the first `2 ^ 53` magnitudes are one unit apart,
and then the distance doubles every `binadeSize` ranks (`units_succ`).

Both zeros are kept apart, and all not-a-numbers are one. -/

namespace LinProg

/-- The number of magnitudes from one power of two up to the next, `2 ^ 52`. -/
def binadeSize : Nat :=
  0x10000000000000

/-- The number of finite magnitudes, `2047` times the size of a binade. -/
def finiteMagnitudes : Nat :=
  0x7FF0000000000000

inductive Binary64 where
  /-- A finite number: its sign and the rank of its magnitude. -/
  | finite (sign : Sign) (rank : Fin finiteMagnitudes)
  | infinite (sign : Sign)
  | nan
  deriving DecidableEq

namespace Binary64

/-- The base two logarithm of the distance from a rank's magnitude to the next, in units. -/
def binade (rank : Nat) : Nat :=
  rank / binadeSize - 1

/-- The magnitude of a rank divided by `2 ^ binade rank`, an integer below `2 ^ 53`. -/
def mantissa (rank : Nat) : Nat :=
  rank - binade rank * binadeSize

/-- The magnitude of a rank, as a multiple of `2 ^ -1074`. -/
def units (rank : Nat) : Nat :=
  mantissa rank <<< binade rank

@[simp] theorem units_zero : units 0 = 0 := by decide

/-- The next magnitude is one step of the binade away. -/
theorem units_succ (rank : Nat) : units (rank + 1) = units rank + 1 <<< binade rank := by
  simp only [units, mantissa, binade, Nat.shiftLeft_eq, Nat.one_mul]
  generalize hb : binadeSize = base
  have hpos : 0 < base := by rw [← hb]; decide
  obtain ⟨a, b, hlt, rfl⟩ : ∃ a b, b < base ∧ rank = base * a + b :=
    ⟨rank / base, rank % base, Nat.mod_lt _ hpos, (Nat.div_add_mod rank base).symm⟩
  have hq : (base * a + b) / base = a := by
    rw [Nat.mul_add_div hpos, Nat.div_eq_of_lt hlt, Nat.add_zero]
  rw [hq]
  by_cases hn : b + 1 < base
  · have hq' : (base * a + b + 1) / base = a := by
      rw [Nat.add_assoc, Nat.mul_add_div hpos, Nat.div_eq_of_lt hn, Nat.add_zero]
    have hle : (a - 1) * base ≤ base * a + b := by
      rw [Nat.mul_comm]
      exact Nat.le_trans (Nat.mul_le_mul_left _ (Nat.sub_le a 1)) (Nat.le_add_right _ _)
    rw [hq', Nat.sub_add_comm hle, Nat.add_mul, Nat.one_mul]
  · have hb' : b + 1 = base := by omega
    have hs : base * a + b + 1 = base * (a + 1) := by rw [Nat.add_assoc, hb', Nat.mul_succ]
    have hq' : (base * a + b + 1) / base = a + 1 := by rw [hs, Nat.mul_div_cancel_left _ hpos]
    rw [hq', hs]
    cases a with
    | zero => simp [← hb']
    | succ a =>
      have h₁ : base * (a + 1 + 1) - (a + 1 + 1 - 1) * base = base := by
        rw [Nat.add_sub_cancel, Nat.mul_succ, Nat.mul_comm (a + 1), Nat.add_sub_cancel_left]
      have h₂ : base * (a + 1) + b - (a + 1 - 1) * base + 1 = 2 * base := by
        rw [Nat.add_sub_cancel, Nat.mul_succ, Nat.mul_comm a]
        omega
      rw [h₁, Nat.add_sub_cancel, Nat.add_sub_cancel, Nat.pow_succ]
      have h₃ : ∀ m p : Nat, m * p + p = (m + 1) * p := fun m p => (Nat.succ_mul m p).symm
      rw [h₃]
      rw [Nat.add_sub_cancel] at h₂
      rw [h₂, Nat.mul_comm (2 ^ a) 2, ← Nat.mul_assoc, Nat.mul_comm base 2]

/-- The number with a sign and a rank. The rank after the last finite one is that of infinity, and
    what lies beyond it is infinite too. -/
def ofRank (sign : Sign) (rank : Nat) : Binary64 :=
  if h : rank < finiteMagnitudes then .finite sign ⟨rank, h⟩ else .infinite sign

theorem ofRank_of_lt (sign : Sign) {rank : Nat} (h : rank < finiteMagnitudes) :
    ofRank sign rank = .finite sign ⟨rank, h⟩ := by
  simp [ofRank, h]

theorem ofRank_of_le (sign : Sign) {rank : Nat} (h : finiteMagnitudes ≤ rank) :
    ofRank sign rank = .infinite sign := by
  simp [ofRank, Nat.not_lt.2 h]

/-- Zero, with the sign `+`. -/
def zero : Binary64 := .finite .plus ⟨0, by decide⟩

def one : Binary64 := .finite .plus ⟨1023 * binadeSize, by decide⟩

instance : Zero Binary64 := ⟨zero⟩

protected def neg : Binary64 → Binary64
  | .finite sign rank => .finite sign.opposite rank
  | .infinite sign => .infinite sign.opposite
  | .nan => .nan

instance : Neg Binary64 := ⟨Binary64.neg⟩

def abs : Binary64 → Binary64
  | .finite _ rank => .finite .plus rank
  | .infinite _ => .infinite .plus
  | .nan => .nan

/-- Whether a number compares equal to zero, as both zeros do. -/
def isZero : Binary64 → Bool
  | .finite _ rank => rank.val == 0
  | _ => false

/-- Whether a number compares greater than zero. -/
def isPositive : Binary64 → Bool
  | .finite .plus rank => rank.val != 0
  | .infinite .plus => true
  | _ => false

/-- Whether a number compares greater than or equal to zero. -/
def isNonnegative (x : Binary64) : Bool :=
  x.isPositive || x.isZero

def isFinite : Binary64 → Bool
  | .finite .. => true
  | _ => false

@[simp] theorem isZero_neg (x : Binary64) : (-x).isZero = x.isZero := by cases x <;> rfl

/-- The value of the highest of 64 bits, which holds the sign. -/
def signPlace : Nat :=
  0x8000000000000000

/-- The number with the given 64 bits. -/
def ofBits (bits : UInt64) : Binary64 :=
  let sign := if bits.toNat < signPlace then Sign.plus else Sign.minus
  let rank := bits.toNat % signPlace
  if rank ≤ finiteMagnitudes then ofRank sign rank else .nan

/-- What a sign adds to the bits. -/
def signBit : Sign → Nat
  | .plus => 0
  | .minus => signPlace

/-- The 64 bits of a number, those of the quiet not-a-number without payload for any. -/
def toBits : Binary64 → UInt64
  | .finite sign rank => .ofNat (signBit sign + rank.val)
  | .infinite sign => .ofNat (signBit sign + finiteMagnitudes)
  | .nan => .ofNat (finiteMagnitudes + binadeSize / 2)

end Binary64

end LinProg
