set_option autoImplicit false

/-! # Signs

The sign of a number and the `+` or `-` written before a term. Applying a sign to a quantity keeps
it or negates it. -/

namespace LinProg

inductive Sign where
  | plus
  | minus
  deriving DecidableEq

def Sign.opposite : Sign → Sign
  | .plus => .minus
  | .minus => .plus

/-- Keep a quantity under `+` and negate it under `-`. -/
def Sign.apply {α : Type} [Neg α] : Sign → α → α
  | .plus, a => a
  | .minus, a => -a

def Sign.char : Sign → Char
  | .plus => '+'
  | .minus => '-'

def Sign.ofChar? : Char → Option Sign
  | '+' => some .plus
  | '-' => some .minus
  | _ => none

@[simp] theorem Sign.ofChar?_char (s : Sign) : Sign.ofChar? s.char = some s := by cases s <;> rfl

theorem Sign.ofChar?_eq_some {c : Char} {s : Sign} : Sign.ofChar? c = some s ↔ c = s.char := by
  constructor
  · intro h
    unfold Sign.ofChar? at h
    split at h
    · cases h
      rfl
    · cases h
      rfl
    · cases h
  · rintro rfl
    exact Sign.ofChar?_char s

end LinProg
