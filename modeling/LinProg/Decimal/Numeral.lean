import LinProg.Decimal.Basic

set_option autoImplicit false

/-! # Numerals

The numerals that a problem may hold, as readers on the unread text. A *magnitude*, as it stands
before a variable, is digits with an optional fraction, or a fraction alone; a point belongs to it
only if a digit follows. A *number*, as it stands after a relational sign, is the whole of a text:
an optional sign, then a magnitude that may end in a point and may be scaled by a power of ten, or
the name of infinity or of no number in either case. Digits are those of ASCII. -/

namespace LinProg.Numeral

def readSign? : List Char → Option (Sign × List Char)
  | c :: text => (Sign.ofChar? c).map (·, text)
  | [] => none

theorem length_readSign? {text rest : List Char} {sign : Sign}
    (h : readSign? text = some (sign, rest)) : rest.length < text.length := by
  cases text with
  | nil => simp [readSign?] at h
  | cons c text =>
    simp only [readSign?, Option.map_eq_some_iff, Prod.mk.injEq] at h
    obtain ⟨_, _, _, rfl⟩ := h
    simp

/-- The sign that a text starts with, `+` if it starts with none, and the text after it. -/
def splitSign (text : List Char) : Sign × List Char :=
  (readSign? text).getD (.plus, text)

theorem length_splitSign (text : List Char) : (splitSign text).2.length ≤ text.length := by
  unfold splitSign
  cases h : readSign? text with
  | none => simp
  | some r => exact Nat.le_of_lt (length_readSign? h)

def digits (text : List Char) : List Char :=
  text.takeWhile Char.isDigit

def afterDigits (text : List Char) : List Char :=
  text.dropWhile Char.isDigit

theorem digits_append_afterDigits (text : List Char) : digits text ++ afterDigits text = text :=
  List.takeWhile_append_dropWhile

theorem length_digits_add_length_afterDigits (text : List Char) :
    (digits text).length + (afterDigits text).length = text.length := by
  rw [← List.length_append, digits_append_afterDigits]

/-- Read a point and the digits after it, of which there must be one. -/
def readFraction? : List Char → Option (List Char × List Char)
  | '.' :: text => if (digits text).isEmpty then none else some (digits text, afterDigits text)
  | _ => none

theorem length_readFraction? {text fraction rest : List Char}
    (h : readFraction? text = some (fraction, rest)) : rest.length < text.length := by
  unfold readFraction? at h
  split at h
  · next body =>
    have := length_digits_add_length_afterDigits body
    split at h
    · cases h
    · injection h with h
      injection h with _ h
      rw [← h, List.length_cons]
      omega
  · cases h

/-- Read a magnitude: digits, digits with a fraction, or a fraction. -/
def readMagnitude? (text : List Char) : Option (Decimal × List Char) :=
  match readFraction? (afterDigits text) with
  | some (fraction, rest) => some (.ofDigits (digits text) fraction, rest)
  | none =>
    if (digits text).isEmpty then none else some (.ofDigits (digits text) [], afterDigits text)

theorem length_readMagnitude? {text rest : List Char} {d : Decimal}
    (h : readMagnitude? text = some (d, rest)) : rest.length < text.length := by
  have hd := length_digits_add_length_afterDigits text
  unfold readMagnitude? at h
  split at h
  · next hf =>
    injection h with h
    injection h with _ h
    rw [← h]
    have := length_readFraction? hf
    omega
  · split at h
    · cases h
    · next hne =>
      injection h with h
      injection h with _ h
      have : (digits text).length ≠ 0 := by simpa using hne
      rw [← h]
      omega

/-- The power of ten that a text states in full: nothing, or the letter `e` in either case, an
    optional sign and digits. -/
def exponent? : List Char → Option Int
  | [] => some 0
  | c :: text =>
    let (sign, body) := splitSign text
    if c.toLower = 'e' ∧ ¬ body.isEmpty ∧ body.all Char.isDigit then
      some (sign.apply (Nat.ofDigitChars 10 body 0 : Int))
    else none

/-- The digits after a point, of which there may be none, and the text after them. Without a point
    there are none. -/
def splitFraction : List Char → List Char × List Char
  | '.' :: text => (digits text, afterDigits text)
  | text => ([], text)

/-- The decimal that a text states in full, without a sign: digits with an optional point among
    them or at either end, and an optional power of ten. -/
def decimal? (text : List Char) : Option Decimal :=
  let whole := digits text
  let (fraction, rest) := splitFraction (afterDigits text)
  if (whole ++ fraction).isEmpty then none
  else (exponent? rest).map (Decimal.ofDigits whole fraction).scale

/-- The number that a text names in full, letters of either case: an infinity of the given sign,
    or no number. -/
def named? (sign : Sign) (text : List Char) : Option Binary64 :=
  let name := text.map Char.toLower
  if name = "inf".toList ∨ name = "infinity".toList then some (.infinite sign)
  else if name = "nan".toList then some .nan
  else none

def number? (text : List Char) : Option Binary64 :=
  let (sign, body) := splitSign text
  named? sign body <|> (decimal? body).map (·.toBinary64 sign)

end LinProg.Numeral
