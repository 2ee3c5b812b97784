import LinProg.Text.WhiteSpace
import LinProg.Decimal.Numeral
import LinProg.Expression.Basic

set_option autoImplicit false

/-! # Reading expressions

Readers on the unread text for the parts of an expression and for the whole. A reader that succeeds
returns what it read and the text after it. A reader that can fail with an error returns the text
that was still unread where a variable is missing, which tells the place.

An expression is one term and then, as long as a sign follows, further terms, with white space
around every sign. A sign may be followed by the term's own sign: `x - -y` has the term `-(-y)`. -/

namespace LinProg

open Text

/-- Read a variable's name: a letter of ASCII and all letters and digits of ASCII after it. -/
def readName? : List Char → Option (String × List Char)
  | c :: text =>
    if c.isAlpha then
      some (String.ofList (c :: text.takeWhile Char.isAlphanum), text.dropWhile Char.isAlphanum)
    else none
  | [] => none

theorem length_readName? {text rest : List Char} {name : String}
    (h : readName? text = some (name, rest)) : rest.length < text.length := by
  unfold readName? at h
  split at h
  · next c text =>
    split at h
    · injection h with h
      injection h with _ h
      rw [← h]
      exact Nat.lt_succ_of_le (List.dropWhile_sublist _).length_le
    · cases h
  · cases h

/-- The text without the asterisk it may start with. -/
def skipAsterisk : List Char → List Char
  | '*' :: text => text
  | text => text

theorem length_skipAsterisk (text : List Char) : (skipAsterisk text).length ≤ text.length := by
  unfold skipAsterisk
  split
  · simp
  · exact Nat.le_refl _

/-- The magnitude that a text starts with, one if it starts with none, and the text after it. -/
def splitMagnitude (text : List Char) : Binary64 × List Char :=
  match Numeral.readMagnitude? text with
  | some (magnitude, rest) => (magnitude.toBinary64 .plus, rest)
  | none => (.one, text)

theorem length_splitMagnitude (text : List Char) :
    (splitMagnitude text).2.length ≤ text.length := by
  unfold splitMagnitude
  split
  · next h => exact Nat.le_of_lt (Numeral.length_readMagnitude? h)
  · exact Nat.le_refl _

/-- Read a coefficient. Its sign, its magnitude and the asterisk after it may all be missing. -/
def readCoefficient (text : List Char) : Binary64 × List Char :=
  let (sign, body) := Numeral.splitSign text
  let (magnitude, rest) := splitMagnitude body
  (sign.apply magnitude, skipAsterisk rest)

theorem length_readCoefficient (text : List Char) :
    (readCoefficient text).2.length ≤ text.length :=
  Nat.le_trans (length_skipAsterisk _)
    (Nat.le_trans (length_splitMagnitude _) (Numeral.length_splitSign text))

/-- Read a term: a coefficient and, right after it, a variable's name. -/
def readTerm (text : List Char) : Except (List Char) (Term × List Char) :=
  let (coefficient, rest) := readCoefficient text
  match readName? rest with
  | some (name, after) => .ok (⟨name, coefficient⟩, after)
  | none => .error rest

/-- A term takes at least one character. -/
theorem length_readTerm {text rest : List Char} {t : Term}
    (h : readTerm text = .ok (t, rest)) : rest.length < text.length := by
  simp only [readTerm] at h
  split at h
  · next hn =>
    injection h with h
    injection h with _ h
    rw [← h]
    exact Nat.lt_of_lt_of_le (length_readName? hn) (length_readCoefficient text)
  · cases h

/-- Read the terms that follow a first one, each after a sign that keeps or negates it, and the
    white space after them. -/
def readMoreTerms (text : List Char) : Except (List Char) (List Term × List Char) :=
  match _hs : Numeral.readSign? (skipWhiteSpace text) with
  | none => .ok ([], skipWhiteSpace text)
  | some (sign, body) =>
    match _ht : readTerm (skipWhiteSpace body) with
    | .error unread => .error unread
    | .ok (t, after) =>
      (readMoreTerms after).map fun (terms, rest) => (t.signed sign :: terms, rest)
termination_by text.length
decreasing_by
  have h₁ := length_readTerm _ht
  have h₂ := Numeral.length_readSign? _hs
  have h₃ := length_skipWhiteSpace_le text
  have h₄ := length_skipWhiteSpace_le body
  omega

def readTerms (text : List Char) : Except (List Char) (List Term × List Char) :=
  match readTerm (skipWhiteSpace text) with
  | .error unread => .error unread
  | .ok (t, after) => (readMoreTerms after).map fun (terms, rest) => (t :: terms, rest)

/-- Read an expression: the sum of its terms. -/
def readExpression (text : List Char) : Except (List Char) (Expression × List Char) :=
  (readTerms text).map fun (terms, rest) => (.sum terms, rest)

end LinProg
