import LinProg.Decimal.Shortest

set_option autoImplicit false

/-! # Layout of decimals

A decimal is written *positionally*, with zeros down to or up to the point where its digits do not
reach it, or *scientifically*, with the point after the first digit and a power of ten. The plain
text of a number is always positional. -/

namespace LinProg

namespace Decimal

/-- Digits with a point before the last `places` of them and at least one digit before it. No point
    is written for no places. -/
def insertPoint (digits : List Char) (places : Nat) : List Char :=
  let padded := List.replicate (places + 1 - digits.length) '0' ++ digits
  let whole := padded.length - places
  if places = 0 then padded else padded.take whole ++ '.' :: padded.drop whole

/-- The decimal without a power of ten. -/
def positional (d : Decimal) : List Char :=
  insertPoint (d.digits ++ List.replicate d.exponent.toNat '0') (-d.exponent).toNat

/-- The decimal with one digit before the point and a power of ten, whose sign is always written.
    No point is written after a single digit. -/
def scientific (d : Decimal) : List Char :=
  let power := d.magnitude - 1
  let sign := if power < 0 then Sign.minus else Sign.plus
  insertPoint d.digits (d.digits.length - 1) ++
    'e' :: sign.char :: Nat.toDigits 10 power.natAbs

end Decimal

namespace Binary64

/-- A minus sign for a negative number, nothing for another. -/
def signChars : Sign → List Char
  | .plus => []
  | .minus => ['-']

/-- The plain text of a number: its shortest decimal, written positionally. Of two equally near
    decimals the larger is written. -/
def chars : Binary64 → List Char
  | .finite sign rank => signChars sign ++ (Decimal.shortest .up rank.val).positional
  | .infinite sign => signChars sign ++ "inf".toList
  | .nan => "NaN".toList

/-- The plain text of a number, as a string. -/
def text (x : Binary64) : String :=
  String.ofList x.chars

end Binary64

end LinProg
