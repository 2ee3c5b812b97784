import LinProg.Decimal.Layout
import LinProg.Json.Basic

set_option autoImplicit false

/-! # Writing JSON

A value is written either *compactly*, without any white space, or *indented*, with every element
and member on a line of its own, two more spaces deep than the brackets around it, and a space after
each colon. An empty array or object is a pair of brackets in both forms. -/

namespace LinProg.Json

/-- The least and the greatest power of ten of a first digit with which a number is written
    positionally. -/
def positionalPowers : Int × Int :=
  (-5, 15)

/-- A magnitude: its shortest decimal, with a point or a power of ten always. Of two equally near
    decimals the one with the even last digit is written. -/
def magnitudeChars (rank : Nat) : List Char :=
  let d := Decimal.shortest .even rank
  let power := d.magnitude - 1
  if power < positionalPowers.1 ∨ positionalPowers.2 < power then d.scientific
  else if d.exponent < 0 then d.positional
  else d.positional ++ ['.', '0']

/-- A number. What is not finite has no text of its own and is written as nothing. -/
def realChars : Binary64 → List Char
  | .finite sign rank => Binary64.signChars sign ++ magnitudeChars rank.val
  | _ => "null".toList

def integerChars (n : Int) : List Char :=
  (if n < 0 then ['-'] else []) ++ Nat.toDigits 10 n.natAbs

/-- A character of a string. The quotation mark, the reverse solidus and the control characters
    below the space are escaped, by a letter where there is one. -/
def escape (c : Char) : List Char :=
  if c = '"' then ['\\', '"']
  else if c = '\\' then ['\\', '\\']
  else if c = '\x08' then ['\\', 'b']
  else if c = '\x0c' then ['\\', 'f']
  else if c = '\n' then ['\\', 'n']
  else if c = '\r' then ['\\', 'r']
  else if c = '\t' then ['\\', 't']
  else if c.toNat < 0x20 then
    ['\\', 'u', '0', '0', Nat.digitChar (c.toNat / 16), Nat.digitChar (c.toNat % 16)]
  else [c]

def stringChars (s : String) : List Char :=
  '"' :: s.toList.flatMap escape ++ ['"']

/-- How deep a value stands in indented text; no depth for compact text. -/
abbrev Depth := Option Nat

def Depth.deeper (depth : Depth) : Depth :=
  depth.map (· + 1)

/-- The start of a new line at a depth. -/
def Depth.lineBreak : Depth → List Char
  | none => []
  | some n => '\n' :: List.replicate (2 * n) ' '

/-- What separates a member's name from its value. -/
def Depth.colon : Depth → List Char
  | none => [':']
  | some _ => [':', ' ']

mutual

def write (depth : Depth) : Json → List Char
  | .null => "null".toList
  | .boolean b => (if b then "true" else "false").toList
  | .integer n => integerChars n
  | .real x => realChars x
  | .string s => stringChars s
  | .array elements => '[' :: writeElements depth true elements
  | .object members => '{' :: writeMembers depth true members

/-- The elements of an array that are still to be written, and the closing bracket. -/
def writeElements (depth : Depth) (first : Bool) : List Json → List Char
  | [] => (if first then [] else depth.lineBreak) ++ [']']
  | element :: elements =>
    (if first then [] else [',']) ++ depth.deeper.lineBreak ++ write depth.deeper element ++
      writeElements depth false elements

/-- The members of an object that are still to be written, and the closing bracket. -/
def writeMembers (depth : Depth) (first : Bool) : List (String × Json) → List Char
  | [] => (if first then [] else depth.lineBreak) ++ ['}']
  | (name, value) :: members =>
    (if first then [] else [',']) ++ depth.deeper.lineBreak ++ stringChars name ++ depth.colon ++
      write depth.deeper value ++ writeMembers depth false members

end

def compact (value : Json) : String :=
  String.ofList (write none value)

/-- The text with one element or member a line. -/
def indented (value : Json) : String :=
  String.ofList (write (some 0) value)

end LinProg.Json
