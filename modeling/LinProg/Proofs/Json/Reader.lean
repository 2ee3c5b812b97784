import Mathlib.Data.Nat.Init
import LinProg.Decimal.Numeral
import LinProg.Json.Basic

set_option autoImplicit false

/-! # Reading JSON

A reader of the JSON texts of RFC 8259, and of nothing else, to have something that a written text
can be read back with. It works in two steps. `lex?` cuts the text into tokens, the structural
characters and the scalars, and drops the white space between them. `parseValue?` puts the tokens
together: it goes through them once and keeps the arrays and objects that are still open, each with
what stands before the value that comes next, as a list of frames.

Numbers with a fraction or a power of ten are read as the nearest binary64 number, numbers without
either as integers. Where the standard leaves the choice the reader is strict: it takes no number
too large for the format and no surrogate without its other half. -/

namespace LinProg.Json

open Numeral

/-! ## Numbers -/

/-- The sign of a number, for which only `-` is ever written. -/
def splitMinus : List Char → Sign × List Char
  | '-' :: text => (.minus, text)
  | text => (.plus, text)

theorem length_splitMinus (text : List Char) : (splitMinus text).2.length ≤ text.length := by
  unfold splitMinus
  split
  · exact Nat.le_succ _
  · exact Nat.le_refl _

/-- Whether digits may stand before the point: at least one, and no zero in front of others. -/
def isWhole : List Char → Bool
  | [] => false
  | '0' :: more => more.isEmpty
  | _ => true

/-- Read a power of ten: the letter `e` in either case, an optional sign and digits. -/
def readPower? : List Char → Option (Int × List Char)
  | [] => none
  | c :: text =>
    let (sign, body) := splitSign text
    if c.toLower = 'e' ∧ ¬ (digits body).isEmpty then
      some (sign.apply (Nat.ofDigitChars 10 (digits body) 0 : Int), afterDigits body)
    else none

theorem length_readPower? {text rest : List Char} {power : Int}
    (h : readPower? text = some (power, rest)) : rest.length < text.length := by
  cases text with
  | nil => cases h
  | cons c text =>
    have hsplit := length_splitSign text
    have hdigits := length_digits_add_length_afterDigits (splitSign text).2
    simp only [readPower?] at h
    split at h
    · cases h
      rw [List.length_cons]
      omega
    · cases h

def optionally {α : Type} (read? : List Char → Option (α × List Char)) (text : List Char) :
    Option α × List Char :=
  match read? text with
  | some (part, rest) => (some part, rest)
  | none => (none, text)

theorem length_optionally {α : Type} (read? : List Char → Option (α × List Char))
    (h : ∀ text rest part, read? text = some (part, rest) → rest.length < text.length)
    (text : List Char) : (optionally read? text).2.length ≤ text.length := by
  unfold optionally
  split
  · next hread => exact Nat.le_of_lt (h _ _ _ hread)
  · exact Nat.le_refl _

/-- The value of a number with the given parts. -/
def ofParts? (sign : Sign) (whole : List Char) (fraction : Option (List Char))
    (power : Option Int) : Option Json :=
  if fraction.isNone ∧ power.isNone then
    some (.integer (sign.apply (Nat.ofDigitChars 10 whole 0 : Int)))
  else
    let x := ((Decimal.ofDigits whole (fraction.getD [])).scale (power.getD 0)).toBinary64 sign
    if x.isFinite then some (.real x) else none

def readNumber? (text : List Char) : Option (Json × List Char) :=
  let (sign, body) := splitMinus text
  let (fraction, unread) := optionally readFraction? (afterDigits body)
  let (power, rest) := optionally readPower? unread
  if isWhole (digits body) then (ofParts? sign (digits body) fraction power).map (·, rest)
  else none

theorem length_readNumber? {text rest : List Char} {v : Json}
    (h : readNumber? text = some (v, rest)) : rest.length < text.length := by
  have hminus := length_splitMinus text
  have hdigits := length_digits_add_length_afterDigits (splitMinus text).2
  have hfraction := length_optionally readFraction? (fun _ _ _ => length_readFraction?)
    (afterDigits (splitMinus text).2)
  have hpower := length_optionally readPower? (fun _ _ _ => length_readPower?)
    (optionally readFraction? (afterDigits (splitMinus text).2)).2
  simp only [readNumber?] at h
  split at h
  · next hwhole =>
    have hne : (digits (splitMinus text).2).length ≠ 0 := by
      intro hnil
      rw [List.length_eq_zero_iff.1 hnil] at hwhole
      cases hwhole
    obtain ⟨_, _, heq⟩ := Option.map_eq_some_iff.1 h
    cases heq
    omega
  · cases h

/-- No other digit follows a zero at the start. -/
example : readNumber? "01".toList = none := by
  decide

/-! ## Strings -/

def hexDigit? (c : Char) : Option Nat :=
  if c.isDigit then some (c.toNat - '0'.toNat)
  else if 'a' ≤ c ∧ c ≤ 'f' then some (c.toNat - 'a'.toNat + 10)
  else if 'A' ≤ c ∧ c ≤ 'F' then some (c.toNat - 'A'.toNat + 10)
  else none

/-- Read four hexadecimal digits, a code unit of UTF-16. -/
def readUnit? : List Char → Option (Nat × List Char)
  | a :: b :: c :: d :: text =>
    match hexDigit? a, hexDigit? b, hexDigit? c, hexDigit? d with
    | some a, some b, some c, some d => some (((a * 16 + b) * 16 + c) * 16 + d, text)
    | _, _, _, _ => none
  | _ => none

theorem length_readUnit? {text rest : List Char} {unit : Nat}
    (h : readUnit? text = some (unit, rest)) : rest.length < text.length := by
  unfold readUnit? at h
  split at h
  · split at h
    · cases h
      simp only [List.length_cons]
      omega
    · cases h
  · cases h

/-- The character with the given surrogates. -/
def ofSurrogates (high low : Nat) : Char :=
  .ofNat (0x10000 + (high - 0xD800) * 0x400 + (low - 0xDC00))

/-- Read the second half of a character whose first half is the given surrogate. -/
def readLowSurrogate? (high : Nat) : List Char → Option (Char × List Char)
  | '\\' :: 'u' :: text =>
    match readUnit? text with
    | some (low, rest) =>
      if 0xDC00 ≤ low ∧ low < 0xE000 then some (ofSurrogates high low, rest) else none
    | none => none
  | _ => none

theorem length_readLowSurrogate? {high : Nat} {text rest : List Char} {c : Char}
    (h : readLowSurrogate? high text = some (c, rest)) : rest.length < text.length := by
  unfold readLowSurrogate? at h
  split at h
  · split at h
    · next hunit =>
      have := length_readUnit? hunit
      split at h
      · injection h with h
        injection h with _ h
        rw [← h, List.length_cons, List.length_cons]
        omega
      · cases h
    · cases h
  · cases h

/-- Read the code unit of a character, or the two of one beyond the first plane. -/
def readCodeUnits? (text : List Char) : Option (Char × List Char) :=
  match readUnit? text with
  | some (unit, rest) =>
    if unit < 0xD800 ∨ 0xE000 ≤ unit then some (.ofNat unit, rest)
    else if unit < 0xDC00 then readLowSurrogate? unit rest
    else none
  | none => none

theorem length_readCodeUnits? {text rest : List Char} {c : Char}
    (h : readCodeUnits? text = some (c, rest)) : rest.length < text.length := by
  unfold readCodeUnits? at h
  split at h
  · next hunit =>
    have hlt := length_readUnit? hunit
    split at h
    · cases h
      exact hlt
    · split at h
      · exact Nat.lt_trans (length_readLowSurrogate? h) hlt
      · cases h
  · cases h

/-- The characters that stand for others after a reverse solidus, and those others. -/
def escapes : List (Char × Char) :=
  [('"', '"'), ('\\', '\\'), ('/', '/'), ('b', '\x08'), ('f', '\x0c'), ('n', '\n'), ('r', '\r'),
    ('t', '\t')]

def readEscape? : List Char → Option (Char × List Char)
  | [] => none
  | c :: text => if c = 'u' then readCodeUnits? text else (escapes.lookup c).map (·, text)

theorem length_readEscape? {text rest : List Char} {c : Char}
    (h : readEscape? text = some (c, rest)) : rest.length < text.length := by
  cases text with
  | nil => cases h
  | cons d text =>
    simp only [readEscape?] at h
    split at h
    · exact Nat.lt_succ_of_lt (length_readCodeUnits? h)
    · obtain ⟨_, _, heq⟩ := Option.map_eq_some_iff.1 h
      cases heq
      exact Nat.lt_succ_self _

/-- Both halves of a character beyond the first plane are escaped. -/
example : readEscape? "ud83d\\ude00".toList = some ('😀', []) := by
  decide

/-- Read a character of a string, which is escaped or stands for itself. The control characters
    below the space and the quotation mark do not stand for themselves. -/
def readChar? : List Char → Option (Char × List Char)
  | [] => none
  | c :: text =>
    if c = '\\' then readEscape? text
    else if c.toNat < 0x20 ∨ c = '"' then none
    else some (c, text)

theorem length_readChar? {text rest : List Char} {c : Char}
    (h : readChar? text = some (c, rest)) : rest.length < text.length := by
  cases text with
  | nil => cases h
  | cons d text =>
    simp only [readChar?] at h
    split at h
    · exact Nat.lt_succ_of_lt (length_readEscape? h)
    · split at h
      · cases h
      · cases h
        exact Nat.lt_succ_self _

/-- Read the characters of a string, and the quotation mark after them. -/
def readChars? (text : List Char) : Option (List Char × List Char) :=
  match _hread : readChar? text with
  | some (c, rest) => (readChars? rest).map fun (cs, rest) => (c :: cs, rest)
  | none =>
    match text with
    | '"' :: rest => some ([], rest)
    | _ => none
termination_by text.length
decreasing_by exact length_readChar? _hread

theorem length_readChars? {text cs rest : List Char} (h : readChars? text = some (cs, rest)) :
    rest.length < text.length := by
  fun_induction readChars? text generalizing cs with
  | case1 text c body hread ih =>
    obtain ⟨⟨more, rest'⟩, hmore, heq⟩ := Option.map_eq_some_iff.1 h
    cases heq
    exact Nat.lt_trans (ih hmore) (length_readChar? hread)
  | case2 body =>
    cases h
    exact Nat.lt_succ_self _
  | case3 => cases h

/-! ## Tokens -/

inductive Token where
  | beginArray
  | endArray
  | beginObject
  | endObject
  | nameSeparator
  | valueSeparator
  /-- A value other than an array or an object, or the name of a member. -/
  | scalar (value : Json)

def Token.ofChar? : Char → Option Token
  | '[' => some .beginArray
  | ']' => some .endArray
  | '{' => some .beginObject
  | '}' => some .endObject
  | ':' => some .nameSeparator
  | ',' => some .valueSeparator
  | _ => none

def readLiteral? : List Char → Option (Json × List Char)
  | 'n' :: 'u' :: 'l' :: 'l' :: rest => some (.null, rest)
  | 't' :: 'r' :: 'u' :: 'e' :: rest => some (.boolean true, rest)
  | 'f' :: 'a' :: 'l' :: 's' :: 'e' :: rest => some (.boolean false, rest)
  | _ => none

/-- Read a string, a value with a name or a number. -/
def readScalar? : List Char → Option (Json × List Char)
  | '"' :: text => (readChars? text).map fun (cs, rest) => (.string (.ofList cs), rest)
  | text => (readLiteral? text).or (readNumber? text)

theorem length_readScalar? {text rest : List Char} {v : Json}
    (h : readScalar? text = some (v, rest)) : rest.length < text.length := by
  unfold readScalar? at h
  split at h
  · obtain ⟨⟨cs, rest'⟩, hread, heq⟩ := Option.map_eq_some_iff.1 h
    cases heq
    exact Nat.lt_succ_of_lt (length_readChars? hread)
  · rcases Option.or_eq_some_iff.1 h with hliteral | ⟨-, hnumber⟩
    · unfold readLiteral? at hliteral
      split at hliteral <;> cases hliteral <;> simp only [List.length_cons] <;> omega
    · exact length_readNumber? hnumber

def readToken? : List Char → Option (Token × List Char)
  | [] => none
  | c :: text =>
    match Token.ofChar? c with
    | some token => some (token, text)
    | none => (readScalar? (c :: text)).map fun (v, rest) => (.scalar v, rest)

theorem length_readToken? {text rest : List Char} {token : Token}
    (h : readToken? text = some (token, rest)) : rest.length < text.length := by
  cases text with
  | nil => cases h
  | cons c text =>
    simp only [readToken?] at h
    split at h
    · cases h
      exact Nat.lt_succ_self _
    · obtain ⟨⟨v, rest'⟩, hread, heq⟩ := Option.map_eq_some_iff.1 h
      cases heq
      exact length_readScalar? hread

/-- Whether a character may stand between tokens. -/
def isSpace (c : Char) : Bool :=
  c = ' ' || c = '\t' || c = '\n' || c = '\r'

def lex? : List Char → Option (List Token)
  | [] => some []
  | c :: text =>
    if isSpace c then lex? text
    else
      match _hread : readToken? (c :: text) with
      | some (token, rest) => (lex? rest).map (token :: ·)
      | none => none
termination_by text => text.length
decreasing_by
  · exact Nat.lt_succ_self _
  · exact length_readToken? _hread

/-! ## Values -/

/-- An array or object that is still open, with what it holds already. -/
inductive Frame where
  | elements (before : List Json)
  /-- The next value is that of a member with the given name. -/
  | members (before : List (String × Json)) (name : String)

mutual

/-- The whole value, given the tokens from the start of a value on. -/
def parseValue? (frames : List Frame) : List Token → Option Json
  | .scalar v :: tokens => parseAfter? frames v tokens
  | .beginArray :: .endArray :: tokens => parseAfter? frames (.array []) tokens
  | .beginArray :: tokens => parseValue? (.elements [] :: frames) tokens
  | .beginObject :: .endObject :: tokens => parseAfter? frames (.object []) tokens
  | .beginObject :: tokens => parseMember? frames [] tokens
  | _ => none

/-- The whole value, given the tokens from the start of a member on. -/
def parseMember? (frames : List Frame) (before : List (String × Json)) :
    List Token → Option Json
  | .scalar (.string name) :: .nameSeparator :: tokens =>
    parseValue? (.members before name :: frames) tokens
  | _ => none

/-- The whole value, given the value that was read last and the tokens after it. -/
def parseAfter? (frames : List Frame) (v : Json) (tokens : List Token) : Option Json :=
  match frames, tokens with
  | [], [] => some v
  | .elements before :: frames, .valueSeparator :: tokens =>
    parseValue? (.elements (before ++ [v]) :: frames) tokens
  | .elements before :: frames, .endArray :: tokens =>
    parseAfter? frames (.array (before ++ [v])) tokens
  | .members before name :: frames, .valueSeparator :: tokens =>
    parseMember? frames (before ++ [(name, v)]) tokens
  | .members before name :: frames, .endObject :: tokens =>
    parseAfter? frames (.object (before ++ [(name, v)])) tokens
  | _, _ => none

end

/-- No value stands between a comma and a closing bracket. -/
example : parseValue? [] [.beginArray, .scalar .null, .valueSeparator, .endArray] = none := by
  rfl

def read? (text : String) : Option Json :=
  (lex? text.toList).bind (parseValue? [])

end LinProg.Json
