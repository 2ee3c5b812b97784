import LinProg.Expression.Reader
import LinProg.Problem
import LinProg.Statement.Error

set_option autoImplicit false

/-! # Reading statements

The three kinds of line of a problem, each read as a whole:

* an objective is a direction and an expression, and text after it is dropped;
* a restriction is an expression, a relational sign and a number that takes up the rest of the line;
* a sign restriction is a variable, the relational sign for "at least" and the digit `0`.

White space may surround every part. -/

namespace LinProg

open Text

/-- Whether an objective is to be made large or small. -/
inductive Direction where
  | maximize
  | minimize
  deriving DecidableEq

def Direction.toMinimize : Direction → Expression → Expression
  | .maximize, e => e.negate
  | .minimize, e => e

/-- Whether a text ends a keyword: it is empty or starts with white space. -/
def endsKeyword : List Char → Bool
  | [] => true
  | c :: _ => isWhiteSpace c

def readDirection? : List Char → Option (Direction × List Char)
  | 'm' :: 'a' :: 'x' :: text => if endsKeyword text then some (.maximize, text) else none
  | 'm' :: 'i' :: 'n' :: text => if endsKeyword text then some (.minimize, text) else none
  | _ => none

/-- Read an objective. The result is in minimization form and comes with the text after it. -/
def readObjective (text : List Char) : Except Failure (Expression × List Char) :=
  match readDirection? (skipWhiteSpace text) with
  | none => .error ⟨.missingDirection, skipWhiteSpace text⟩
  | some (direction, body) =>
    match readExpression body with
    | .error unread => .error ⟨.invalidVariable, unread⟩
    | .ok (e, rest) => .ok (direction.toMinimize e, rest)

/-- Read a relational sign, the longest that there is. An inequality need not be followed by an
    equality sign: both stand for the same relation. -/
def readRelation? : List Char → Option (Relation × List Char)
  | '<' :: '=' :: text => some (.atMost, text)
  | '<' :: text => some (.atMost, text)
  | '>' :: '=' :: text => some (.atLeast, text)
  | '>' :: text => some (.atLeast, text)
  | '=' :: text => some (.equal, text)
  | _ => none

def readRestriction (text : List Char) : Except Failure Restriction :=
  match readExpression text with
  | .error unread => .error ⟨.invalidVariable, unread⟩
  | .ok (e, rest) =>
    match readRelation? rest with
    | none => .error ⟨.missingRelation, rest⟩
    | some (relation, right) =>
      match Numeral.number? (trim right) with
      | none => .error ⟨.invalidBound, right⟩
      | some bound => .ok ⟨e, relation, bound⟩

def readSignRestriction (text : List Char) : Except Failure SignRestriction :=
  match readName? (skipWhiteSpace text) with
  | none => .error ⟨.invalidVariable, skipWhiteSpace text⟩
  | some (name, rest) =>
    match readRelation? (skipWhiteSpace rest) with
    | none => .error ⟨.missingRelation, skipWhiteSpace rest⟩
    | some (relation, right) =>
      if relation = .atLeast ∧ trim right = ['0'] then .ok ⟨name⟩
      else .error ⟨.invalidSignRestriction, skipWhiteSpace rest⟩

/-- The objective that a line states, in minimization form, and the text that is dropped. -/
def parseObjective (line : String) : Except ParseError (Expression × List Char) :=
  (readObjective line.toList).mapError (·.locate line)

def parseRestriction (line : String) : Except ParseError Restriction :=
  (readRestriction line.toList).mapError (·.locate line)

def parseSignRestriction (line : String) : Except ParseError SignRestriction :=
  (readSignRestriction line.toList).mapError (·.locate line)

end LinProg
