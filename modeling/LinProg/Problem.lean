import LinProg.Expression.Basic

set_option autoImplicit false

/-! # Linear programs

A linear program in minimization form: an objective, restrictions that bound a linear expression by
a number, and sign restrictions that state of a variable that it is not negative. The texts given
here are how the parts are shown to a user; what a user types in is the matter of the statement
readers. -/

namespace LinProg

/-- The relation between the two sides of a restriction. -/
inductive Relation where
  | atMost
  | equal
  | atLeast
  deriving DecidableEq

namespace Relation

def code : Relation → Int
  | .atMost => 1
  | .equal => 0
  | .atLeast => -1

def ofCode? : Int → Option Relation
  | 1 => some .atMost
  | 0 => some .equal
  | -1 => some .atLeast
  | _ => none

def symbol : Relation → String
  | .atMost => "≤"
  | .equal => "="
  | .atLeast => "≥"

@[simp] theorem ofCode?_code (r : Relation) : ofCode? r.code = some r := by cases r <;> rfl

end Relation

/-- A restriction: an expression, related to a bound. -/
structure Restriction where
  expression : Expression
  relation : Relation
  bound : Binary64
  deriving DecidableEq

def Restriction.text (r : Restriction) : String :=
  r.expression.text ++ " " ++ r.relation.symbol ++ " " ++ r.bound.text

/-- The statement that a variable is not negative. -/
structure SignRestriction where
  name : String
  deriving DecidableEq

def SignRestriction.text (s : SignRestriction) : String :=
  s.name ++ " " ++ Relation.atLeast.symbol ++ " 0"

structure Problem where
  objective : Expression
  /-- The restrictions, in the order in which they were stated. -/
  restrictions : List Restriction
  /-- The sign restrictions, in the order in which they were stated. -/
  signRestrictions : List SignRestriction
  deriving DecidableEq

end LinProg
