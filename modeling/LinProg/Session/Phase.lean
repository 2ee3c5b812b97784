set_option autoImplicit false

/-! # Phases

A problem is stated line by line in a fixed order: the objective, the restrictions, the sign
restrictions. A phase says what the next line is read as. -/

namespace LinProg

/-- What the next line of a problem is read as. -/
inductive Phase where
  | objective
  | restrictions
  | signRestrictions
  /-- The model is assembled, and lines are ignored. -/
  | assembled
  deriving DecidableEq

namespace Phase

def name : Phase → String
  | .objective => "objective"
  | .restrictions => "restriction"
  | .signRestrictions => "sign restriction"
  | .assembled => "assembled"

/-- What a user who types a problem in is asked for. -/
def prompt : Phase → String
  | .objective => "objective function > "
  | .restrictions => "restriction > "
  | .signRestrictions => "sign restriction (VAR >= 0) > "
  | .assembled => ""

/-- The place of a phase in the order in which phases follow each other. -/
def rank : Phase → Nat
  | .objective => 0
  | .restrictions => 1
  | .signRestrictions => 2
  | .assembled => 3

end Phase

end LinProg
