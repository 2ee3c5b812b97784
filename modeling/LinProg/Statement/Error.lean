import LinProg.Text.Position

set_option autoImplicit false

/-! # Statements that cannot be read

What can be wrong with a line, and where. A reader reports a `Failure`: the fault and the text that
was still unread where it was noticed. For a user that becomes a `ParseError`, with the line and the
byte position of that text in it. -/

namespace LinProg

/-- What is wrong with a statement. -/
inductive Fault where
  | invalidVariable
  | missingDirection
  | missingRelation
  | invalidBound
  /-- A sign restriction states something else than that a variable is at least zero. -/
  | invalidSignRestriction
  deriving DecidableEq

def Fault.text : Fault → String
  | .invalidVariable => "invalid variable"
  | .missingDirection => "objective function must start with \"max\" or \"min\""
  | .missingRelation => "inequality or equality sign expected"
  | .invalidBound => "numeric bound expected"
  | .invalidSignRestriction => "\">= 0\" sign restriction expected"

/-- A fault and the text that starts where it was noticed. -/
structure Failure where
  fault : Fault
  /-- The text that was still unread. -/
  unread : List Char
  deriving DecidableEq

/-- A line that is not the statement it should be. -/
structure ParseError where
  fault : Fault
  line : String
  /-- The byte position in the line at which the fault was noticed. -/
  offset : Nat
  deriving DecidableEq

def ParseError.message (e : ParseError) : String :=
  e.fault.text ++ " at offset " ++ e.offset.repr ++ ": `" ++ e.line ++ "`"

/-- The failure with its place in the line that ends with the unread text. -/
def Failure.locate (line : String) (f : Failure) : ParseError :=
  ⟨f.fault, line, Text.offsetOf line f.unread⟩

end LinProg
