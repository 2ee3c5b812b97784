import LinProg.Statement.Reader

set_option autoImplicit false

/-! # Reading from a position

The readers for parts of a statement, applied at a byte position of a line. They return what was
read with the position after it, or the place of the fault. Where a single part is asked for, a
fault is reported at the position that was asked for; inside a term or an expression it is reported
where it was noticed. -/

namespace LinProg

open Text

/-- The position of the next character that is not white space, or of the end of the line. -/
def skipWhiteSpaceAt (line : String) (pos : Nat) : Nat :=
  offsetOf line (skipWhiteSpace (textFrom line pos))

def signAt? (line : String) (pos : Nat) : Option (Sign × Nat) :=
  (Numeral.readSign? (textFrom line pos)).map fun (sign, rest) => (sign, offsetOf line rest)

def nameAt (line : String) (pos : Nat) : Except ParseError (String × Nat) :=
  match readName? (textFrom line pos) with
  | some (name, rest) => .ok (name, offsetOf line rest)
  | none => .error ⟨.invalidVariable, line, pos⟩

def relationAt (line : String) (pos : Nat) : Except ParseError (Relation × Nat) :=
  match readRelation? (textFrom line pos) with
  | some (relation, rest) => .ok (relation, offsetOf line rest)
  | none => .error ⟨.missingRelation, line, pos⟩

def termAt (line : String) (pos : Nat) : Except ParseError (Term × Nat) :=
  match readTerm (textFrom line pos) with
  | .ok (t, rest) => .ok (t, offsetOf line rest)
  | .error unread => .error (Failure.locate line ⟨.invalidVariable, unread⟩)

/-- The expression at a position, with the white space around it. -/
def expressionAt (line : String) (pos : Nat) : Except ParseError (Expression × Nat) :=
  match readExpression (textFrom line pos) with
  | .ok (e, rest) => .ok (e, offsetOf line rest)
  | .error unread => .error (Failure.locate line ⟨.invalidVariable, unread⟩)

end LinProg
