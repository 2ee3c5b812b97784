import LinProg.Session.Message
import LinProg.Statement.Reader

set_option autoImplicit false

/-! # Sessions

A session takes the lines of a problem one at a time: an objective, restrictions up to a blank line,
sign restrictions up to a blank line. Then the model is assembled, and further lines are ignored.
The first line that is not the statement it should be ends the session with an error. The end of the
input closes whatever is still open, once an objective was read.

Each step returns the new session together with the messages it gives rise to. A step that fails
reports nothing but the error. -/

namespace LinProg

open Text

inductive CompileError where
  /-- A line is not the statement it should be. Lines are counted from one. -/
  | statement (lineNumber : Nat) (phase : Phase) (error : ParseError)
  | missingObjective
  /-- A line is not text in UTF-8. -/
  | invalidText
  /-- The input could not be read on, for the given reason. -/
  | unreadable (reason : String)
  deriving DecidableEq

def CompileError.message : CompileError → String
  | .statement lineNumber phase error =>
    "line " ++ lineNumber.repr ++ " (" ++ phase.name ++ "): " ++ error.message
  | .missingObjective => "input ended before an objective function was read"
  | .invalidText => "stream did not contain valid UTF-8"
  | .unreadable reason => reason

/-- A problem that is being read. -/
structure Session where
  phase : Phase
  /-- How many lines were taken. -/
  lineNumber : Nat
  objective? : Option Expression
  restrictions : List Restriction
  signRestrictions : List SignRestriction
  model? : Option Model
  deriving DecidableEq

namespace Session

def new : Session :=
  ⟨.objective, 0, none, [], [], none⟩

/-- Accept a statement, or fail with the present line number and phase. -/
def statement {α : Type} (s : Session) (parsed : Except ParseError α) : Except CompileError α :=
  parsed.mapError (.statement s.lineNumber s.phase)

def advance (s : Session) (phase : Phase) : Session × List Message :=
  ({ s with phase := phase }, [.phaseChanged s.phase phase])

def assemble (s : Session) : Except CompileError (Session × List Message) :=
  match s.objective? with
  | none => .error .missingObjective
  | some e =>
    let model := Problem.assemble ⟨e, s.restrictions, s.signRestrictions⟩
    let (s, messages) := { s with model? := some model }.advance .assembled
    .ok (s, Message.ofModel model ++ messages)

def step (s : Session) (line : String) : Except CompileError (Session × List Message) := do
  let s := { s with lineNumber := s.lineNumber + 1 }
  let blank := isBlank line.toList
  match s.phase with
  | .objective =>
    let parsed := if blank then .error ⟨.missingDirection, line, byteLength line.toList⟩
      else parseObjective line
    let (e, dropped) ← s.statement parsed
    let (s, messages) := { s with objective? := some e }.advance .restrictions
    return (s, Message.ofDropped dropped ++ .objectiveRead e :: messages)
  | .restrictions =>
    if blank then return s.advance .signRestrictions
    else
      let r ← s.statement (parseRestriction line)
      return ({ s with restrictions := s.restrictions ++ [r] },
        [.restrictionRead s.restrictions.length r])
  | .signRestrictions =>
    if blank then s.assemble
    else
      let r ← s.statement (parseSignRestriction line)
      return ({ s with signRestrictions := s.signRestrictions ++ [r] }, [.signRestrictionRead r])
  | .assembled => return (s, [.lineIgnored s.lineNumber])

/-- End the input, and report. A problem that is not complete ends here. -/
def close (s : Session) : Except CompileError (Model × List Message) := do
  let (s, messages) ← if s.phase = .assembled then .ok (s, []) else s.assemble
  match s.model? with
  | none => .error .missingObjective
  | some model => return (model, messages)

def feed (s : Session) (line : String) : Except CompileError Session :=
  (s.step line).map (·.1)

def feedAll (s : Session) (lines : List String) : Except CompileError Session :=
  lines.foldlM feed s

def finish (s : Session) : Except CompileError Model :=
  s.close.map (·.1)

end Session

end LinProg
