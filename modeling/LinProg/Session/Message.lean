import LinProg.Model.Text
import LinProg.Session.Phase

set_option autoImplicit false

/-! # Log messages

What a compilation reports on its way. A message is recorded as what happened; its severity and its
wording follow from that. A log is shown at a level: the messages that are at least as severe. -/

namespace LinProg

inductive Severity where
  | error
  | warn
  | info
  | debug
  | trace
  deriving DecidableEq

namespace Severity

/-- How many severities are at least as severe. -/
def rank : Severity → Nat
  | .error => 1
  | .warn => 2
  | .info => 3
  | .debug => 4
  | .trace => 5

def name : Severity → String
  | .error => "ERROR"
  | .warn => "WARN"
  | .info => "INFO"
  | .debug => "DEBUG"
  | .trace => "TRACE"

/-- The number of the terminal colour in which the severity is shown. -/
def colour : Severity → Nat
  | .error => 91
  | .warn => 93
  | .info => 32
  | .debug => 37
  | .trace => 37

def label (s : Severity) : String :=
  "\x1b[" ++ s.colour.repr ++ "m" ++ String.ofList (s.name.toList.rightpad 5 ' ') ++ "\x1b[0m"

end Severity

inductive Message where
  | textDropped (dropped : String)
  /-- The objective was read. It is in minimization form. -/
  | objectiveRead (objective : Expression)
  /-- A restriction was read. Restrictions are counted from zero. -/
  | restrictionRead (index : Nat) (restriction : Restriction)
  | signRestrictionRead (signRestriction : SignRestriction)
  | phaseChanged (old new : Phase)
  | modelAssembled (rows columns : Nat)
  | modelShown (model : Model)
  /-- A line after the end of the problem was ignored. Lines are counted from one. -/
  | lineIgnored (number : Nat)
  | modelWritten (path : String)
  deriving DecidableEq

namespace Message

/-- How severe a message is. Dropped text is worth a warning; all else is information, in more and
    more detail. -/
def severity : Message → Severity
  | .textDropped _ => .warn
  | .modelAssembled .. => .info
  | .modelWritten _ => .info
  | .modelShown _ => .trace
  | .objectiveRead _ => .debug
  | .restrictionRead .. => .debug
  | .signRestrictionRead _ => .debug
  | .phaseChanged .. => .debug
  | .lineIgnored _ => .debug

def text : Message → String
  | .textDropped dropped => "ignoring text after the objective function: `" ++ dropped ++ "`"
  | .objectiveRead objective => "objective (minimize): " ++ objective.text
  | .restrictionRead index restriction =>
    "restriction " ++ index.repr ++ ": " ++ restriction.text
  | .signRestrictionRead signRestriction => "sign restriction: " ++ signRestriction.text
  | .phaseChanged old new => old.name ++ " -> " ++ new.name
  | .modelAssembled rows columns =>
    "assembled model with " ++ rows.repr ++ " restrictions and " ++ columns.repr ++ " variables"
  | .modelShown model => "\n" ++ model.text
  | .lineIgnored number => "ignoring line " ++ number.repr ++ " after the model was assembled"
  | .modelWritten path => "wrote model to " ++ path

/-- Whether a message is shown at a level, the number of severities that are shown. -/
def shownAt (level : Nat) (m : Message) : Bool :=
  m.severity.rank ≤ level

/-- The line of a log for a message, which the time comes before. -/
def line (time : String) (m : Message) : String :=
  time ++ " | " ++ m.severity.label ++ " | " ++ m.text

/-- The report on text after an objective: none if there is no such text. -/
def ofDropped (dropped : List Char) : List Message :=
  if dropped.isEmpty then [] else [.textDropped (String.ofList dropped)]

def ofModel (m : Model) : List Message :=
  [.modelAssembled m.rows.length m.columns.length, .modelShown m]

end Message

end LinProg
