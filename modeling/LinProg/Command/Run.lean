import LinProg.Command.Arguments
import LinProg.Command.Host
import LinProg.Model.Record

set_option autoImplicit false

/-! # Running the command

The command compiles one problem, from a file or from the standard input, and writes its model as
indented JSON to a file, or to the standard output when the output path is `-`. No file is made
before the model is complete. The exit code tells success, failure and wrong arguments apart. -/

namespace LinProg.Command

/-- What a run leaves behind, files apart. -/
structure Outcome where
  /-- Zero for success, one for failure, two for wrong arguments. -/
  exitCode : Nat
  output : String := ""
  log : List Message := []
  /-- What is said on the standard error after the messages. -/
  complaint : String := ""
  /-- The phases in which a user was asked for a line. -/
  asked : List Phase := []
  deriving DecidableEq

/-- The text on the standard error, prompts apart, every message with the given time. -/
def Outcome.errorText (o : Outcome) (time : String) : String :=
  String.join (o.log.map fun message => message.line time ++ "\n") ++ o.complaint

def Outcome.failure (log : List Message) (reason : String) : Outcome :=
  { exitCode := 1, log, complaint := "error: " ++ reason ++ "\n" }

/-- The messages that are shown at the level that was asked for. -/
def Outcome.filter (level : Nat) (o : Outcome) : Outcome :=
  { o with log := o.log.filter (·.shownAt level) }

def versionText : String :=
  "lptext 0.1.0\n"

def helpText : String :=
  "Compiles a linear program written as text into the matrix form read by the simplex " ++
    "solver.\n\n" ++
    "The problem is one objective line (`max ...` or `min ...`), then restriction lines " ++
    "ended by a blank line, then `VAR >= 0` lines ended by a blank line.\n\n" ++
    "  -i, --input    File containing the problem, stdin when absent\n" ++
    "  -o, --output   Where to write the JSON model, `-` for stdout\n" ++
    "  --no-prompt    Never print prompts, even on a terminal\n" ++
    "  -v, --verbose  More logging, repeat for more detail\n"

def modelText (m : Model) : String :=
  m.json ++ "\n"

section

variable {m : Type → Type} [Monad m] {Handle : Type}

/-- Write a model, after the messages of its compilation. -/
def writeModel (host : Host m Handle) (path : String) (log : List Message) (model : Model) :
    m Outcome := do
  if path = "-" then return { exitCode := 0, output := modelText model, log }
  else match ← host.createFile path with
    | .error e => return .failure log e.message
    | .ok handle =>
      match ← host.writeFile handle (modelText model) with
      | .error e => return .failure log e.message
      | .ok _ => return { exitCode := 0, log := log ++ [.modelWritten path] }

def deliver (host : Host m Handle) (path : String) (run : Run) : m Outcome :=
  match run.result with
  | .error e => return .failure run.log e.message
  | .ok model => writeModel host path run.log model

def compileProblem (host : Host m Handle) (o : Options) : m Outcome := do
  match o.input with
  | some path =>
    match ← host.openFile path with
    | .error e => return .failure [] e.message
    | .ok input => deliver host o.outputPath (compile input)
  | none =>
    let asking := !o.noPrompt && (← host.isTerminal)
    let (input, prompts) ← host.readInput asking
    let run := compileWith (if asking then prompts else .silent) input
    return { ← deliver host o.outputPath run with asked := if asking then run.told else [] }

def perform (host : Host m Handle) : Request → m Outcome
  | .version => return { exitCode := 0, output := versionText }
  | .help => return { exitCode := 0, output := helpText }
  | .compile o => do return (← compileProblem host o).filter o.level

/-- Run the command with arguments. Of wrong ones only the exit code tells. -/
def execute (host : Host m Handle) (arguments : List String) : m Outcome :=
  match readArguments arguments with
  | .error _ => return { exitCode := 2 }
  | .ok request => perform host request

end

def executeIn (tree : FileTree) (w : Surroundings) (arguments : List String) :
    Outcome × FileTree :=
  (execute (FileTree.host w) arguments).run tree

end LinProg.Command
