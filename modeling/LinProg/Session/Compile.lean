import LinProg.Session.Basic
import LinProg.Text.Line

set_option autoImplicit false

/-! # Compiling a stream

A compilation feeds the lines of a byte stream to a session until the model is assembled, a line
fails, or the stream ends. Bytes after that are never looked at, and a line is decoded only when it
is reached. Before a line is read a listener is told the phase, so that it can ask a user for the
line; a listener may refuse, which ends the compilation. -/

namespace LinProg

open Text

/-- What is told before each line. It is given the phases told so far, the present one last, and
    may answer with a reason not to go on. -/
abbrev Listener := List Phase → Option String

def Listener.silent : Listener :=
  fun _ => none

/-- The listener that refuses at its `n`-th call, counted from one. -/
def Listener.refusingAt (n : Nat) (reason : String) : Listener :=
  fun told => if told.length = n then some reason else none

structure Run where
  told : List Phase
  log : List Message
  /-- The model, or why there is none. -/
  result : Except CompileError Model

def Run.after (messages : List Message) (r : Run) : Run :=
  { r with log := messages ++ r.log }

namespace Session

/-- The end of a run that ends with a session. -/
def conclude (s : Session) (told : List Phase) : Run :=
  match s.close with
  | .error e => ⟨told, [], .error e⟩
  | .ok (m, messages) => ⟨told, messages, .ok m⟩

/-- Run a session on the pieces of a stream, behind which the stream ends or has a fault. -/
def run (listener : Listener) (told : List Phase) (s : Session) (pieces : List (List UInt8))
    (fault? : Option String := none) : Run :=
  if s.phase = .assembled then s.conclude told
  else match listener (told ++ [s.phase]) with
    | some reason => ⟨told ++ [s.phase], [], .error (.unreadable reason)⟩
    | none =>
      match pieces with
      | [] =>
        match fault? with
        | some reason => ⟨told ++ [s.phase], [], .error (.unreadable reason)⟩
        | none => s.conclude (told ++ [s.phase])
      | piece :: pieces =>
        match decodeLine? piece with
        | none => ⟨told ++ [s.phase], [], .error .invalidText⟩
        | some line =>
          match s.step line with
          | .error e => ⟨told ++ [s.phase], [], .error e⟩
          | .ok (s', messages) =>
            (s'.run listener (told ++ [s.phase]) pieces fault?).after messages

end Session

/-- A stream of bytes, behind which nothing can be read for the reason of its fault, if it has
    one. -/
structure Input where
  bytes : List UInt8
  fault? : Option String := none
  deriving DecidableEq

@[coe] def Input.ofBytes (bytes : List UInt8) : Input :=
  { bytes }

instance : Coe (List UInt8) Input :=
  ⟨Input.ofBytes⟩

/-- The pieces that can be read. A line that a fault cuts off is lost. -/
def Input.pieces (input : Input) : List (List UInt8) :=
  match input.fault? with
  | none => cutLines input.bytes
  | some _ => (cutLines input.bytes).takeWhile (·.getLast? = some lineFeed)

/-- Compile an input, telling a listener before each line. -/
def compileWith (listener : Listener) (input : Input) : Run :=
  Session.new.run listener [] input.pieces input.fault?

def compile (input : Input) : Run :=
  compileWith .silent input

def compileText (text : String) : Run :=
  compile text.toByteArray.toList

end LinProg
