import Std.Time.Format
import Std.Time.Zoned
import LinProg.Command.Run

set_option autoImplicit false

/-! # The command as a program

The surroundings of the command are those of the process: its standard streams and the files it can
see. A user who types a problem in at a terminal is asked for each line until the problem is
complete; from anywhere else the input is read to its end. -/

namespace LinProg.Command

def FileFault.ofError : IO.Error → FileFault
  | .noFileOrDirectory .. => .missing
  | .inappropriateType _ code reason =>
    if code = 20 then .notFolder else if code = 21 then .isFolder else .other reason
  | e => .other (toString e)

def FileFault.catching {α : Type} (action : IO α) : IO (Except FileFault α) := do
  try
    return .ok (← action)
  catch e =>
    return .error (.ofError e)

/-- What is left to read of a stream, after the given bytes. -/
partial def readRest (stream : IO.FS.Stream) (bytes : ByteArray) : IO Input := do
  try
    let chunk ← stream.read 65536
    if chunk.isEmpty then return bytes.toList
    readRest stream (bytes ++ chunk)
  catch e =>
    return ⟨bytes.toList, some (FileFault.ofError e).message⟩

/-- Ask a user for a line, if wanted. What keeps a user from being asked is returned. -/
def ask (asking : Bool) (phase : Phase) : IO (Option String) := do
  if asking then
    try
      IO.eprint phase.prompt
      (← IO.getStderr).flush
    catch e =>
      return some (toString e)
  return none

/-- The lines that a session takes from a terminal, after the given bytes, of which there are so
    many. The listener refuses where a user could not be asked. -/
partial def readLines (stream : IO.FS.Stream) (asking : Bool) (s : Session) (lines : Nat)
    (bytes : ByteArray) : IO (Input × Listener) := do
  if s.phase = .assembled then return (bytes.toList, .silent)
  if let some reason ← ask asking s.phase then
    return (bytes.toList, .refusingAt (lines + 1) reason)
  try
    let line ← stream.getLine
    let bytes := bytes ++ line.toByteArray
    if line.isEmpty then return (bytes.toList, .silent)
    match (Text.decodeLine? line.toByteArray.toList).map s.feed with
    | some (.ok s) => readLines stream asking s (lines + 1) bytes
    | _ => return (bytes.toList, .silent)
  catch e =>
    return (⟨bytes.toList, some (FileFault.ofError e).message⟩, .silent)

def processHost : Host IO IO.FS.Handle where
  isTerminal := do (← IO.getStdin).isTty
  readInput asking := do
    let stream ← IO.getStdin
    if ← stream.isTty then readLines stream asking .new 0 .empty
    else return (← readRest stream .empty, .silent)
  openFile path := FileFault.catching do
    let handle ← IO.FS.Handle.mk path .read
    readRest (.ofHandle handle) .empty
  createFile path := FileFault.catching (IO.FS.Handle.mk path .write)
  writeFile handle text := FileFault.catching do
    handle.putStr text
    handle.flush

end LinProg.Command

open LinProg.Command in
def main (arguments : List String) : IO UInt32 := do
  let outcome ← execute processHost arguments
  let time := (← Std.Time.PlainDateTime.now).format "uuuu-MM-dd HH:mm:ss.SSSSSS"
  IO.eprint (outcome.errorText time)
  IO.print outcome.output
  return outcome.exitCode.toUInt32
