import LinProg.Command.FileTree
import LinProg.Session.Compile

set_option autoImplicit false

/-! # Surroundings of a command

What the command needs of its surroundings is a `Host`: a standard input, files to read, and files
to make and to write. A file tree is one, in which a run can be reasoned about. Beside the files
there is what the system does with them and with the command (`Surroundings`): it can fail wherever
it is asked for something. -/

namespace LinProg.Command

/-- What a command can do in its surroundings. Files that are made are written through handles. -/
structure Host (m : Type → Type) (Handle : Type) where
  /-- Whether the standard input is a terminal. -/
  isTerminal : m Bool
  /-- The standard input, for each line of which a user is asked if wanted. The listener tells how
      the asking went. -/
  readInput (asking : Bool) : m (Input × Listener)
  openFile (path : String) : m (Except FileFault Input)
  /-- Make an empty file, whatever was there before. -/
  createFile (path : String) : m (Except FileFault Handle)
  writeFile (handle : Handle) (text : String) : m (Except FileFault Unit)

/-- What a system does apart from its files. -/
structure Surroundings where
  /-- The standard input. -/
  input : Input
  isTerminal : Bool := false
  /-- What comes of asking a user for lines. -/
  prompts : Listener := .silent
  openFault? : String → Option FileFault := fun _ => none
  /-- After how many bytes of a file reading it fails, and why. -/
  readFault? : String → Option (Nat × String) := fun _ => none
  createFault? : String → Option FileFault := fun _ => none
  /-- After how many bytes writing to a place fails, and why. -/
  writeFault? : Place → Option (Nat × FileFault) := fun _ => none

/-- Bytes that come through a pipe, in a system that does not fail. -/
@[coe] def Surroundings.ofBytes (bytes : List UInt8) : Surroundings :=
  { input := bytes }

instance : Coe (List UInt8) Surroundings :=
  ⟨Surroundings.ofBytes⟩

namespace Surroundings

variable (w : Surroundings) (t : FileTree)

/-- What is read of a file with the given contents. -/
def reading (path : String) (contents : List UInt8) : Input :=
  match w.readFault? path with
  | none => contents
  | some (n, reason) => ⟨contents.take n, some reason⟩

/-- What is read at a path. Of a folder that is nothing. -/
def openFile (path : String) : Except FileFault Input :=
  match t.source path, w.openFault? path with
  | .error e, _ => .error e
  | .ok _, some e => .error e
  | .ok .folder, none => .ok ⟨[], some FileFault.isFolder.message⟩
  | .ok (.entry place), none => .ok (w.reading path ((t.file? place).getD []))

/-- The place of the file that is made at a path. -/
def createFile (path : String) : Except FileFault Place :=
  match t.target path, w.createFault? path with
  | .error e, _ => .error e
  | .ok _, some e => .error e
  | .ok place, none => .ok place

/-- Write at the end of a file. A fault comes after a part of the bytes. -/
def writeFile (place : Place) (bytes : List UInt8) : Except FileFault Unit × FileTree :=
  match w.writeFault? place with
  | none => (.ok (), t.append place bytes)
  | some (n, e) => (.error e, t.append place (bytes.take n))

end Surroundings

def FileTree.host (w : Surroundings) : Host (StateM FileTree) Place where
  isTerminal := return w.isTerminal
  readInput _ := return (w.input, w.prompts)
  openFile path := return w.openFile (← get) path
  createFile path := do
    let t ← get
    match w.createFile t path with
    | .error e => return .error e
    | .ok place =>
      set (t.put place [])
      return .ok place
  writeFile place text := modifyGet (w.writeFile · place text.toByteArray.toList)

end LinProg.Command
