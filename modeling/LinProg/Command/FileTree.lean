set_option autoImplicit false

/-! # File trees

A system of files and folders, as far as a command can see it that reads one file and writes
another. A place in it is the list of the names on the way to it from the top. A path is resolved
name by name, from the top if it is absolute and from the working folder otherwise. All there is
are plain files and folders. -/

namespace LinProg.Command

/-- Why a file cannot be opened, made, read or written. -/
inductive FileFault where
  | missing
  | notFolder
  | isFolder
  /-- Something else, in the words of the system. -/
  | other (reason : String)
  deriving DecidableEq

def FileFault.message : FileFault → String
  | .missing => "No such file or directory (os error 2)"
  | .notFolder => "Not a directory (os error 20)"
  | .isFolder => "Is a directory (os error 21)"
  | .other reason => reason

abbrev Place := List String

structure FileTree where
  files : List (Place × List UInt8)
  folders : List Place
  workingFolder : Place := []
  deriving DecidableEq

namespace FileTree

/-! ## Look-up -/

def file? (t : FileTree) (place : Place) : Option (List UInt8) :=
  t.files.lookup place

/-- Whether a place is a folder. The top is. -/
def isFolder (t : FileTree) (place : Place) : Bool :=
  place.isEmpty || place ∈ t.folders

def put (t : FileTree) (place : Place) (contents : List UInt8) : FileTree :=
  { t with files := (place, contents) :: t.files.filter (·.1 != place) }

@[simp] theorem file?_put_self (t : FileTree) (place : Place) (contents : List UInt8) :
    (t.put place contents).file? place = some contents := by
  simp [put, file?]

theorem lookup_filter_ne {p q : Place} (h : q ≠ p) (files : List (Place × List UInt8)) :
    (files.filter (·.1 != p)).lookup q = files.lookup q := by
  induction files with
  | nil => rfl
  | cons entry files ih =>
    obtain ⟨place, contents⟩ := entry
    rw [List.filter_cons]
    split
    · rw [List.lookup_cons, List.lookup_cons, ih]
    · next hp =>
      have hp : place = p := by simpa using hp
      rw [ih, List.lookup_cons, hp, beq_eq_false_iff_ne.2 h]

/-- Writing a file changes no other. -/
theorem file?_put_of_ne (t : FileTree) {p q : Place} (h : q ≠ p) (contents : List UInt8) :
    (t.put p contents).file? q = t.file? q := by
  have := lookup_filter_ne h t.files
  simpa [put, file?, List.lookup_cons, beq_eq_false_iff_ne.2 h] using this

/-! ## Paths -/

def pathNames (path : String) : List String :=
  ((path.toList.splitOn '/').map String.ofList).filter (· ≠ "")

def isAbsolute (path : String) : Bool :=
  path.toList.head? = some '/'

/-- Whether a path ends in a slash, so that it can only be a folder. -/
def endsInSlash (path : String) : Bool :=
  path.toList.getLast? = some '/'

/-- The folder that the names of a path lead on from. -/
def start (t : FileTree) (path : String) : Place :=
  if isAbsolute path then [] else t.workingFolder

/-- The folder that a name leads to from a folder. The folder above the top is the top. -/
def enter (t : FileTree) (folder : Place) (name : String) : Except FileFault Place :=
  if name = "." then .ok folder
  else if name = ".." then .ok folder.dropLast
  else if t.isFolder (folder ++ [name]) then .ok (folder ++ [name])
  else if (t.file? (folder ++ [name])).isSome then .error .notFolder
  else .error .missing

def walk (t : FileTree) (folder : Place) (names : List String) : Except FileFault Place :=
  names.foldlM t.enter folder

/-- Where a path leads: to a folder, or to a name in a folder. -/
inductive Target where
  | folder
  | entry (place : Place)
  deriving DecidableEq

/-- Resolve a path up to its last name. Slashes alone lead to the top, and an empty path to
    nothing. -/
def resolve (t : FileTree) (path : String) : Except FileFault Target :=
  match (pathNames path).getLast? with
  | none => if isAbsolute path then .ok .folder else .error .missing
  | some last =>
    match t.walk (t.start path) (pathNames path).dropLast with
    | .error e => .error e
    | .ok folder =>
      if last = "." ∨ last = ".." then .ok .folder else .ok (.entry (folder ++ [last]))

/-! ## Opening and making files -/

/-- What is opened for reading at a path. A folder can be opened like a file. -/
def source (t : FileTree) (path : String) : Except FileFault Target :=
  match t.resolve path with
  | .error e => .error e
  | .ok .folder => .ok .folder
  | .ok (.entry place) =>
    if t.isFolder place then .ok .folder
    else if (t.file? place).isNone then .error .missing
    else if endsInSlash path then .error .notFolder
    else .ok (.entry place)

/-- The place of the file that is opened for writing at a path. Its folder must exist. -/
def target (t : FileTree) (path : String) : Except FileFault Place :=
  match t.resolve path with
  | .error e => .error e
  | .ok .folder => .error .isFolder
  | .ok (.entry place) =>
    if t.isFolder place ∨ endsInSlash path then .error .isFolder else .ok place

def append (t : FileTree) (place : Place) (bytes : List UInt8) : FileTree :=
  t.put place ((t.file? place).getD [] ++ bytes)

/-! ## Listings -/

/-- The places on the way to a place, the top first. -/
def ways (place : Place) : List Place :=
  (List.range place.length).map place.take

/-- A system whose working folder, which is below the top, holds the given files and folders, with
    all folders on the way to them. -/
def ofPaths (files : List (String × List UInt8)) (folders : List String) : FileTree :=
  let place := fun path => "work" :: pathNames path
  { files := files.map fun (path, contents) => (place path, contents)
    folders := ["work"] :: folders.map place ++
      (folders ++ files.map (·.1)).flatMap fun path => ways (place path)
    workingFolder := ["work"] }

def topFiles (t : FileTree) : List (String × List UInt8) :=
  t.files.filterMap fun (place, contents) =>
    match place.getLast? with
    | some name => if place = t.workingFolder ++ [name] then some (name, contents) else none
    | none => none

end FileTree

end LinProg.Command
