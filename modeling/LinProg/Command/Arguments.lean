set_option autoImplicit false

/-! # Command line arguments

The arguments of the command are read from left to right, and the first fault or the first request
for information ends the reading. A switch stands alone; a setting has a value, which is the rest of
its argument, with or without an equality sign, or the next argument. A lone `-` is a value, any
other argument that starts with `-` is not taken for one. Short switches can share one argument, the
last of which may be a setting. -/

namespace LinProg.Command

/-! ## Requests -/

inductive Setting where
  | input
  | output
  deriving DecidableEq

def Setting.name : Setting → String
  | .input => "--input"
  | .output => "--output"

/-- How a problem is to be compiled. -/
structure Options where
  /-- The file with the problem. Without one the problem is read from the standard input. -/
  input : Option String := none
  output : Option String := none
  /-- Whether a user is never asked for a line. -/
  noPrompt : Bool := false
  /-- How often more messages were asked for. -/
  verbosity : Nat := 0
  deriving DecidableEq

def Options.outputPath (o : Options) : String :=
  o.output.getD "problem.json"

/-- The number of severities of messages that are shown: errors and warnings always, information,
    details and traces when asked for. -/
def Options.level (o : Options) : Nat :=
  min (2 + o.verbosity) 5

inductive Request where
  | compile (options : Options)
  | version
  | help
  deriving DecidableEq

inductive UsageError where
  | unknown (argument : String)
  /-- A setting has no value, or an empty one. -/
  | missingValue (setting : Setting)
  | unexpectedValue (argument : String)
  /-- Something that may be given once is given again. -/
  | repeated (argument : String)
  deriving DecidableEq

/-! ## Single arguments -/

def Options.set (o : Options) (setting : Setting) (value : String) : Except UsageError Options :=
  if value.isEmpty then .error (.missingValue setting)
  else match setting with
    | .input => if o.input.isSome then .error (.repeated setting.name)
      else .ok { o with input := some value }
    | .output => if o.output.isSome then .error (.repeated setting.name)
      else .ok { o with output := some value }

/-- How the reading goes on after an argument. -/
inductive Progress where
  /-- With the next argument. -/
  | more (options : Options)
  /-- With the next argument, which is the value of a setting. -/
  | value (options : Options) (setting : Setting)
  /-- Not at all. -/
  | done (request : Request)

def Options.switch (o : Options) (name : String) : Except UsageError Progress :=
  if name = "--no-prompt" then
    if o.noPrompt then .error (.repeated name) else .ok (.more { o with noPrompt := true })
  else if name = "--verbose" then .ok (.more { o with verbosity := o.verbosity + 1 })
  else if name = "--version" then .ok (.done .version)
  else if name = "--help" then .ok (.done .help)
  else .error (.unknown name)

def Setting.ofName? (name : String) : Option Setting :=
  if name = Setting.input.name then some .input
  else if name = Setting.output.name then some .output
  else none

/-- The text before the first equality sign and, if there is one, the text after it. -/
def splitEquality (text : List Char) : String × Option String :=
  match text.dropWhile (· ≠ '=') with
  | [] => (String.ofList text, none)
  | _ :: value => (String.ofList (text.takeWhile (· ≠ '=')), some (String.ofList value))

def Options.takeLong (o : Options) (argument : List Char) : Except UsageError Progress :=
  match splitEquality argument with
  | (name, some value) =>
    match Setting.ofName? name with
    | some setting => (o.set setting value).map .more
    | none =>
      match o.switch name with
      | .error e => .error e
      | .ok _ => .error (.unexpectedValue name)
  | (name, none) =>
    match Setting.ofName? name with
    | some setting => .ok (.value o setting)
    | none => o.switch name

/-- The value that follows a setting's letter in the same argument. -/
def attachedValue : List Char → List Char
  | '=' :: value => value
  | value => value

/-- Take a setting whose letter is followed by the given text in the same argument. -/
def Options.takeSetting (o : Options) (setting : Setting) (rest : List Char) :
    Except UsageError Progress :=
  if rest.isEmpty then .ok (.value o setting)
  else (o.set setting (String.ofList (attachedValue rest))).map .more

/-- Take the letters of an argument with short names. -/
def Options.takeShort (o : Options) : List Char → Except UsageError Progress
  | [] => .ok (.more o)
  | 'v' :: rest => { o with verbosity := o.verbosity + 1 : Options }.takeShort rest
  | 'V' :: _ => .ok (.done .version)
  | 'h' :: _ => .ok (.done .help)
  | 'i' :: rest => o.takeSetting .input rest
  | 'o' :: rest => o.takeSetting .output rest
  | c :: _ => .error (.unknown (String.ofList ['-', c]))

/-- Take an argument that is not the value of the one before. -/
def Options.take (o : Options) (argument : String) : Except UsageError Progress :=
  match argument.toList with
  | '-' :: '-' :: _ => o.takeLong argument.toList
  | '-' :: c :: rest => o.takeShort (c :: rest)
  | _ => .error (.unknown argument)

/-! ## All arguments -/

/-- Whether an argument can be the value of the setting before it. -/
def isValue (argument : String) : Bool :=
  argument.toList.head? ≠ some '-' || argument = "-"

/-- Read the arguments from left to right. After `--` there can be none. -/
def Options.read (o : Options) : List String → Except UsageError Request
  | [] => .ok (.compile o)
  | ["--"] => .ok (.compile o)
  | argument :: rest =>
    match o.take argument with
    | .error e => .error e
    | .ok (.done request) => .ok request
    | .ok (.more o) => o.read rest
    | .ok (.value o setting) =>
      match rest with
      | [] => .error (.missingValue setting)
      | value :: rest =>
        if isValue value then
          match o.set setting value with
          | .error e => .error e
          | .ok o => o.read rest
        else .error (.missingValue setting)

def readArguments (arguments : List String) : Except UsageError Request :=
  ({} : Options).read arguments

end LinProg.Command
