import DependencyAudit.Text.Lines

/-!
Arguments of the audit.  Options take a value, either attached with an equals
sign or as the next argument; switches take none; nothing may be given twice.
A value that stands apart is taken in when the next known option or switch is
reached, or the end, so an unknown argument in between is reported first.  A
request for help counts as a switch that ends the reading.
-/

namespace DependencyAudit

namespace Arguments

/-- What takes a value. -/
inductive Valued where
  | root
  | directory
  | extension
  deriving DecidableEq, Repr

/-- What is on or off. -/
inductive Switch where
  | json
  | all
  | debug
  deriving DecidableEq, Repr

def Valued.name : Valued → String
  | root => "root"
  | directory => "directory"
  | extension => "extension"

def Switch.name : Switch → String
  | json => "json"
  | all => "all"
  | debug => "debug"

/-- Why the reading ends without settings. -/
inductive Error where
  | helpRequested
  | unknownArgument
  | givenTwice
  | invalidValue
  | unwantedValue
  deriving DecidableEq, Repr

/-- What the arguments have settled; an option that was not given is `none`. -/
structure Settings where
  root : Option String
  directory : Option String
  extension : Option String
  json : Bool
  all : Bool
  debug : Bool
  deriving DecidableEq, Repr

namespace Settings

def initial : Settings := ⟨none, none, none, false, false, false⟩

def value? (settings : Settings) : Valued → Option String
  | .root => settings.root
  | .directory => settings.directory
  | .extension => settings.extension

def setValue (settings : Settings) (option : Valued) (value : String) : Settings :=
  match option with
  | .root => { settings with root := some value }
  | .directory => { settings with directory := some value }
  | .extension => { settings with extension := some value }

def isOn (settings : Settings) : Switch → Bool
  | .json => settings.json
  | .all => settings.all
  | .debug => settings.debug

def setOn (settings : Settings) : Switch → Settings
  | .json => { settings with json := true }
  | .all => { settings with all := true }
  | .debug => { settings with debug := true }

/-- Takes a value in; an empty text is no value for the root. -/
def give (settings : Settings) (option : Valued) (value : String) : Except Error Settings :=
  if (settings.value? option).isSome then .error .givenTwice
  else if option = .root ∧ value = "" then .error .invalidValue
  else .ok (settings.setValue option value)

def turnOn (settings : Settings) (switch : Switch) : Except Error Settings :=
  if settings.isOn switch then .error .givenTwice else .ok (settings.setOn switch)

end Settings

/-- An option whose value stands apart and has not been taken in. -/
structure Pending where
  option : Valued
  value : Option String

/-- Takes a pending value in. -/
def settle (settings : Settings) : Option Pending → Except Error Settings
  | none => .ok settings
  | some ⟨_, none⟩ => .error .invalidValue
  | some ⟨option, some value⟩ => settings.give option value

/-- What a single argument says. -/
inductive Reading where
  /-- Two dashes, behind which nothing is an option. -/
  | escape
  | attached (option : Valued) (value : String)
  | apart (option : Valued)
  | switch (switch : Switch)
  | switchWithValue
  | help
  | unknown
  | plain

def valuedNamed? (name : String) : Option Valued :=
  [Valued.root, .directory, .extension].find? (·.name = name)

def switchNamed? (switches : List Switch) (name : String) : Option Switch :=
  switches.find? (·.name = name)

/-- The long name of the request for help. -/
def helpName : String := "help"

/-- Reads a long argument behind its two dashes. -/
def readLong (switches : List Switch) (name : String) (value : Option String) : Reading :=
  match valuedNamed? name, switchNamed? switches name, value with
  | some option, _, some value => .attached option value
  | some option, _, none => .apart option
  | none, some _, some _ => .switchWithValue
  | none, some switch, none => .switch switch
  | none, none, value =>
    if name = helpName then if value.isSome then .switchWithValue else .help else .unknown

/-- A single dash is an ordinary value; anything longer with a dash in front has
to be known.  The only short name is that of help, and what follows it in the
same argument is not looked at. -/
def readOne (switches : List Switch) (argument : String) : Reading :=
  match argument.toList with
  | ['-', '-'] => .escape
  | '-' :: '-' :: long =>
    match Text.cutAtFirst '=' long with
    | some (name, value) => readLong switches (String.ofList name) (some (String.ofList value))
    | none => readLong switches (String.ofList long) none
  | ['-'] => .plain
  | '-' :: 'h' :: _ => .help
  | '-' :: _ => .unknown
  | _ => .plain

/-- Reads arguments from left to right. -/
def readFrom (switches : List Switch) (settings : Settings) (pending : Option Pending) :
    List String → Except Error Settings
  | [] => settle settings pending
  | argument :: arguments =>
    match readOne switches argument with
    | .escape => if arguments.isEmpty then settle settings pending else .error .unknownArgument
    | .unknown => .error .unknownArgument
    | .switchWithValue => .error .unwantedValue
    | .help =>
      match settle settings pending with
      | .error e => .error e
      | .ok _ => .error .helpRequested
    | .attached option value =>
      match (settle settings pending).bind (·.give option value) with
      | .error e => .error e
      | .ok settings => readFrom switches settings none arguments
    | .apart option =>
      match settle settings pending with
      | .error e => .error e
      | .ok settings => readFrom switches settings (some ⟨option, none⟩) arguments
    | .switch switch =>
      match (settle settings pending).bind (·.turnOn switch) with
      | .error e => .error e
      | .ok settings => readFrom switches settings none arguments
    | .plain =>
      match pending with
      | some ⟨option, none⟩ =>
        readFrom switches settings (some ⟨option, some argument⟩) arguments
      | _ => .error .unknownArgument

/-- Reads the arguments of an audit that has the given switches. -/
def read (switches : List Switch) (arguments : List String) : Except Error Settings :=
  readFrom switches .initial none arguments

end Arguments

end DependencyAudit
