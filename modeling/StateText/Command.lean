import StateText.Command.Arguments
import StateText.Command.Files
import StateText.Plain
import StateText.Schema.Record
import StateText.Show
import StateText.State.Record

/-!
# Commands

`run` carries out a command in an environment that knows what its files hold. Either it succeeds
with a text for standard output, or it fails and writes nothing there; reports on single instances
go to standard error in both cases.
-/

namespace StateText.Command

structure Environment where
  read : String → Except ReadError String
  /-- The path of the settings file, where the environment names one. -/
  settingsPath : Option String
  /-- The directory of settings files, if there is one. -/
  settingsDirectory : Option String
  /-- May colors be shown without being asked for? -/
  terminal : Bool

inductive FileRole where
  | config
  | state
  | schemas

def FileRole.word : FileRole → String
  | config => "config"
  | state => "state"
  | schemas => "schemas"

inductive RunError where
  | unreadable (role : FileRole) (path : String) (e : ReadError)
  | invalidSettings (path : String) (e : Settings.Fault)
  | invalidState (path : String) (e : StateError)
  | invalidSchemas (path : String) (e : Json.Fault)
  | missingSchema (e : MissingSchema)
  | unknownOutput (name : String)

namespace RunError

def invalid (role : FileRole) (path reason : String) : String :=
  "Invalid " ++ role.word ++ " file " ++ path ++ ": " ++ reason

def message (ofSettings : Settings.Fault → String) : RunError → String
  | unreadable role path e =>
    "Failed to read " ++ role.word ++ " file " ++ path ++ ": " ++ e.message
  | invalidSettings path e => invalid .config path (ofSettings e)
  | invalidState path e => invalid .state path e.message
  | invalidSchemas path e => invalid .schemas path e.message
  | missingSchema e => e.message
  | unknownOutput name => "output " ++ Text.quoted name ++ " not found"

end RunError

inductive Report where
  | diagnostic (colored : Bool) (d : Diagnostic)
  | warning (colored : Bool) (text : String)

namespace Report

def label (colored : Bool) : String :=
  if colored then "\x1b[1m\x1b[31mError:\x1b[39m\x1b[0m" else "Error:"

def line : Report → String
  | diagnostic colored d => label colored ++ " " ++ d.display
  | warning colored text => if colored then "\x1b[33m" ++ text ++ "\x1b[39m" else text

end Report

structure Outcome where
  reports : List Report
  /-- The text for standard output, or what went wrong. -/
  result : Except RunError String

namespace Outcome

def fail (e : RunError) : Outcome := ⟨[], .error e⟩

def exitCode (o : Outcome) : Nat :=
  match o.result with
  | .ok _ => 0
  | .error _ => 1

def stdout (o : Outcome) : String :=
  match o.result with
  | .ok text => text
  | .error _ => ""

def stderr (ofSettings : Settings.Fault → String) (o : Outcome) : String :=
  String.join (o.reports.map fun r => r.line ++ "\n") ++
    match o.result with
    | .ok _ => ""
    | .error e => "Error: " ++ e.message ofSettings ++ "\n"

end Outcome

section Loading

variable (env : Environment)

def settingsFile (args : Arguments) : Option String :=
  match args.config with
  | some path => some path
  | none =>
    match env.settingsPath with
    | some path => some path
    | none => env.settingsDirectory.map fun directory => directory ++ "/statefmt/config.toml"

/-- A settings file that is not there leaves the defaults. -/
def readSettingsFrom (path : String) : Except RunError Settings :=
  match env.read path with
  | .ok text => (Settings.parse text).mapError (.invalidSettings path)
  | .error e => if e.exists? then .error (.unreadable .config path e) else .ok .default

def readSettings (args : Arguments) : Except RunError Settings :=
  match settingsFile env args with
  | none => .ok .default
  | some path => readSettingsFrom env path

def readState (path : String) : Except RunError State :=
  match env.read path with
  | .error e => .error (.unreadable .state path e)
  | .ok text => (State.parse text).mapError (.invalidState path)

def readSchemas (path : String) : Except RunError Schemas :=
  match env.read path with
  | .error e => .error (.unreadable .schemas path e)
  | .ok text => (Schemas.parse text).mapError (.invalidSchemas path)

end Loading

def showState (s : State) (schemas : Schemas) (mode : FailureStyle) (colored : Bool) : Outcome :=
  let shown := s.shown schemas mode (if colored then .ansi else .strip)
  { reports := shown.2.map (.diagnostic colored)
    result :=
      match shown.1 with
      | .ok text => .ok (text ++ "\n")
      | .error e => .error (.missingSchema e) }

def noOutputs : String := "No outputs found in the state file."

def hidden : String := "<sensitive>"

def outputLine (name : String) (o : Output) : String :=
  if o.sensitive then name ++ " = " ++ hidden ++ "\n"
  else String.ofList (Plain.output name.toList o.value.toJson) ++ "\n"

def printOutputs (s : State) (name : Option String) (colored : Bool) : Outcome :=
  let outputs := match s.root? with
    | some root => root.outputs
    | none => []
  if outputs = [] then ⟨[.warning colored noOutputs], .ok ""⟩
  else
    match name with
    | none =>
      ⟨[], .ok (String.join ((Entries.sorted outputs).map fun o => outputLine o.1 o.2))⟩
    | some name =>
      match Entries.get? name outputs with
      | some o => ⟨[], .ok (String.ofList (Plain.output [] o.value.toJson) ++ "\n")⟩
      | none => .fail (.unknownOutput name)

/-- The settings come first, then the state, then the schemas. -/
def run (env : Environment) (args : Arguments) : Outcome :=
  match readSettings env args with
  | .error e => .fail e
  | .ok settings =>
    let colored := (args.color.getD settings.color).enabled env.terminal
    match args.action with
    | .show statePath schemasPath decodeErrors =>
      match readState env statePath with
      | .error e => .fail e
      | .ok s =>
        match readSchemas env schemasPath with
        | .error e => .fail e
        | .ok schemas => showState s schemas (decodeErrors.getD settings.decodeErrors) colored
    | .output statePath name =>
      match readState env statePath with
      | .error e => .fail e
      | .ok s => printOutputs s name colored

end StateText.Command
