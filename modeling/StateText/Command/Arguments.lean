import StateText.Settings

/-!
# Command line arguments

The words of a command line are read from left to right, on two levels: what may stand in front of
the name of a command, and what belongs to the command. A value that an option is still to get, or
whose check is still to come, is settled when the next option starts and at the end.
-/

namespace StateText.Command

inductive OptionName where
  | config
  | color
  | state
  | schemas
  | decodeErrors
deriving DecidableEq

namespace OptionName

def long : OptionName → String
  | config => "config"
  | color => "color"
  | state => "state"
  | schemas => "schemas"
  | decodeErrors => "decode-errors"

def accepts (name : OptionName) (value : String) : Bool :=
  match name with
  | color => (Entries.get? value ColorChoice.words).isSome
  | decodeErrors => (Entries.get? value FailureStyle.words).isSome
  | _ => value != ""

end OptionName

inductive UsageError where
  | missingRequired
  | invalidValue
  | unknownArgument
  | repeatedOption
  | unexpectedValue
  | unknownCommand
  | missingCommand
  | noArguments
  | help
  | version
deriving DecidableEq

def UsageError.exitCode : UsageError → Nat
  | help => 0
  | version => 0
  | _ => 2

inductive CommandName where
  | show
  | output
deriving DecidableEq

namespace CommandName

def ofWord? : String → Option CommandName
  | "show" => some .show
  | "output" => some .output
  | _ => none

end CommandName

structure Level where
  options : List OptionName
  /-- Commands may be named here, and the version asked for. -/
  top : Bool
  /-- One word that is no option. -/
  positional : Bool

namespace Level

def global : List OptionName := [.config, .color]

def outer : Level := ⟨global, true, false⟩

def ofCommand : CommandName → Level
  | .show => ⟨[.state, .schemas, .decodeErrors] ++ global, false, false⟩
  | .output => ⟨[.state] ++ global, false, true⟩

def option? (level : Level) (name : String) : Option OptionName :=
  level.options.find? fun o => o.long == name

def surplus (level : Level) (trailing : Bool) (arg : String) : UsageError :=
  if level.top then
    if trailing ∧ ((CommandName.ofWord? arg).isSome ∨ arg = "help") then .unknownArgument
    else .unknownCommand
  else .unknownArgument

end Level

structure Scan where
  given : List (OptionName × String)
  /-- The option that was read last, with its value if it has one by now. -/
  pending : Option (OptionName × Option String)
  positional : Option String

namespace Scan

def start : Scan := ⟨[], none, none⟩

def take (s : Scan) (name : OptionName) : Option String → Except UsageError Scan
  | none => .error .invalidValue
  | some value =>
    if s.given.any fun g => g.1 = name then .error .repeatedOption
    else if name.accepts value then
      .ok { s with given := s.given ++ [(name, value)], pending := none }
    else .error .invalidValue

def settle (s : Scan) : Except UsageError Scan :=
  match s.pending with
  | none => .ok s
  | some (name, value) => s.take name value

def expecting (s : Scan) : Bool :=
  match s.pending with
  | some (_, none) => true
  | _ => false

def value? (s : Scan) (name : OptionName) : Option String := Entries.get? name s.given

end Scan

def splitOption (cs : List Char) : String × Option String :=
  let name := String.ofList (cs.takeWhile (· != '='))
  match cs.dropWhile (· != '=') with
  | [] => (name, none)
  | _ :: value => (name, some (String.ofList value))

def helpOn : List String → UsageError
  | [] => .help
  | [word] => if (CommandName.ofWord? word).isSome ∨ word = "help" then .help else .unknownCommand
  | _ :: _ :: _ => .unknownCommand

/-- What stands in place of a word: an answer that ends the reading, or the new state of it. -/
def longOption (level : Level) (s : Scan) (cs : List Char) : Except UsageError Scan :=
  let (name, value) := splitOption cs
  let flag (answer : UsageError) : Except UsageError Scan :=
    match value with
    | some _ => .error .unexpectedValue
    | none =>
      match s.settle with
      | .error e => .error e
      | .ok _ => .error answer
  match level.option? name with
  | some option =>
    match s.settle with
    | .error e => .error e
    | .ok s =>
      match value with
      | some value => s.take option (some value)
      | none => .ok { s with pending := some (option, none) }
  | none =>
    if name = "help" then flag .help
    else if name = "version" ∧ level.top then flag .version
    else .error .unknownArgument

def shortOption (level : Level) (s : Scan) (letter : Char) : Except UsageError Scan :=
  let flag (answer : UsageError) : Except UsageError Scan :=
    match s.settle with
    | .error e => .error e
    | .ok _ => .error answer
  if letter = 'h' then flag .help
  else if letter = 'V' ∧ level.top then flag .version
  else .error .unknownArgument

def positional (level : Level) (s : Scan) (trailing : Bool) (arg : String) :
    Except UsageError Scan :=
  if level.positional ∧ s.positional.isNone then
    s.settle.map fun s => { s with positional := some arg }
  else .error (level.surplus trailing arg)

/-- Reads the words of a level, up to the name of a command, and gives the words behind it. -/
def scan (level : Level) :
    (trailing : Bool) → Scan → List String →
      Except UsageError (Scan × Option (CommandName × List String))
  | _, s, [] => .ok (s, none)
  | true, s, arg :: args =>
    match positional level s true arg with
    | .error e => .error e
    | .ok s => scan level true s args
  | false, s, arg :: args =>
    if level.top ∧ !s.expecting ∧ arg = "help" then .error (helpOn args)
    else
      match if level.top ∧ !s.expecting then CommandName.ofWord? arg else none with
      | some command => .ok (s, some (command, args))
      | none =>
        match arg.toList with
        | ['-', '-'] => scan level true s args
        | '-' :: '-' :: cs =>
          match longOption level s cs with
          | .error e => .error e
          | .ok s => scan level false s args
        | '-' :: letter :: _ =>
          match shortOption level s letter with
          | .error e => .error e
          | .ok s => scan level false s args
        | _ =>
          match s.pending with
          | some (name, none) =>
            scan level false { s with pending := some (name, some arg) } args
          | _ =>
            match positional level s false arg with
            | .error e => .error e
            | .ok s => scan level false s args

inductive Action where
  | show (state schemas : String) (decodeErrors : Option FailureStyle)
  | output (state : String) (name : Option String)

structure Arguments where
  config : Option String
  color : Option ColorChoice
  action : Action

namespace Action

def ofScan (s : Scan) : CommandName → Except UsageError Action
  | .show =>
    match s.value? .state, s.value? .schemas with
    | some state, some schemas =>
      .ok (.show state schemas
        ((s.value? .decodeErrors).bind fun word => Entries.get? word FailureStyle.words))
    | _, _ => .error .missingRequired
  | .output =>
    match s.value? .state with
    | some state => .ok (.output state s.positional)
    | none => .error .missingRequired

end Action

namespace Arguments

def withoutCommand (s : Scan) : UsageError := if s.given = [] then .noArguments else .missingCommand

/-- What is given behind the name of the command counts before what is given in front of it. -/
def parse (args : List String) : Except UsageError Arguments := do
  let (outer, command) ← scan .outer false .start args
  match command with
  | none =>
    let outer ← outer.settle
    .error (withoutCommand outer)
  | some (name, rest) =>
    let (inner, _) ← scan (.ofCommand name) false .start rest
    let inner ← inner.settle
    let action ← Action.ofScan inner name
    let outer ← outer.settle
    let value? (option : OptionName) : Option String :=
      (inner.value? option).orElse fun _ => outer.value? option
    let color := (value? .color).bind fun word => Entries.get? word ColorChoice.words
    return ⟨value? .config, color, action⟩

end Arguments

end StateText.Command
