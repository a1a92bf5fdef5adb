import StateText.Block
import StateText.Toml.Document

/-!
# Settings

Defaults for what the command line leaves open, read from a settings document. Each has a short
list of words; entries with other names do not matter.
-/

namespace StateText

inductive ColorChoice where
  /-- Colors on a terminal only. -/
  | auto
  | always
  | never
deriving DecidableEq

namespace ColorChoice

def words : Entries String ColorChoice := [("auto", auto), ("always", always), ("never", never)]

def word : ColorChoice → String
  | auto => "auto"
  | always => "always"
  | never => "never"

def enabled (mode : ColorChoice) (terminal : Bool) : Bool :=
  match mode with
  | auto => terminal
  | always => true
  | never => false

end ColorChoice

namespace FailureStyle

def words : Entries String FailureStyle := [("truncate", truncate), ("placeholder", placeholder)]

def word : FailureStyle → String
  | truncate => "truncate"
  | placeholder => "placeholder"

end FailureStyle

structure Settings where
  color : ColorChoice
  decodeErrors : FailureStyle
deriving DecidableEq

namespace Settings

def default : Settings := ⟨.auto, .truncate⟩

inductive Fault where
  | malformed
  /-- The value under this name is none of the words for it. -/
  | badValue (name : String)
deriving DecidableEq

/-- A word stands alone or as the one key of a table, over an empty collection. -/
def wordOf? : Toml.Value → Option String
  | .string s => some s
  | .table [(s, .table [])] => some s
  | .table [(s, .array [])] => some s
  | _ => none

def field {α : Type} (words : Entries String α) (start : α) (name : String)
    (entries : Entries String Toml.Value) : Except Fault α :=
  match Entries.get? name entries with
  | none => .ok start
  | some v =>
    match (wordOf? v).bind fun word => Entries.get? word words with
    | some a => .ok a
    | none => .error (.badValue name)

def ofEntries (entries : Entries String Toml.Value) : Except Fault Settings :=
  match field ColorChoice.words default.color "color" entries with
  | .error e => .error e
  | .ok color =>
    (field FailureStyle.words default.decodeErrors "decode_errors" entries).map fun mode =>
      ⟨color, mode⟩

def parse (text : String) : Except Fault Settings :=
  match Toml.parse text with
  | none => .error .malformed
  | some entries => ofEntries entries

end Settings

end StateText
