import StateText.Json.Printer

/-!
# Addresses

A resource has a mode, a type and a name, and lies in a module, which is the path of calls from the
root. Its instances are told apart by a key: none, a number or a string. The text of an address
joins these parts by dots; the key stands in brackets.
-/

namespace StateText

inductive Mode where
  | managed
  | data
  /-- A word that names no known mode. -/
  | unknown (word : String)
deriving DecidableEq

namespace Mode

def ofWord (word : String) : Mode :=
  if word = "managed" then managed else if word = "data" then data else unknown word

def word : Mode → String
  | managed => "managed"
  | data => "data"
  | unknown word => word

@[simp] theorem word_ofWord (word : String) : (ofWord word).word = word := by
  unfold ofWord
  split
  · simp_all [Mode.word]
  · split <;> simp_all [Mode.word]

def isKnown : Mode → Bool
  | unknown _ => false
  | _ => true

end Mode

structure ResourceAddress where
  mode : Mode
  type : String
  name : String
deriving DecidableEq

def ResourceAddress.text (a : ResourceAddress) : String :=
  match a.mode with
  | .managed => a.type ++ "." ++ a.name
  | .data => "data." ++ a.type ++ "." ++ a.name
  | .unknown word => word ++ "." ++ a.type ++ "." ++ a.name

inductive InstanceKey where
  | none
  | int (i : Int)
  | str (s : String)
deriving DecidableEq

namespace InstanceKey

def text : InstanceKey → String
  | none => ""
  | int i => "[" ++ toString i ++ "]"
  | str s => "[" ++ Json.renderString s ++ "]"

def le : InstanceKey → InstanceKey → Bool
  | none, _ => true
  | int _, none => false
  | int a, int b => decide (a ≤ b)
  | int _, str _ => true
  | str a, str b => decide (a ≤ b)
  | str _, _ => false

theorem le_total (a b : InstanceKey) : le a b ∨ le b a := by
  cases a <;> cases b <;> simp [le, Int.le_total, String.le_total]

theorem le_trans (a b c : InstanceKey) (hab : le a b) (hbc : le b c) : le a c := by
  cases a <;> cases b <;> cases c <;> simp_all [le]
  · exact Int.le_trans hab hbc
  · exact String.le_trans hab hbc

theorem le_antisymm (a b : InstanceKey) (hab : le a b) (hba : le b a) : a = b := by
  cases a <;> cases b <;> simp_all [le]
  · exact Int.le_antisymm hab hba
  · exact String.le_antisymm hab hba

end InstanceKey

/-- The names of the module calls from the root on. -/
structure ModulePath where
  steps : List String
deriving DecidableEq

namespace ModulePath

def root : ModulePath := ⟨[]⟩

def isRoot (path : ModulePath) : Bool := path.steps.isEmpty

def child (path : ModulePath) (name : String) : ModulePath := ⟨path.steps ++ [name]⟩

def text (path : ModulePath) : String :=
  ".".intercalate (path.steps.map fun step => "module." ++ step)

@[simp] theorem text_root : root.text = "" := rfl

def description (path : ModulePath) : String := if path.isRoot then "root module" else path.text

end ModulePath

def instanceAddress (module : ModulePath) (resource : ResourceAddress) (key : InstanceKey) :
    String :=
  (if module.isRoot then "" else module.text ++ ".") ++ resource.text ++ key.text

end StateText
