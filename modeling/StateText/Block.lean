import StateText.Value.Decode
import StateText.Value.Render
import StateText.Schema

/-!
# Instance blocks

The text of one instance: a header with its address and taint, the opening line of its resource, a
line for each attribute that is not null in the order of the schema, and the closing brace. Where
the attributes could not be decoded, the block stops behind its opening line or says why.
-/

namespace StateText

structure Diagnostic where
  address : String
  message : String
deriving DecidableEq

def Diagnostic.display (d : Diagnostic) : String := d.address ++ ": " ++ d.message

/-- A text in the making, and the problems met on the way. -/
@[ext] structure Page where
  chars : List Char
  diagnostics : List Diagnostic

namespace Page

def empty : Page := ⟨[], []⟩

def write (p : Page) (cs : List Char) : Page := { p with chars := p.chars ++ cs }

def report (p : Page) (d : Diagnostic) : Page := { p with diagnostics := p.diagnostics ++ [d] }

@[simp] theorem chars_write (p : Page) (cs : List Char) : (p.write cs).chars = p.chars ++ cs := rfl

@[simp] theorem diagnostics_write (p : Page) (cs : List Char) :
    (p.write cs).diagnostics = p.diagnostics := rfl

@[simp] theorem chars_report (p : Page) (d : Diagnostic) : (p.report d).chars = p.chars := rfl

@[simp] theorem diagnostics_report (p : Page) (d : Diagnostic) :
    (p.report d).diagnostics = p.diagnostics ++ [d] := rfl

end Page

/-- How a block ends whose attributes could not be decoded. -/
inductive FailureStyle where
  /-- It is left open. -/
  | truncate
  /-- A comment says why, and the block is closed. -/
  | placeholder
deriving DecidableEq

structure Block where
  address : String
  resource : ResourceAddress
  tainted : Bool
  schema : ResourceSchema
  /-- The decoded attributes, or what the display of the decoding error says. -/
  decoded : Except String Value

namespace Block

def header (b : Block) : List Char :=
  '#' :: ' ' :: b.address.toList ++ ':' :: ' ' ::
    (if b.tainted then "(tainted)".toList else []) ++ ['\n']

/-- A resource of an unknown mode shows its address instead of an opening. -/
def opening (b : Block) : List Char :=
  let labelled (word : String) : List Char :=
    (word ++ " " ++ Text.quoted b.resource.type ++ " " ++ Text.quoted b.resource.name).toList ++
      [' ', '\x7b', '\n']
  match b.resource.mode with
  | .managed => labelled "resource"
  | .data => labelled "data"
  | .unknown _ => b.resource.text.toList ++ ['\n']

def closing : List Char := ['\x7d', '\n', '\n']

def attributeLine (name : String) (v : Value) : List Char :=
  if v.isNull then []
  else
    Text.spaces Render.level ++ name.toList ++ ' ' :: '=' :: ' ' ::
      v.chars Render.level ++ ['\n']

def attributeLines (schema : ResourceSchema) (v : Value) : List Char :=
  schema.attributes.flatMap fun a => attributeLine a.name (v.field a.name)

def placeholder (message : String) : List Char :=
  Text.spaces Render.level ++ "# decode error: ".toList ++ message.toList ++ '\n' :: closing

def body (b : Block) (mode : FailureStyle) : List Char :=
  match b.decoded with
  | .ok v => attributeLines b.schema v ++ closing
  | .error message =>
    match mode with
    | .truncate => []
    | .placeholder => placeholder message

def chars (b : Block) (mode : FailureStyle) : List Char :=
  b.header ++ b.opening ++ b.body mode

def diagnostics (b : Block) : List Diagnostic :=
  match b.decoded with
  | .ok _ => []
  | .error message => [⟨b.address, message⟩]

/-- Writes a block behind what is there. Its problem is reported whatever the style. -/
def write (b : Block) (mode : FailureStyle) (p : Page) : Page :=
  let opened := (p.write b.header).write b.opening
  match b.decoded with
  | .ok v => (opened.write (attributeLines b.schema v)).write closing
  | .error message =>
    let reported := opened.report ⟨b.address, message⟩
    match mode with
    | .truncate => reported
    | .placeholder => reported.write (placeholder message)

theorem diagnostics_length_le (b : Block) : b.diagnostics.length ≤ 1 := by
  unfold diagnostics
  split <;> simp

end Block

end StateText
