import StateText.Block
import StateText.Markup
import StateText.State

/-!
# Showing a state

The blocks of every module in order, resource by resource in the order of their addresses, then the
outputs of the root module by name. A resource with instances but without a schema stops the whole
text; an instance that cannot be decoded is reported and spoils nothing but its own block.

A walk writes all of it on one page. The instances of a resource come in the order in which the
state holds them; `display` arranges them by key first.
-/

namespace StateText

structure MissingSchema where
  provider : String
  mode : Mode
  type : String
deriving DecidableEq

def MissingSchema.message (e : MissingSchema) : String :=
  "No schema for " ++ e.mode.word ++ " resource type " ++ Text.quoted e.type ++ " in provider " ++
    Text.quoted e.provider

abbrev Decoder := AttributeType → String → Except DecodeError Value

structure Walk where
  schemas : Schemas
  decode : Decoder
  style : FailureStyle

def Walk.json (schemas : Schemas) (style : FailureStyle) : Walk := ⟨schemas, Decode.decode, style⟩

/-- What a walk has written, and what stopped it. -/
structure Listing extends Page where
  stopped : Option MissingSchema

def Listing.each {α : Type} (f : α → Page → Listing) : List α → Page → Listing
  | [], p => ⟨p, none⟩
  | a :: as, p =>
    let l := f a p
    match l.stopped with
    | some _ => l
    | none => each f as l.toPage

namespace Block

def decodeInstance (decode : Decoder) (schema : Option ResourceSchema) (i : Instance) :
    Except String Value :=
  match schema with
  | none => .ok (.object [])
  | some block => (decode block.objectType i.attributes).mapError DecodeError.display

def ofInstance (decode : Decoder) (module : ModulePath) (resource : ResourceAddress)
    (schema : Option ResourceSchema) (entry : InstanceKey × Instance) : Block where
  address := instanceAddress module resource entry.1
  resource := resource
  tainted := entry.2.isTainted
  schema := schema.getD .empty
  decoded := decodeInstance decode schema entry.2

end Block

namespace Resource

/-- The attributes that the instances show; a resource of an unknown mode shows none. -/
def schema (r : Resource) (schemas : Schemas) : Except MissingSchema (Option ResourceSchema) :=
  match schemas.lookup r.provider r.address.mode r.address.type with
  | some block => .ok (some block)
  | none =>
    if r.address.mode.isKnown then .error ⟨r.provider, r.address.mode, r.address.type⟩ else .ok none

/-- A resource without instances has no blocks and needs no schema. -/
def write (w : Walk) (module : ModulePath) (r : Resource) (p : Page) : Listing :=
  if r.instances = [] then ⟨p, none⟩
  else
    match r.schema w.schemas with
    | .error e => ⟨p, some e⟩
    | .ok schema =>
      let writeInstance (p : Page) (entry : InstanceKey × Instance) : Page :=
        (Block.ofInstance w.decode module r.address schema entry).write w.style p
      ⟨r.instances.foldl writeInstance p, none⟩

end Resource

def resetLine : List Char := Markup.Code.reset.token ++ ['\n']

namespace Module

def sortedResources (m : Module) : List Resource := (Entries.sorted m.resources).map Prod.snd

/-- The blocks of a module, with a reset behind them unless they were stopped. -/
def write (w : Walk) (m : Module) (p : Page) : Listing :=
  let l := Listing.each (Resource.write w m.path) m.sortedResources p
  match l.stopped with
  | some _ => l
  | none => ⟨l.toPage.write resetLine, none⟩

def outputLine (o : String × Output) : List Char :=
  o.1.toList ++ ' ' :: '=' :: ' ' :: o.2.value.chars 0 ++ ['\n']

def outputChars (m : Module) : List Char :=
  if m.outputs = [] then []
  else "\nOutputs:\n\n".toList ++ (Entries.sorted m.outputs).flatMap outputLine

def listing (m : Module) (schemas : Schemas) : Listing :=
  m.arranged.write (.json schemas .truncate) .empty

def chars (m : Module) (schemas : Schemas) (mode : FailureStyle) : List Char :=
  (m.arranged.write (.json schemas mode) .empty).chars

end Module

namespace State

def emptyMessage : String := "The state file is empty. No resources are represented."

def moduleList (s : State) : List Module := s.modules.map Prod.snd

def outputChars (s : State) : List Char :=
  match s.root? with
  | some root => root.outputChars
  | none => []

/-- The text of a state or what stopped it, and the problems met on the way. The ends of the text
are trimmed before its markup is resolved and after. -/
def format (w : Walk) (color : List Char → List Char) (s : State) :
    Except MissingSchema String × List Diagnostic :=
  if s.isEmpty then (.ok emptyMessage, [])
  else
    let start := Page.empty.write Markup.Code.reset.token
    let l := Listing.each (Module.write w) s.moduleList start
    match l.stopped with
    | some e => (.error e, l.diagnostics)
    | none =>
      let p := l.toPage.write s.outputChars
      (.ok (String.ofList (Text.trim (color (Text.trim p.chars)))), p.diagnostics)

def shown (s : State) (schemas : Schemas) (mode : FailureStyle) (color : Markup.Treatment) :
    Except MissingSchema String × List Diagnostic :=
  s.arranged.format (.json schemas mode) color.apply

def display (s : State) (schemas : Schemas) (mode : FailureStyle) (color : Markup.Treatment) :
    Except MissingSchema String :=
  (s.shown schemas mode color).1

def diagnostics (s : State) (schemas : Schemas) : List Diagnostic :=
  (s.shown schemas .truncate .keep).2

end State

end StateText
