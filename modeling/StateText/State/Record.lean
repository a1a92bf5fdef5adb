import StateText.Json.Record
import StateText.State

/-!
# The state file

The records of the file that holds a state, and the state they describe. Records of one module are
merged; an address of a resource or an instance may come only once.
-/

namespace StateText

open Json.Reader

structure StoredInstance where
  key : InstanceKey
  status : Status
  attributes : Json

structure StoredResource where
  address : ResourceAddress
  provider : String
  instances : List StoredInstance

structure StoredModule where
  path : ModulePath
  resources : List StoredResource
  outputs : Entries String Output

namespace StoredInstance

def keyOf? : Json → Option InstanceKey
  | .number (.natural n _) => if n < Nat.pow 2 63 then some (.int n) else none
  | .number (.negative n _) => some (.int (-n))
  | .string s => some (.str s)
  | _ => none

def keyReader (depth : Nat) : Json.Reader InstanceKey := fun cs =>
  match value depth cs with
  | .error f => .error f
  | .ok (j, rest) =>
    match keyOf? j with
    | some key => .ok (key, rest)
    | none => .error (.unsettled (.noVariant "IndexKey") rest)

def statuses : List (String × Status) := [("ready", .ready), ("tainted", .tainted)]

def optionalKey (depth : Nat) : Json.Reader InstanceKey := fun cs =>
  (optional (keyReader depth) cs).map fun p => (p.1.getD .none, p.2)

def optionalStatus (depth : Nat) : Json.Reader Status := fun cs =>
  (optional (variant statuses depth) cs).map fun p => (p.1.getD .ready, p.2)

structure Fields where
  key : Option InstanceKey
  status : Option Status
  attributes : Option Json

def shape : Shape Fields StoredInstance where
  name := "InstanceRecord"
  start := ⟨none, none, none⟩
  member depth fields
    | "index_key" =>
      once "index_key" fields.key (optionalKey depth) fun key => { fields with key := some key }
    | "status" =>
      once "status" fields.status (optionalStatus depth) fun status =>
        { fields with status := some status }
    | "attributes" =>
      once "attributes" fields.attributes (value depth) fun j =>
        { fields with attributes := some j }
    | _ => skipMember fields
  finish fields :=
    .ok ⟨fields.key.getD .none, fields.status.getD .ready, fields.attributes.getD .null⟩
  sequence depth cs := do
    let (key, cs) ← nextOr 0 .none (optionalKey depth) cs
    let (status, cs) ← nextOr 1 .ready (optionalStatus depth) cs
    let (attributes, cs) ← nextOr 2 .null (value depth) cs
    return (⟨key, status, attributes⟩, cs)

end StoredInstance

namespace StoredResource

structure Fields where
  mode : Option String
  type : Option String
  name : Option String
  provider : Option String
  instances : Option (List StoredInstance)

def instancesReader (depth : Nat) : Json.Reader (List StoredInstance) :=
  list (record StoredInstance.shape) depth

def shape : Shape Fields StoredResource where
  name := "ResourceRecord"
  start := ⟨none, none, none, none, none⟩
  member depth fields
    | "mode" => once "mode" fields.mode text fun mode => { fields with mode := some mode }
    | "type" => once "type" fields.type text fun type => { fields with type := some type }
    | "name" => once "name" fields.name text fun name => { fields with name := some name }
    | "provider" =>
      once "provider" fields.provider text fun provider => { fields with provider := some provider }
    | "instances" =>
      once "instances" fields.instances (instancesReader depth) fun instances =>
        { fields with instances := some instances }
    | _ => skipMember fields
  finish fields := do
    let mode ← requireField "mode" fields.mode
    let type ← requireField "type" fields.type
    let name ← requireField "name" fields.name
    let provider ← requireField "provider" fields.provider
    return ⟨⟨.ofWord mode, type, name⟩, provider, fields.instances.getD []⟩
  sequence depth cs := do
    let expected := "struct ResourceRecord with 5 elements"
    let (mode, cs) ← nextRequired 0 expected text cs
    let (type, cs) ← nextRequired 1 expected text cs
    let (name, cs) ← nextRequired 2 expected text cs
    let (provider, cs) ← nextRequired 3 expected text cs
    let (instances, cs) ← nextOr 4 [] (instancesReader depth) cs
    return (⟨⟨.ofWord mode, type, name⟩, provider, instances⟩, cs)

end StoredResource

namespace Output

structure Fields where
  value : Option Json
  sensitive : Option Bool

def shape : Shape Fields Output where
  name := "OutputRecord"
  start := ⟨none, none⟩
  member depth fields
    | "value" =>
      once "value" fields.value (Json.Reader.value depth) fun j => { fields with value := some j }
    | "sensitive" =>
      once "sensitive" fields.sensitive boolean fun b => { fields with sensitive := some b }
    | _ => skipMember fields
  finish fields := do
    let j ← requireField "value" fields.value
    return ⟨Value.ofJson j, fields.sensitive.getD false⟩
  sequence depth cs := do
    let (j, cs) ← nextRequired 0 "struct OutputRecord with 2 elements" (Json.Reader.value depth) cs
    let (sensitive, cs) ← nextOr 1 false boolean cs
    return (⟨Value.ofJson j, sensitive⟩, cs)

end Output

namespace StoredModule

structure Fields where
  path : Option (List String)
  resources : Option (List StoredResource)
  outputs : Option (Entries String Output)

def pathReader (depth : Nat) : Json.Reader (List String) := list (fun _ => text) depth

def resourcesReader (depth : Nat) : Json.Reader (List StoredResource) :=
  list (record StoredResource.shape) depth

def outputsReader (depth : Nat) : Json.Reader (Entries String Output) :=
  entries (record Output.shape) depth

def shape : Shape Fields StoredModule where
  name := "ModuleRecord"
  start := ⟨none, none, none⟩
  member depth fields
    | "path" =>
      once "path" fields.path (pathReader depth) fun path => { fields with path := some path }
    | "resources" =>
      once "resources" fields.resources (resourcesReader depth) fun resources =>
        { fields with resources := some resources }
    | "outputs" =>
      once "outputs" fields.outputs (outputsReader depth) fun outputs =>
        { fields with outputs := some outputs }
    | _ => skipMember fields
  finish fields :=
    .ok ⟨⟨fields.path.getD []⟩, fields.resources.getD [], fields.outputs.getD []⟩
  sequence depth cs := do
    let (path, cs) ← nextOr 0 [] (pathReader depth) cs
    let (resources, cs) ← nextOr 1 [] (resourcesReader depth) cs
    let (outputs, cs) ← nextOr 2 [] (outputsReader depth) cs
    return (⟨⟨path⟩, resources, outputs⟩, cs)

end StoredModule

inductive StateError where
  | fault (f : Json.Fault)
  | duplicateResource (address : ResourceAddress) (module : ModulePath)
  | duplicateInstance (address : ResourceAddress) (key : InstanceKey) (module : ModulePath)

def StateError.message : StateError → String
  | fault f => f.message
  | duplicateResource address module =>
    "duplicate resource " ++ address.text ++ " in " ++ module.description
  | duplicateInstance address key module =>
    "duplicate instance " ++ instanceAddress module address key ++ " in " ++ module.description

namespace State

def recordsShape : Shape (Option (List StoredModule)) (List StoredModule) where
  name := "StateFile"
  start := none
  member depth modules
    | "modules" => once "modules" modules (list (record StoredModule.shape) depth) some
    | _ => skipMember modules
  finish modules := .ok (modules.getD [])
  sequence depth cs := nextOr 0 [] (list (record StoredModule.shape) depth) cs

def parseRecords (content : String) : Except Json.Fault (List StoredModule) :=
  document (record recordsShape depthLimit) content

def instancesOf (module : ModulePath) (address : ResourceAddress) :
    Entries InstanceKey Instance → List StoredInstance →
      Except StateError (Entries InstanceKey Instance)
  | instances, [] => .ok instances
  | instances, r :: records =>
    if r.key ∈ Entries.keys instances then .error (.duplicateInstance address r.key module)
    else
      instancesOf module address (instances ++ [(r.key, ⟨r.status, r.attributes.render⟩)]) records

def addResources (module : ModulePath) :
    Entries String Resource → List StoredResource → Except StateError (Entries String Resource)
  | resources, [] => .ok resources
  | resources, r :: records =>
    match instancesOf module r.address [] r.instances with
    | .error e => .error e
    | .ok instances =>
      if r.address.text ∈ Entries.keys resources then .error (.duplicateResource r.address module)
      else
        addResources module
          (resources ++ [(r.address.text, ⟨r.address, r.provider, instances⟩)]) records

/-- Merges a record into its module. A later output takes the place of an earlier one. -/
def addRecord (s : State) (r : StoredModule) : Except StateError State :=
  let s := s.ensure r.path
  match s.module? r.path with
  | none => .ok s
  | some m =>
    match addResources r.path m.resources r.resources with
    | .error e => .error e
    | .ok resources =>
      let outputs := r.outputs.foldl (fun es o => Entries.put o.1 o.2 es) m.outputs
      .ok ⟨Entries.put r.path.text { m with resources, outputs } s.modules⟩

def addRecords : State → List StoredModule → Except StateError State
  | s, [] => .ok s
  | s, r :: records =>
    match s.addRecord r with
    | .error e => .error e
    | .ok s => s.addRecords records

/-- Without records there is no module, not even the root. -/
def ofRecords (records : List StoredModule) : Except StateError State :=
  match records with
  | [] => .ok empty
  | _ => new.addRecords records

def parse (content : String) : Except StateError State :=
  match parseRecords content with
  | .error fault => .error (.fault fault)
  | .ok records => ofRecords records

end State

end StateText
