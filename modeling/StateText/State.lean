import StateText.Address
import StateText.Entries
import StateText.Value

/-!
# States

A snapshot of every module, its resources under the text of their addresses and its outputs. The
modules stand in the order of the texts of their paths, so the root module comes first. A state
has either no module at all or a root module.
-/

namespace StateText

inductive Status where
  | ready
  | tainted
deriving DecidableEq

structure Instance where
  status : Status
  /-- Attributes as they are stored: text that need not be readable. -/
  attributes : String
deriving DecidableEq

def Instance.isTainted (i : Instance) : Bool := i.status = .tainted

structure Resource where
  address : ResourceAddress
  /-- The provider's configuration, by which its schema is found. -/
  provider : String
  instances : Entries InstanceKey Instance

namespace Resource

def key (r : Resource) : String := r.address.text

/-- Instances have an order only where they are listed. -/
def sortedInstances (r : Resource) : Entries InstanceKey Instance :=
  Entries.sortBy InstanceKey.le r.instances

def arranged (r : Resource) : Resource := { r with instances := r.sortedInstances }

end Resource

structure Output where
  value : Value
  sensitive : Bool

structure Module where
  path : ModulePath
  resources : Entries String Resource
  outputs : Entries String Output

namespace Module

def new (path : ModulePath) : Module := ⟨path, [], []⟩

def key (m : Module) : String := m.path.text

def putResource (m : Module) (r : Resource) : Module :=
  { m with resources := Entries.put r.key r m.resources }

def putOutput (m : Module) (name : String) (o : Output) : Module :=
  { m with outputs := Entries.put name o m.outputs }

def arranged (m : Module) : Module :=
  { m with resources := m.resources.map fun e => (e.1, e.2.arranged) }

end Module

structure State where
  modules : Entries String Module

namespace State

def empty : State := ⟨[]⟩

def isEmpty (s : State) : Bool := s.modules.isEmpty

def module? (s : State) (path : ModulePath) : Option Module := Entries.get? path.text s.modules

def root? (s : State) : Option Module := s.module? .root

def addMissing (s : State) (path : ModulePath) : State :=
  match s.module? path with
  | some _ => s
  | none => ⟨Entries.sorted (Entries.put path.text (.new path) s.modules)⟩

/-- Makes sure that a module is there, and with any module the root. -/
def ensure (s : State) (path : ModulePath) : State := (s.addMissing .root).addMissing path

def update (s : State) (path : ModulePath) (f : Module → Module) : State :=
  let s := s.ensure path
  match s.module? path with
  | some m => ⟨Entries.put path.text (f m) s.modules⟩
  | none => s

def new : State := empty.ensure .root

def drop (s : State) (path : ModulePath) : State := ⟨Entries.erase path.text s.modules⟩

def arranged (s : State) : State := ⟨s.modules.map fun e => (e.1, e.2.arranged)⟩

end State

end StateText
