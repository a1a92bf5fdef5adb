import StateText.Schema
import StateText.State

/-!
# Drafts

Small states and schemas, made step by step. A draft adds to one module at a time and gives new
resources its current provider.
-/

namespace StateText

structure Draft where
  state : State
  module : ModulePath
  provider : String

namespace Draft

def defaultProvider : String := "provider.example"

def new : Draft := ⟨.new, .root, defaultProvider⟩

def enter (d : Draft) (path : ModulePath) : Draft :=
  { d with module := path, state := d.state.ensure path }

def enterRoot (d : Draft) : Draft := d.enter .root

def useProvider (d : Draft) (provider : String) : Draft := { d with provider }

/-- A resource that is already there keeps its provider and its other instances. -/
def addInstance (d : Draft) (address : ResourceAddress) (key : InstanceKey) (status : Status)
    (attributes : Json) : Draft :=
  let add (m : Module) : Module :=
    let r := (Entries.get? address.text m.resources).getD ⟨address, d.provider, []⟩
    let instances := Entries.put key ⟨status, attributes.render⟩ r.instances
    { m with resources := Entries.put address.text { r with instances } m.resources }
  { d with state := d.state.update d.module add }

def addManaged (d : Draft) (type name : String) (attributes : Json) : Draft :=
  d.addInstance ⟨.managed, type, name⟩ .none .ready attributes

def addTainted (d : Draft) (type name : String) (attributes : Json) : Draft :=
  d.addInstance ⟨.managed, type, name⟩ .none .tainted attributes

def addData (d : Draft) (type name : String) (attributes : Json) : Draft :=
  d.addInstance ⟨.data, type, name⟩ .none .ready attributes

/-- Outputs belong to the root module, whatever module is current. -/
def addOutput (d : Draft) (name : String) (value : Value) : Draft :=
  { d with state := d.state.update .root fun m => m.putOutput name ⟨value, false⟩ }

end Draft

namespace Schemas

def updateProvider (s : Schemas) (provider : String) (f : Provider → Provider) : Schemas :=
  ⟨Entries.put provider (f ((Entries.get? provider s.providers).getD .empty)) s.providers⟩

def putResourceType (s : Schemas) (provider type : String) (attributes : List Attribute) :
    Schemas :=
  s.updateProvider provider fun p =>
    { p with resourceTypes := Entries.put type ⟨attributes⟩ p.resourceTypes }

def putDataSource (s : Schemas) (provider type : String) (attributes : List Attribute) :
    Schemas :=
  s.updateProvider provider fun p =>
    { p with dataSources := Entries.put type ⟨attributes⟩ p.dataSources }

end Schemas

end StateText
