import StateText.Entries

/-!
# TOML documents

A document is a table. While it is read, a table remembers how it came about, because that decides
what may still be added to it: a table with a header of its own is never given another one, and a
table that dotted keys made is open to dotted keys only.
-/

namespace StateText.Toml

inductive Value where
  | string (s : String)
  | integer (i : Int)
  | float (text : String)
  | bool (b : Bool)
  | moment (text : String)
  | array (items : List Value)
  | table (entries : List (String × Value))

inductive Origin where
  /-- The table has a header, or is the document itself. -/
  | header
  /-- The table lies on the way to one with a header. -/
  | implied
  | dotted
deriving DecidableEq

inductive Node where
  | value (v : Value)
  | table (origin : Origin) (entries : List (String × Node))
  /-- Tables with one header each, the last one in front. -/
  | tables (items : List (List (String × Node)))

mutual

def Node.toValue : Node → Value
  | .value v => v
  | .table _ entries => .table (entryValues entries)
  | .tables items => .array (tableValues items)

def entryValues : List (String × Node) → List (String × Value)
  | [] => []
  | (key, node) :: entries => (key, node.toValue) :: entryValues entries

def tableValues : List (List (String × Node)) → List Value
  | [] => []
  | entries :: items => .table (entryValues entries) :: tableValues items

end

/-- Changes the table at a path. Missing tables on the way are made; through a value there is no
way, and for dotted keys there is none into a table with a header. -/
def modify (byDots : Bool) (f : Origin → Entries String Node → Option (Entries String Node)) :
    (path : List String) → Origin → Entries String Node → Option (Entries String Node)
  | [], origin, entries => f origin entries
  | key :: path, _, entries =>
    match Entries.get? key entries with
    | none =>
      let origin := if byDots then .dotted else .implied
      (modify byDots f path origin []).map fun inner =>
          Entries.put key (.table origin inner) entries
    | some (.table origin inner) =>
      if byDots ∧ origin = .header then none
      else
        (modify byDots f path origin inner).map fun inner =>
          Entries.put key (.table origin inner) entries
    | some (.tables (inner :: items)) =>
      (modify byDots f path .header inner).map fun inner =>
        Entries.put key (.tables (inner :: items)) entries
    | some _ => none

def assign (path : List String) (key : String) (v : Value) (entries : Entries String Node) :
    Option (Entries String Node) :=
  modify true (fun origin inner =>
    if (origin = .dotted) = (path = []) then none
    else if (Entries.get? key inner).isSome then none
    else some (Entries.put key (.value v) inner)) path .header entries

/-- How deep collections nest, and how many parts a key has, at most. -/
def depthLimit : Nat := 80

/-- A header: the path to a table, its last key, and whether it is one of several. -/
structure Header where
  path : List String
  key : String
  repeated : Bool

/-- What has been read: the tables that are complete, and the one that keys are added to. -/
structure Draft where
  done : Entries String Node
  header : Option Header
  current : Entries String Node

namespace Draft

def start : Draft := ⟨[], none, []⟩

def add (d : Draft) (path : List String) (key : String) (v : Value) : Option Draft :=
  (assign path key v d.current).map fun current => { d with current }

def close (d : Draft) : Option (Entries String Node) :=
  match d.header with
  | none => some d.current
  | some h =>
    modify false (fun _ inner =>
      if h.repeated then
        match Entries.get? h.key inner with
        | none => some (Entries.put h.key (.tables [d.current]) inner)
        | some (.tables items) => some (Entries.put h.key (.tables (d.current :: items)) inner)
        | some _ => none
      else some (Entries.put h.key (.table .header d.current) inner)) h.path .header d.done

/-- Starts a table. One that lies on the way to others already keeps what it has. -/
def openTable (d : Draft) (h : Header) : Option Draft := do
  let done ← d.close
  let found ← modify false (fun _ inner => some inner) h.path .header done
  let parent ← at? h.path found
  match Entries.get? h.key parent with
  | none => some ⟨found, some h, []⟩
  | some (.table .implied inner) => if h.repeated then none else some ⟨found, some h, inner⟩
  | some (.tables _) => if h.repeated then some ⟨found, some h, []⟩ else none
  | some _ => none
where
  at? : List String → Entries String Node → Option (Entries String Node)
    | [], entries => some entries
    | key :: path, entries =>
      match Entries.get? key entries with
      | some (.table _ inner) => at? path inner
      | some (.tables (inner :: _)) => at? path inner
      | _ => none

end Draft

end StateText.Toml
