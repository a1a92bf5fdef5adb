import StateText.Toml.Token

/-!
# Reading a document

A document is read line by line: a header starts a table, a key with its value goes into the table
whose header came last. Inside brackets a line may end between any two parts but those of one key.
-/

namespace StateText.Toml

namespace Reader

def elements (value : Reader Value) : (fuel : Nat) → Reader (List Value)
  | 0, _ => none
  | fuel + 1, cs => do
    let cs ← skipLines cs
    match cs with
    | ']' :: rest => some ([], rest)
    | cs =>
      let (v, rest) ← value cs
      let rest ← skipLines rest
      match rest with
      | ',' :: rest => (elements value fuel rest).map fun p => (v :: p.1, p.2)
      | ']' :: rest => some ([v], rest)
      | _ => none

/-- A key, the sign of equality and a value, with what `blank` skips around the sign. -/
def assignment (blank : List Char → Option (List Char)) (value : Reader Value) :
    Reader ((List String × String) × Value) := fun cs => do
  let (k, rest) ← key cs
  match ← blank rest with
  | '=' :: rest =>
    let (v, rest) ← value (← blank rest)
    some ((k, v), rest)
  | _ => none

def members (value : Reader Value) :
    (fuel : Nat) → Entries String Node → Reader (Entries String Node)
  | 0, _, _ => none
  | fuel + 1, entries, cs => do
    let cs ← skipLines cs
    match cs with
    | '\x7d' :: rest => some (entries, rest)
    | cs =>
      let ((k, v), rest) ← assignment skipLines value cs
      let entries ← assign k.1 k.2 v entries
      let rest ← skipLines rest
      match rest with
      | ',' :: rest => members value fuel entries rest
      | '\x7d' :: rest => some (entries, rest)
      | _ => none

def valueWith (nested : Option (Reader Value)) : Reader Value := fun cs =>
  match cs with
  | '"' :: _ => (string cs).map fun p => (.string p.1, p.2)
  | '\'' :: _ => (string cs).map fun p => (.string p.1, p.2)
  | '[' :: rest => do
    let nested ← nested
    let (items, rest) ← elements nested (rest.length + 1) rest
    some (.array items, rest)
  | '\x7b' :: rest => do
    let nested ← nested
    let (entries, rest) ← members nested (rest.length + 1) [] rest
    some (.table (entryValues entries), rest)
  | cs => plain cs

def value : (depth : Nat) → Reader Value
  | 0 => valueWith none
  | depth + 1 => valueWith (some (value depth))

def header : Reader Header := fun cs => do
  let repeated := cs.head? == some '['
  let (k, rest) ← key (if repeated then cs.drop 1 else cs)
  match repeated, rest with
  | true, ']' :: ']' :: rest => some (⟨k.1, k.2, true⟩, rest)
  | false, ']' :: rest => some (⟨k.1, k.2, false⟩, rest)
  | _, _ => none

def lineRest (cs : List Char) : Option (List Char) := do
  let rest ← skipComment (skipSpace cs)
  match rest, lineEnd? rest with
  | [], _ => some []
  | _, some rest => some rest
  | _, none => none

def lines : (fuel : Nat) → Draft → List Char → Option Draft
  | 0, _, _ => none
  | fuel + 1, draft, cs => do
    let cs ← skipLines cs
    match cs with
    | [] => some draft
    | '[' :: rest =>
      let (h, rest) ← header rest
      let draft ← draft.openTable h
      let rest ← lineRest rest
      lines fuel draft rest
    | cs =>
      let ((k, v), rest) ← assignment (fun cs => some (skipSpace cs)) (value depthLimit) cs
      let draft ← draft.add k.1 k.2 v
      let rest ← lineRest rest
      lines fuel draft rest

end Reader

def parse (text : String) : Option (Entries String Value) := do
  let cs := match text.toList with
    | '\ufeff' :: cs => cs
    | cs => cs
  let draft ← Reader.lines (cs.length + 1) .start cs
  let entries ← draft.close
  some (entryValues entries)

end StateText.Toml
