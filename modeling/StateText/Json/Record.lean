import StateText.Json.Reader

/-!
# Reading records

A record is an object with known fields, or the list of their values in declared order. Members
with unknown names are skipped; what they hold has to be a document but may nest without limit. A
misfit inside a record is reported where the bracket around it is left.

Every reader here takes the number of brackets that it may open.
-/

namespace StateText.Json.Reader

variable {α σ : Type}

section Skipping

inductive Frame where
  | list
  | object

namespace Frame

def closing : Frame → Char
  | list => ']'
  | object => '\x7d'

def unfinished : Frame → Cause
  | list => .endInList
  | object => .endInObject

def expectedEnd : Frame → Cause
  | list => .expectedListEnd
  | object => .expectedObjectEnd

end Frame

def skipName : Reader Unit := fun cs =>
  match skipSpace cs with
  | [] => .error (.here .endInObject [])
  | c :: rest =>
    if c = '"' then
      match skipStringBody 0 rest with
      | .error f => .error f
      | .ok (_, rest) => colon rest
    else .error (.peek .keyNotString (c :: rest))

def skipScalar : Reader Unit
  | [] => .error (.here .endInValue [])
  | c :: rest =>
    if c = 'n' then word ['u', 'l', 'l'] rest
    else if c = 't' then word ['r', 'u', 'e'] rest
    else if c = 'f' then word ['a', 'l', 's', 'e'] rest
    else if c = '-' then skipNumber rest
    else if c.isDigit then skipNumber (c :: rest)
    else if c = '"' then skipStringBody 0 rest
    else .error (.peek .expectedValue (c :: rest))

mutual

def skipValue : (fuel : Nat) → (frames : List Frame) → Reader Unit
  | 0, _, cs => .error (.here .endInValue cs)
  | fuel + 1, frames, cs =>
    match skipSpace cs with
    | [] => .error (.here .endInValue [])
    | c :: rest =>
      if c = '[' then skipRest fuel (.list :: frames) false rest
      else if c = '\x7b' then skipRest fuel (.object :: frames) false rest
      else
        match skipScalar (c :: rest) with
        | .error f => .error f
        | .ok (_, rest) => skipRest fuel frames true rest

/-- What is left of the open brackets; a comma goes on only behind a value. -/
def skipRest : (fuel : Nat) → (frames : List Frame) → (comma : Bool) → Reader Unit
  | _, [], _, cs => .ok ((), cs)
  | 0, _, _, cs => .error (.here .endInValue cs)
  | fuel + 1, frame :: frames, comma, cs =>
    let next (cs : List Char) : Except Failure (Unit × List Char) :=
      match frame with
      | .list => skipValue fuel (frame :: frames) cs
      | .object =>
        match skipName cs with
        | .error f => .error f
        | .ok (_, rest) => skipValue fuel (frame :: frames) rest
    match skipSpace cs with
    | [] => .error (.here frame.unfinished [])
    | c :: rest =>
      if comma ∧ c = ',' then next rest
      else if c = frame.closing then skipRest fuel frames true rest
      else if comma then .error (.peek frame.expectedEnd (c :: rest))
      else next (c :: rest)

end

/-- Every step but the last reads a character or more, or leads to one that does. -/
def skip : Reader Unit := fun cs => skipValue (2 * cs.length + 2) [] cs

end Skipping

section Scalars

def mismatch (expected : String) : Reader α := fun cs =>
  let refuse (found : Found) (rest : List Char) : Except Failure (α × List Char) :=
    .error (.misfit (.kind found expected) rest)
  match skipSpace cs with
  | [] => .error (.here .endInValue [])
  | c :: rest =>
    if c = '[' then refuse .list (c :: rest)
    else if c = '\x7b' then refuse .object (c :: rest)
    else
      match valueWith none (c :: rest) with
      | .error f => .error f
      | .ok (.bool b, rest) => refuse (.bool b) rest
      | .ok (.number n, rest) => refuse (.number n) rest
      | .ok (.string s, rest) => refuse (.string s) rest
      | .ok (_, rest) => refuse .null rest

def text : Reader String := fun cs =>
  match skipSpace cs with
  | '"' :: rest => string rest
  | cs => mismatch "a string" cs

def boolean : Reader Bool := fun cs =>
  match skipSpace cs with
  | 't' :: rest => (word ['r', 'u', 'e'] rest).map fun p => (true, p.2)
  | 'f' :: rest => (word ['a', 'l', 's', 'e'] rest).map fun p => (false, p.2)
  | cs => mismatch "a boolean" cs

def unit : Reader Unit := fun cs =>
  match skipSpace cs with
  | 'n' :: rest => word ['u', 'l', 'l'] rest
  | cs => mismatch "unit" cs

def optional (reader : Reader α) : Reader (Option α) := fun cs =>
  match skipSpace cs with
  | 'n' :: rest => (word ['u', 'l', 'l'] rest).map fun p => (none, p.2)
  | cs => (reader cs).map fun p => (some p.1, p.2)

def oneOf (known : List (String × α)) : Reader α := fun cs =>
  match string cs with
  | .error f => .error f
  | .ok (name, rest) =>
    match Entries.get? name known with
    | some a => .ok (a, rest)
    | none => .error (.misfit (.unknownVariant name (Entries.keys known)) rest)

def variantName (known : List (String × α)) : Reader α := fun cs =>
  match skipSpace cs with
  | [] => .error (.here .endInValue [])
  | c :: rest =>
    if c = '"' then oneOf known rest
    else if c = '\x7d' then .error (.peek .expectedValue (c :: rest))
    else .error (.peek .keyNotString (c :: rest))

/-- A known word, alone or as the name of the one member of an object, which holds null. -/
def variant (known : List (String × α)) (depth : Nat) : Reader α := fun cs =>
  match skipSpace cs with
  | [] => .error (.here .endInValue [])
  | c :: rest =>
    if c = '"' then oneOf known rest
    else if c = '\x7b' then
      match depth with
      | 0 => .error (.peek .tooDeep (c :: rest))
      | _ + 1 =>
        match variantName known rest with
        | .error f => .error f
        | .ok (a, rest) =>
          match colon rest with
          | .error f => .error f
          | .ok (_, rest) =>
            match unit rest with
            | .error f => .error f
            | .ok (_, rest) =>
              match skipSpace rest with
              | [] => .error (.here .endInObject [])
              | d :: rest =>
                if d = '\x7d' then .ok (a, rest) else .error (.here .expectedValue (d :: rest))
    else .error (.peek .expectedValue (c :: rest))

end Scalars

section Collections

def list (element : Nat → Reader α) (depth : Nat) : Reader (List α) := fun cs =>
  match skipSpace cs with
  | '[' :: rest =>
    match depth with
    | 0 => .error (.peek .tooDeep ('[' :: rest))
    | depth + 1 =>
      (elements (element depth) (rest.length + 1) true rest).map fun p => (p.1, p.2.drop 1)
  | cs => mismatch "a sequence" cs

def entries (value : Nat → Reader α) (depth : Nat) : Reader (Entries String α) := fun cs =>
  match skipSpace cs with
  | '\x7b' :: rest =>
    match depth with
    | 0 => .error (.peek .tooDeep ('\x7b' :: rest))
    | depth + 1 =>
      (members (pair (value depth)) (rest.length + 1) true [] rest).map fun p =>
        (Entries.ofPairs p.1.reverse, p.2.drop 1)
  | cs => mismatch "a map" cs

end Collections

section Records

/-- How far a list is left when its reader gives up. -/
def leaveList (cs : List Char) : List Char :=
  match skipSpace cs with
  | ']' :: rest => rest
  | ',' :: rest => skipSpace rest
  | cs => cs

def leaveObject (cs : List Char) : List Char :=
  match skipSpace cs with
  | '\x7d' :: rest => rest
  | cs => cs

def settle (leave : List Char → List Char) (f : Failure) : Failure :=
  if f.settled then f else .here f.cause (leave f.rest)

@[simp] theorem settled_settle (leave : List Char → List Char) (f : Failure) :
    (settle leave f).settled = true := by
  unfold settle
  split
  · assumption
  · rfl

def endList : Reader Unit := fun cs =>
  match skipSpace cs with
  | [] => .error (.here .endInList [])
  | c :: rest =>
    if c = ']' then .ok ((), rest)
    else if c = ',' then
      match skipSpace rest with
      | ']' :: ds => .error (.peek .trailingComma (']' :: ds))
      | ds => .error (.peek .trailingCharacters ds)
    else .error (.peek .trailingCharacters (c :: rest))

def next (first : Bool) (element : Reader α) : Reader (Option α) := fun cs =>
  let more (cs : List Char) : Except Failure (Option α × List Char) :=
    (element cs).map fun p => (some p.1, p.2)
  match skipSpace cs with
  | [] => .error (.here .endInList [])
  | c :: rest =>
    if c = ']' then .ok (none, c :: rest)
    else if first then more (c :: rest)
    else if c = ',' then
      match skipSpace rest with
      | [] => .error (.here .endInValue [])
      | d :: ds => if d = ']' then .error (.peek .trailingComma (d :: ds)) else more (d :: ds)
    else .error (.peek .expectedListEnd (c :: rest))

/-- The element in some place, which a value stands in for where the list is shorter. -/
def nextOr (index : Nat) (default : α) (element : Reader α) : Reader α := fun cs =>
  (next (index == 0) element cs).map fun p => (p.1.getD default, p.2)

def nextRequired (index : Nat) (expected : String) (element : Reader α) : Reader α := fun cs =>
  match next (index == 0) element cs with
  | .error f => .error f
  | .ok (some a, rest) => .ok (a, rest)
  | .ok (none, rest) => .error (.unsettled (.tooShort index expected) rest)

def once (name : String) (old : Option α) (value : Reader α) (store : α → σ) : Reader σ := fun cs =>
  match old with
  | some _ => .error (.unsettled (.repeatedField name) cs)
  | none =>
    match colon cs with
    | .error f => .error f
    | .ok (_, rest) => (value rest).map fun p => (store p.1, p.2)

def skipMember (s : σ) : Reader σ := fun cs =>
  match colon cs with
  | .error f => .error f
  | .ok (_, rest) => (skip rest).map fun p => (s, p.2)

def requireField (name : String) (value : Option α) : Except Misfit α :=
  match value with
  | some a => .ok a
  | none => .error (.missingField name)

/-- How a kind of record is read: `σ` holds the fields that have been read. -/
structure Shape (σ α : Type) where
  name : String
  start : σ
  member : (depth : Nat) → σ → String → Reader σ
  finish : σ → Except Misfit α
  sequence : (depth : Nat) → Reader α

def Shape.ofList (shape : Shape σ α) (depth : Nat) (cs : List Char) :
    Except Failure (α × List Char) :=
  match shape.sequence depth cs with
  | .error f => .error (settle leaveList f)
  | .ok (a, rest) => (endList rest).map fun p => (a, p.2)

def Shape.ofObject (shape : Shape σ α) (depth : Nat) (cs : List Char) :
    Except Failure (α × List Char) :=
  match members (shape.member depth) (cs.length + 1) true shape.start cs with
  | .error f => .error (settle leaveObject f)
  | .ok (s, rest) =>
    match shape.finish s with
    | .error m => .error (settle leaveObject (.unsettled m rest))
    | .ok a => .ok (a, rest.drop 1)

def record (shape : Shape σ α) (depth : Nat) : Reader α := fun cs =>
  match skipSpace cs with
  | '[' :: rest =>
    match depth with
    | 0 => .error (.peek .tooDeep ('[' :: rest))
    | depth + 1 => shape.ofList depth rest
  | '\x7b' :: rest =>
    match depth with
    | 0 => .error (.peek .tooDeep ('\x7b' :: rest))
    | depth + 1 => shape.ofObject depth rest
  | cs => mismatch ("struct " ++ shape.name) cs

end Records

end StateText.Json.Reader
