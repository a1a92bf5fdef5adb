import StateText.Json
import StateText.Json.Token

/-!
# Reading a document

Lists and objects are read by one function each, for elements and members of any kind. A document
nests at most 127 brackets, which is what its reader recurses on: `value depth` may open `depth`
brackets, one inside the other.
-/

namespace StateText.Json

namespace Reader

/-- The elements of a list behind its opening bracket, up to the closing one, which stays. -/
def elements {α : Type} (element : Reader α) : (fuel : Nat) → (first : Bool) → Reader (List α)
  | 0, _, cs => .error (.here .endInList cs)
  | fuel + 1, first, cs =>
    let more (cs : List Char) : Except Failure (List α × List Char) :=
      match element cs with
      | .error f => .error f
      | .ok (a, rest) => (elements element fuel false rest).map fun p => (a :: p.1, p.2)
    match skipSpace cs with
    | [] => .error (.here .endInList [])
    | c :: rest =>
      if c = ']' then .ok ([], c :: rest)
      else if first then more (c :: rest)
      else if c = ',' then
        match skipSpace rest with
        | [] => .error (.here .endInValue [])
        | d :: ds => if d = ']' then .error (.peek .trailingComma (d :: ds)) else more (d :: ds)
      else .error (.peek .expectedListEnd (c :: rest))

/-- The members of an object behind its opening brace, up to the closing one, which stays.
`member` gets the name and reads from behind it. -/
def members {σ : Type} (member : σ → String → Reader σ) :
    (fuel : Nat) → (first : Bool) → σ → Reader σ
  | 0, _, _, cs => .error (.here .endInObject cs)
  | fuel + 1, first, s, cs =>
    let more (cs : List Char) : Except Failure (σ × List Char) :=
      match string cs with
      | .error f => .error f
      | .ok (name, rest) =>
        match member s name rest with
        | .error f => .error f
        | .ok (s', rest') => members member fuel false s' rest'
    match skipSpace cs with
    | [] => .error (.here .endInObject [])
    | c :: rest =>
      if c = '\x7d' then .ok (s, c :: rest)
      else if first then
        if c = '"' then more rest else .error (.peek .keyNotString (c :: rest))
      else if c = ',' then
        match skipSpace rest with
        | [] => .error (.here .endInValue [])
        | d :: ds =>
          if d = '"' then more ds
          else if d = '\x7d' then .error (.peek .trailingComma (d :: ds))
          else .error (.peek .keyNotString (d :: ds))
      else .error (.peek .expectedObjectEnd (c :: rest))

def colon : Reader Unit := fun cs =>
  match skipSpace cs with
  | [] => .error (.here .endInObject [])
  | c :: rest => if c = ':' then .ok ((), rest) else .error (.peek .expectedColon (c :: rest))

/-- A member whose value is read in the same way whatever its name. The last member comes first
in the result. -/
def pair {α : Type} (value : Reader α) (pairs : List (String × α)) (name : String) :
    Reader (List (String × α)) := fun cs =>
  match colon cs with
  | .error f => .error f
  | .ok (_, rest) => (value rest).map fun p => ((name, p.1) :: pairs, p.2)

/-- A document at the front of a text; `nested` reads what stands between brackets, unless the
brackets are too deep. -/
def valueWith (nested : Option (Reader Json)) : Reader Json := fun cs =>
  match skipSpace cs with
  | [] => .error (.here .endInValue [])
  | c :: rest =>
    if c = 'n' then (word ['u', 'l', 'l'] rest).map fun p => (null, p.2)
    else if c = 't' then (word ['r', 'u', 'e'] rest).map fun p => (bool true, p.2)
    else if c = 'f' then (word ['a', 'l', 's', 'e'] rest).map fun p => (bool false, p.2)
    else if c = '-' then (number true rest).map fun p => (.number p.1, p.2)
    else if c.isDigit then (number false (c :: rest)).map fun p => (.number p.1, p.2)
    else if c = '"' then (string rest).map fun p => (.string p.1, p.2)
    else if c = '[' then
      match nested with
      | none => .error (.peek .tooDeep (c :: rest))
      | some nested =>
        (elements nested (rest.length + 1) true rest).map fun p => (array p.1, p.2.drop 1)
    else if c = '\x7b' then
      match nested with
      | none => .error (.peek .tooDeep (c :: rest))
      | some nested =>
        (members (pair nested) (rest.length + 1) true [] rest).map fun p =>
          (ofPairs p.1.reverse, p.2.drop 1)
    else .error (.peek .expectedValue (c :: rest))

def value : (depth : Nat) → Reader Json
  | 0 => valueWith none
  | depth + 1 => valueWith (some (value depth))

def depthLimit : Nat := 127

def document {α : Type} (reader : Reader α) (text : String) : Except Fault α :=
  match reader text.toList with
  | .error f => .error (.ofFailure text.toList f)
  | .ok (a, rest) =>
    match skipSpace rest with
    | [] => .ok a
    | c :: cs => .error (.ofFailure text.toList (.peek .trailingCharacters (c :: cs)))

end Reader

def parse (text : String) : Except Fault Json :=
  Reader.document (Reader.value Reader.depthLimit) text

/-- A text that is one number and nothing else. What follows the number is at fault before its
value is. -/
def parseNumber (text : String) : Except Fault Number :=
  let cs := text.toList
  let trailing (f : Failure) : Except Fault Number :=
    if Fault.offset cs f < Fault.byteCount cs then
      .error (.ofFailure cs ⟨.invalidNumber, f.rest, f.taken, 1, true⟩)
    else .error (.ofFailure cs f)
  match Reader.signedNumber cs with
  | .error f => trailing f
  | .ok (n, []) => .ok n
  | .ok (_, c :: rest) => .error (.ofFailure cs (.peek .invalidNumber (c :: rest)))

end StateText.Json

namespace StateText.Number

def ofText? (text : String) : Option Number :=
  match Json.parseNumber text with
  | .ok n => some n
  | .error _ => none

end StateText.Number
