import StateText.Number
import StateText.Text.Quoted

/-!
# Faults in a text

A `Failure` says what is wrong and where reading stopped, in terms of the text that was left; a
`Fault` is the same with line and column. Columns count bytes from the last line feed.
-/

namespace StateText.Json

inductive Found where
  | null
  | bool (b : Bool)
  | number (n : Number)
  | string (s : String)
  | list
  | object

namespace Found

def description : Found → String
  | null => "null"
  | bool b => "boolean \x60" ++ (if b then "true" else "false") ++ "\x60"
  | number n =>
    (if n.isInteger then "integer \x60" else "floating point \x60") ++ String.ofList n.text ++
      "\x60"
  | string s => "string " ++ Text.quoted s
  | list => "sequence"
  | object => "map"

end Found

/-- Why a well-formed text does not describe the record that is asked for. -/
inductive Misfit where
  | kind (found : Found) (expected : String)
  | missingField (name : String)
  | repeatedField (name : String)
  | tooShort (count : Nat) (expected : String)
  | unknownVariant (found : String) (known : List String)
  | noVariant (type : String)
  /-- A field's own type refused its value, in these words. -/
  | refused (message : String)

namespace Misfit

def marked (name : String) : String := "\x60" ++ name ++ "\x60"

def alternatives : List String → String
  | [] => "there are no variants"
  | [a] => "expected " ++ marked a
  | [a, b] => "expected " ++ marked a ++ " or " ++ marked b
  | names => "expected one of " ++ ", ".intercalate (names.map marked)

def message : Misfit → String
  | kind found expected => "invalid type: " ++ found.description ++ ", expected " ++ expected
  | missingField name => "missing field " ++ marked name
  | repeatedField name => "duplicate field " ++ marked name
  | tooShort count expected => "invalid length " ++ toString count ++ ", expected " ++ expected
  | unknownVariant found known => "unknown variant " ++ marked found ++ ", " ++ alternatives known
  | noVariant type => "data did not match any variant of untagged enum " ++ type
  | refused message => message

end Misfit

inductive Cause where
  | endInList
  | endInObject
  | endInString
  | endInValue
  | expectedColon
  | expectedListEnd
  | expectedObjectEnd
  | expectedWord
  | expectedValue
  | invalidEscape
  | invalidNumber
  | numberOutOfRange
  | controlCharacter
  | keyNotString
  | loneSurrogate
  | brokenPair
  | trailingComma
  | trailingCharacters
  | tooDeep
  | misfit (reason : Misfit)

namespace Cause

def message : Cause → String
  | endInList => "EOF while parsing a list"
  | endInObject => "EOF while parsing an object"
  | endInString => "EOF while parsing a string"
  | endInValue => "EOF while parsing a value"
  | expectedColon => "expected \x60:\x60"
  | expectedListEnd => "expected \x60,\x60 or \x60]\x60"
  | expectedObjectEnd => "expected \x60,\x60 or \x60\x7d\x60"
  | expectedWord => "expected ident"
  | expectedValue => "expected value"
  | invalidEscape => "invalid escape"
  | invalidNumber => "invalid number"
  | numberOutOfRange => "number out of range"
  | controlCharacter => "control character (\\u0000-\\u001F) found while parsing a string"
  | keyNotString => "key must be a string"
  | loneSurrogate => "lone leading surrogate in hex escape"
  | brokenPair => "unexpected end of hex escape"
  | trailingComma => "trailing comma"
  | trailingCharacters => "trailing characters"
  | tooDeep => "recursion limit exceeded"
  | misfit reason => reason.message

end Cause

/-- Reading stopped in front of `rest` after `taken` of its bytes; the report counts `ahead` bytes
more, as far as there are any. A misfit is not `settled` until the bracket around it is left. -/
structure Failure where
  cause : Cause
  rest : List Char
  taken : Nat
  ahead : Nat
  settled : Bool

namespace Failure

/-- The fault is noticed without a look at the next byte. -/
def here (cause : Cause) (rest : List Char) : Failure := ⟨cause, rest, 0, 0, true⟩

/-- The next byte is at fault and stays unread. -/
def peek (cause : Cause) (rest : List Char) : Failure := ⟨cause, rest, 0, 1, true⟩

/-- The next byte is at fault and has been read. -/
def after (cause : Cause) (rest : List Char) : Failure := ⟨cause, rest, 1, 0, true⟩

def misfit (reason : Misfit) (rest : List Char) : Failure := here (.misfit reason) rest

def unsettled (reason : Misfit) (rest : List Char) : Failure :=
  ⟨.misfit reason, rest, 0, 0, false⟩

end Failure

structure Fault where
  cause : Cause
  line : Nat
  column : Nat

namespace Fault

def byteCount : List Char → Nat
  | [] => 0
  | c :: cs => c.utf8Size + byteCount cs

@[simp] theorem byteCount_nil : byteCount [] = 0 := rfl

@[simp] theorem byteCount_cons (c : Char) (cs : List Char) :
    byteCount (c :: cs) = c.utf8Size + byteCount cs := rfl

def position (line column : Nat) : (cs : List Char) → (offset : Nat) → Nat × Nat
  | [], _ => (line, column)
  | c :: cs, offset =>
    if offset < c.utf8Size then (line, column + offset)
    else if c = '\n' then position (line + 1) 0 cs (offset - c.utf8Size)
    else position line (column + c.utf8Size) cs (offset - c.utf8Size)

def offset (text : List Char) (f : Failure) : Nat :=
  byteCount text - byteCount f.rest + f.taken

def ofFailure (text : List Char) (f : Failure) : Fault :=
  let p := position 1 0 text (min (byteCount text) (offset text f + f.ahead))
  ⟨f.cause, p.1, p.2⟩

def message (f : Fault) : String :=
  f.cause.message ++ " at line " ++ toString f.line ++ " column " ++ toString f.column

end Fault

end StateText.Json
