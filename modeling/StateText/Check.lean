import StateText.Text.Lines
import StateText.Text.Quoted

/-!
# Checks on shown text

What the lines of a shown text say about its blocks: their headers in order, whether each block is
closed before the next one starts, and which instances are tainted.
-/

namespace StateText.Check

def headerMark : List Char := ['#', ' ']

def closingLine : List Char := ['\x7d']

def taintMark : List Char := ": (tainted)".toList

def isHeader (line : List Char) : Bool := headerMark.isPrefixOf line

def headers (text : List Char) : List (List Char) := (Text.lines text).filter isHeader

inductive Imbalance where
  | beforeHeader (header : List Char)
  | atEnd (header : List Char)
deriving DecidableEq

def Imbalance.message : Imbalance → String
  | beforeHeader header =>
    "Block " ++ Text.quoted (String.ofList header) ++ " is not closed before the next header"
  | atEnd header =>
    "Block " ++ Text.quoted (String.ofList header) ++ " is not closed at end of text"

/-- The first block of the lines that is not closed in time; `open?` has the header of the one that
is open. -/
def imbalance? (open? : Option (List Char)) : List (List Char) → Option Imbalance
  | [] => open?.map .atEnd
  | line :: lines =>
    if isHeader line then
      match open? with
      | some header => some (.beforeHeader header)
      | none => imbalance? (some line) lines
    else if line = closingLine then imbalance? none lines
    else imbalance? open? lines

def balance (text : List Char) : Except Imbalance Unit :=
  match imbalance? none (Text.lines text) with
  | some e => .error e
  | none => .ok ()

def beforeColon? (cs : List Char) : Option (List Char) :=
  if cs.contains ':' then some (cs.takeWhile (· != ':')) else none

/-- The address in a header, as far as its first colon. -/
def address? (header : List Char) : Option (List Char) :=
  beforeColon? (header.drop headerMark.length)

def addresses (text : List Char) : List (List Char) := (headers text).filterMap address?

structure OrderMismatch where
  expected : List String
  found : List String

def OrderMismatch.message (e : OrderMismatch) : String :=
  "Expected headers " ++ Text.quotedList e.expected ++ ", got " ++ Text.quotedList e.found

def headerOrder (text : List Char) (expected : List String) : Except OrderMismatch Unit :=
  let found := addresses text
  if found = expected.map String.toList then .ok ()
  else .error ⟨expected, found.map String.ofList⟩

def taintedAddress? (header : List Char) : Option (List Char) :=
  if taintMark.isSuffixOf header then
    let rest := header.take (header.length - taintMark.length)
    if headerMark.isPrefixOf rest then some (rest.drop headerMark.length) else none
  else none

def tainted (text : List Char) : List (List Char) := (headers text).filterMap taintedAddress?

end StateText.Check
