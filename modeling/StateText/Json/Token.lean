import StateText.Json.Fault

/-!
# Tokens of a document

Readers take the text that is left and give a value together with the text behind it. This module
has those for blanks, words, strings and numbers; the skipping ones accept a token without keeping
its value, and so without the checks that only the value needs.
-/

namespace StateText.Json

abbrev Reader (α : Type) := List Char → Except Failure (α × List Char)

namespace Reader

def isSpace (c : Char) : Bool := c == ' ' || c == '\n' || c == '\t' || c == '\r'

def skipSpace (cs : List Char) : List Char := cs.dropWhile isSpace

def word : List Char → Reader Unit
  | [], cs => .ok ((), cs)
  | _ :: _, [] => .error (.here .endInValue [])
  | e :: es, c :: cs => if c = e then word es cs else .error (.after .expectedWord (c :: cs))

section Strings

def hexValue? (c : Char) : Option Nat :=
  if '0' ≤ c ∧ c ≤ '9' then some (c.toNat - '0'.toNat)
  else if 'a' ≤ c ∧ c ≤ 'f' then some (c.toNat - 'a'.toNat + 10)
  else if 'A' ≤ c ∧ c ≤ 'F' then some (c.toNat - 'A'.toNat + 10)
  else none

def hexCode (cs : List Char) : Except Failure Nat :=
  if Fault.byteCount (cs.take 4) < 4 then .error (.here .endInString [])
  else match (cs.take 4).mapM hexValue? with
    | some [a, b, c, d] => .ok (((a * 16 + b) * 16 + c) * 16 + d)
    | _ => .error ⟨.invalidEscape, cs, 4, 0, true⟩

def isLeading (code : Nat) : Bool := decide (0xd800 ≤ code ∧ code ≤ 0xdbff)

def isTrailing (code : Nat) : Bool := decide (0xdc00 ≤ code ∧ code ≤ 0xdfff)

/-- The second half of a surrogate pair, with its own backslash and letter. -/
def trailingCode : List Char → Except Failure Nat
  | [] => .error (.here .endInString [])
  | '\\' :: [] => .error (.here .endInString [])
  | '\\' :: 'u' :: cs =>
    match hexCode cs with
    | .error f => .error f
    | .ok code =>
      if isTrailing code then .ok code else .error (.here .loneSurrogate (cs.drop 4))
  | '\\' :: cs => .error (.after .brokenPair cs)
  | cs => .error (.after .brokenPair cs)

/-- A character by its code, and how many characters stand for it behind the letter `u`. -/
def codeEscape (cs : List Char) : Except Failure (Char × Nat) :=
  match hexCode cs with
  | .error f => .error f
  | .ok code =>
    if isTrailing code then .error (.here .loneSurrogate (cs.drop 4))
    else if isLeading code then
      match trailingCode (cs.drop 4) with
      | .error f => .error f
      | .ok code' => .ok (Char.ofNat ((code - 0xd800) * 0x400 + (code' - 0xdc00) + 0x10000), 10)
    else .ok (Char.ofNat code, 4)

def letterEscape? : Char → Option Char
  | '"' => some '"'
  | '\\' => some '\\'
  | '/' => some '/'
  | 'b' => some '\x08'
  | 'f' => some '\x0c'
  | 'n' => some '\n'
  | 'r' => some '\r'
  | 't' => some '\t'
  | _ => none

/-- The character that an escape stands for, and how many characters it takes behind the
backslash. -/
def escape : List Char → Except Failure (Char × Nat)
  | [] => .error (.here .endInString [])
  | c :: cs =>
    if c = 'u' then (codeEscape cs).map fun p => (p.1, p.2 + 1)
    else match letterEscape? c with
      | some c' => .ok (c', 1)
      | none => .error (.after .invalidEscape (c :: cs))

/-- The body of a string behind its opening quote. The first `skip` characters belong to an escape
that has been read. -/
def stringBody : (skip : Nat) → Reader (List Char)
  | _, [] => .error (.here .endInString [])
  | skip + 1, _ :: cs => stringBody skip cs
  | 0, c :: cs =>
    if c = '"' then .ok ([], cs)
    else if c = '\\' then
      match escape cs with
      | .error f => .error f
      | .ok (c', n) => (stringBody n cs).map fun p => (c' :: p.1, p.2)
    else if c.toNat < 0x20 then .error (.after .controlCharacter (c :: cs))
    else (stringBody 0 cs).map fun p => (c :: p.1, p.2)

def string : Reader String := fun cs => (stringBody 0 cs).map fun p => (String.ofList p.1, p.2)

/-- Like `escape`, but any four hexadecimal digits will do. -/
def skippedEscape : List Char → Except Failure Nat
  | [] => .error (.here .endInString [])
  | c :: cs =>
    if c = 'u' then (hexCode cs).map fun _ => 5
    else match letterEscape? c with
      | some _ => .ok 1
      | none => .error (.after .invalidEscape (c :: cs))

def skipStringBody : (skip : Nat) → Reader Unit
  | _, [] => .error (.here .endInString [])
  | skip + 1, _ :: cs => skipStringBody skip cs
  | 0, c :: cs =>
    if c = '"' then .ok ((), cs)
    else if c = '\\' then
      match skippedEscape cs with
      | .error f => .error f
      | .ok n => skipStringBody n cs
    else if c.toNat < 0x20 then .error (.here .controlCharacter (c :: cs))
    else skipStringBody 0 cs

end Strings

section Numbers

def digitValue (c : Char) : Nat := c.toNat - '0'.toNat

/-- Appends digits to a significand of 64 bits until one does not fit; that one and all behind it
are left. -/
def accumulate (significand : Nat) : List Char → Nat × List Char
  | [] => (significand, [])
  | c :: cs =>
    let next := significand * 10 + digitValue c
    if next < Nat.pow 2 64 then accumulate next cs else (significand, c :: cs)

def powerOfTen (k : Nat) : Option Binary64 := Binary64.ofNat (Nat.pow 10 k)

def scaleDown (f : Binary64) : Option Binary64 := (powerOfTen 308).bind f.div

/-- `significand * 10 ^ exponent` by one multiplication or division with a power of ten up to
10 ^ 308, and by divisions through 10 ^ 308 before it; `steps` bounds their number. -/
def scale (f : Binary64) (exponent : Int) : (steps : Nat) → Option Binary64
  | 0 => some f
  | steps + 1 =>
    if exponent.natAbs ≤ 308 then
      match powerOfTen exponent.natAbs with
      | none => none
      | some power => if 0 ≤ exponent then f.mul power else f.div power
    else if f.isZero then some f
    else if 0 ≤ exponent then none
    else (scaleDown f).bind fun f' => scale f' (exponent + 308) steps

/-- The floating-point number with these parts. Three divisions turn every significand into
zero. -/
def floatOfParts? (negative : Bool) (significand : Nat) (exponent : Int) : Option Number :=
  match (Binary64.ofNat significand).bind fun f => scale f exponent 4 with
  | none => none
  | some f => some (.float (if negative then f.neg else f))

def finishFloat (negative : Bool) (significand : Nat) (exponent : Int) : Reader Number := fun cs =>
  match floatOfParts? negative significand exponent with
  | some n => .ok (n, cs)
  | none => .error (.here .numberOutOfRange cs)

/-- The value of an exponent's digits, or nothing from the digit on that takes it beyond 31
bits. -/
def exponentValue (value : Nat) : List Char → Option Nat × List Char
  | [] => (some value, [])
  | c :: cs =>
    if c.isDigit then
      let next := value * 10 + digitValue c
      if next < Nat.pow 2 31 then exponentValue next cs else (none, cs)
    else (some value, c :: cs)

def exponentSign : List Char → Bool × List Char
  | '+' :: cs => (false, cs)
  | '-' :: cs => (true, cs)
  | cs => (false, cs)

def exponent (negative : Bool) (significand : Nat) (start : Int) : Reader Number := fun cs =>
  let (down, cs) := exponentSign cs
  match cs with
  | [] => .error (.here .endInValue [])
  | c :: cs' =>
    if c.isDigit then
      match exponentValue 0 (c :: cs') with
      | (some value, rest) =>
        finishFloat negative significand (if down then start - value else start + value) rest
      | (none, rest) =>
        if significand ≠ 0 ∧ !down then .error (.here .numberOutOfRange rest)
        else .ok (.float (Binary64.zero negative), rest.dropWhile Char.isDigit)
    else .error (.after .invalidNumber (c :: cs'))

def isExponentMark (c : Char) : Bool := c == 'e' || c == 'E'

def optionalExponent (negative : Bool) (significand : Nat) (start : Int) : Reader Number
  | [] => finishFloat negative significand start []
  | c :: cs =>
    if isExponentMark c then exponent negative significand start cs
    else finishFloat negative significand start (c :: cs)

/-- What follows the point, when `pending` whole digits did not fit the significand. -/
def fraction (negative : Bool) (significand pending : Nat) : Reader Number := fun cs =>
  let digits := cs.takeWhile Char.isDigit
  match digits, cs.dropWhile Char.isDigit with
  | [], [] => .error (.here .endInValue [])
  | [], rest => .error (.peek .invalidNumber rest)
  | _, rest =>
    let (significand', left) := accumulate significand digits
    optionalExponent negative significand' (pending - (digits.length - left.length : Nat)) rest

/-- What follows the whole digits: they make an integer, unless a point or an exponent follows or
they do not fit. -/
def afterWhole (negative : Bool) (whole : List Char) : Reader Number := fun cs =>
  let (significand, left) := accumulate 0 whole
  match cs with
  | '.' :: rest => fraction negative significand left.length rest
  | _ =>
    if left = [] ∧ !(cs.take 1).any isExponentMark then
      match Number.ofInteger? negative significand with
      | some n => .ok (n, cs)
      | none => .error (.here .numberOutOfRange cs)
    else optionalExponent negative significand left.length cs

/-- A number behind its sign. A zero starts no longer number. -/
def number (negative : Bool) : Reader Number
  | [] => .error (.here .endInValue [])
  | c :: cs =>
    if c = '0' then
      if (cs.take 1).any Char.isDigit then .error (.peek .invalidNumber cs)
      else afterWhole negative [c] cs
    else if c.isDigit then
      afterWhole negative ((c :: cs).takeWhile Char.isDigit) ((c :: cs).dropWhile Char.isDigit)
    else .error (.after .invalidNumber (c :: cs))

def skipExponent : Reader Unit
  | [] => .ok ((), [])
  | c :: cs =>
    if isExponentMark c then
      match (exponentSign cs).2 with
      | [] => .error (.here .invalidNumber [])
      | d :: ds =>
        if d.isDigit then .ok ((), ds.dropWhile Char.isDigit)
        else .error (.after .invalidNumber (d :: ds))
    else .ok ((), c :: cs)

def skipFraction : Reader Unit
  | '.' :: cs =>
    if (cs.take 1).any Char.isDigit then skipExponent (cs.dropWhile Char.isDigit)
    else .error (.peek .invalidNumber cs)
  | cs => skipExponent cs

def skipNumber : Reader Unit
  | [] => .error (.here .invalidNumber [])
  | c :: cs =>
    if c = '0' then
      if (cs.take 1).any Char.isDigit then .error (.peek .invalidNumber cs) else skipFraction cs
    else if c.isDigit then skipFraction (cs.dropWhile Char.isDigit)
    else .error (.after .invalidNumber (c :: cs))

def signedNumber : Reader Number
  | [] => .error (.here .endInValue [])
  | c :: cs =>
    if c = '-' then number true cs
    else if c.isDigit then number false (c :: cs)
    else .error (.peek .invalidNumber (c :: cs))

end Numbers

end Reader

end StateText.Json
