import StateText.Number.Binary64
import StateText.Toml

/-!
# Keys and simple values of a document

Readers take the text that is left and give a value with the text behind it, or nothing where the
text is malformed.
-/

namespace StateText.Toml

abbrev Reader (α : Type) := List Char → Option (α × List Char)

namespace Reader

def isSpace (c : Char) : Bool := c == ' ' || c == '\t'

def skipSpace (cs : List Char) : List Char := cs.dropWhile isSpace

def isForbidden (c : Char) : Bool := (decide (c.toNat < 0x20) && c != '\t') || c == '\x7f'

def lineEnd? : List Char → Option (List Char)
  | '\n' :: cs => some cs
  | '\r' :: '\n' :: cs => some cs
  | _ => none

def skipComment (cs : List Char) : Option (List Char) :=
  match cs with
  | '#' :: rest =>
    let after := rest.dropWhile fun c => !isForbidden c
    if after = [] ∨ (lineEnd? after).isSome then some after else none
  | cs => some cs

def skipLinesWithin : (fuel : Nat) → List Char → Option (List Char)
  | 0, cs => some cs
  | fuel + 1, cs =>
    match skipComment (skipSpace cs) with
    | none => none
    | some rest =>
      match lineEnd? rest with
      | some rest => skipLinesWithin fuel rest
      | none => some rest

def skipLines (cs : List Char) : Option (List Char) := skipLinesWithin (cs.length + 1) cs

section Strings

def hexValue? (c : Char) : Option Nat :=
  if '0' ≤ c ∧ c ≤ '9' then some (c.toNat - '0'.toNat)
  else if 'a' ≤ c ∧ c ≤ 'f' then some (c.toNat - 'a'.toNat + 10)
  else if 'A' ≤ c ∧ c ≤ 'F' then some (c.toNat - 'A'.toNat + 10)
  else none

def codeEscape (count : Nat) (cs : List Char) : Option Char :=
  match (cs.take count).mapM hexValue? with
  | none => none
  | some digits =>
    let code := digits.foldl (fun n d => n * 16 + d) 0
    if digits.length = count ∧ code.isValidChar then some (Char.ofNat code) else none

/-- The character of an escape, and how many characters it takes behind the backslash. -/
def escape : List Char → Option (Char × Nat)
  | [] => none
  | c :: cs =>
    match c with
    | 'b' => some ('\x08', 1)
    | 't' => some ('\t', 1)
    | 'n' => some ('\n', 1)
    | 'f' => some ('\x0c', 1)
    | 'r' => some ('\r', 1)
    | 'e' => some ('\x1b', 1)
    | '"' => some ('"', 1)
    | '\\' => some ('\\', 1)
    | 'x' => (codeEscape 2 cs).map fun c => (c, 3)
    | 'u' => (codeEscape 4 cs).map fun c => (c, 5)
    | 'U' => (codeEscape 8 cs).map fun c => (c, 9)
    | _ => none

/-- A string on one line behind its opening quote. The first `skip` characters belong to an escape
that has been read. -/
def basicBody : (skip : Nat) → Reader (List Char)
  | _, [] => none
  | skip + 1, _ :: cs => basicBody skip cs
  | 0, c :: cs =>
    if c = '"' then some ([], cs)
    else if c = '\\' then
      match escape cs with
      | none => none
      | some (c', n) => (basicBody n cs).map fun p => (c' :: p.1, p.2)
    else if isForbidden c then none
    else (basicBody 0 cs).map fun p => (c :: p.1, p.2)

def literalBody : Reader (List Char)
  | [] => none
  | c :: cs =>
    if c = '\'' then some ([], cs)
    else if isForbidden c then none
    else (literalBody cs).map fun p => (c :: p.1, p.2)

/-- The closing quotes of a string over several lines, with up to two quotes of its own in front
of them. -/
def closing? (quote : Char) (cs : List Char) : Option (List Char × List Char) :=
  let count := ((cs.take 5).takeWhile (· == quote)).length
  if 3 ≤ count then some (List.replicate (count - 3) quote, cs.drop count) else none

def blankLength : List Char → Nat
  | [] => 0
  | '\r' :: '\n' :: cs => blankLength cs + 2
  | c :: cs => if isSpace c ∨ c = '\n' then blankLength cs + 1 else 0

def foldedLength (cs : List Char) : Nat :=
  if (lineEnd? (skipSpace cs)).isSome then blankLength cs else 0

def longBasicBody : (skip : Nat) → Reader (List Char)
  | _, [] => none
  | skip + 1, _ :: cs => longBasicBody skip cs
  | 0, c :: cs =>
    match closing? '"' (c :: cs) with
    | some p => some p
    | none =>
      if c = '\\' then
        if 0 < foldedLength cs then longBasicBody (foldedLength cs) cs
        else match escape cs with
          | none => none
          | some (c', n) => (longBasicBody n cs).map fun p => (c' :: p.1, p.2)
      else if isForbidden c ∧ (lineEnd? (c :: cs)).isNone then none
      else (longBasicBody 0 cs).map fun p => (c :: p.1, p.2)

def longLiteralBody : Reader (List Char)
  | [] => none
  | c :: cs =>
    match closing? '\'' (c :: cs) with
    | some p => some p
    | none =>
      if isForbidden c ∧ (lineEnd? (c :: cs)).isNone then none
      else (longLiteralBody cs).map fun p => (c :: p.1, p.2)

def dropFirstLineEnd (cs : List Char) : List Char := (lineEnd? cs).getD cs

def string : Reader String := fun cs =>
  let body := match cs with
    | '"' :: '"' :: '"' :: rest => longBasicBody 0 (dropFirstLineEnd rest)
    | '"' :: rest => basicBody 0 rest
    | '\'' :: '\'' :: '\'' :: rest => longLiteralBody (dropFirstLineEnd rest)
    | '\'' :: rest => literalBody rest
    | _ => none
  body.map fun p => (String.ofList p.1, p.2)

end Strings

section Keys

def isBareKey (c : Char) : Bool := c.isAlphanum || c == '_' || c == '-'

def simpleKey : Reader String := fun cs =>
  match cs with
  | '"' :: rest => (basicBody 0 rest).map fun p => (String.ofList p.1, p.2)
  | '\'' :: rest => (literalBody rest).map fun p => (String.ofList p.1, p.2)
  | cs =>
    if cs.takeWhile isBareKey = [] then none
    else some (String.ofList (cs.takeWhile isBareKey), cs.dropWhile isBareKey)

def dottedKey : (fuel : Nat) → Reader (List String)
  | 0, _ => none
  | fuel + 1, cs =>
    match simpleKey (skipSpace cs) with
    | none => none
    | some (key, rest) =>
      match skipSpace rest with
      | '.' :: rest => (dottedKey fuel rest).map fun p => (key :: p.1, p.2)
      | rest => some ([key], rest)

/-- A key of at most 80 parts, as the path to its table and the last part. -/
def key : Reader (List String × String) := fun cs =>
  match dottedKey (cs.length + 1) cs with
  | none => none
  | some (keys, rest) =>
    if depthLimit < keys.length then none
    else keys.getLast?.map fun last => ((keys.dropLast, last), rest)

end Keys

section Numbers

def digitGroups (isDigit : Char → Bool) (cs : List Char) : Bool :=
  let rec go (afterDigit : Bool) : List Char → Bool
    | [] => afterDigit
    | c :: cs => if c = '_' then afterDigit && go false cs else isDigit c && go true cs
  go false cs

def naturalOf (base : Nat) (cs : List Char) : Nat :=
  (cs.filterMap hexValue?).foldl (fun n d => n * base + d) 0

def unsigned (cs : List Char) : List Char :=
  match cs with
  | '+' :: rest => rest
  | '-' :: rest => rest
  | cs => cs

def isWhole (cs : List Char) : Bool :=
  digitGroups Char.isDigit cs && (cs.length == 1 || cs.head? != some '0')

def decimal? (cs : List Char) : Option Int :=
  if isWhole (unsigned cs) then
    let n : Int := naturalOf 10 (unsigned cs)
    some (if cs.head? = some '-' then -n else n)
  else none

def prefixed? : List Char → Option Int
  | '0' :: 'x' :: cs =>
    if digitGroups (fun c => (hexValue? c).isSome) cs then some (naturalOf 16 cs) else none
  | '0' :: 'o' :: cs =>
    if digitGroups (fun c => decide ('0' ≤ c ∧ c ≤ '7')) cs then some (naturalOf 8 cs) else none
  | '0' :: 'b' :: cs =>
    if digitGroups (fun c => c == '0' || c == '1') cs then some (naturalOf 2 cs) else none
  | _ => none

def integer? (cs : List Char) : Option Int :=
  match (decimal? cs).orElse fun _ => prefixed? cs with
  | none => none
  | some i =>
    if -Int.ofNat (Nat.pow 2 127) ≤ i ∧ i < Int.ofNat (Nat.pow 2 128) then some i else none

def isExponent (cs : List Char) : Bool := digitGroups Char.isDigit (unsigned cs)

def isFloatTail (cs : List Char) : Bool :=
  let mark (c : Char) : Bool := c == 'e' || c == 'E'
  match cs with
  | '.' :: rest =>
    digitGroups Char.isDigit (rest.takeWhile fun c => !mark c) &&
      match rest.dropWhile fun c => !mark c with
      | [] => true
      | _ :: exponent => isExponent exponent
  | c :: exponent => mark c && isExponent exponent
  | [] => false

def isFinite (digits : Nat) (exponent : Int) : Bool :=
  if digits = 0 then true
  else if exponent < 0 then
    let shift := min exponent.natAbs (digits.log2 + 1)
    (Binary64.ofRatio false digits (Nat.pow 10 shift)).isSome
  else if 400 < exponent then false
  else (Binary64.ofNat (digits * Nat.pow 10 exponent.toNat)).isSome

def isFiniteText (cs : List Char) : Bool :=
  let mark (c : Char) : Bool := c == 'e' || c == 'E'
  let mantissa := cs.takeWhile fun c => !mark c
  let exponentText := (cs.dropWhile fun c => !mark c).drop 1
  let fraction := (mantissa.dropWhile (· != '.')).filter Char.isDigit
  let e : Int := naturalOf 10 (unsigned exponentText)
  let exponent := if exponentText.head? = some '-' then -e else e
  isFinite (naturalOf 10 (mantissa.filter Char.isDigit)) (exponent - fraction.length)

def isFloat (cs : List Char) : Bool :=
  let magnitude := unsigned cs
  let whole (c : Char) : Bool := c.isDigit || c == '_'
  magnitude = ['i', 'n', 'f'] || magnitude = ['n', 'a', 'n'] ||
    (isWhole (magnitude.takeWhile whole) && isFloatTail (magnitude.dropWhile whole) &&
      isFiniteText magnitude)

end Numbers

section Moments

def number? (cs : List Char) : Option Nat :=
  if cs ≠ [] ∧ cs.all Char.isDigit then some (naturalOf 10 cs) else none

def daysOf (year month : Nat) : Nat :=
  if month = 2 then
    if year % 4 = 0 ∧ (year % 100 ≠ 0 ∨ year % 400 = 0) then 29 else 28
  else if month = 4 ∨ month = 6 ∨ month = 9 ∨ month = 11 then 30
  else 31

def isDate (cs : List Char) : Bool :=
  match cs with
  | [a, b, c, d, '-', e, f, '-', g, h] =>
    match number? [a, b, c, d], number? [e, f], number? [g, h] with
    | some year, some month, some day =>
      decide (1 ≤ month ∧ month ≤ 12 ∧ 1 ≤ day ∧ day ≤ daysOf year month)
    | _, _, _ => false
  | _ => false

def isBelow (limit : Nat) (cs : List Char) : Bool :=
  match number? cs with
  | some n => decide (n < limit)
  | none => false

def isSeconds (cs : List Char) : Bool :=
  match cs with
  | [] => true
  | ':' :: a :: b :: rest =>
    isBelow 61 [a, b] &&
      match rest with
      | [] => true
      | '.' :: digits => digits != [] && digits.all Char.isDigit
      | _ => false
  | _ => false

def isTime (cs : List Char) : Bool :=
  match cs with
  | a :: b :: ':' :: c :: d :: rest => isBelow 24 [a, b] && isBelow 60 [c, d] && isSeconds rest
  | _ => false

def isOffset (cs : List Char) : Bool :=
  match cs with
  | ['Z'] => true
  | ['z'] => true
  | [sign, a, b, ':', c, d] =>
    (sign == '+' || sign == '-') && isBelow 24 [a, b] && isBelow 60 [c, d]
  | _ => false

def isZonedTime (cs : List Char) : Bool :=
  let inTime (c : Char) : Bool := c.isDigit || c == ':' || c == '.'
  isTime (cs.takeWhile inTime) &&
    (cs.dropWhile inTime = [] || isOffset (cs.dropWhile inTime))

def isMoment (cs : List Char) : Bool :=
  isDate cs || isTime cs ||
    (isDate (cs.take 10) &&
      match cs.drop 10 with
      | c :: time => (c == 'T' || c == 't' || c == ' ') && isZonedTime time
      | [] => false)

end Moments

def isPlain (c : Char) : Bool :=
  c.isAlphanum || c == '_' || c == '-' || c == '+' || c == '.' || c == ':'

/-- The characters of a simple value; a blank belongs to them between a date and a time. -/
def plainText (cs : List Char) : List Char × List Char :=
  let front := cs.takeWhile isPlain
  match cs.dropWhile isPlain with
  | ' ' :: rest =>
    if isDate front ∧ (rest.head?.any Char.isDigit) then
      (front ++ ' ' :: rest.takeWhile isPlain, rest.dropWhile isPlain)
    else (front, ' ' :: rest)
  | rest => (front, rest)

def plain : Reader Value := fun cs =>
  let (text, rest) := plainText cs
  if text = "true".toList then some (.bool true, rest)
  else if text = "false".toList then some (.bool false, rest)
  else match integer? text with
    | some i => some (.integer i, rest)
    | none =>
      if isFloat text then some (.float (String.ofList text), rest)
      else if isMoment text then some (.moment (String.ofList text), rest)
      else none

end Reader

end StateText.Toml
