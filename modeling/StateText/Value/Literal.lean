import StateText.Number
import StateText.Text.Quoted

/-!
# Literals

How strings, numbers and names of fields are written in shown text. A string stays on one line, and
no part of it reads as the start of a template.
-/

namespace StateText.Literal

def isControl (c : Char) : Bool := decide (c.toNat < 0x20 ∨ (0x7f ≤ c.toNat ∧ c.toNat ≤ 0x9f))

def hexCode (n : Nat) : List Char :=
  let ds := Text.hexDigits n
  List.replicate (4 - ds.length) '0' ++ ds

def escapeChar (c : Char) : List Char :=
  match c with
  | '"' => ['\\', '"']
  | '\\' => ['\\', '\\']
  | '\n' => ['\\', 'n']
  | '\r' => ['\\', 'r']
  | '\t' => ['\\', 't']
  | c => if isControl c then '\\' :: 'u' :: hexCode c.toNat else [c]

def isIntroducer (c : Char) : Bool := c == '$' || c == '%'

/-- An introducer in front of a brace is written twice. -/
def body : List Char → List Char
  | [] => []
  | c :: cs =>
    if isIntroducer c ∧ cs.head? = some '\x7b' then c :: c :: body cs
    else escapeChar c ++ body cs

@[simp] theorem body_nil : body [] = [] := rfl

theorem body_cons (c : Char) (cs : List Char) :
    body (c :: cs) =
      if isIntroducer c ∧ cs.head? = some '\x7b' then c :: c :: body cs
      else escapeChar c ++ body cs := rfl

def stringChars (cs : List Char) : List Char := '"' :: body cs ++ ['"']

def string (s : String) : List Char := stringChars s.toList

/-- A whole floating-point number below this magnitude is written as an integer. -/
def wholeLimit : Nat := Nat.pow 10 15

def number : Number → List Char
  | .float x =>
    match x.whole? with
    | some n =>
      if n < wholeLimit then Number.signed x.negative (Nat.toDigits 10 n)
      else (Number.float x).text
    | none => (Number.float x).text
  | n => n.text

def isNameStart (c : Char) : Bool := c.isAlpha || c == '_'

def isNameRest (c : Char) : Bool := c.isAlphanum || c == '_' || c == '-'

def isIdentifier : List Char → Bool
  | [] => false
  | c :: cs => isNameStart c && cs.all isNameRest

def keyChars (cs : List Char) : List Char := if isIdentifier cs then cs else stringChars cs

def key (name : String) : List Char := keyChars name.toList

end StateText.Literal
