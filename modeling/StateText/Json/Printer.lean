import StateText.Json

/-!
# Writing a document

The compact form: no blanks, members in the order in which the object holds them. A string escapes
quotes, backslashes and the control characters below U+0020, and nothing else.
-/

namespace StateText.Json

def hexDigit (n : Nat) : Char := (Nat.toDigits 16 n).headD '0'

def escapeChar (c : Char) : List Char :=
  match c with
  | '"' => ['\\', '"']
  | '\\' => ['\\', '\\']
  | '\x08' => ['\\', 'b']
  | '\t' => ['\\', 't']
  | '\n' => ['\\', 'n']
  | '\x0c' => ['\\', 'f']
  | '\r' => ['\\', 'r']
  | c =>
    if c.toNat < 0x20 then ['\\', 'u', '0', '0', hexDigit (c.toNat / 16), hexDigit (c.toNat % 16)]
    else [c]

def stringChars (cs : List Char) : List Char := '"' :: cs.flatMap escapeChar ++ ['"']

def commaSeparated : List (List Char) → List Char
  | [] => []
  | [item] => item
  | item :: next :: items => item ++ ',' :: commaSeparated (next :: items)

theorem commaSeparated_cons_cons (item next : List Char) (items : List (List Char)) :
    commaSeparated (item :: next :: items) = item ++ ',' :: commaSeparated (next :: items) := rfl

mutual

def chars : Json → List Char
  | null => "null".toList
  | bool true => "true".toList
  | bool false => "false".toList
  | number n => n.text
  | string s => stringChars s.toList
  | array items => '[' :: commaSeparated (itemChars items) ++ [']']
  | object fields => '\x7b' :: commaSeparated (fieldChars fields) ++ ['\x7d']

def itemChars : List Json → List (List Char)
  | [] => []
  | item :: items => chars item :: itemChars items

def fieldChars : List (String × Json) → List (List Char)
  | [] => []
  | (name, value) :: fields =>
    (stringChars name.toList ++ ':' :: chars value) :: fieldChars fields

end

def render (j : Json) : String := String.ofList j.chars

def renderString (s : String) : String := String.ofList (stringChars s.toList)

end StateText.Json
