import StateText.Text.Escaped

/-!
# Quoted text

A string between double quotes on one line, as messages and block headers show it. `encode` writes
the body: quotes and backslashes behind a backslash, the common control characters by letter, every
other character that does not show by its hexadecimal code.
-/

namespace StateText.Text

def hexDigits (n : Nat) : List Char := Nat.toDigits 16 n

namespace Quoted

def escape (c : Char) : List Char :=
  match c with
  | '"' => ['\\', '"']
  | '\\' => ['\\', '\\']
  | '\n' => ['\\', 'n']
  | '\r' => ['\\', 'r']
  | '\t' => ['\\', 't']
  | '\x00' => ['\\', '0']
  | c => if isEscaped c then ['\\', 'u', '\x7b'] ++ hexDigits c.toNat ++ ['\x7d'] else [c]

def encode (cs : List Char) : List Char := cs.flatMap escape

@[simp] theorem encode_nil : encode [] = [] := rfl

@[simp] theorem encode_cons (c : Char) (cs : List Char) :
    encode (c :: cs) = escape c ++ encode cs := rfl

end Quoted

def quoted (s : String) : String := String.ofList ('"' :: Quoted.encode s.toList ++ ['"'])

def quotedList (names : List String) : String :=
  "[" ++ ", ".intercalate (names.map quoted) ++ "]"

end StateText.Text
