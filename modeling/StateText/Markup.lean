/-!
# Markup

Display markup is a known word in brackets. It is taken out of a text, and may be turned into
the styles of a terminal: styles add up until the next reset, and each stretch of text between two
tokens is styled on its own.
-/

namespace StateText.Markup

inductive Code where
  | reset
  | bold
  | dim
  | red
  | green
  | yellow
  | blue
  | cyan
deriving DecidableEq

namespace Code

def all : List Code := [reset, bold, dim, red, green, yellow, blue, cyan]

def word : Code → String
  | reset => "reset"
  | bold => "bold"
  | dim => "dim"
  | red => "red"
  | green => "green"
  | yellow => "yellow"
  | blue => "blue"
  | cyan => "cyan"

def token (code : Code) : List Char := '[' :: code.word.toList ++ [']']

def color? : Code → Option Nat
  | red => some 31
  | green => some 32
  | yellow => some 33
  | blue => some 34
  | cyan => some 36
  | _ => none

end Code

def code? (cs : List Char) : Option Code :=
  Code.all.find? fun code => code.token.isPrefixOf cs

/-- A text cut at its tokens: the stretch in front of the first one, then each token with the
stretch behind it. The first `skip` characters belong to a token that has been read. -/
def segmentsFrom : (skip : Nat) → List Char → List Char × List (Code × List Char)
  | _, [] => ([], [])
  | skip + 1, _ :: cs => segmentsFrom skip cs
  | 0, c :: cs =>
    match code? (c :: cs) with
    | some code =>
      let rest := segmentsFrom (code.token.length - 1) cs
      ([], (code, rest.1) :: rest.2)
    | none =>
      let rest := segmentsFrom 0 cs
      (c :: rest.1, rest.2)

def segments (cs : List Char) : List Char × List (Code × List Char) := segmentsFrom 0 cs

def strip (cs : List Char) : List Char :=
  let s := segments cs
  s.1 ++ s.2.flatMap Prod.snd

/-- The text without the words of a list: from the front on, each word that is met is taken out, of
several at one place the first of the list. The first `skip` characters belong to a word that has
been met. -/
def without (words : List (List Char)) : (skip : Nat) → List Char → List Char
  | _, [] => []
  | skip + 1, _ :: cs => without words skip cs
  | 0, c :: cs =>
    match words.find? fun word => word.isPrefixOf (c :: cs) with
    | some word => without words (word.length - 1) cs
    | none => c :: without words 0 cs

/-- The text that checks look at: they know the tokens as words, and no styles. -/
def erase (cs : List Char) : List Char := without (Code.all.map Code.token) 0 cs

structure Style where
  color : Option Nat
  bold : Bool
  dim : Bool
deriving DecidableEq

namespace Style

def plain : Style := ⟨none, false, false⟩

def apply (style : Style) (code : Code) : Style :=
  match code with
  | .reset => plain
  | .bold => { style with bold := true }
  | .dim => { style with dim := true }
  | code => { style with color := code.color? }

@[simp] theorem apply_reset (style : Style) : style.apply .reset = plain := rfl

def numbers (style : Style) : List Nat :=
  style.color.toList ++ (if style.bold then [1] else []) ++ if style.dim then [2] else []

def opening (numbers : List Nat) : List Char :=
  '\x1b' :: '[' :: (";".intercalate (numbers.map toString)).toList ++ ['m']

def closing : List Char := ['\x1b', '[', '0', 'm']

def paint (style : Style) (cs : List Char) : List Char :=
  if cs = [] then []
  else if style.numbers = [] then cs
  else opening style.numbers ++ cs ++ closing

@[simp] theorem paint_nil (style : Style) : style.paint [] = [] := rfl

@[simp] theorem paint_plain (cs : List Char) : plain.paint cs = cs := by
  cases cs <;> rfl

end Style

def paintSegments (style : Style) : List (Code × List Char) → List Char
  | [] => []
  | (code, cs) :: rest => (style.apply code).paint cs ++ paintSegments (style.apply code) rest

def ansi (cs : List Char) : List Char :=
  let s := segments cs
  s.1 ++ paintSegments .plain s.2

inductive Treatment where
  | keep
  | strip
  | ansi
deriving DecidableEq

def Treatment.apply : Treatment → List Char → List Char
  | keep, cs => cs
  | strip, cs => Markup.strip cs
  | ansi, cs => Markup.ansi cs

end StateText.Markup
