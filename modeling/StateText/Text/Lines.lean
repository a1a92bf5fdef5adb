/-!
# Lines and surrounding space

A text is a list of characters. `pieces` cuts it at every line feed; `lines` also drops the piece
after a last line feed and the carriage return in front of a line feed. `trim` removes white space
from both ends.
-/

namespace StateText.Text

/-- The characters with the Unicode property White_Space. -/
def isBlank (c : Char) : Bool :=
  let n := c.toNat
  decide ((9 ≤ n ∧ n ≤ 13) ∨ n = 0x20 ∨ n = 0x85 ∨ n = 0xa0 ∨ n = 0x1680 ∨
    (0x2000 ≤ n ∧ n ≤ 0x200a) ∨ n = 0x2028 ∨ n = 0x2029 ∨ n = 0x202f ∨ n = 0x205f ∨ n = 0x3000)

def trimStart (cs : List Char) : List Char := cs.dropWhile isBlank

def trimEnd (cs : List Char) : List Char := (trimStart cs.reverse).reverse

def trim (cs : List Char) : List Char := trimEnd (trimStart cs)

def pieces : List Char → List (List Char)
  | [] => [[]]
  | c :: cs =>
    if c = '\n' then [] :: pieces cs
    else match pieces cs with
      | [] => [[c]]
      | p :: ps => (c :: p) :: ps

@[simp] theorem pieces_nil : pieces [] = [[]] := rfl

theorem pieces_ne_nil (cs : List Char) : pieces cs ≠ [] := by
  cases cs with
  | nil => simp
  | cons c cs =>
    rw [pieces]
    split
    · simp
    · split <;> simp

@[simp] theorem pieces_lineFeed (cs : List Char) : pieces ('\n' :: cs) = [] :: pieces cs := by
  simp [pieces]

def dropReturn (line : List Char) : List Char :=
  if line.getLast? = some '\r' then line.dropLast else line

/-- What `pieces` gives, read as lines: only the last piece had no line feed behind it. -/
def linesOfPieces : List (List Char) → List (List Char)
  | [] => []
  | [last] => if last = [] then [] else [last]
  | line :: next :: rest => dropReturn line :: linesOfPieces (next :: rest)

def lines (cs : List Char) : List (List Char) := linesOfPieces (pieces cs)

@[simp] theorem lines_nil : lines [] = [] := rfl

def spaces (width : Nat) : List Char := List.replicate width ' '

@[simp] theorem spaces_zero : spaces 0 = [] := rfl

end StateText.Text
