import StateText.Json.Printer
import StateText.Value.Render

/-!
# The plain layout

How outputs are written on their own: strings bare, collections inside an element on one line as
JSON, and no types. A list or map stands alone, or under a name as an assignment. An element of a
list that is no string and no collection is left out, but not the comma behind it.
-/

namespace StateText.Plain

def entryIndent : List Char := Text.spaces 2

def elementIndent : List Char := Text.spaces Render.level

def inline : Json → List Char
  | .string s => s.toList
  | j => j.chars

def startLine : List Char → List Char
  | '\n' :: cs => cs
  | cs => cs

def linesBehind (front : List Char) : List (List Char) → List Char
  | [] => []
  | item :: items => '\n' :: front ++ item ++ linesBehind front items

def nestedList (indent : List Char) (items : List Json) : List Char :=
  if items = [] then indent ++ ['[', ']']
  else
    startLine (indent ++ '[' ::
      Json.commaSeparated (items.map fun j => '\n' :: indent ++ elementIndent ++ inline j) ++
        '\n' :: indent ++ [']'])

def assignment (entry : String × Json) : List Char :=
  entry.1.toList ++ ' ' :: '=' :: ' ' :: inline entry.2

def nestedMap (indent : List Char) (entries : Entries String Json) : List Char :=
  if entries = [] then indent ++ ['\x7b', '\x7d']
  else
    startLine (indent ++ '\x7b' ::
      Json.commaSeparated ((Entries.sorted entries).map fun e =>
          '\n' :: indent ++ elementIndent ++ assignment e) ++
        '\n' :: indent ++ ['\x7d'])

/-- An element of a list, when strings stand behind `front` and what is nested starts in the
column of `indent`. -/
def element (indent front : List Char) : Json → List Char
  | .string s => '\n' :: front ++ s.toList
  | .array items => '\n' :: indent ++ nestedList front items
  | .object entries => '\n' :: indent ++ nestedMap front entries
  | _ => []

def list (indent name : List Char) (items : List Json) : List Char :=
  if name = [] then startLine (Json.commaSeparated (items.map (element indent indent)))
  else
    let closing := if items = [] then [']'] else '\n' :: indent ++ [']']
    startLine (indent ++ name ++ ' ' :: '=' :: ' ' :: '[' ::
      Json.commaSeparated (items.map (element indent (indent ++ elementIndent))) ++ closing)

def map (indent name : List Char) (entries : Entries String Json) : List Char :=
  let assignments := (Entries.sorted entries).map assignment
  if name = [] then startLine (linesBehind indent assignments)
  else
    let closing := if entries = [] then ['\x7d'] else '\n' :: indent ++ ['\x7d']
    startLine (indent ++ name ++ ' ' :: '=' :: ' ' :: '\x7b' ::
      linesBehind (indent ++ entryIndent) assignments ++ closing)

def output (name : List Char) (j : Json) : List Char :=
  match j with
  | .array items => list [] name items
  | .object entries => map [] name entries
  | j => if name = [] then inline j else name ++ ' ' :: '=' :: ' ' :: inline j

end StateText.Plain
