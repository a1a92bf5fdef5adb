import StateText.Entries

/-!
# Files

What a program may find under a path. `FileTree` holds the texts of files and reads a path the way a
file system does: from the left, one name at a time, each in a directory that has to be there.
-/

namespace StateText.Command

inductive ReadError where
  | notFound
  | notDirectory
  | isDirectory
  | nameTooLong
  /-- The path has a character that no path may have. -/
  | nulCharacter
  /-- The file is there but cannot be read, for this reason. -/
  | other (reason : String)
deriving DecidableEq

namespace ReadError

def message : ReadError → String
  | notFound => "No such file or directory (os error 2)"
  | notDirectory => "Not a directory (os error 20)"
  | isDirectory => "Is a directory (os error 21)"
  | nameTooLong => "File name too long (os error 36)"
  | nulCharacter => "file name contained an unexpected NUL byte"
  | other reason => reason

def exists? : ReadError → Bool
  | isDirectory => true
  | other _ => true
  | _ => false

end ReadError

abbrev Names := List (List Char)

inductive Entry where
  | file (text : String)
  | directory

/-- What is known to lie under some names, the newest in front, and the directory in which relative
paths start. -/
structure FileTree where
  current : Names
  entries : List (Names × Entry)

namespace FileTree

def parts : List Char → Names
  | [] => [[]]
  | c :: cs =>
    if c = '/' then [] :: parts cs
    else match parts cs with
      | [] => [[c]]
      | p :: ps => (c :: p) :: ps

/-- Where a part leads. The root has no directory above it but itself. -/
def move (names : Names) (part : List Char) : Names :=
  if part = [] ∨ part = ['.'] then names
  else if part = ['.', '.'] then names.dropLast
  else names ++ [part]

/-- Everything that the parts of a path lead through, and where they end. -/
def trail (names : Names) : (parts : Names) → List Names × Names
  | [] => ([], names)
  | part :: rest =>
    let t := trail (move names part) rest
    (names :: t.1, t.2)

def start (t : FileTree) (cs : List Char) : Names := if cs.head? = some '/' then [] else t.current

def put (t : FileTree) (path text : String) : FileTree :=
  let way := trail (t.start path.toList) (parts path.toList)
  let directories := way.1.map fun names => (names, Entry.directory)
  { t with entries := (way.2, .file text) :: directories ++ t.entries }

/-- A directory is there wherever something is known to lie in it. -/
def entry? (t : FileTree) (names : Names) : Option Entry :=
  match t.entries.find? fun e => e.1 == names with
  | some e => some e.2
  | none =>
    if names.isPrefixOf t.current ∨ t.entries.any fun e => names.isPrefixOf e.1 then
      some .directory
    else none

def nameLimit : Nat := 255

def pathLimit : Nat := 4095

def byteLength : List Char → Nat
  | [] => 0
  | c :: cs => c.utf8Size + byteLength cs

def follow (t : FileTree) (names : Names) : (parts : Names) → Except ReadError Entry
  | [] =>
    match t.entry? names with
    | some entry => .ok entry
    | none => .error .notFound
  | part :: rest =>
    match t.entry? names with
    | none => .error .notFound
    | some (.file _) => .error .notDirectory
    | some .directory =>
      if nameLimit < byteLength part then .error .nameTooLong else t.follow (move names part) rest

def entryAt (t : FileTree) (path : String) : Except ReadError Entry :=
  let cs := path.toList
  if '\x00' ∈ cs then .error .nulCharacter
  else if cs = [] then .error .notFound
  else if pathLimit < byteLength cs then .error .nameTooLong
  else t.follow (t.start cs) (parts cs)

def read (t : FileTree) (path : String) : Except ReadError String :=
  match t.entryAt path with
  | .error e => .error e
  | .ok .directory => .error .isDirectory
  | .ok (.file text) => .ok text

end FileTree

end StateText.Command
