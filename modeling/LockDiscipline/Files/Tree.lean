import LockDiscipline.Files.Error
import LockDiscipline.Files.Path
import LockDiscipline.Text.Utf8

/-! File trees as values, and reading and writing in them by path. -/

namespace LockDiscipline

/-- What a name in a tree stands for. -/
inductive Entry where
  | file (bytes : List UInt8)
  | directory
deriving DecidableEq, Repr

/-- A file tree: the entries below the root, each under the names that lead to it. -/
structure FileTree where
  entries : List (List String × Entry) := []
deriving DecidableEq, Repr

namespace FileTree

/-- The entry under a list of names; the root is a directory. -/
def lookup? (tree : FileTree) (names : List String) : Option Entry :=
  if names.isEmpty then some .directory else tree.entries.lookup names

/-- The tree with one entry set. -/
def put (tree : FileTree) (names : List String) (entry : Entry) : FileTree :=
  ⟨(names, entry) :: tree.entries.filter (·.1 != names)⟩

/-- The tree with an entry set and the missing directories above it made. -/
def create (tree : FileTree) (names : List String) (entry : Entry) : FileTree :=
  let above := ((List.range names.length).map names.take).filter fun n => (tree.lookup? n).isNone
  (above.foldl (fun t n => t.put n .directory) tree).put names entry

/-- The entries strictly below a directory, under the names that lead there from it. -/
def below (tree : FileTree) (names : List String) : List (List String × Entry) :=
  tree.entries.filterMap fun (n, entry) =>
    match Text.dropOpening? names n with
    | some (first :: rest) => some (first :: rest, entry)
    | _ => none

/-- The longest name that an entry can have, in bytes. -/
def nameLimit : Nat := 255

/-- The longest path that can be followed, in bytes. -/
def pathLimit : Nat := 4095

/-- Whether a name is too long for an entry. -/
def tooLong (name : String) : Bool :=
  nameLimit < name.utf8ByteSize

/-- Follows the pieces of a path from a place; each piece needs a directory to start from. -/
def walk (tree : FileTree) (place : List String) :
    (pieces : List String) → Except FileError (List String)
  | [] => .ok place
  | piece :: rest =>
    match tree.lookup? place with
    | some .directory =>
      if Path.isIdle piece then walk tree place rest
      else if piece == ".." then walk tree place.dropLast rest
      else if tooLong piece then .error .nameTooLong
      else if (tree.lookup? (place ++ [piece])).isSome then walk tree (place ++ [piece]) rest
      else .error .notFound
    | some (.file _) => .error .notADirectory
    | none => .error .notFound

end FileTree

/-- A file tree and the directory in which a program works. -/
structure Workspace where
  tree : FileTree
  /-- The names that lead from the root to the working directory. -/
  directory : List String
deriving DecidableEq, Repr

namespace Workspace

/-- Where a path starts. -/
def origin (ws : Workspace) (p : Path) : List String :=
  if p.isAbsolute then [] else ws.directory

/-- Paths that cannot be followed whatever the tree holds. -/
def screen (p : Path) : Except FileError Unit :=
  if p.text.toList.contains '\x00' then .error .nulInName
  else if p.text.isEmpty then .error .notFound
  else if FileTree.pathLimit < p.text.utf8ByteSize then .error .nameTooLong
  else .ok ()

/-- The place in the tree that a path leads to. -/
def locate (ws : Workspace) (p : Path) : Except FileError (List String) := do
  screen p
  ws.tree.walk (ws.origin p) p.pieces

/-- The entry that a path leads to. -/
def entry? (ws : Workspace) (p : Path) : Option Entry :=
  match ws.locate p with
  | .ok place => ws.tree.lookup? place
  | .error _ => none

/-- Whether a path leads to anything. -/
def hasEntry (ws : Workspace) (p : Path) : Bool :=
  (ws.entry? p).isSome

/-- Whether a path leads to a directory. -/
def hasDirectory (ws : Workspace) (p : Path) : Bool :=
  ws.entry? p == some .directory

/-- Whether a path leads to a file. -/
def hasFile (ws : Workspace) (p : Path) : Bool :=
  match ws.entry? p with
  | some (.file _) => true
  | _ => false

/-- The bytes of a file. -/
def read (ws : Workspace) (p : Path) : Except FileError (List UInt8) := do
  let place ← ws.locate p
  match ws.tree.lookup? place with
  | some (.file bytes) => .ok bytes
  | some .directory => .error .isADirectory
  | none => .error .notFound

/-- The text of a file that must be well-formed UTF-8. -/
def readText (ws : Workspace) (p : Path) : Except FileError (List Char) := do
  let bytes ← ws.read p
  if Text.Utf8.isWellFormed bytes then .ok (Text.Utf8.decode bytes) else .error .notUtf8

/-- The place at which a path lets a file be written. -/
def locateTarget (ws : Workspace) (p : Path) : Except FileError (List String) := do
  screen p
  match p.pieces.reverse.dropWhile (· == "") with
  | [] => .error .isADirectory
  | last :: above =>
    let place ← ws.tree.walk (ws.origin p) above.reverse
    match ws.tree.lookup? place with
    | some .directory =>
      -- A dot, a pair of dots or a slash at the end can only mean a directory.
      if last == "." || last == ".." || p.text.toList.getLast? == some '/' then
        .error .isADirectory
      else if FileTree.tooLong last then .error .nameTooLong
      else if ws.tree.lookup? (place ++ [last]) == some .directory then .error .isADirectory
      else .ok (place ++ [last])
    | _ => .error .notADirectory

/-- The workspace after a file is written, replacing what it held before. -/
def write (ws : Workspace) (p : Path) (bytes : List UInt8) : Except FileError Workspace := do
  let place ← ws.locateTarget p
  return { ws with tree := ws.tree.put place (.file bytes) }

end Workspace

end LockDiscipline
