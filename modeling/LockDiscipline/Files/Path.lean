import LockDiscipline.Text.Lines

/-! Paths as written, and their components, by which they are compared. -/

namespace LockDiscipline

/-- A path, spelled as it was given. -/
structure Path where
  text : String
deriving DecidableEq, Repr

/-- One step of a path. -/
inductive Component where
  | root
  | current
  | parent
  | name (text : String)
deriving DecidableEq, Repr

namespace Component

/-- The place of a kind of component in the order of paths. -/
def rank : Component → Nat
  | root => 0
  | current => 1
  | parent => 2
  | name _ => 3

/-- Whether a component sorts strictly before another. -/
def precedes : Component → Component → Bool
  | name x, name y => x < y
  | x, y => x.rank < y.rank

/-- The spelling of a component. -/
def spelling : Component → String
  | root => "/"
  | current => "."
  | parent => ".."
  | name text => text

end Component

namespace Path

/-- The pieces between the slashes of a path. -/
def pieces (p : Path) : List String :=
  (p.text.toList.splitOn '/').map String.ofList

/-- Whether a path starts at the root. -/
def isAbsolute (p : Path) : Bool :=
  p.text.toList.head? == some '/'

/-- Whether a piece of a path leads nowhere. -/
def isIdle (piece : String) : Bool :=
  piece == "" || piece == "."

/-- The component that a piece stands for, idle pieces aside. -/
def component? (piece : String) : Option Component :=
  if isIdle piece then none
  else if piece == ".." then some .parent
  else some (.name piece)

/-- The components of a path: doubled slashes and inner dots vanish, but a leading dot stays. -/
def components (p : Path) : List Component :=
  let steps := p.pieces.filterMap component?
  if p.isAbsolute then .root :: steps
  else if p.pieces.head? == some "." then .current :: steps
  else steps

/-- Whether two paths have the same components. -/
def sameAs (p q : Path) : Bool :=
  p.components == q.components

/-- The order of lists of components. -/
def componentsLe : List Component → List Component → Bool
  | [], _ => true
  | _ :: _, [] => false
  | x :: xs, y :: ys => if x = y then componentsLe xs ys else x.precedes y

/-- The order of paths, component by component. -/
def le (p q : Path) : Bool :=
  componentsLe p.components q.components

/-- A path followed by another one, which replaces it if it is absolute. -/
def join (p q : Path) : Path :=
  if q.isAbsolute || p.text.isEmpty then q
  else if p.text.toList.getLast? == some '/' then ⟨p.text ++ q.text⟩
  else ⟨p.text ++ "/" ++ q.text⟩

/-- The path of an entry in a directory. -/
def child (p : Path) (name : String) : Path :=
  p.join ⟨name⟩

/-- Pieces without the idle ones at their end; the first piece always stays. -/
def dropIdleEnd : List String → List String
  | [] => []
  | first :: rest => first :: (rest.reverse.dropWhile isIdle).reverse

/-- The path without its last component, if it has one besides the root. -/
def parent? (p : Path) : Option Path :=
  match dropIdleEnd p.pieces with
  -- Only the root or nothing is left.
  | [] => none
  | [""] => none
  | pieces =>
    match dropIdleEnd pieces.dropLast with
    | [""] => some ⟨"/"⟩
    | rest => some ⟨"/".intercalate rest⟩

/-- What is left of a list after an initial part, if it starts with that part. -/
def strip? (base path : List Component) : Option (List Component) :=
  Text.dropOpening? base path

/-- A path as shown in reports: relative to a directory if it lies in that directory. -/
def shownFrom (directory : List String) (p : Path) : String :=
  match strip? (.root :: directory.map .name) p.components with
  | some (.parent :: _) => p.text
  | some rest => "/".intercalate (rest.map Component.spelling)
  | none => p.text

end Path

end LockDiscipline
