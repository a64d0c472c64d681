import LockDiscipline.Access
import LockDiscipline.Profile
import LockDiscipline.Region
import LockDiscipline.Signature
import LockDiscipline.Vocabulary

/-! The scanner: from the regions of a code view to class profiles, line by line. -/

namespace LockDiscipline

open LockDiscipline.Text

/-- Where to look for the locks of a public method. -/
inductive LockWindow where
  /-- Anywhere in the class. -/
  | classBody
  /-- From `before` lines above the signature up to `after` lines counted from it. -/
  | lines (before after : UInt64)
deriving DecidableEq, Repr

/-- The first line of a window and the line after its last, for a signature on line `index`. -/
def LockWindow.span (index count : Nat) : LockWindow → Nat × Nat
  | classBody => (0, count)
  -- Line numbers are machine words here: the sum wraps around before it is clipped to the class.
  | lines before after =>
    (index - before.toNat, max (min (UInt64.ofNat index + after).toNat count) (index + 1))

namespace Scan

/-- Opening braces less closing braces. -/
def braceBalance (text : List Char) : Int :=
  (text.count '\x7b' : Int) - text.count '\x7d'

/-- The first line that is not blank, trimmed. -/
def nextCodeLine (lines : List (List Char)) : Option (List Char) :=
  (lines.find? fun line => !(trim line).isEmpty).map trim

/-- A method found in a class body. -/
structure Declaration where
  access : Access
  /-- The line of the class body, counted from 0. -/
  index : Nat
  name : List Char
deriving DecidableEq, Repr

/-- Constructors, destructors and operators have no unlocked twin. -/
def isOrdinary (className name : List Char) : Bool :=
  name != className && name.head? != some '~' && name != "operator".toList

/-- The methods declared on the lines at member level, where exactly one brace is open. -/
def declarationsFrom (className : List Char) (access : Access) (depth : Int) (index : Nat) :
    (lines : List (List Char)) → List Declaration
  | [] => []
  | line :: rest =>
    let go access := declarationsFrom className access (depth + braceBalance line) (index + 1) rest
    if depth ≠ 1 then go access
    else match Access.ofLabel? (trim line) with
      | some opened => go opened
      | none =>
        match Signature.name? (trim line) (nextCodeLine rest) with
        | some name => if isOrdinary className name then ⟨access, index, name⟩ :: go access
          else go access
        | none => go access

/-- The section that members belong to before the first label. -/
def defaultAccess : ClassKind → Access
  | .cls => .priv
  | .struct => .pub

/-- The methods of a region. -/
def declarations (region : Region) : List Declaration :=
  declarationsFrom region.name (defaultAccess region.kind) 0 0 (lines region.body)

/-- The lines of a class body within the window of a method. -/
def windowLines (window : LockWindow) (bodyLines : List (List Char)) (index : Nat) :
    List (List Char) :=
  let (first, past) := window.span index bodyLines.length
  (bodyLines.drop first).take (past - first)

/-- A public method as a locking method, if there is a lock in its window. -/
def lockingMethod? (window : LockWindow) (region : Region) (d : Declaration) :
    Option LockingMethod :=
  let bodyLines := lines region.body
  let tags := Vocabulary.lockTags (unlines (windowLines window bodyLines d.index))
  if d.access = .pub ∧ tags ≠ [] then
    some {
      name := String.ofList d.name
      line := region.firstLine + d.index + 1
      tags
      windowEnd := region.firstLine + (window.span d.index bodyLines.length).2 }
  else none

/-- The name of a private method that promises not to lock. -/
def unlockedName? (d : Declaration) : Option String :=
  if d.access = .priv ∧ "_unlocked".toList.isSuffixOf d.name then some (String.ofList d.name)
  else none

/-- The profile of one region. -/
def profile (file : String) (window : LockWindow) (region : Region) : ClassProfile where
  name := String.ofList region.name
  file
  startLine := region.firstLine + 1
  mutexes := (Vocabulary.mutexMembers region.body).map String.ofList
  lockingMethods := (declarations region).filterMap (lockingMethod? window region)
  unlockedMethods := ((declarations region).filterMap unlockedName?).eraseDups

/-- The profiles of the classes of a code view that matter. -/
def profiles (file : String) (window : LockWindow) (code : List Char) : List ClassProfile :=
  ((Region.findAll code).map (profile file window)).filter (·.isRelevant)

end Scan

end LockDiscipline
