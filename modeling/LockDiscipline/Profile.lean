/-! Class profiles: what is known about the locking of one class. -/

namespace LockDiscipline

/-- A public method that acquires a lock. -/
structure LockingMethod where
  name : String
  /-- The line of the signature, counted from 1. -/
  line : Nat
  /-- The tags of the lock constructs found in the window of the method. -/
  tags : List String
  /-- The last line of that window, counted from 1. -/
  windowEnd : Nat
deriving DecidableEq, Repr

/-- The locking of one class. -/
structure ClassProfile where
  name : String
  file : String
  /-- The line of the class keyword, counted from 1. -/
  startLine : Nat
  /-- Mutex members, in order of declaration and without repetition. -/
  mutexes : List String
  /-- Public methods that acquire a lock, in order of their lines. -/
  lockingMethods : List LockingMethod
  /-- Private methods named `..._unlocked`, in order of declaration and without repetition. -/
  unlockedMethods : List String
deriving DecidableEq, Repr

/-- A class matters if it declares a mutex or has a public method that locks. -/
def ClassProfile.isRelevant (p : ClassProfile) : Bool :=
  !p.mutexes.isEmpty || !p.lockingMethods.isEmpty

end LockDiscipline
