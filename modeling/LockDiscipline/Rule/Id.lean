import LockDiscipline.Issue

/-! The rules by name, their default severities and their summaries. -/

namespace LockDiscipline

open LockDiscipline.Text

/-- The rules of the checker, and the one under which unreadable files are reported. -/
inductive RuleId where
  | missingUnlockedMethod
  | multipleMutexes
  | manualLockUnlock
  | publicCallsPublic
  | missingLockOrderDoc
  | callbackUnderLock
  | constMethodLock
  | fileReadError
deriving DecidableEq, Repr

namespace RuleId

/-- The name of a rule in reports and configurations. -/
def name : RuleId → String
  | missingUnlockedMethod => "MISSING_UNLOCKED_METHOD"
  | multipleMutexes => "MULTIPLE_MUTEXES"
  | manualLockUnlock => "MANUAL_LOCK_UNLOCK"
  | publicCallsPublic => "PUBLIC_CALLS_PUBLIC"
  | missingLockOrderDoc => "MISSING_LOCK_ORDER_DOC"
  | callbackUnderLock => "CALLBACK_UNDER_LOCK"
  | constMethodLock => "CONST_METHOD_LOCK"
  | fileReadError => "FILE_READ_ERROR"

/-- Every rule; those that the checker evaluates come in the order in which they report. -/
def all : List RuleId :=
  [missingUnlockedMethod, multipleMutexes, manualLockUnlock, publicCallsPublic,
   missingLockOrderDoc, callbackUnderLock, constMethodLock, fileReadError]

/-- Reads the name of a rule; ASCII case and surrounding white space do not matter. -/
def parse? (text : String) : Option RuleId :=
  all.find? fun id => lowerAscii id.name.toList == lowerAscii (trim text.toList)

end RuleId

end LockDiscipline
