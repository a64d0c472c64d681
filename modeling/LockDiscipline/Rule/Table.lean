import LockDiscipline.Rule.Id
import LockDiscipline.Rule.Trigger

/-! The rule table, and the evaluation of the rules that settings leave enabled. -/

namespace LockDiscipline

/-- What a rule looks at: each class of a file, or the file as a whole. -/
inductive RuleScope where
  | perClass (find : ClassProfile → FileLines → List Finding)
  | perFile (find : FileLines → List Finding)

/-- A rule with its default severity. -/
structure Rule where
  id : RuleId
  severity : Severity
  summary : String
  scope : RuleScope

namespace Rule

/-- The rules, in the order in which they report. -/
def table : List Rule :=
  [{ id := .missingUnlockedMethod
     severity := .error
     summary := "public method acquires a lock but has no private *_unlocked counterpart"
     scope := .perClass fun p _ => Trigger.missingUnlockedMethod p },
   { id := .multipleMutexes
     severity := .warning
     summary := "class declares more than one mutex; lock ordering must be verified"
     scope := .perClass fun p _ => Trigger.multipleMutexes p },
   { id := .manualLockUnlock
     severity := .error
     summary := "manual unlock call with no RAII guard nearby"
     scope := .perFile Trigger.manualLockUnlock },
   { id := .publicCallsPublic
     severity := .warning
     summary := "public locking method appears to call another public locking method"
     scope := .perClass Trigger.publicCallsPublic },
   { id := .missingLockOrderDoc
     severity := .warning
     summary := "several locks taken on one line but no lock order documented in the file"
     scope := .perFile Trigger.missingLockOrderDoc },
   { id := .callbackUnderLock
     severity := .error
     summary := "callback mentioned on a line that acquires a lock"
     scope := .perFile Trigger.callbackUnderLock },
   { id := .constMethodLock
     severity := .warning
     summary := "const code locks but no mutable member is declared nearby"
     scope := .perFile Trigger.constMethodLock }]

/-- The findings of a rule in a file. -/
def findings (rule : Rule) (profiles : List ClassProfile) (file : FileLines) : List Finding :=
  match rule.scope with
  | .perClass find => profiles.flatMap fun p => find p file
  | .perFile find => find file

end Rule

/-- Which rules are switched off, and which report with another severity. -/
structure RuleSettings where
  disabled : List RuleId := []
  /-- Severities set for rules; of several for one rule the first counts. -/
  levels : List (RuleId × Severity) := []
deriving DecidableEq, Repr

namespace RuleSettings

/-- Whether a rule is switched on. -/
def isEnabled (s : RuleSettings) (id : RuleId) : Bool :=
  !s.disabled.contains id

/-- The severity set for a rule. -/
def level? (s : RuleSettings) (id : RuleId) : Option Severity :=
  s.levels.lookup id

end RuleSettings

/-- How a run looks at classes. -/
inductive Flavor where
  /-- Windows around methods, and every rule. -/
  | check
  /-- Whole class bodies, and the rules on single classes that need no window. -/
  | analyze
deriving DecidableEq, Repr

/-- Whether a flavor evaluates a rule. -/
def Flavor.includes : Flavor → RuleId → Bool
  | check, _ => true
  | analyze, id => id = .missingUnlockedMethod || id = .multipleMutexes

namespace Rule

/-- A finding as an issue of a rule. -/
def toIssue (id : RuleId) (severity : Severity) (file : String) (f : Finding) : Issue where
  severity
  file
  line := f.line
  message := f.message
  suggestion := some f.suggestion
  rule := id.name

/-- The rules that a flavor evaluates under given settings. -/
def active (flavor : Flavor) (settings : RuleSettings) : List Rule :=
  table.filter fun rule => flavor.includes rule.id && settings.isEnabled rule.id

/-- The issues of a file, rule by rule. -/
def evaluate (flavor : Flavor) (settings : RuleSettings) (file : String)
    (profiles : List ClassProfile) (content : FileLines) : List Issue :=
  (active flavor settings).flatMap fun rule =>
    (rule.findings profiles content).map
      (toIssue rule.id ((settings.level? rule.id).getD rule.severity) file)

end Rule

end LockDiscipline
