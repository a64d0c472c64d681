import LockDiscipline.Config.Error
import LockDiscipline.Rule.Table

/-! Rule settings from the rule section of a configuration. -/

namespace LockDiscipline

/-- What a configuration says about one rule. -/
structure RuleEntry where
  enabled : Option Bool := none
  level : Option String := none
deriving DecidableEq, Repr

namespace RuleSettings

/-- Settings changed by one entry; a rule stays disabled, but its latest level counts. -/
def add (s : RuleSettings) (key : String) (entry : RuleEntry) :
    Except ConfigError RuleSettings := do
  let some id := RuleId.parse? key | throw (.unknownRule key)
  let s := if entry.enabled = some false then { s with disabled := id :: s.disabled } else s
  match entry.level with
  | none => return s
  | some level =>
    let some severity := Severity.parse? level | throw (.invalidLevel key level)
    return { s with levels := (id, severity) :: s.levels }

/-- Entries in the order of their keys, character by character. -/
def sortEntries (entries : List (String × RuleEntry)) : List (String × RuleEntry) :=
  entries.mergeSort fun x y => decide (x.1 ≤ y.1)

/-- The settings that a rule section denotes; of several faults the first by key is reported. -/
def ofEntries (entries : List (String × RuleEntry)) : Except ConfigError RuleSettings :=
  (sortEntries entries).foldlM (fun s (key, entry) => s.add key entry) {}

end RuleSettings

end LockDiscipline
