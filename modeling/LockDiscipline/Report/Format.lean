import LockDiscipline.Config.Error
import LockDiscipline.Issue

/-! Output formats, and the status with which a run ends. -/

namespace LockDiscipline

/-- The formats of a report. -/
inductive OutputFormat where
  | human
  | json
deriving DecidableEq, Repr

namespace OutputFormat

/-- The name of a format. -/
def name : OutputFormat → String
  | human => "human"
  | json => "json"

/-- Reads the name of a format exactly as written. -/
def parse (text : String) : Except ConfigError OutputFormat :=
  match [human, json].find? (·.name == text) with
  | some format => .ok format
  | none => .error (.invalidFormat text)

/-- Colour is for human readers who have not opted out of it. -/
def usesColor (format : OutputFormat) (colorAllowed : Bool) : Bool :=
  format = human && colorAllowed

end OutputFormat

/-- How a run ends. -/
inductive ExitStatus where
  /-- No errors, and no warnings that count. -/
  | clean
  /-- Warnings in strict mode. -/
  | warnings
  /-- At least one error. -/
  | errors
  /-- The run could not be completed. -/
  | failure
deriving DecidableEq, Repr

/-- The exit code of a status. -/
def ExitStatus.code : ExitStatus → Nat
  | clean => 0
  | warnings => 1
  | errors => 2
  | failure => 3

/-- The status of a finished run; warnings count only in strict mode. -/
def CheckResult.exitStatus (result : CheckResult) (strict : Bool) : ExitStatus :=
  if 0 < result.summary.errors then .errors
  else if 0 < result.summary.warnings && strict then .warnings
  else .clean

end LockDiscipline
