import LockDiscipline.Profile
import LockDiscipline.Text.CharClass

/-! Issues with their severities, and the result of a run with its summary. -/

namespace LockDiscipline

open LockDiscipline.Text

/-- How serious an issue is. -/
inductive Severity where
  | error
  | warning
  | info
deriving DecidableEq, Repr

namespace Severity

/-- The name of a severity in reports and configurations. -/
def name : Severity → String
  | error => "error"
  | warning => "warning"
  | info => "info"

/-- Every severity, the most serious first. -/
def all : List Severity :=
  [error, warning, info]

/-- Reads a severity; case and surrounding white space do not matter, and `warn` is a warning. -/
def parse? (text : String) : Option Severity :=
  match String.ofList (lowerAscii (trim text.toList)) with
  | "error" => some error
  | "warning" => some warning
  | "warn" => some warning
  | "info" => some info
  | _ => none

end Severity

/-- One finding, with the place it points at. -/
structure Issue where
  severity : Severity
  file : String
  /-- The line counted from 1, or 0 for a file that could not be read. -/
  line : Nat
  message : String
  suggestion : Option String
  rule : String
deriving DecidableEq, Repr

/-- The counts shown at the end of a report. -/
structure Summary where
  errors : Nat := 0
  warnings : Nat := 0
  infos : Nat := 0
  files : Nat := 0
  classes : Nat := 0
deriving DecidableEq, Repr

/-- The number of issues of a severity. -/
def countSeverity (severity : Severity) (issues : List Issue) : Nat :=
  issues.countP (·.severity = severity)

/-- The counts of issues by severity, with the numbers of files and classes given. -/
def Summary.tally (issues : List Issue) (files classes : Nat) : Summary where
  errors := countSeverity .error issues
  warnings := countSeverity .warning issues
  infos := countSeverity .info issues
  files
  classes

/-- The result of a run: classes and issues in the order of the files. -/
structure CheckResult where
  classes : List ClassProfile
  issues : List Issue
  summary : Summary
deriving DecidableEq, Repr

end LockDiscipline
