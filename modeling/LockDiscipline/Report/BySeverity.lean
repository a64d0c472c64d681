import LockDiscipline.Issue
import LockDiscipline.Report.Span

/-! The report of a check: issues grouped by severity, the most serious first. -/

namespace LockDiscipline.Report

open LockDiscipline.Span (plain)

/-- What is said when there is nothing to report. -/
def cleanMessage : String := "✓ No threading safety issues detected."

/-- The colour of a severity. -/
def severityColor : Severity → Style
  | .error => .red
  | .warning => .yellow
  | .info => .blue

/-- The mark of a section. -/
def sectionIcon : Severity → String
  | .error => "✖"
  | .warning => "▲"
  | .info => "◆"

/-- The heading of a section. -/
def sectionTitle : Severity → String
  | .error => "ERRORS (must fix):"
  | .warning => "WARNINGS (should fix):"
  | .info => "INFO (consider fixing):"

/-- The line above the issues of a severity. -/
def sectionHeader (severity : Severity) : Document :=
  [⟨[severityColor severity], sectionIcon severity⟩, plain " ",
   ⟨[.bold, severityColor severity], sectionTitle severity⟩, plain "\n"]

/-- File and line of an issue. -/
def location (issue : Issue) : Span :=
  ⟨[.bold], issue.file ++ ":" ++ toString issue.line⟩

/-- An issue, followed by its suggestion if suggestions are asked for. -/
def issueLines (suggestions : Bool) (issue : Issue) : Document :=
  [plain "  ", location issue, plain (" — " ++ issue.message ++ "\n")] ++
    match suggestions, issue.suggestion with
    | true, some suggestion =>
      [plain "    ", ⟨[.cyan], "Suggestion:"⟩, plain (" " ++ suggestion ++ "\n")]
    | _, _ => []

/-- The section of a severity, which is absent when no issue has it. -/
def severitySection (suggestions : Bool) (issues : List Issue) (severity : Severity) : Document :=
  match issues.filter (·.severity = severity) with
  | [] => []
  | group => sectionHeader severity ++ group.flatMap (issueLines suggestions) ++ [plain "\n"]

/-- The counts of a run in one line. -/
def summaryLine (s : Summary) : String :=
  "Summary: " ++ toString s.errors ++ " errors, " ++ toString s.warnings ++ " warnings, " ++
    toString s.infos ++ " info (" ++ toString s.files ++ " files, " ++ toString s.classes ++
    " classes)"

/-- The title above the sections. -/
def checkTitle : String :=
  "Threading Safety Issues Report\n" ++ String.ofList (List.replicate 40 '=') ++ "\n\n"

/-- The report of a check. -/
def bySeverity (result : CheckResult) (suggestions : Bool) : Document :=
  if result.issues.isEmpty then [⟨[.green], cleanMessage⟩]
  else
    plain checkTitle :: Severity.all.flatMap (severitySection suggestions result.issues) ++
      [⟨[.bold], summaryLine result.summary⟩]

end LockDiscipline.Report
