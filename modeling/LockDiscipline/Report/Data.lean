import LockDiscipline.Issue
import LockDiscipline.Report.JsonValue

/-! Results as JSON documents. -/

namespace LockDiscipline.Report

open JsonValue

/-- An issue; the suggestion is left out unless it is asked for. -/
def issueValue (suggestions : Bool) (issue : Issue) : JsonValue :=
  .object <|
    [("severity", .string issue.severity.name), ("file", .string issue.file),
     ("line", .number issue.line), ("message", .string issue.message)] ++
    (match suggestions, issue.suggestion with
      | true, some suggestion => [("suggestion", .string suggestion)]
      | _, _ => []) ++
    [("rule", .string issue.rule)]

/-- The issues of a result. -/
def issuesValue (suggestions : Bool) (issues : List Issue) : JsonValue :=
  .array (issues.map (issueValue suggestions))

/-- The counts of a run. -/
def summaryValue (s : Summary) : JsonValue :=
  .object [("errors", .number s.errors), ("warnings", .number s.warnings),
    ("infos", .number s.infos), ("files", .number s.files), ("classes", .number s.classes)]

/-- A locking method, without the window it was found by. -/
def methodValue (m : LockingMethod) : JsonValue :=
  .object [("method_name", .string m.name), ("line_number", .number m.line),
    ("matched_lock_constructs", strings m.tags)]

/-- A class profile. -/
def profileValue (p : ClassProfile) : JsonValue :=
  .object [("name", .string p.name), ("source_file", .string p.file),
    ("start_line", .number p.startLine), ("mutex_members", strings p.mutexes),
    ("public_lock_methods", .array (p.lockingMethods.map methodValue)),
    ("private_unlocked_methods", strings p.unlockedMethods)]

/-- The result of a check. -/
def checkValue (result : CheckResult) (suggestions : Bool) : JsonValue :=
  .object [("issues", issuesValue suggestions result.issues),
    ("summary", summaryValue result.summary)]

/-- The result of an analysis. -/
def analysisValue (result : CheckResult) : JsonValue :=
  .object [("classes", .array (result.classes.map profileValue)),
    ("issues", issuesValue false result.issues), ("summary", summaryValue result.summary)]

end LockDiscipline.Report
