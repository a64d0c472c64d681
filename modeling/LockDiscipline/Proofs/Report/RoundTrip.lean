import LockDiscipline.Proofs.Report.JsonReader
import LockDiscipline.Report.Data

/-! Reports written as JSON are read back: issues, classes and counts are all still there. -/

namespace LockDiscipline

/-- An issue as a report without suggestions shows it. -/
def Issue.withoutSuggestion (issue : Issue) : Issue :=
  { issue with suggestion := none }

/-- An issue as a report shows it, with its suggestion if suggestions are asked for. -/
def Issue.shown (suggestions : Bool) (issue : Issue) : Issue :=
  if suggestions then issue else issue.withoutSuggestion

/-- A locking method as reports show it, with nothing said about its window. -/
def LockingMethod.withoutWindow (m : LockingMethod) : LockingMethod :=
  { m with windowEnd := 0 }

/-- A class as reports show it. -/
def ClassProfile.withoutWindows (p : ClassProfile) : ClassProfile :=
  { p with lockingMethods := p.lockingMethods.map (·.withoutWindow) }

namespace Report

/-- The values of the fields with a key. -/
def fieldValues (key : String) : JsonValue → List JsonValue
  | .object fields => (fields.filter (·.1 == key)).map (·.2)
  | _ => []

/-- The value of a field that an object has exactly once. -/
def field? (key : String) (v : JsonValue) : Option JsonValue :=
  match fieldValues key v with
  | [value] => some value
  | _ => none

/-- The value of a field that an object has at most once. -/
def optionalField? (key : String) (v : JsonValue) : Option (Option JsonValue) :=
  match fieldValues key v with
  | [] => some none
  | [value] => some (some value)
  | _ => none

/-- The text of a string. -/
def text? : JsonValue → Option String
  | .string text => some text
  | _ => none

/-- The value of a number. -/
def count? : JsonValue → Option Nat
  | .number value => some value
  | _ => none

/-- The items of an array. -/
def list? {α : Type} (item? : JsonValue → Option α) : JsonValue → Option (List α)
  | .array items => items.mapM item?
  | _ => none

/-- The severity with a name. -/
def severity? (v : JsonValue) : Option Severity := do
  let name ← text? v
  Severity.all.find? (·.name == name)

/-- The issue that an object describes; its suggestion may be absent. -/
def issue? (v : JsonValue) : Option Issue := do
  let severity ← severity? (← field? "severity" v)
  let file ← text? (← field? "file" v)
  let line ← count? (← field? "line" v)
  let message ← text? (← field? "message" v)
  let suggestion ← match ← optionalField? "suggestion" v with
    | some value => (text? value).map some
    | none => some none
  let rule ← text? (← field? "rule" v)
  return { severity, file, line, message, suggestion, rule }

/-- The counts that an object describes. -/
def summary? (v : JsonValue) : Option Summary := do
  let errors ← count? (← field? "errors" v)
  let warnings ← count? (← field? "warnings" v)
  let infos ← count? (← field? "infos" v)
  let files ← count? (← field? "files" v)
  let classes ← count? (← field? "classes" v)
  return { errors, warnings, infos, files, classes }

/-- The locking method that an object describes. -/
def method? (v : JsonValue) : Option LockingMethod := do
  let name ← text? (← field? "method_name" v)
  let line ← count? (← field? "line_number" v)
  let tags ← list? text? (← field? "matched_lock_constructs" v)
  return { name, line, tags, windowEnd := 0 }

/-- The class that an object describes. -/
def profile? (v : JsonValue) : Option ClassProfile := do
  let name ← text? (← field? "name" v)
  let file ← text? (← field? "source_file" v)
  let startLine ← count? (← field? "start_line" v)
  let mutexes ← list? text? (← field? "mutex_members" v)
  let lockingMethods ← list? method? (← field? "public_lock_methods" v)
  let unlockedMethods ← list? text? (← field? "private_unlocked_methods" v)
  return { name, file, startLine, mutexes, lockingMethods, unlockedMethods }

/-- The issues and the counts in the report of a check. -/
def check? (v : JsonValue) : Option (List Issue × Summary) := do
  let issues ← list? issue? (← field? "issues" v)
  let summary ← summary? (← field? "summary" v)
  return (issues, summary)

/-- The result in the report of an analysis. -/
def analysis? (v : JsonValue) : Option CheckResult := do
  let classes ← list? profile? (← field? "classes" v)
  let issues ← list? issue? (← field? "issues" v)
  let summary ← summary? (← field? "summary" v)
  return { classes, issues, summary }

/-- A list is read back if each of its items is. -/
theorem list?_map {α β : Type} {item? : JsonValue → Option β} {write : α → JsonValue}
    {shown : α → β} (each : ∀ x, item? (write x) = some (shown x)) (items : List α) :
    list? item? (.array (items.map write)) = some (items.map shown) := by
  rw [list?, List.mapM_map]
  -- Item by item, as the reader goes.
  induction items with
  | nil => rfl
  | cons x rest ih => simp [each, ih]

/-- A list of strings is read back. -/
theorem list?_strings (items : List String) :
    list? text? (JsonValue.strings items) = some items := by
  -- Each string is read back as itself.
  have each : ∀ text, text? (.string text) = some (id text) := fun _ => rfl
  simpa [JsonValue.strings] using list?_map each items

/-- A severity is read back from its name. -/
theorem severity?_name (severity : Severity) :
    severity? (.string severity.name) = some severity := by
  -- No two severities have one name.
  cases severity <;> decide

/-- An issue is read back as far as the report shows it. -/
theorem issue?_issueValue (suggestions : Bool) (issue : Issue) :
    issue? (issueValue suggestions issue) = some (issue.shown suggestions) := by
  obtain ⟨severity, file, line, message, suggestion, rule⟩ := issue
  -- Whether there is a field for the suggestion depends on both.
  cases suggestions with
  | false =>
    simp [issue?, issueValue, field?, optionalField?, fieldValues, severity?_name, text?, count?,
      Issue.shown, Issue.withoutSuggestion]
  | true =>
    cases suggestion with
    | none =>
      simp [issue?, issueValue, field?, optionalField?, fieldValues, severity?_name, text?, count?,
        Issue.shown]
    | some suggestion =>
      simp [issue?, issueValue, field?, optionalField?, fieldValues, severity?_name, text?, count?,
        Issue.shown]

/-- The issues of a result are read back. -/
theorem list?_issuesValue (suggestions : Bool) (issues : List Issue) :
    list? issue? (issuesValue suggestions issues) =
      some (issues.map (·.shown suggestions)) :=
  -- Issue by issue, with the suggestion shown or not.
  list?_map (issue?_issueValue suggestions) issues

/-- The counts of a run are read back. -/
theorem summary?_summaryValue (s : Summary) : summary? (summaryValue s) = some s := by
  -- Every count is looked up under its own key.
  simp [summary?, summaryValue, field?, fieldValues, count?]

/-- A locking method is read back, but for its window. -/
theorem method?_methodValue (m : LockingMethod) :
    method? (methodValue m) = some m.withoutWindow := by
  -- The window is not printed, so it cannot be read back.
  simp [method?, methodValue, field?, fieldValues, text?, count?, list?_strings,
    LockingMethod.withoutWindow]

/-- A class is read back, but for the windows of its methods. -/
theorem profile?_profileValue (p : ClassProfile) :
    profile? (profileValue p) = some p.withoutWindows := by
  -- Each field is looked up under its own key, and the methods are read one by one.
  simp [profile?, profileValue, field?, fieldValues, text?, count?, list?_strings,
    list?_map method?_methodValue, ClassProfile.withoutWindows]

/--
Reports lose nothing.

The text of a check, read as JSON, gives back all issues in order, with their suggestions exactly
if these were asked for, and the counts. The text of an analysis gives back the classes in order,
but for the windows of their methods, the issues without suggestions, and the counts.
-/
theorem reports_read_back (result : CheckResult) :
    (∀ suggestions, (JsonReader.read? (checkValue result suggestions).pretty).bind check? =
      some (result.issues.map (·.shown suggestions), result.summary)) ∧
    (JsonReader.read? (analysisValue result).pretty).bind analysis? =
      some ⟨result.classes.map (·.withoutWindows), result.issues.map (·.withoutSuggestion),
        result.summary⟩ := by
  -- The document is read back as a value; then its fields are looked up by their names.
  constructor
  · intro suggestions
    rw [JsonReader.read?_pretty, Option.bind_some]
    simp [check?, checkValue, field?, fieldValues, list?_issuesValue, summary?_summaryValue]
  · rw [JsonReader.read?_pretty, Option.bind_some]
    simp [analysis?, analysisValue, field?, fieldValues, list?_map profile?_profileValue,
      list?_issuesValue, summary?_summaryValue, Issue.shown]

end Report

end LockDiscipline
