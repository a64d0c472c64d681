import LockDiscipline.Report.BySeverity

/-! The report of an analysis: one section for each class, and what belongs to no class. -/

namespace LockDiscipline.Report

open LockDiscipline.Span (plain)

/-- An issue belongs to a class if it points at its header or at one of its locking methods. -/
def attributes (c : ClassProfile) (issue : Issue) : Bool :=
  issue.file == c.file &&
    (issue.line == c.startLine || c.lockingMethods.any fun m => m.line == issue.line)

/-- The issues that belong to a class. -/
def classIssues (issues : List Issue) (c : ClassProfile) : List Issue :=
  issues.filter (attributes c)

/-- The issues that belong to no class. -/
def looseIssues (result : CheckResult) : List Issue :=
  result.issues.filter fun issue => !result.classes.any fun c => attributes c issue

/-- A heading and a list of entries, which is absent when there are none. -/
def listing (heading : Span) (entries : List String) : Document :=
  if entries.isEmpty then []
  else [heading, plain "\n"] ++ (entries.map fun e => plain ("  - " ++ e ++ "\n")) ++ [plain "\n"]

/-- A locking method with its line and tags. -/
def methodEntry (m : LockingMethod) : String :=
  m.name ++ " (line " ++ toString m.line ++ ") [" ++ ", ".intercalate m.tags ++ "]"

/-- An issue within the section of its class. -/
def classIssueEntry (issue : Issue) : String :=
  "[" ++ issue.severity.name ++ "] " ++ issue.message

/-- The section of a class. -/
def classSection (issues : List Issue) (c : ClassProfile) : Document :=
  [⟨[.bold], "## Class: " ++ c.name⟩,
   plain ("\nFile: " ++ c.file ++ ":" ++ toString c.startLine ++ "\n\n")] ++
  listing (plain "### Mutex Members:") c.mutexes ++
  listing (plain "### Public Lock-Acquiring Methods:") (c.lockingMethods.map methodEntry) ++
  listing (plain "### Private Unlocked Methods:") c.unlockedMethods ++
  listing ⟨[.bold, .yellow], "### Potential Issues:"⟩
    ((classIssues issues c).map classIssueEntry) ++
  [plain (String.ofList (List.replicate 40 '-') ++ "\n\n")]

/-- An issue that belongs to no class. -/
def looseIssueLine (issue : Issue) : Document :=
  [plain ("  - [" ++ issue.severity.name ++ "] "), location issue,
   plain (" — " ++ issue.message ++ "\n")]

/-- The section of the issues that belong to no class, absent when there are none. -/
def looseSection (result : CheckResult) : Document :=
  match looseIssues result with
  | [] => []
  | loose => [plain "## Other Issues\n"] ++ loose.flatMap looseIssueLine ++ [plain "\n"]

/-- The counts of an analysis. -/
def analysisSummary (result : CheckResult) : String :=
  let s := result.summary
  "## Summary\n" ++
  "- Files scanned: " ++ toString s.files ++ "\n" ++
  "- Classes analyzed: " ++ toString s.classes ++ "\n" ++
  "- Public lock-acquiring methods: " ++
    toString (result.classes.flatMap (·.lockingMethods)).length ++ "\n" ++
  "- Potential threading issues: " ++ toString (s.errors + s.warnings + s.infos) ++ " (" ++
    toString s.errors ++ " errors, " ++ toString s.warnings ++ " warnings, " ++
    toString s.infos ++ " info)\n"

/-- How many classes the ranking shows. -/
def rankingLimit : Nat := 5

/-- The classes with the most issues; classes with equally many keep their order. -/
def ranking (result : CheckResult) : List (String × Nat) :=
  let counts := result.classes.map fun c => (c.name, (classIssues result.issues c).length)
  ((counts.mergeSort fun x y => y.2 ≤ x.2).filter fun entry => 0 < entry.2).take rankingLimit

/-- The ranking as text, absent when no class has an issue. -/
def rankingSection (result : CheckResult) : String :=
  match ranking result with
  | [] => ""
  | top => "\n## Classes with most potential issues\n" ++
    String.join (top.map fun (name, n) => "  - " ++ name ++ ": " ++ toString n ++ " issues\n")

/-- The report of an analysis. -/
def byClass (result : CheckResult) : Document :=
  plain "# Threading Safety Analysis\n\n" ::
    if result.classes.isEmpty then
      plain "No classes with mutex usage found.\n" :: looseSection result
    else
      [plain ("Found " ++ toString result.classes.length ++
        " classes with threading concerns:\n\n")] ++
      result.classes.flatMap (classSection result.issues) ++
      looseSection result ++
      [plain (analysisSummary result ++ rankingSection result)]

end LockDiscipline.Report
