import LockDiscipline.Proofs.Report.Order
import LockDiscipline.Report.ByClass

/-! The report of an analysis as text without colour, section by section. -/

namespace LockDiscipline.Report

open LockDiscipline.Span (plain)

/-- The mark in front of an issue of a severity. -/
def severityMark : Severity → String
  | .error => "  - [error] "
  | .warning => "  - [warning] "
  | .info => "  - [info] "

/-- An issue in the section of a class, as text: its severity and its message. -/
def entryText (issue : Issue) : String :=
  severityMark issue.severity ++ issue.message ++ "\n"

/-- An issue of no class, as text: its severity, its place and its message. -/
def otherText (issue : Issue) : String :=
  severityMark issue.severity ++ issue.file ++ ":" ++ toString issue.line ++ " — " ++
    issue.message ++ "\n"

/-- A name as a line of a list. -/
def itemText (item : String) : String :=
  "  - " ++ item ++ "\n"

/-- A locking method as a line of a list, with its line and tags. -/
def methodText (m : LockingMethod) : String :=
  "  - " ++ m.name ++ " (line " ++ toString m.line ++ ") [" ++ ", ".intercalate m.tags ++ "]\n"

/-- Lines below a title and above a blank line, or nothing at all if there are no lines. -/
def titledText (title : String) (lines : List String) : String :=
  if lines.isEmpty then "" else title ++ "\n" ++ String.join lines ++ "\n"

/-- The section of a class that lists some issues, as text. -/
def sectionText (c : ClassProfile) (issues : List Issue) : String :=
  "## Class: " ++ c.name ++ "\nFile: " ++ c.file ++ ":" ++ toString c.startLine ++ "\n\n" ++
  titledText "### Mutex Members:" (c.mutexes.map itemText) ++
  titledText "### Public Lock-Acquiring Methods:" (c.lockingMethods.map methodText) ++
  titledText "### Private Unlocked Methods:" (c.unlockedMethods.map itemText) ++
  titledText "### Potential Issues:" (issues.map entryText) ++
  "----------------------------------------\n\n"

/-- The lines above the sections of some classes, as text. -/
def headText (classes : List ClassProfile) : String :=
  "# Threading Safety Analysis\n\n" ++
  if classes.isEmpty then "No classes with mutex usage found.\n"
  else "Found " ++ toString classes.length ++ " classes with threading concerns:\n\n"

/-- The counts at the end of a report, which are left out if there are no classes. -/
def countsText (result : CheckResult) : String :=
  if result.classes.isEmpty then "" else analysisSummary result ++ rankingSection result

/-- An entry of a section is the text of its issue. -/
theorem classIssueEntry_eq (issue : Issue) :
    "  - " ++ classIssueEntry issue ++ "\n" = entryText issue := by
  unfold entryText classIssueEntry
  -- The mark is one literal, while the report puts it together from the name of the severity.
  cases issue.severity <;> simp [severityMark, Severity.name, ← String.append_assoc]

/-- An issue of no class is written on one line, without its colour. -/
theorem render_looseIssueLine (issue : Issue) :
    Document.render false (looseIssueLine issue) = otherText issue := by
  unfold otherText looseIssueLine
  -- Each severity has its own colour, and all of them have their own word.
  cases issue.severity <;>
    simp [Document.render, Span.render, plain, location, severityMark, Severity.name,
      ← String.append_assoc]

/-- A listing is its title with its entries below, one on each line. -/
theorem render_listing (heading : Span) {entries lines : List String}
    (shown : entries.map (fun e => "  - " ++ e ++ "\n") = lines) :
    Document.render false (listing heading entries) = titledText heading.text lines := by
  subst shown
  unfold listing titledText
  -- Without entries the listing is empty, its title included.
  rw [List.isEmpty_map]
  split
  · rfl
  · simp [Document.render, Span.render, plain, Function.comp_def, String.append_assoc]

/-- The section of a class lists the issues that belong to it. -/
theorem render_classSection (issues : List Issue) (c : ClassProfile) :
    Document.render false (classSection issues c) = sectionText c (classIssues issues c) := by
  have methods : (c.lockingMethods.map methodEntry).map (fun e => "  - " ++ e ++ "\n") =
      c.lockingMethods.map methodText := by
    simp [methodEntry, methodText, Function.comp_def, String.append_assoc]
  have entries : ((classIssues issues c).map classIssueEntry).map
      (fun e => "  - " ++ e ++ "\n") = (classIssues issues c).map entryText := by
    simp [Function.comp_def, classIssueEntry_eq]
  have items (names : List String) : names.map (fun e => "  - " ++ e ++ "\n") =
      names.map itemText := rfl
  unfold classSection sectionText
  -- The lists are rendered one by one; around them stand the title and the line of dashes.
  simp only [render_append]
  rw [render_listing _ (items c.mutexes), render_listing _ methods,
    render_listing _ (items c.unlockedMethods), render_listing _ entries]
  simp [Document.render, Span.render, plain, String.append_assoc]

/-- The issues of no class stand together under a title of their own. -/
theorem render_looseSection (result : CheckResult) :
    Document.render false (looseSection result) =
      titledText "## Other Issues" ((looseIssues result).map otherText) := by
  unfold looseSection titledText
  rw [List.isEmpty_map]
  -- Without such issues there is neither a title nor a blank line.
  split
  · rename_i none
    rw [none]
    rfl
  · rename_i some
    rw [if_neg (by simpa using some), render_append, render_append, render_flatMap]
    simp only [render_looseIssueLine]
    simp [Document.render, Span.render, plain, String.append_assoc]

/-- A report is its head, the sections of the classes, the issues of no class and the counts. -/
theorem render_byClass (result : CheckResult) :
    Document.render false (byClass result) =
      headText result.classes ++
      String.join (result.classes.map fun c => sectionText c (classIssues result.issues c)) ++
      titledText "## Other Issues" ((looseIssues result).map otherText) ++
      countsText result := by
  have sections : Document.render false (result.classes.flatMap (classSection result.issues)) =
      String.join (result.classes.map fun c => sectionText c (classIssues result.issues c)) := by
    simp only [render_flatMap, render_classSection]
  rw [← render_looseSection, ← sections]
  unfold byClass headText countsText
  -- A result without classes has neither sections nor counts.
  split
  · rename_i none
    rw [List.isEmpty_iff.mp none]
    simp [-String.reduceAppend, Document.render, Span.render, plain, String.append_assoc]
  · simp [Document.render, Span.render, plain, String.append_assoc]

end LockDiscipline.Report
