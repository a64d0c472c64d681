import LockDiscipline.Proofs.Report.Sections
import LockDiscipline.Proofs.Rule.Evidence
import LockDiscipline.Proofs.Rule.Flavors
import LockDiscipline.Run

/-! Every issue is shown: in the section of the class it stands at, or as one of no class. -/

namespace LockDiscipline

open LockDiscipline.Text

/-- An issue stands at a class: in its file, on the line of its header or of a locking method. -/
def Issue.StandsAt (issue : Issue) (c : ClassProfile) : Prop :=
  issue.file = c.file ∧
    (issue.line = c.startLine ∨ ∃ m ∈ c.lockingMethods, m.line = issue.line)

instance (issue : Issue) (c : ClassProfile) : Decidable (issue.StandsAt c) :=
  inferInstanceAs (Decidable (_ ∧ _))

/-- The issues of a result that stand at a class. -/
def CheckResult.issuesAt (result : CheckResult) (c : ClassProfile) : List Issue :=
  result.issues.filter fun issue => issue.StandsAt c

/-- The issues of a result that are not among those of any class. -/
def CheckResult.issuesElsewhere (result : CheckResult) : List Issue :=
  result.issues.filter fun issue => ∀ c ∈ result.classes, issue ∉ result.issuesAt c

/-- The scanner keeps the name of the file with each class. -/
theorem Scan.file_of_mem_profiles {name : String} {window : LockWindow} {code : List Char}
    {c : ClassProfile} (member : c ∈ profiles name window code) : c.file = name := by
  -- A profile is made for the file that is scanned.
  obtain ⟨region, -, -, rfl⟩ := exists_region member
  rfl

/-- The scanner numbers lines from 1, so nothing on line 0 stands at a class. -/
theorem Scan.not_standsAt_of_line_zero {name : String} {window : LockWindow} {code : List Char}
    {c : ClassProfile} (member : c ∈ profiles name window code) {issue : Issue}
    (top : issue.line = 0) : ¬ issue.StandsAt c := by
  obtain ⟨region, -, -, rfl⟩ := exists_region member
  rintro ⟨-, header | ⟨m, locking, method⟩⟩
  -- The line of a header and that of a method are indices of lines plus one.
  · have positive : 0 < (profile name window region).startLine := Nat.succ_pos _
    omega
  · obtain ⟨d, -, found⟩ := List.mem_filterMap.mp locking
    obtain ⟨-, -, rfl⟩ := lockingMethod?_eq_some_iff.mp found
    simp only [top] at method
    omega

/-- A method without a twin is reported on its own line. -/
theorem Trigger.line_of_mem_missingUnlockedMethod {p : ClassProfile} {finding : Finding}
    (found : finding ∈ missingUnlockedMethod p) :
    ∃ m ∈ p.lockingMethods, m.line = finding.line := by
  -- Only a method that lacks a twin makes a finding.
  obtain ⟨m, locking, missing⟩ := List.mem_filterMap.mp found
  simp only [Option.ite_none_left_eq_some, Option.some.injEq] at missing
  obtain ⟨-, rfl⟩ := missing
  exact ⟨m, locking, rfl⟩

/-- Several mutexes are reported on the line of the header. -/
theorem Trigger.line_of_mem_multipleMutexes {p : ClassProfile} {finding : Finding}
    (found : finding ∈ multipleMutexes p) : finding.line = p.startLine := by
  -- One mutex is no finding, and more of them are one.
  unfold multipleMutexes at found
  split at found
  · exact absurd found List.not_mem_nil
  · obtain rfl := List.mem_singleton.mp found
    rfl

/-- What an analysis reports stands at one of the classes it is about. -/
theorem Rule.standsAt_of_mem_evaluate {settings : RuleSettings} {name : String}
    {profiles : List ClassProfile} {content : FileLines} {issue : Issue}
    (named : ∀ p ∈ profiles, p.file = name)
    (member : issue ∈ evaluate .analyze settings name profiles content) :
    issue.rule ≠ RuleId.fileReadError.name ∧ ∃ p ∈ profiles, issue.StandsAt p := by
  obtain ⟨rule, active, reported⟩ := List.mem_flatMap.mp member
  obtain ⟨inTable, on⟩ := List.mem_filter.mp active
  obtain ⟨finding, found, rfl⟩ := List.mem_map.mp reported
  have noneUnreadable : ∀ rule ∈ table, rule.id ≠ .fileReadError := by simp [table]
  refine ⟨fun same => noneUnreadable rule inTable (RuleId.eq_of_name_eq same), ?_⟩
  -- Both rules of an analysis look at one class at a time, at its methods or at its header.
  obtain ⟨find, which, -, findings⟩ := findings_of_includes inTable (Bool.and_eq_true_iff.mp on).1
  rw [findings] at found
  obtain ⟨p, inFile, reported⟩ := List.mem_flatMap.mp found
  refine ⟨p, inFile, (named p inFile).symm, ?_⟩
  simp only [List.mem_cons, List.not_mem_nil, or_false] at which
  rcases which with rfl | rfl
  · exact .inr (Trigger.line_of_mem_missingUnlockedMethod reported)
  · exact .inl (Trigger.line_of_mem_multipleMutexes reported)

namespace Run

variable {ws : Workspace} {options : RunOptions} {paths : List Path}

/-- A file cannot be read, asks to be ignored, or is scanned and evaluated as a whole. -/
theorem file_cases (ws : Workspace) (options : RunOptions) (path : Path) :
    (∃ name cause, file ws options path = ⟨false, [], [unreadableIssue name cause]⟩) ∨
    file ws options path = ⟨false, [], []⟩ ∨
    ∃ name code content, file ws options path =
      ⟨true, Scan.profiles name options.window code, Rule.evaluate options.flavor options.rules
        name (Scan.profiles name options.window code) content⟩ := by
  -- A file is read first; then its first lines tell whether it is scanned.
  unfold file
  cases ws.read path with
  | error cause => exact .inl ⟨_, cause, rfl⟩
  | ok bytes =>
    simp only [SourceFile.check]
    split
    · exact .inr (.inl rfl)
    · exact .inr (.inr ⟨_, _, _, rfl⟩)

/-- A class of a run is one that the scanner found in some file. -/
theorem exists_profiles {c : ClassProfile} (member : c ∈ (files ws options paths).classes) :
    ∃ name window code, c ∈ Scan.profiles name window code := by
  -- Classes come from the reports of files, and only a scanned file has any.
  obtain ⟨report, reports, inReport⟩ := List.mem_flatMap.mp member
  obtain ⟨path, -, rfl⟩ := List.mem_map.mp reports
  rcases file_cases ws options path with
    ⟨name, cause, shape⟩ | shape | ⟨name, code, content, shape⟩
  · rw [shape] at inReport
    exact absurd inReport List.not_mem_nil
  · rw [shape] at inReport
    exact absurd inReport List.not_mem_nil
  · rw [shape] at inReport
    exact ⟨name, options.window, code, inReport⟩

/-- An issue of an analysis says that a file cannot be read, or stands at a class of the run. -/
theorem standsAt_of_mem_issues (analysis : options.flavor = .analyze) {issue : Issue}
    (member : issue ∈ (files ws options paths).issues) :
    issue.rule = RuleId.fileReadError.name ∧ issue.line = 0 ∨
      issue.rule ≠ RuleId.fileReadError.name ∧
        ∃ c ∈ (files ws options paths).classes, issue.StandsAt c := by
  obtain ⟨report, reports, inReport⟩ := List.mem_flatMap.mp member
  -- The classes of the file are among those of the run.
  have inRun : ∀ c ∈ report.classes, c ∈ (files ws options paths).classes :=
    fun c inFile => List.mem_flatMap.mpr ⟨report, reports, inFile⟩
  obtain ⟨path, -, rfl⟩ := List.mem_map.mp reports
  -- An unreadable file has that issue alone, and an ignored one has none.
  rcases file_cases ws options path with
    ⟨name, cause, shape⟩ | shape | ⟨name, code, content, shape⟩
  · rw [shape] at inReport
    obtain rfl := List.mem_singleton.mp inReport
    exact .inl ⟨rfl, rfl⟩
  · rw [shape] at inReport
    exact absurd inReport List.not_mem_nil
  · rw [shape] at inReport inRun
    rw [analysis] at inReport
    obtain ⟨byRule, c, inFile, stands⟩ :=
      Rule.standsAt_of_mem_evaluate (fun p => Scan.file_of_mem_profiles) inReport
    exact .inr ⟨byRule, c, inRun c inFile, stands⟩

end Run

namespace Report

open LockDiscipline.Span (plain)

/-- An issue belongs to a class exactly if it stands at it. -/
theorem attributes_iff {c : ClassProfile} {issue : Issue} :
    attributes c issue = true ↔ issue.StandsAt c := by
  -- The report tests the file first and then the lines.
  simp [attributes, Issue.StandsAt]

/-- The issues that belong to a class are those that stand at it. -/
theorem classIssues_eq (result : CheckResult) (c : ClassProfile) :
    classIssues result.issues c = result.issuesAt c :=
  -- Both choose among the issues of the result, by conditions that agree.
  List.filter_congr fun issue _ => by rw [Bool.eq_iff_iff, attributes_iff, decide_eq_true_iff]

/-- The issues that belong to no class are those that are not among the issues of any. -/
theorem looseIssues_eq (result : CheckResult) : looseIssues result = result.issuesElsewhere := by
  refine List.filter_congr fun issue member => ?_
  rw [Bool.eq_iff_iff, decide_eq_true_iff]
  -- For an issue of the result, to be among those of a class is to stand at it.
  simp [CheckResult.issuesAt, member, ← attributes_iff]

/-- The loose issues of an analysis are those of files that could not be read. -/
theorem looseIssues_analysis {ws : Workspace} {options : RunOptions} {paths : List Path}
    (analysis : options.flavor = .analyze) :
    looseIssues (Run.files ws options paths) = (Run.files ws options paths).issues.filter
      fun issue => issue.rule = RuleId.fileReadError.name := by
  refine List.filter_congr fun issue member => ?_
  have loose : (!(Run.files ws options paths).classes.any fun c => attributes c issue) = true ↔
      ∀ c ∈ (Run.files ws options paths).classes, ¬ issue.StandsAt c := by
    simp [← attributes_iff]
  rw [Bool.eq_iff_iff, decide_eq_true_iff, loose]
  rcases Run.standsAt_of_mem_issues analysis member with
    ⟨unread, top⟩ | ⟨byRule, c, inRun, stands⟩
  · -- Line 0 is the line of no class.
    refine iff_of_true (fun c inRun => ?_) unread
    obtain ⟨name, window, code, found⟩ := Run.exists_profiles inRun
    exact Scan.not_standsAt_of_line_zero found top
  · exact iff_of_false (fun none => none c inRun stands) byRule

/-- A text holds another one. -/
def Holds (text part : String) : Prop :=
  part.toList <:+: text.toList

/-- Texts put together hold each of them. -/
theorem holds_join {texts : List String} {text : String} (member : text ∈ texts) :
    Holds (String.join texts) text := by
  -- The texts are put one behind the other, so each is a stretch of the whole.
  rw [Holds, String.toList_join]
  exact List.infix_of_mem_flatten (List.mem_map_of_mem member)

/-- What one part of a text holds, the text holds. -/
theorem Holds.within {text part : String} (held : Holds text part) (front back : String) :
    Holds (front ++ text ++ back) part := by
  -- The text itself is a stretch of what is put together around it.
  rw [Holds, String.toList_append, String.toList_append]
  exact held.trans (List.infix_append _ _ _)

/-- Lines below a title are all shown. -/
theorem holds_titledText {lines : List String} {line : String} (member : line ∈ lines)
    (title : String) : Holds (titledText title lines) line := by
  -- There is a line, so the title is shown with all of them below.
  have inhabited : ¬ lines.isEmpty = true := by
    simpa using List.ne_nil_of_mem member
  rw [titledText, if_neg inhabited]
  exact (holds_join member).within _ _

/-- The section of a class shows each of its issues. -/
theorem holds_sectionText {c : ClassProfile} {issues : List Issue} {issue : Issue}
    (member : issue ∈ issues) : Holds (sectionText c issues) (entryText issue) :=
  -- The list of issues is one part of the section, and it shows each of them.
  (holds_titledText (List.mem_map_of_mem member) "### Potential Issues:").within _ _

/--
The report of an analysis drops no issue and attributes each of them correctly.

The report without colour is a head, the sections of the classes with the issues that stand at
them, the issues that stand at no class and the counts. Read back by its titles, it shows the same
issues under the same titles. So every issue of the result is shown, with its severity and message
in the section of a class it stands at, or with its place as well if it stands at none, also when
there are no classes. In a run of an analysis the issues at no class are those of the files that
could not be read.
-/
theorem byClass_shows_every_issue :
    (∀ result : CheckResult,
      let text := Document.render false (byClass result)
      text = headText result.classes ++
        String.join (result.classes.map fun c => sectionText c (result.issuesAt c)) ++
        titledText "## Other Issues" (result.issuesElsewhere.map otherText) ++
        countsText result ∧
      shownByClass (byClass result) = (result.classes.map fun c =>
        (⟨[.bold], "## Class: " ++ c.name⟩,
          (result.issuesAt c).map fun issue => plain (entryText issue))) ∧
      Document.render false (shownOthers (byClass result)) =
        String.join (result.issuesElsewhere.map otherText) ∧
      ∀ issue ∈ result.issues,
        (∃ c ∈ result.classes, issue.StandsAt c ∧
          Holds (sectionText c (result.issuesAt c)) (entryText issue) ∧
          Holds text (sectionText c (result.issuesAt c))) ∨
        (∀ c ∈ result.classes, ¬ issue.StandsAt c) ∧ Holds text (otherText issue)) ∧
    ∀ (ws : Workspace) (options : RunOptions) (paths : List Path), options.flavor = .analyze →
      (Run.files ws options paths).issuesElsewhere = (Run.files ws options paths).issues.filter
        fun issue => issue.rule = "FILE_READ_ERROR" := by
  refine ⟨fun result => ?_, fun ws options paths analysis => ?_⟩
  · -- The text is given by the document, with the issues of each class told by their places.
    have written : Document.render false (byClass result) = headText result.classes ++
        String.join (result.classes.map fun c => sectionText c (result.issuesAt c)) ++
        titledText "## Other Issues" (result.issuesElsewhere.map otherText) ++
        countsText result := by
      rw [render_byClass, looseIssues_eq]
      simp only [classIssues_eq]
    refine ⟨written, ?_, ?_, fun issue member => ?_⟩
    · rw [shownByClass_byClass]
      simp only [classIssues_eq, classTitle]
    · rw [shownOthers_byClass, looseIssues_eq, render_flatMap]
      simp only [render_looseIssueLine]
    · -- Either the issue stands at some class, or at none and it is listed with the others.
      rw [written]
      by_cases attributed : ∃ c ∈ result.classes, issue.StandsAt c
      · obtain ⟨c, known, stands⟩ := attributed
        have belongs : issue ∈ result.issuesAt c :=
          List.mem_filter.mpr ⟨member, decide_eq_true stands⟩
        refine .inl ⟨c, known, stands, holds_sectionText belongs, ?_⟩
        rw [String.append_assoc]
        exact (holds_join (List.mem_map_of_mem known)).within _ _
      · have none : ∀ c ∈ result.classes, ¬ issue.StandsAt c :=
          fun c known stands => attributed ⟨c, known, stands⟩
        have elsewhere : issue ∈ result.issuesElsewhere := by
          refine List.mem_filter.mpr ⟨member, decide_eq_true fun c known belongs => ?_⟩
          exact none c known (of_decide_eq_true (List.mem_filter.mp belongs).2)
        exact .inr ⟨none,
          (holds_titledText (List.mem_map_of_mem elsewhere) "## Other Issues").within _ _⟩
  · -- In an analysis only unreadable files have issues that stand at no class.
    rw [← looseIssues_eq]
    exact looseIssues_analysis analysis

/-- A class with an issue on its header, and an analysis of a file that is not there. -/
theorem byClass_shows_every_issue_of_class_and_missing_file :
    let c : ClassProfile := ⟨"Player", "a.h", 3, ["first", "second"], [], []⟩
    let issue : Issue := ⟨.warning, "a.h", 3, "Class has 2 mutexes", none, "MULTIPLE_MUTEXES"⟩
    let missing := Run.files ⟨⟨[]⟩, []⟩ { flavor := .analyze } [⟨"b.h"⟩]
    Document.render false (byClass ⟨[c], [issue], .tally [issue] 1 1⟩) =
      "# Threading Safety Analysis\n\nFound 1 classes with threading concerns:\n\n" ++
        "## Class: Player\nFile: a.h:3\n\n### Mutex Members:\n  - first\n  - second\n\n" ++
        "### Potential Issues:\n  - [warning] Class has 2 mutexes\n\n" ++
        "----------------------------------------\n\n" ++
        "## Summary\n- Files scanned: 1\n- Classes analyzed: 1\n" ++
        "- Public lock-acquiring methods: 0\n" ++
        "- Potential threading issues: 1 (0 errors, 1 warnings, 0 info)\n\n" ++
        "## Classes with most potential issues\n  - Player: 1 issues\n" ∧
    missing.issuesElsewhere = missing.issues ∧
    Document.render false (byClass missing) =
      "# Threading Safety Analysis\n\nNo classes with mutex usage found.\n" ++
        "## Other Issues\n  - [warning] b.h:0 — Could not read file: " ++
        "No such file or directory (os error 2)\n\n" := by
  intro c issue missing
  -- The file is not there, and its only issue says so.
  have unread : missing.issuesElsewhere = missing.issues := by
    rw [byClass_shows_every_issue.2 _ _ _ rfl]
    decide
  refine ⟨?_, unread, ?_⟩
  · rw [(byClass_shows_every_issue.1 _).1]
    decide +kernel
  · rw [(byClass_shows_every_issue.1 _).1, unread]
    decide +kernel

end Report

end LockDiscipline
