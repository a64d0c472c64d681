import LockDiscipline.Proofs.Rule.Evaluate
import LockDiscipline.Report.Format
import LockDiscipline.Rule.Settings
import LockDiscipline.Run

/-! Runs over many files: results add up file by file, and settings decide what rules report. -/

namespace LockDiscipline

open LockDiscipline.Text

/-- The counts of two reports, field by field. -/
instance : Add Summary where
  add x y :=
    { errors := x.errors + y.errors
      warnings := x.warnings + y.warnings
      infos := x.infos + y.infos
      files := x.files + y.files
      classes := x.classes + y.classes }

/-- One result after another, with their counts added up. -/
instance : Append CheckResult where
  append x y := ⟨x.classes ++ y.classes, x.issues ++ y.issues, x.summary + y.summary⟩

/-- Tallies of issues add up. -/
theorem Summary.tally_append (first second : List Issue) (files classes more others : Nat) :
    tally (first ++ second) (files + more) (classes + others) =
      tally first files classes + tally second more others := by
  -- Of each severity, the issues of both lists are counted.
  simp only [tally, countSeverity, List.countP_append]
  rfl

/-- Every issue is an error, a warning or an information, and only one of these. -/
theorem countSeverity_total (issues : List Issue) :
    countSeverity .error issues + countSeverity .warning issues + countSeverity .info issues =
      issues.length := by
  unfold countSeverity
  induction issues with
  | nil => rfl
  | cons issue rest ih =>
    -- The first issue is counted once, under its own severity.
    simp only [List.countP_cons, List.length_cons]
    cases issue.severity <;> simp <;> omega

namespace CheckResult

/-- A summary that counts what the result holds. -/
structure Tallied (result : CheckResult) : Prop where
  errors : result.summary.errors = result.issues.countP (·.severity = .error)
  warnings : result.summary.warnings = result.issues.countP (·.severity = .warning)
  infos : result.summary.infos = result.issues.countP (·.severity = .info)
  total : result.summary.errors + result.summary.warnings + result.summary.infos =
    result.issues.length
  classes : result.summary.classes = result.classes.length

/-- The exit code by the counts that decide it. -/
theorem code_exitStatus (result : CheckResult) (strict : Bool) :
    (result.exitStatus strict).code =
      if 0 < result.summary.errors then 2
      else if 0 < result.summary.warnings ∧ strict = true then 1 else 0 := by
  -- Errors come first; warnings only count in a strict run.
  simp only [exitStatus, Bool.and_eq_true, decide_eq_true_eq]
  split
  · rfl
  · split <;> rfl

/-- The worse of two results decides the exit code of both together. -/
theorem code_exitStatus_append (x y : CheckResult) (strict : Bool) :
    ((x ++ y).exitStatus strict).code =
      max (x.exitStatus strict).code (y.exitStatus strict).code := by
  -- A count of both is positive as soon as it is in one of them.
  have errors : 0 < (x ++ y).summary.errors ↔ 0 < x.summary.errors ∨ 0 < y.summary.errors :=
    Nat.add_pos_iff_pos_or_pos
  have warnings : 0 < (x ++ y).summary.warnings ↔
      0 < x.summary.warnings ∨ 0 < y.summary.warnings := Nat.add_pos_iff_pos_or_pos
  simp only [code_exitStatus, errors, warnings]
  grind

end CheckResult

namespace Run

/-- Whether a file can be read and does not ask to be ignored. -/
def scans (ws : Workspace) (path : Path) : Bool :=
  match ws.read path with
  | .ok bytes => !SourceFile.isIgnored (Utf8.decode bytes)
  | .error _ => false

/-- A report says of a file whether it was scanned. -/
theorem scanned_file (ws : Workspace) (options : RunOptions) (path : Path) :
    (file ws options path).scanned = scans ws path := by
  unfold file scans
  cases ws.read path with
  | error cause => rfl
  | ok bytes =>
    -- The directive is looked for in the text as it was read, comments included.
    cases ignored : SourceFile.isIgnored (Utf8.decode bytes) <;>
      simp [SourceFile.check, SourceFile.ofText, ignored]

/-- Reports that are collected in two steps are collected in one. -/
theorem collect_append (first second : List FileReport) :
    collect (first ++ second) = collect first ++ collect second := by
  -- Classes and issues are appended, and their counts add up.
  simp only [collect, List.flatMap_append, List.countP_append, List.length_append,
    Summary.tally_append]
  rfl

/-- The summary of collected reports counts what they hold. -/
theorem tallied_collect (reports : List FileReport) : (collect reports).Tallied where
  -- The counts are taken from what is collected.
  errors := rfl
  warnings := rfl
  infos := rfl
  total := countSeverity_total _
  classes := rfl

/-- The number of files in a summary is that of the files that were scanned. -/
theorem files_summary (ws : Workspace) (options : RunOptions) (paths : List Path) :
    (files ws options paths).summary.files = paths.countP (scans ws) := by
  -- Whether a file is scanned does not depend on the options.
  have each : (FileReport.scanned ∘ file ws options) = scans ws :=
    funext (scanned_file ws options)
  simp only [files, collect, Summary.tally, List.countP_map, each]

/--
A run is the sum of the runs over its files.

No file gives the empty result. Two lists of files give one result after the other, with the
counts added up and the worse of the two exit codes. The summary of every run counts its issues by
severity, its classes, and the files that can be read and do not ask to be ignored.
-/
theorem files_homomorphism (ws : Workspace) (options : RunOptions) :
    files ws options [] = ⟨[], [], {}⟩ ∧
    (∀ first second, files ws options (first ++ second) =
      files ws options first ++ files ws options second) ∧
    (∀ paths, (files ws options paths).Tallied ∧
      (files ws options paths).summary.files = paths.countP (scans ws)) ∧
    ∀ first second strict, ((files ws options (first ++ second)).exitStatus strict).code =
      max ((files ws options first).exitStatus strict).code
        ((files ws options second).exitStatus strict).code := by
  -- The files are run one by one, so two lists of them make two lists of reports.
  have append : ∀ first second, files ws options (first ++ second) =
      files ws options first ++ files ws options second := by
    intro first second
    rw [files, List.map_append, collect_append]
    rfl
  refine ⟨rfl, append, fun paths => ⟨tallied_collect _, files_summary ws options paths⟩, ?_⟩
  intro first second strict
  rw [append, CheckResult.code_exitStatus_append]

/-- Every issue of an evaluation is reported by a rule that settings leave on, at its level. -/
theorem exists_active_rule {flavor : Flavor} {settings : RuleSettings} {name : String}
    {profiles : List ClassProfile} {content : FileLines} {issue : Issue}
    (member : issue ∈ Rule.evaluate flavor settings name profiles content) :
    ∃ rule ∈ Rule.table, settings.isEnabled rule.id = true ∧ issue.rule = rule.id.name ∧
      issue.severity = (settings.level? rule.id).getD rule.severity := by
  -- An issue is made of a finding by a rule that was selected.
  obtain ⟨rule, active, reported⟩ := List.mem_flatMap.mp member
  obtain ⟨inTable, on⟩ := List.mem_filter.mp active
  obtain ⟨finding, -, rfl⟩ := List.mem_map.mp reported
  exact ⟨rule, inTable, (Bool.and_eq_true_iff.mp on).2, rfl, rfl⟩

/-- Every issue of a run says that a file cannot be read, or is reported by a rule that is on. -/
theorem issue_origin {ws : Workspace} {options : RunOptions} {paths : List Path} {issue : Issue}
    (member : issue ∈ (files ws options paths).issues) :
    (∃ path ∈ paths, ∃ cause, ws.read path = .error cause ∧
      issue = unreadableIssue (path.shownFrom ws.directory) cause) ∨
    ∃ rule ∈ Rule.table, options.rules.isEnabled rule.id = true ∧ issue.rule = rule.id.name ∧
      issue.severity = (options.rules.level? rule.id).getD rule.severity := by
  -- An issue of the run is an issue of one of its files.
  obtain ⟨report, reports, inReport⟩ := List.mem_flatMap.mp member
  obtain ⟨path, asked, rfl⟩ := List.mem_map.mp reports
  unfold file at inReport
  cases read : ws.read path with
  | error cause =>
    rw [read] at inReport
    exact .inl ⟨path, asked, cause, read, List.mem_singleton.mp inReport⟩
  | ok bytes =>
    rw [read] at inReport
    simp only [SourceFile.check] at inReport
    split at inReport
    · exact absurd inReport List.not_mem_nil
    · exact .inr (exists_active_rule inReport)

/--
Settings decide what the rules of the table report.

A rule that settings switch off reports nothing, and one that they give a level reports at exactly
that level. Issues about unreadable files do not come from the table: they are warnings.
-/
theorem settings_decide (ws : Workspace) (options : RunOptions) (paths : List Path) :
    ∀ issue ∈ (files ws options paths).issues, ∀ id, issue.rule = id.name →
      if id = .fileReadError then issue.severity = .warning
      else options.rules.isEnabled id = true ∧
        ∀ severity, options.rules.level? id = some severity → issue.severity = severity := by
  intro issue member id named
  have unreadableApart : ∀ rule ∈ Rule.table, rule.id ≠ .fileReadError := by
    simp [Rule.table]
  -- An issue says that a file cannot be read, or a rule reports it; the two do not overlap.
  rcases issue_origin member with ⟨path, -, cause, -, rfl⟩ | ⟨rule, inTable, on, byRule, level⟩
  · obtain rfl : RuleId.fileReadError = id := RuleId.eq_of_name_eq named
    rw [if_pos rfl]
    rfl
  · obtain rfl : rule.id = id := RuleId.eq_of_name_eq (byRule.symm.trans named)
    rw [if_neg (unreadableApart rule inTable)]
    refine ⟨on, fun severity asked => ?_⟩
    rw [level, asked, Option.getD_some]

/-- A file that unlocks by hand, run with that rule lowered to an information. -/
theorem settings_decide_lowered :
    let ws : Workspace := ⟨⟨[(["a.h"], .file (Utf8.encode "m.unlock();".toList))]⟩, []⟩
    let options : RunOptions := { rules := { levels := [(.manualLockUnlock, .info)] } }
    ∃ issue ∈ (files ws options [⟨"a.h"⟩, ⟨"b.h"⟩]).issues,
      issue.rule = RuleId.manualLockUnlock.name ∧ issue.severity = .info := by
  intro ws options
  let issue : Issue :=
    { severity := .info
      file := "a.h"
      line := 1
      message := "Manual lock/unlock detected - use RAII lock guards instead"
      suggestion := some "Replace with std::lock_guard<std::mutex> lock(mutex_name);"
      rule := "MANUAL_LOCK_UNLOCK" }
  -- The issue is computed, and the general statement gives its level.
  have member : issue ∈ (files ws options [⟨"a.h"⟩, ⟨"b.h"⟩]).issues := by decide +kernel
  have governed := settings_decide ws options _ issue member .manualLockUnlock rfl
  exact ⟨issue, member, rfl, governed.2 .info rfl⟩

/-- An unreadable file is reported as a warning although settings switch that report off. -/
theorem unreadable_file_escapes_settings :
    ∃ settings, RuleSettings.ofEntries
        [("FILE_READ_ERROR", { enabled := some false, level := some "info" })] = .ok settings ∧
      settings.isEnabled .fileReadError = false ∧
      settings.level? .fileReadError = some .info ∧
      (files ⟨⟨[]⟩, []⟩ { rules := settings } [⟨"missing.h"⟩]).issues =
        [{ severity := .warning
           file := "missing.h"
           line := 0
           message := "Could not read file: No such file or directory (os error 2)"
           suggestion := none
           rule := RuleId.fileReadError.name }] := by
  -- The section is read without an error, so the settings are valid.
  refine ⟨{ disabled := [.fileReadError], levels := [(.fileReadError, .info)] }, ?_, ?_, ?_, ?_⟩
  · rw [RuleSettings.ofEntries, RuleSettings.sortEntries, List.mergeSort_singleton]
    rfl
  · decide
  · decide
  · decide +kernel

end Run

end LockDiscipline
