import LockDiscipline.Files.Tree
import LockDiscipline.Source

/-! A run over many files: each file is read and checked on its own, in order. -/

namespace LockDiscipline

open LockDiscipline.Text

/-- What a run is asked to do. -/
structure RunOptions where
  flavor : Flavor := .check
  /-- Whether comments and literals are blanked before the scan. -/
  blank : Bool := true
  /-- How many lines from a signature on are searched for its locks. -/
  methodWindow : UInt64 := 20
  rules : RuleSettings := {}
deriving DecidableEq, Repr

namespace RunOptions

/-- How many lines above a signature are searched for its locks. -/
def linesBefore : UInt64 := 2

/-- Where a run looks for the locks of a method. -/
def window (options : RunOptions) : LockWindow :=
  match options.flavor with
  | .check => .lines linesBefore options.methodWindow
  | .analyze => .classBody

end RunOptions

/-- The issue of a file that could not be read. -/
def unreadableIssue (name : String) (cause : FileError) : Issue where
  severity := .warning
  file := name
  line := 0
  message := "Could not read file: " ++ cause.message
  suggestion := none
  rule := RuleId.fileReadError.name

/-- Reads and checks one file; a file that cannot be read becomes an issue. -/
def Run.file (ws : Workspace) (options : RunOptions) (path : Path) : FileReport :=
  let name := path.shownFrom ws.directory
  match ws.read path with
  | .ok bytes =>
    (SourceFile.ofText name (Utf8.decode bytes) options.blank).check options.window options.flavor
      options.rules
  | .error cause => ⟨false, [], [unreadableIssue name cause]⟩

/-- The reports of files put together. -/
def Run.collect (reports : List FileReport) : CheckResult :=
  let classes := reports.flatMap (·.classes)
  let issues := reports.flatMap (·.issues)
  ⟨classes, issues, .tally issues (reports.countP (·.scanned)) classes.length⟩

/-- The result of a run over files. -/
def Run.files (ws : Workspace) (options : RunOptions) (paths : List Path) : CheckResult :=
  Run.collect (paths.map (Run.file ws options))

end LockDiscipline
