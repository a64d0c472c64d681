import LockDiscipline.Cli.Execute
import LockDiscipline.Proofs.Files.Tree

/-! Reports in files: what is written is what would be printed, and a failure changes nothing. -/

namespace LockDiscipline

open LockDiscipline.Text

namespace Command

/-- A command on files with its report sent to a file, or printed if there is none. -/
def withOutput (output : Option Path) : Command → Command
  | .check arguments strict fixSuggestions => .check { arguments with output } strict fixSuggestions
  | .analyze arguments => .analyze { arguments with output }
  | command => command

/-- The overrides that a command on files brings along; the other commands have no settings. -/
def overrides? : Command → Option Overrides
  | .check arguments strict fixSuggestions => some (Cli.overridesOf arguments strict fixSuggestions)
  | .analyze arguments => some (Cli.overridesOf arguments false false)
  | _ => none

end Command

namespace Cli

/-- A command on files runs over them in its flavor, wherever its report goes. -/
theorem execute_withOutput {command : Command} {overrides : Overrides}
    (onFiles : command.overrides? = some overrides) :
    ∃ flavor, ∃ arguments : FileArguments, ∀ ws color output,
      execute ws color (command.withOutput output) =
        runFlavor ws color flavor { arguments with output } overrides := by
  -- Checks and analyses take files; the other two commands have no overrides.
  cases command with
  | check arguments strict fixSuggestions =>
    obtain rfl := Option.some.inj onFiles
    exact ⟨.check, arguments, fun _ _ _ => rfl⟩
  | analyze arguments =>
    obtain rfl := Option.some.inj onFiles
    exact ⟨.analyze, arguments, fun _ _ _ => rfl⟩
  | rules format => cases onFiles
  | version => cases onFiles

/-- Without usable settings nothing is printed and nothing changes. -/
theorem runFlavor_of_error {ws : Workspace} {overrides : Overrides} {e : ConfigError}
    (rejected : Config.resolve ws overrides = .error e) (color : Bool) (flavor : Flavor)
    (arguments : FileArguments) :
    let outcome := runFlavor ws color flavor arguments overrides
    outcome.status = .failure ∧ outcome.stdout = "" ∧ outcome.workspace = ws := by
  -- Settings come first, so nothing else is done.
  unfold runFlavor
  rw [rejected]
  exact ⟨rfl, rfl, rfl⟩

/-- With usable settings a run comes down to one report, which does not depend on where it goes. -/
theorem runFlavor_of_ok {ws : Workspace} {overrides : Overrides} {settings : Effective}
    (accepted : Config.resolve ws overrides = .ok settings) (flavor : Flavor)
    (arguments : FileArguments) :
    ∃ text status, ∃ notes : Bool → List String,
      runFlavor ws false flavor { arguments with output := none } overrides =
        emit ws false (notes false) none text status ∧
      ∀ color path, runFlavor ws color flavor { arguments with output := some path } overrides =
        emit ws color (notes color) (some path) text status := by
  unfold runFlavor
  rw [accepted]
  -- Neither a report in a file nor one without colour asks whether colour is allowed.
  have plain : settings.format.usesColor false = false := by
    cases settings.format <;> rfl
  simp only [plain, Bool.and_false, Option.isNone_some, Bool.false_and]
  exact ⟨_, _, fun color => Notice.noFiles color settings _, rfl, fun _ _ => rfl⟩

/-- A report that cannot be written is a failure that prints nothing. -/
theorem emit_of_error {ws : Workspace} {path : Path} {cause : FileError}
    (refused : ws.locateTarget path = .error cause) (color : Bool) (notes : List String)
    (text : String) (status : ExitStatus) :
    let outcome := emit ws color notes (some path) text status
    outcome.status = .failure ∧ outcome.stdout = "" ∧ outcome.workspace = ws := by
  -- A target that is not found cannot be written, whatever the bytes are.
  have unwritten : ∀ bytes, ws.write path bytes = .error cause := by
    intro bytes
    rw [Workspace.write, refused]
    rfl
  simp only [emit, unwritten, failed, and_self]

/-- A report that is written is the one that would be printed. -/
theorem emit_of_ok {ws : Workspace} {path : Path} {target : List String}
    (located : ws.locateTarget path = .ok target) (color : Bool) (notes : List String)
    (text : String) (status : ExitStatus) :
    let outcome := emit ws color notes (some path) text status
    let printed := emit ws false notes none text status
    outcome.status = printed.status ∧
      outcome.stdout = "Report written to " ++ path.text ++ "\n" ∧
      ws.write path (Utf8.encode printed.stdout.toList) = .ok outcome.workspace := by
  -- With its target found, writing puts one file into the tree.
  have written : ∀ bytes, ws.write path bytes =
      .ok { ws with tree := ws.tree.put target (.file bytes) } := by
    intro bytes
    rw [Workspace.write, located]
    rfl
  simp only [emit, written, and_self]

/--
A report in a file is the report that would be printed.

If the settings are usable and the file can be written, a command that sends its report to a file
ends with the same status as one that prints it without colour. The file then holds what that one
prints, no other place in the tree is touched, and one line says where the report is. If the
settings are not usable or the file cannot be written, the exit code is 3 and nothing is printed;
without usable settings nothing in the workspace changes either.
-/
theorem report_file_agrees (ws : Workspace) (color : Bool) (command : Command)
    (overrides : Overrides) (onFiles : command.overrides? = some overrides) :
    (∀ e output, Config.resolve ws overrides = .error e →
      let outcome := execute ws color (command.withOutput output)
      outcome.status.code = 3 ∧ outcome.stdout = "" ∧ outcome.workspace = ws) ∧
    ∀ settings path, Config.resolve ws overrides = .ok settings →
      let outcome := execute ws color (command.withOutput (some path))
      let printed := execute ws false (command.withOutput none)
      (∀ cause, ws.locateTarget path = .error cause →
        outcome.status.code = 3 ∧ outcome.stdout = "") ∧
      ∀ target, ws.locateTarget path = .ok target →
        outcome.status = printed.status ∧
        outcome.stdout = "Report written to " ++ path.text ++ "\n" ∧
        outcome.workspace.read path = .ok (Utf8.encode printed.stdout.toList) ∧
        outcome.workspace.directory = ws.directory ∧
        ∀ names, names ≠ target →
          outcome.workspace.tree.lookup? names = ws.tree.lookup? names := by
  obtain ⟨flavor, arguments, runs⟩ := execute_withOutput onFiles
  simp only [runs]
  constructor
  · -- Unusable settings stop the run before the target is looked at.
    intro e output rejected
    obtain ⟨status, silent, unchanged⟩ :=
      runFlavor_of_error rejected color flavor { arguments with output }
    exact ⟨by rw [status]; rfl, silent, unchanged⟩
  · intro settings path accepted
    -- Otherwise report and status do not depend on where the report goes.
    obtain ⟨text, status, notes, printed, stored⟩ := runFlavor_of_ok accepted flavor arguments
    rw [printed, stored color path]
    constructor
    · intro cause refused
      obtain ⟨failure, silent, -⟩ := emit_of_error refused color (notes color) text status
      exact ⟨by rw [failure]; rfl, silent⟩
    · intro target located
      obtain ⟨same, line, written⟩ := emit_of_ok located color (notes color) text status
      -- What is written can be read back, and nothing else is touched.
      obtain ⟨place, found, held, stays, others⟩ := Workspace.write_eq_ok written
      obtain rfl : target = place := Except.ok.inj (located.symm.trans found)
      exact ⟨same, line, held, stays, others⟩

/-- A check that finds an unlock by hand, with its report in a directory of its own. -/
theorem report_file_agrees_unlock :
    let ws : Workspace := ⟨⟨[(["a.h"], .file (Utf8.encode "m.unlock();".toList)),
      (["out"], .directory)]⟩, []⟩
    let command : Command := .check { paths := [⟨"a.h"⟩] } false false
    let outcome := execute ws true (command.withOutput (some ⟨"out/report.txt"⟩))
    let printed := execute ws false (command.withOutput none)
    let text := "Threading Safety Issues Report\n========================================\n\n" ++
      "✖ ERRORS (must fix):\n" ++
      "  a.h:1 — Manual lock/unlock detected - use RAII lock guards instead\n\n" ++
      "Summary: 1 errors, 0 warnings, 0 info (1 files, 0 classes)\n"
    printed.status = .errors ∧ printed.stdout = text ∧ outcome.status = .errors ∧
      outcome.stdout = "Report written to out/report.txt\n" ∧
      outcome.workspace.read ⟨"out/report.txt"⟩ = .ok (Utf8.encode printed.stdout.toList) ∧
      outcome.workspace.read ⟨"out/report.txt"⟩ = .ok (Utf8.encode text.toList) := by
  intro ws command outcome printed text
  -- Settings and target are computed; of both only that they exist matters here.
  have finds {ε α : Type} {x : Except ε α} (found : x.isOk = true) : ∃ a, x = .ok a := by
    cases x with
    | error e => cases found
    | ok a => exact ⟨a, rfl⟩
  have usable :
      (Config.resolve ws (overridesOf { paths := [⟨"a.h"⟩] } false false)).isOk = true := by
    decide +kernel
  have writable : (ws.locateTarget ⟨"out/report.txt"⟩).isOk = true := by
    decide +kernel
  obtain ⟨errors, shown⟩ : printed.status = .errors ∧ printed.stdout = text := by
    decide +kernel
  obtain ⟨settings, accepted⟩ := finds usable
  obtain ⟨target, located⟩ := finds writable
  obtain ⟨same, line, held, -, -⟩ :=
    ((report_file_agrees ws true command _ rfl).2 settings ⟨"out/report.txt"⟩ accepted).2 target
      located
  exact ⟨errors, shown, same.trans errors, line, held, shown ▸ held⟩

end Cli

end LockDiscipline
