import LockDiscipline.Cli.Arguments
import LockDiscipline.Config.Effective
import LockDiscipline.Discovery
import LockDiscipline.Report.ByClass
import LockDiscipline.Report.Data
import LockDiscipline.Report.Notice
import LockDiscipline.Report.RuleTable
import LockDiscipline.Run

/-! Carrying out a command in a workspace. -/

namespace LockDiscipline.Cli

open LockDiscipline.Text

/-- What a command leaves behind. -/
structure Outcome where
  status : ExitStatus
  stdout : String
  /-- The lines written to standard error. -/
  stderr : List String
  workspace : Workspace
deriving DecidableEq, Repr

/-- The version of the program. -/
def versionText : String := "0.1.0"

/-- A text without the white space at its end. -/
def withoutTrailingSpace (text : String) : String :=
  String.ofList (trimEnd text.toList)

/-- A command that could not be carried out. -/
def failed (ws : Workspace) (color : Bool) (notes causes : List String) : Outcome where
  status := .failure
  stdout := ""
  stderr := notes ++ [Notice.failure color causes]
  workspace := ws

/-- Prints a report, or writes it to a file and says so. -/
def emit (ws : Workspace) (color : Bool) (notes : List String) (output : Option Path)
    (report : String) (status : ExitStatus) : Outcome :=
  let body := withoutTrailingSpace report ++ "\n"
  match output with
  | none => ⟨status, body, notes, ws⟩
  | some path =>
    match ws.write path (Utf8.encode body.toList) with
    | .ok written => ⟨status, "Report written to " ++ path.text ++ "\n", notes, written⟩
    | .error cause =>
      failed ws color notes ["failed to write report to " ++ path.text, cause.message]

/-- The report of a result in the format and flavor asked for. -/
def report (flavor : Flavor) (settings : Effective) (color : Bool) (result : CheckResult) :
    String :=
  match flavor, settings.format with
  | .check, .json => (Report.checkValue result settings.fixSuggestions).pretty
  | .check, .human => Document.render color (Report.bySeverity result settings.fixSuggestions)
  | .analyze, .json => (Report.analysisValue result).pretty
  | .analyze, .human => Document.render color (Report.byClass result)

/-- The overrides that the arguments of a command stand for. -/
def overridesOf (arguments : FileArguments) (strict fixSuggestions : Bool) : Overrides where
  repoRoot := arguments.repoRoot
  strict := if strict then some true else none
  fixSuggestions := if fixSuggestions then some true else none
  format := arguments.format

/-- Finds the files, runs over them and reports. -/
def runFlavor (ws : Workspace) (color : Bool) (flavor : Flavor) (arguments : FileArguments)
    (overrides : Overrides) : Outcome :=
  match Config.resolve ws overrides with
  | .error e => failed ws color [] ("invalid configuration" :: e.chain)
  | .ok settings =>
    let files :=
      Discovery.files ws settings.repoRoot arguments.paths settings.dirs settings.extensions
    let result := Run.files ws
      { flavor
        blank := settings.stripComments
        methodWindow := settings.methodWindow
        rules := settings.rules }
      files
    -- A report that goes to a file is never coloured.
    let reportColor := arguments.output.isNone && settings.format.usesColor color
    emit ws color (Notice.noFiles color settings files) arguments.output
      (report flavor settings reportColor result) (result.exitStatus settings.strict)

/-- Lists the rules. -/
def runRules (ws : Workspace) (color : Bool) (format : Option String) : Outcome :=
  match OutputFormat.parse (format.getD OutputFormat.human.name) with
  | .error e => failed ws color [] e.chain
  | .ok format =>
    emit ws color [] none (Report.ruleTable format (format.usesColor color)) .clean

/-- Carries out a command; `color` says whether colour is allowed. -/
def execute (ws : Workspace) (color : Bool) : Command → Outcome
  | .version => ⟨.clean, versionText ++ "\n", [], ws⟩
  | .rules format => runRules ws color format
  | .check arguments strict fixSuggestions =>
    runFlavor ws color .check arguments (overridesOf arguments strict fixSuggestions)
  | .analyze arguments => runFlavor ws color .analyze arguments (overridesOf arguments false false)

end LockDiscipline.Cli
