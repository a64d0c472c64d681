import LockDiscipline.Config.Effective
import LockDiscipline.Report.Span

/-! What is written to standard error, beside a report: failures with their causes, and remarks. -/

namespace LockDiscipline.Notice

/-- The label of a failure. -/
def errorLabel : Span := ⟨[.bold, .red], "error:"⟩

/-- The label of a remark. -/
def noteLabel : Span := ⟨[.bold, .cyan], "note:"⟩

/-- A message behind its label. -/
def labelled (label : Span) (color : Bool) (message : String) : String :=
  label.render color ++ " " ++ message

/-- A failure, told by its causes, of which each is the reason for the one before. -/
def failure (color : Bool) (causes : List String) : String :=
  labelled errorLabel color (": ".intercalate causes)

/-- A remark if there is nothing to check, for human readers only. -/
def noFiles (color : Bool) (settings : Effective) (files : List Path) : List String :=
  if files.isEmpty && settings.format = .human then
    [labelled noteLabel color
      ("No source files found (searched: " ++ ", ".intercalate settings.dirs ++ ")")]
  else []

end LockDiscipline.Notice
