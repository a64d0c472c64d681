import LockDiscipline.Report.Format
import LockDiscipline.Report.JsonValue
import LockDiscipline.Report.Span
import LockDiscipline.Rule.Table

/-! The table of the rules, for reading and as data. -/

namespace LockDiscipline.Report

open LockDiscipline.Span (plain)

/-- Text padded with spaces to a width. -/
def padTo (width : Nat) (text : String) : String :=
  text ++ String.ofList (List.replicate (width - text.length) ' ')

/-- The width of the widest rule name. -/
def ruleNameWidth : Nat :=
  (Rule.table.map (·.id.name.length)).foldl max 0

/-- The width of the widest severity name. -/
def severityWidth : Nat := 7

/-- A rule as a line of the table. -/
def ruleLine (rule : Rule) : Document :=
  [⟨[.bold], padTo ruleNameWidth rule.id.name⟩, plain "  ",
   ⟨[.dimmed], padTo severityWidth rule.severity.name⟩, plain ("  " ++ rule.summary ++ "\n")]

/-- A rule as data. -/
def ruleValue (rule : Rule) : JsonValue :=
  .object [("id", .string rule.id.name), ("severity", .string rule.severity.name),
    ("summary", .string rule.summary)]

/-- The table of the rules in a format. -/
def ruleTable (format : OutputFormat) (color : Bool) : String :=
  match format with
  | .json => (JsonValue.array (Rule.table.map ruleValue)).pretty
  | .human => Document.render color (Rule.table.flatMap ruleLine)

end LockDiscipline.Report
