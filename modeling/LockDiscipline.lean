import LockDiscipline.Access
import LockDiscipline.Cli.Arguments
import LockDiscipline.Cli.Execute
import LockDiscipline.Cli.Usage
import LockDiscipline.CodeView
import LockDiscipline.Config.Configuration
import LockDiscipline.Config.Effective
import LockDiscipline.Config.Error
import LockDiscipline.Discovery
import LockDiscipline.Files.Error
import LockDiscipline.Files.Glob
import LockDiscipline.Files.Path
import LockDiscipline.Files.Tree
import LockDiscipline.Issue
import LockDiscipline.Pattern.Basic
import LockDiscipline.Pattern.Outcomes
import LockDiscipline.Pattern.Search
import LockDiscipline.Profile
import LockDiscipline.Proofs.Text.Lines
import LockDiscipline.Proofs.Text.Utf8
import LockDiscipline.Region
import LockDiscipline.Report.ByClass
import LockDiscipline.Report.BySeverity
import LockDiscipline.Report.Data
import LockDiscipline.Report.Format
import LockDiscipline.Report.JsonValue
import LockDiscipline.Report.Notice
import LockDiscipline.Report.RuleTable
import LockDiscipline.Report.Span
import LockDiscipline.Rule.Id
import LockDiscipline.Rule.Settings
import LockDiscipline.Rule.Table
import LockDiscipline.Rule.Trigger
import LockDiscipline.Run
import LockDiscipline.Scan
import LockDiscipline.Signature
import LockDiscipline.Source
import LockDiscipline.Text.CharClass
import LockDiscipline.Text.Lines
import LockDiscipline.Text.Table.Alphabetic
import LockDiscipline.Text.Table.Mark
import LockDiscipline.Text.Table.Number
import LockDiscipline.Text.Utf8
import LockDiscipline.Toml.Document
import LockDiscipline.Toml.Scalar
import LockDiscipline.Toml.Value
import LockDiscipline.Vocabulary
import LockDiscipline.Yaml.Node
import LockDiscipline.Yaml.Scalar
import LockDiscipline.Yaml.Scanner
import LockDiscipline.Yaml.Token
import LockDiscipline.Main
import LockDiscipline.Proofs.CodeView.Layout
import LockDiscipline.Proofs.CodeView.Segments
import LockDiscipline.Proofs.Pattern.Context
import LockDiscipline.Proofs.Text.CharClass
import LockDiscipline.Proofs.Vocabulary
import LockDiscipline.Proofs.Scan.Declarations
import LockDiscipline.Proofs.Rule.Evaluate
import LockDiscipline.Proofs.Rule.Flavors
import LockDiscipline.Proofs.Region
import LockDiscipline.Proofs.Calls
import LockDiscipline.Proofs.Rule.Evidence
import LockDiscipline.Proofs.Run
import LockDiscipline.Proofs.Pattern.Border
import LockDiscipline.Proofs.Scan.Append
import LockDiscipline.Proofs.Bounds.Slice
import LockDiscipline.Proofs.Bounds.Scan
import LockDiscipline.Proofs.Bounds.Check
import LockDiscipline.Proofs.Rule.Settings
import LockDiscipline.Proofs.Files.Path
import LockDiscipline.Proofs.Files.Tree
import LockDiscipline.Proofs.Cli.Output
import LockDiscipline.Proofs.CodeView.Break
import LockDiscipline.Proofs.CodeView.States
import LockDiscipline.Proofs.CodeView.Cut
import LockDiscipline.Proofs.CodeView.Again
import LockDiscipline.Proofs.CodeView.LineEndings
import LockDiscipline.Proofs.Config.Root
import LockDiscipline.Proofs.MovedDown
import LockDiscipline.Proofs.Report.JsonReader
import LockDiscipline.Proofs.Report.RoundTrip
import LockDiscipline.Proofs.Pattern.Leftmost
import LockDiscipline.Proofs.Region.Braces
import LockDiscipline.Proofs.Region.Nesting
import LockDiscipline.Proofs.Region.Block
import LockDiscipline.Proofs.Rule.CallSites
import LockDiscipline.Proofs.Rule.FirstCalls
import LockDiscipline.Proofs.Scan.Members
import LockDiscipline.Proofs.Scan.Window
import LockDiscipline.Proofs.Scan.Nested
import LockDiscipline.Proofs.Pattern.Acceptance
import LockDiscipline.Proofs.Signature
import LockDiscipline.Proofs.Rule.Twin
import LockDiscipline.Proofs.Rule.Surroundings
import LockDiscipline.Proofs.Text.ByteOrder
import LockDiscipline.Proofs.Report.Attribution
import LockDiscipline.Proofs.Rule.Entries
import LockDiscipline.Proofs.Report.Color
import LockDiscipline.Proofs.CodeView.RawOpening
import LockDiscipline.Proofs.Discovery
import LockDiscipline.Proofs.Report.Order
import LockDiscipline.Proofs.Scan.WellFormed
import LockDiscipline.Proofs.Vocabulary.Agreement
import LockDiscipline.Proofs.Report.AnalysisText
