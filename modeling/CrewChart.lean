import CrewChart.Answer
import CrewChart.Catalog
import CrewChart.Command.Help
import CrewChart.Command.Line
import CrewChart.Command.Run
import CrewChart.Decimal.Binary64
import CrewChart.Decimal.Reading
import CrewChart.Decimal.Shortest
import CrewChart.Disk
import CrewChart.Fault
import CrewChart.Graph.Adjacency
import CrewChart.Graph.Basic
import CrewChart.Graph.Integrity
import CrewChart.Graph.Reader
import CrewChart.Graph.Saved
import CrewChart.Graph.Sheet
import CrewChart.Graph.Store
import CrewChart.Json.Failure
import CrewChart.Json.Number
import CrewChart.Json.Quoted
import CrewChart.Json.Reader
import CrewChart.Json.Scalar
import CrewChart.Json.Skip
import CrewChart.Json.Value
import CrewChart.Json.Writer
import CrewChart.Lint.Check
import CrewChart.Lint.Cycles
import CrewChart.Lint.Finding
import CrewChart.Lint.Isolation
import CrewChart.Lint.Required
import CrewChart.Main
import CrewChart.Plan.Basic
import CrewChart.Plan.Resolve
import CrewChart.Preset
import CrewChart.Proofs.Agreement
import CrewChart.Proofs.Answers
import CrewChart.Proofs.Assignment
import CrewChart.Proofs.ByteOrder
import CrewChart.Proofs.ClassNames
import CrewChart.Proofs.Command.Files
import CrewChart.Proofs.Command.Modes
import CrewChart.Proofs.Core
import CrewChart.Proofs.Coverage
import CrewChart.Proofs.Credentials
import CrewChart.Proofs.CyclePath
import CrewChart.Proofs.CycleRecursion
import CrewChart.Proofs.CycleSearch
import CrewChart.Proofs.Decimal.Nearest
import CrewChart.Proofs.Decimal.Reading
import CrewChart.Proofs.Findings
import CrewChart.Proofs.Flags
import CrewChart.Proofs.Graph.Carried
import CrewChart.Proofs.Graph.Faithful
import CrewChart.Proofs.Graph.Members
import CrewChart.Proofs.Graph.OfValue
import CrewChart.Proofs.Graph.RoundTrip
import CrewChart.Proofs.Graph.Sheets
import CrewChart.Proofs.Integrity
import CrewChart.Proofs.Json.Brackets
import CrewChart.Proofs.Json.Choices
import CrewChart.Proofs.Json.Compact
import CrewChart.Proofs.Json.Decoding
import CrewChart.Proofs.Json.Lenient
import CrewChart.Proofs.Json.NumberText
import CrewChart.Proofs.Json.PassedOver
import CrewChart.Proofs.Json.Records
import CrewChart.Proofs.Json.Scalars
import CrewChart.Proofs.Json.Tidy
import CrewChart.Proofs.Json.Written
import CrewChart.Proofs.Links
import CrewChart.Proofs.Loop
import CrewChart.Proofs.LooseEdges
import CrewChart.Proofs.Mirror
import CrewChart.Proofs.Preorder
import CrewChart.Proofs.Reached
import CrewChart.Proofs.Readiness
import CrewChart.Proofs.References
import CrewChart.Proofs.Reordering
import CrewChart.Proofs.Reported
import CrewChart.Proofs.Rules
import CrewChart.Proofs.Script.Calls
import CrewChart.Proofs.Script.Confined
import CrewChart.Proofs.Script.Lines
import CrewChart.Proofs.Script.Listing
import CrewChart.Proofs.Script.Literals
import CrewChart.Proofs.Script.Memory
import CrewChart.Proofs.Script.Printed
import CrewChart.Proofs.Script.TaskAgents
import CrewChart.Proofs.Traversal
import CrewChart.Proofs.Wiring
import CrewChart.Script.Generate
import CrewChart.Script.Layout
import CrewChart.Script.Literal
import CrewChart.Settings
import CrewChart.Simulation.Readiness
import CrewChart.Simulation.Report
import CrewChart.Simulation.Walk
import CrewChart.Template.Basic
import CrewChart.Template.Registry
import CrewChart.Template.Render
import CrewChart.Template.Token
import CrewChart.Template.Tree
import CrewChart.Text.Blank
import CrewChart.Text.Hidden
import CrewChart.Text.Instant
import CrewChart.Text.Position
import CrewChart.Text.Shown
