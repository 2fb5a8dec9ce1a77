import Fixtures.CommandLine.Basic
import Fixtures.CommandLine.Execution
import Fixtures.CommandLine.Reader
import Fixtures.Decimal.Binary64
import Fixtures.Decimal.Natural
import Fixtures.Decimal.Shortest
import Fixtures.Edit.Basic
import Fixtures.Edit.Document
import Fixtures.Edit.Sequence
import Fixtures.Edit.Text
import Fixtures.Failure
import Fixtures.Files.Basic
import Fixtures.Json.Numeral
import Fixtures.Json.Printer
import Fixtures.Json.Reader
import Fixtures.Json.Record
import Fixtures.Json.SyntaxError
import Fixtures.Json.Value
import Fixtures.Main
import Fixtures.Network.Address
import Fixtures.Note
import Fixtures.Path.Basic
import Fixtures.Path.Lookup
import Fixtures.Payload.Basic
import Fixtures.Payload.Reader
import Fixtures.Placeholder.Basic
import Fixtures.Placeholder.Error
import Fixtures.Placeholder.Occurrence
import Fixtures.Placeholder.Properties
import Fixtures.Placeholder.Resolution
import Fixtures.Placeholder.Sources
import Fixtures.Proofs.Decimal.Digits
import Fixtures.Proofs.Edit.Addressed
import Fixtures.Proofs.Edit.Commute
import Fixtures.Proofs.Edit.Delete
import Fixtures.Proofs.Edit.Items
import Fixtures.Proofs.Edit.Root
import Fixtures.Proofs.Edit.Rows
import Fixtures.Proofs.Edit.Sequence
import Fixtures.Proofs.Edit.Siblings
import Fixtures.Proofs.Edit.Text
import Fixtures.Proofs.Edit.Undo
import Fixtures.Proofs.Edit.WellFormed
import Fixtures.Proofs.Failure.Collecting
import Fixtures.Proofs.Json.Exact
import Fixtures.Proofs.Json.Printed
import Fixtures.Proofs.Json.Record
import Fixtures.Proofs.Json.Recoverable
import Fixtures.Proofs.Json.RoundTrip
import Fixtures.Proofs.Json.WellFormed
import Fixtures.Proofs.Path.Independent
import Fixtures.Proofs.Path.Lens
import Fixtures.Proofs.Path.Nodes
import Fixtures.Proofs.Path.Parent
import Fixtures.Proofs.Path.Spelling
import Fixtures.Proofs.Payload.Loading
import Fixtures.Proofs.Placeholder.Beside
import Fixtures.Proofs.Placeholder.Bounded
import Fixtures.Proofs.Placeholder.Broken
import Fixtures.Proofs.Placeholder.Dependence
import Fixtures.Proofs.Placeholder.Evaluated
import Fixtures.Proofs.Placeholder.Located
import Fixtures.Proofs.Placeholder.Marker
import Fixtures.Proofs.Placeholder.Nest
import Fixtures.Proofs.Placeholder.Rounds
import Fixtures.Proofs.Placeholder.Runs
import Fixtures.Proofs.Placeholder.Template
import Fixtures.Proofs.Placeholder.Text
import Fixtures.Proofs.Placeholder.Unclosed
import Fixtures.Proofs.Placeholder.Unlimited
import Fixtures.Proofs.Registry.Capture
import Fixtures.Proofs.Registry.LastWrite
import Fixtures.Proofs.Relaxed.Layout
import Fixtures.Proofs.Relaxed.Node
import Fixtures.Proofs.Relaxed.Strict
import Fixtures.Proofs.Relaxed.WellFormed
import Fixtures.Proofs.Session.Run
import Fixtures.Proofs.Settings.Published
import Fixtures.Proofs.Shared
import Fixtures.Proofs.Step.Record
import Fixtures.Proofs.Step.Rewriting
import Fixtures.Proofs.Table
import Fixtures.Proofs.Table.Sorted
import Fixtures.Proofs.Text.Cut
import Fixtures.Proofs.Text.Occurrences
import Fixtures.Proofs.Text.Position
import Fixtures.Proofs.Text.Trim
import Fixtures.Registry
import Fixtures.Relaxed.Block
import Fixtures.Relaxed.Character
import Fixtures.Relaxed.Directive
import Fixtures.Relaxed.Gap
import Fixtures.Relaxed.Layout
import Fixtures.Relaxed.Node
import Fixtures.Relaxed.Plain
import Fixtures.Relaxed.Quoted
import Fixtures.Relaxed.Scalar
import Fixtures.Relaxed.Tag
import Fixtures.Relaxed.Token
import Fixtures.Relaxed.Value
import Fixtures.Session.Action
import Fixtures.Session.Basic
import Fixtures.Settings.Basic
import Fixtures.Settings.Loading
import Fixtures.Shared
import Fixtures.Step.Basic
import Fixtures.Step.Record
import Fixtures.Step.Rewriting
import Fixtures.Table
import Fixtures.Text.Basic
import Fixtures.Text.Blank
import Fixtures.Text.Case
import Fixtures.Text.CaseTable
import Fixtures.Text.Position
