/-
The modules of `ChangeImpact`: what a change to a repository makes a continuous integration run
build and test.
-/

import ChangeImpact.ChangedFile
import ChangeImpact.CommandLine.Command
import ChangeImpact.CommandLine.Help
import ChangeImpact.CommandLine.Layout
import ChangeImpact.CommandLine.Request
import ChangeImpact.CommandLine.Suggestion
import ChangeImpact.Disk.Basic
import ChangeImpact.Disk.Path
import ChangeImpact.Event
import ChangeImpact.Failure
import ChangeImpact.Git
import ChangeImpact.Instant
import ChangeImpact.Json.Reader
import ChangeImpact.Json.Writer
import ChangeImpact.Main
import ChangeImpact.Names.Set
import ChangeImpact.Names.Table
import ChangeImpact.Number.Basic
import ChangeImpact.Number.Decimal
import ChangeImpact.Platform
import ChangeImpact.Proofs.Disk.Alike
import ChangeImpact.Proofs.Disk.Appended
import ChangeImpact.Proofs.Disk.Growth
import ChangeImpact.Proofs.Json.ReadBack
import ChangeImpact.Proofs.Json.Spread
import ChangeImpact.Proofs.Log.Instants
import ChangeImpact.Proofs.Log.Lines
import ChangeImpact.Proofs.Number.ReadBack
import ChangeImpact.Proofs.Report.Colours
import ChangeImpact.Proofs.Report.Detail
import ChangeImpact.Proofs.Report.Words
import ChangeImpact.Proofs.Run.AllOrNothing
import ChangeImpact.Proofs.Run.Failures
import ChangeImpact.Proofs.Run.Forms
import ChangeImpact.Proofs.Run.Input
import ChangeImpact.Proofs.Run.Logged
import ChangeImpact.Proofs.Run.Records
import ChangeImpact.Proofs.Run.Reported
import ChangeImpact.Proofs.Run.Routes
import ChangeImpact.Proofs.Run.Stages
import ChangeImpact.Proofs.Run.Strictness
import ChangeImpact.Proofs.Selection.Attribution
import ChangeImpact.Proofs.Selection.Cleaned
import ChangeImpact.Proofs.Selection.Declared
import ChangeImpact.Proofs.Selection.Dominance
import ChangeImpact.Proofs.Selection.Excluded
import ChangeImpact.Proofs.Selection.Known
import ChangeImpact.Proofs.Selection.Live
import ChangeImpact.Proofs.Selection.Monotone
import ChangeImpact.Proofs.Selection.Nested
import ChangeImpact.Proofs.Selection.Order
import ChangeImpact.Proofs.Selection.Owners
import ChangeImpact.Proofs.Selection.Reachable
import ChangeImpact.Proofs.Selection.Rendered
import ChangeImpact.Proofs.Selection.Search
import ChangeImpact.Proofs.Selection.Sentinel
import ChangeImpact.Proofs.Selection.Settled
import ChangeImpact.Proofs.Selection.Shadowed
import ChangeImpact.Proofs.Selection.Shell
import ChangeImpact.Proofs.Selection.Union
import ChangeImpact.Proofs.Selection.Universe
import ChangeImpact.Proofs.Tables.Acceptance
import ChangeImpact.Proofs.Tables.Consistent
import ChangeImpact.Proofs.Tables.Contents
import ChangeImpact.Proofs.Tables.Entries
import ChangeImpact.Proofs.Tables.Fitting
import ChangeImpact.Proofs.Tables.Independent
import ChangeImpact.Proofs.Tables.Loaded
import ChangeImpact.Proofs.Tables.Occurrences
import ChangeImpact.Proofs.Tables.Rebuilt
import ChangeImpact.Proofs.Tables.Reordered
import ChangeImpact.Proofs.Tables.Unexcluded
import ChangeImpact.Proofs.Tables.Written
import ChangeImpact.Proofs.Text.Assembled
import ChangeImpact.Proofs.Text.Encoded
import ChangeImpact.Proofs.Text.Joined
import ChangeImpact.Proofs.Text.LineEnds
import ChangeImpact.Proofs.Text.Trimmed
import ChangeImpact.Run.Action
import ChangeImpact.Run.Command
import ChangeImpact.Run.Log
import ChangeImpact.Run.Outcome
import ChangeImpact.Run.Surroundings
import ChangeImpact.Selection.Basic
import ChangeImpact.Selection.Closure
import ChangeImpact.Selection.Environment
import ChangeImpact.Selection.Scope
import ChangeImpact.Tables.Basic
import ChangeImpact.Tables.Bundled
import ChangeImpact.Tables.Issue
import ChangeImpact.Tables.Listing
import ChangeImpact.Tables.Loading
import ChangeImpact.Tables.Model
import ChangeImpact.Tables.References
import ChangeImpact.Tables.Shape
import ChangeImpact.Text.Blank
import ChangeImpact.Text.Lines
import ChangeImpact.Text.Units
import ChangeImpact.Text.Utf8
import ChangeImpact.Text.Visible
import ChangeImpact.Value.Basic
import ChangeImpact.Value.Fields
import ChangeImpact.Yaml.Document
import ChangeImpact.Yaml.Fault
import ChangeImpact.Yaml.Node
import ChangeImpact.Yaml.Outline
import ChangeImpact.Yaml.Scalar
import ChangeImpact.Yaml.Token
