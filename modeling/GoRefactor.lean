import GoRefactor.CommandLine.Arguments
import GoRefactor.CommandLine.Invocation
import GoRefactor.CommandLine.Run
import GoRefactor.Edit.Apply
import GoRefactor.Edit.Basic
import GoRefactor.Error
import GoRefactor.Glob
import GoRefactor.Glob.Expression
import GoRefactor.Glob.Match
import GoRefactor.Go.Declaration
import GoRefactor.Go.File
import GoRefactor.Go.Identifier
import GoRefactor.Go.Parser.Brackets
import GoRefactor.Go.Parser.Cursor
import GoRefactor.Go.Parser.Expression
import GoRefactor.Go.Parser.File
import GoRefactor.Go.Syntax
import GoRefactor.Go.Token
import GoRefactor.Go.Token.Lexeme
import GoRefactor.Go.Token.Stream
import GoRefactor.Go.Walk
import GoRefactor.Json.Number
import GoRefactor.Json.Printer
import GoRefactor.Json.Reader
import GoRefactor.Json.Shape
import GoRefactor.Json.Value
import GoRefactor.Main
import GoRefactor.Module.Basic
import GoRefactor.Module.Build
import GoRefactor.Module.BuildConstraint
import GoRefactor.Module.Directive
import GoRefactor.NameMap
import GoRefactor.Postings
import GoRefactor.Proofs.Attempt
import GoRefactor.Proofs.Edit.Append
import GoRefactor.Proofs.Edit.Apply
import GoRefactor.Proofs.Edit.Arranged
import GoRefactor.Proofs.Edit.LaidOut
import GoRefactor.Proofs.Edit.Relocated
import GoRefactor.Proofs.Edit.Renaming
import GoRefactor.Proofs.Edit.Splicing
import GoRefactor.Proofs.Edit.Undone
import GoRefactor.Proofs.Edit.Visited
import GoRefactor.Proofs.Go.Bare
import GoRefactor.Proofs.Go.Called
import GoRefactor.Proofs.Go.Compose
import GoRefactor.Proofs.Go.Marks
import GoRefactor.Proofs.Go.Mentions
import GoRefactor.Proofs.Go.Neat
import GoRefactor.Proofs.Go.Offers
import GoRefactor.Proofs.Go.Parser.Acceptance
import GoRefactor.Proofs.Go.Parser.Anchored
import GoRefactor.Proofs.Go.Parser.Complete
import GoRefactor.Proofs.Go.Parser.Cursor
import GoRefactor.Proofs.Go.Parser.Declarations
import GoRefactor.Proofs.Go.Parser.Depth
import GoRefactor.Proofs.Go.Parser.Family
import GoRefactor.Proofs.Go.Parser.Fixed
import GoRefactor.Proofs.Go.Parser.Formed
import GoRefactor.Proofs.Go.Parser.Image
import GoRefactor.Proofs.Go.Parser.Kept
import GoRefactor.Proofs.Go.Parser.Mirror
import GoRefactor.Proofs.Go.Parser.Order
import GoRefactor.Proofs.Go.Parser.Paired
import GoRefactor.Proofs.Go.Parser.Places
import GoRefactor.Proofs.Go.Parser.Reading
import GoRefactor.Proofs.Go.Parser.Sequence
import GoRefactor.Proofs.Go.Parser.Spots
import GoRefactor.Proofs.Go.Parser.Steps
import GoRefactor.Proofs.Go.Parser.Tidy
import GoRefactor.Proofs.Go.Parser.TidyFile
import GoRefactor.Proofs.Go.Parser.Tracks
import GoRefactor.Proofs.Go.Passes
import GoRefactor.Proofs.Go.Relocated
import GoRefactor.Proofs.Go.Stored
import GoRefactor.Proofs.Go.Tours
import GoRefactor.Proofs.Go.Token.Exchange
import GoRefactor.Proofs.Go.Token.Joined
import GoRefactor.Proofs.Go.Token.Layout
import GoRefactor.Proofs.Go.Token.Lines
import GoRefactor.Proofs.Go.Token.Partition
import GoRefactor.Proofs.Go.Token.Relabel
import GoRefactor.Proofs.Go.Token.Split
import GoRefactor.Proofs.Go.Token.Unfinished
import GoRefactor.Proofs.Go.Unplaced
import GoRefactor.Proofs.Json.Shape
import GoRefactor.Proofs.Module.Addressed
import GoRefactor.Proofs.Module.BuildConstraint
import GoRefactor.Proofs.Module.Changes
import GoRefactor.Proofs.Module.Files
import GoRefactor.Proofs.Module.Relative
import GoRefactor.Proofs.Module.Sources
import GoRefactor.Proofs.Module.TagExpr
import GoRefactor.Proofs.NameMap
import GoRefactor.Proofs.Snapshot.Module
import GoRefactor.Proofs.Snapshot.Syntax
import GoRefactor.Proofs.Sort
import GoRefactor.Proofs.Symbol.Acceptance
import GoRefactor.Proofs.Symbol.Arrival
import GoRefactor.Proofs.Symbol.BareNames
import GoRefactor.Proofs.Symbol.Build
import GoRefactor.Proofs.Symbol.Clauses
import GoRefactor.Proofs.Symbol.Comparison
import GoRefactor.Proofs.Symbol.Declared
import GoRefactor.Proofs.Symbol.Drafts
import GoRefactor.Proofs.Symbol.Imported
import GoRefactor.Proofs.Symbol.Integrity
import GoRefactor.Proofs.Symbol.Inventory
import GoRefactor.Proofs.Symbol.ItemAt
import GoRefactor.Proofs.Symbol.LiteralKeys
import GoRefactor.Proofs.Symbol.Locals
import GoRefactor.Proofs.Symbol.Lookups
import GoRefactor.Proofs.Symbol.Origins
import GoRefactor.Proofs.Symbol.Outcomes
import GoRefactor.Proofs.Symbol.Parallel
import GoRefactor.Proofs.Symbol.Promotion
import GoRefactor.Proofs.Symbol.PublicIndex
import GoRefactor.Proofs.Symbol.Reached
import GoRefactor.Proofs.Symbol.Retention
import GoRefactor.Proofs.Symbol.Sites
import GoRefactor.Proofs.Symbol.Standing
import GoRefactor.Proofs.Symbol.Visit
import GoRefactor.Proofs.Symbol.Walk
import GoRefactor.Proofs.Text.LineIndex
import GoRefactor.Proofs.Text.Position
import GoRefactor.Proofs.Text.Split
import GoRefactor.Proofs.Transform.Alone
import GoRefactor.Proofs.Transform.AppliedEdits
import GoRefactor.Proofs.Transform.Captured
import GoRefactor.Proofs.Transform.Chains
import GoRefactor.Proofs.Transform.Declaring
import GoRefactor.Proofs.Transform.Discovery
import GoRefactor.Proofs.Transform.Document
import GoRefactor.Proofs.Transform.DryRun
import GoRefactor.Proofs.Transform.EditedNames
import GoRefactor.Proofs.Transform.EditedPackages
import GoRefactor.Proofs.Transform.Extracted
import GoRefactor.Proofs.Transform.ExtractionSafety
import GoRefactor.Proofs.Transform.Flags
import GoRefactor.Proofs.Transform.Housed
import GoRefactor.Proofs.Transform.MovedSpans
import GoRefactor.Proofs.Transform.NamesApart
import GoRefactor.Proofs.Transform.Namings
import GoRefactor.Proofs.Transform.NewFiles
import GoRefactor.Proofs.Transform.ReceiverTypes
import GoRefactor.Proofs.Transform.Rediscovery
import GoRefactor.Proofs.Transform.Refusal
import GoRefactor.Proofs.Transform.Reloadable
import GoRefactor.Proofs.Transform.RenamePlan
import GoRefactor.Proofs.Transform.RenameSafety
import GoRefactor.Proofs.Transform.Renamed
import GoRefactor.Proofs.Transform.Rendered
import GoRefactor.Proofs.Transform.Repeated
import GoRefactor.Proofs.Transform.Runs
import GoRefactor.Proofs.Transform.Safety
import GoRefactor.Proofs.Transform.SharedSuffix
import GoRefactor.Proofs.Transform.Staleness
import GoRefactor.Proofs.Transform.TestFiles
import GoRefactor.Proofs.Transform.Undone
import GoRefactor.Proofs.Workspace.Reload
import GoRefactor.Proofs.Workspace.Saving
import GoRefactor.Proofs.Workspace.Writing
import GoRefactor.Report.Index
import GoRefactor.Report.Outcome
import GoRefactor.Report.Query
import GoRefactor.Snapshot.File
import GoRefactor.Snapshot.Module
import GoRefactor.Snapshot.Syntax
import GoRefactor.Sort
import GoRefactor.Symbol.Basic
import GoRefactor.Symbol.Collect
import GoRefactor.Symbol.Declared
import GoRefactor.Symbol.Index
import GoRefactor.Symbol.Infer
import GoRefactor.Symbol.Resolve
import GoRefactor.Symbol.Table
import GoRefactor.TestCommand.Basic
import GoRefactor.TestCommand.Run
import GoRefactor.Text.Blank
import GoRefactor.Text.Bytes
import GoRefactor.Text.Case
import GoRefactor.Text.Decimal
import GoRefactor.Text.Letter
import GoRefactor.Text.Letter.Table
import GoRefactor.Text.Position
import GoRefactor.Text.Sha256
import GoRefactor.Text.Span
import GoRefactor.Text.Split
import GoRefactor.Transform.Document
import GoRefactor.Transform.Extract
import GoRefactor.Transform.Naming
import GoRefactor.Transform.Outcome
import GoRefactor.Transform.Plan
import GoRefactor.Transform.Rename
import GoRefactor.Workspace.FileTree
import GoRefactor.Workspace.Load
import GoRefactor.Workspace.Place
import GoRefactor.Workspace.Save
import GoRefactor.Workspace.Settings
