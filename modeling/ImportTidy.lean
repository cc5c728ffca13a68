/-
# ImportTidy — tidy import blocks

The whole library.
-/
import ImportTidy.Command.Arguments
import ImportTidy.Command.Outcome
import ImportTidy.Console.Conversation
import ImportTidy.Console.Inbox
import ImportTidy.Console.Launch
import ImportTidy.Console.Listener
import ImportTidy.Console.Script
import ImportTidy.Console.Session
import ImportTidy.Console.Settings
import ImportTidy.Diagnostic
import ImportTidy.Discovery.Eligibility
import ImportTidy.Discovery.Glob
import ImportTidy.Discovery.Ignore
import ImportTidy.Discovery.Index
import ImportTidy.Discovery.Module
import ImportTidy.Discovery.Walk
import ImportTidy.Disk.Basic
import ImportTidy.Disk.Fault
import ImportTidy.Disk.Path
import ImportTidy.Disk.Replace
import ImportTidy.Disk.Resolve
import ImportTidy.Import.Block
import ImportTidy.Import.Cleaning
import ImportTidy.Import.Compaction
import ImportTidy.Import.Rules
import ImportTidy.Import.Statement
import ImportTidy.Import.Tier
import ImportTidy.Import.Usage
import ImportTidy.Main
import ImportTidy.Pattern.Basic
import ImportTidy.Pattern.Match
import ImportTidy.Pattern.Reader
import ImportTidy.Proofs.Console.Delivery
import ImportTidy.Proofs.Console.HalfDuplex
import ImportTidy.Proofs.Console.Hearing
import ImportTidy.Proofs.Console.History
import ImportTidy.Proofs.Console.Rows
import ImportTidy.Proofs.Discovery.Modules
import ImportTidy.Proofs.Disk.Atomic
import ImportTidy.Proofs.Disk.Canonical
import ImportTidy.Proofs.Disk.Endings
import ImportTidy.Proofs.Disk.Replacement
import ImportTidy.Proofs.Disk.Routes
import ImportTidy.Proofs.Disk.Siblings
import ImportTidy.Proofs.Disk.Walk
import ImportTidy.Proofs.Import.Cleaning
import ImportTidy.Proofs.Import.Compaction
import ImportTidy.Proofs.Import.Grouping
import ImportTidy.Proofs.Import.Leaders
import ImportTidy.Proofs.Import.Order
import ImportTidy.Proofs.Import.PathOrder
import ImportTidy.Proofs.Import.Printing
import ImportTidy.Proofs.Import.Rewriting
import ImportTidy.Proofs.Import.Selection
import ImportTidy.Proofs.Import.Shape
import ImportTidy.Proofs.Import.Standard
import ImportTidy.Proofs.Import.Survivors
import ImportTidy.Proofs.Import.Tiers
import ImportTidy.Proofs.Import.Update
import ImportTidy.Proofs.Pattern.Groups
import ImportTidy.Proofs.Pattern.Reading
import ImportTidy.Proofs.Run.Alone
import ImportTidy.Proofs.Run.Crew
import ImportTidy.Proofs.Run.Pool
import ImportTidy.Proofs.Run.Turn
import ImportTidy.Proofs.Run.Wholeness
import ImportTidy.Proofs.Source.Convergence
import ImportTidy.Proofs.Source.Idempotence
import ImportTidy.Proofs.Source.LineEnds
import ImportTidy.Proofs.Source.References
import ImportTidy.Proofs.Source.RoundTrip
import ImportTidy.Proofs.Source.Spread
import ImportTidy.Proofs.Text.ByteOrder
import ImportTidy.Proofs.Text.Bytes
import ImportTidy.Proofs.Text.Cuts
import ImportTidy.Proofs.Text.Lines
import ImportTidy.Proofs.Wildcard.Accepted
import ImportTidy.Proofs.Wildcard.Frame
import ImportTidy.Proofs.Wildcard.Kept
import ImportTidy.Proofs.Wildcard.Resolved
import ImportTidy.Proofs.Wildcard.Restoration
import ImportTidy.Proofs.Wildcard.Rounds
import ImportTidy.Run.Crew
import ImportTidy.Run.Optimize
import ImportTidy.Run.Pass
import ImportTidy.Run.Pool
import ImportTidy.Run.Report
import ImportTidy.Run.Tidy
import ImportTidy.Settings.Tables
import ImportTidy.Settings.Toml.Reader
import ImportTidy.Settings.Toml.Scalar
import ImportTidy.Settings.Toml.Tree
import ImportTidy.Settings.Tool
import ImportTidy.Settings.Value
import ImportTidy.Source
import ImportTidy.Text.Basic
import ImportTidy.Text.Blank
import ImportTidy.Text.Json
import ImportTidy.Text.Quoted
import ImportTidy.Text.Utf8
import ImportTidy.Text.Visible
import ImportTidy.Text.Word
import ImportTidy.Wildcard.Reduction
import ImportTidy.Wildcard.Search
import ImportTidy.Wildcard.Settings
