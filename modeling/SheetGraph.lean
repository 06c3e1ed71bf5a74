import SheetGraph.Build.Duration
import SheetGraph.Build.Pipeline
import SheetGraph.Build.Result
import SheetGraph.Collect
import SheetGraph.CommandLine.Arguments
import SheetGraph.CommandLine.Listing
import SheetGraph.CommandLine.LogLevel
import SheetGraph.CommandLine.Run
import SheetGraph.CommandLine.Usage
import SheetGraph.Compile.Command
import SheetGraph.Compile.Failure
import SheetGraph.Console
import SheetGraph.Data.Value
import SheetGraph.Discovery
import SheetGraph.FileTree.Basic
import SheetGraph.FileTree.Disk
import SheetGraph.FileTree.Failure
import SheetGraph.FileTree.Walk
import SheetGraph.Glob.Basic
import SheetGraph.Graph.Basic
import SheetGraph.Graph.EdgeMap
import SheetGraph.Graph.Index
import SheetGraph.Json.Printer
import SheetGraph.Json.Reader
import SheetGraph.Main
import SheetGraph.Path.Basic
import SheetGraph.Path.Location
import SheetGraph.Path.Name
import SheetGraph.Project
import SheetGraph.Proofs.FileTree.Walk
import SheetGraph.Proofs.Graph.Preorder
import SheetGraph.Proofs.Graph.Reachable
import SheetGraph.Proofs.Path.Location
import SheetGraph.Resolution
import SheetGraph.Scaffold
import SheetGraph.Settings.Basic
import SheetGraph.Settings.Decoder
import SheetGraph.Settings.File
import SheetGraph.Shell.Reader
import SheetGraph.Shell.Runner
import SheetGraph.Shell.Script
import SheetGraph.Shell.Utility
import SheetGraph.Stylesheet.Comment
import SheetGraph.Stylesheet.Import
import SheetGraph.Stylesheet.ImportError
import SheetGraph.Stylesheet.Kind
import SheetGraph.Text.Blank
import SheetGraph.Text.DecimalDigit
import SheetGraph.Text.Letters
import SheetGraph.Text.Line
import SheetGraph.Text.Utf8
import SheetGraph.Toml.Node
import SheetGraph.Toml.Reader
import SheetGraph.Toml.Scalar
import SheetGraph.Toml.Text
import SheetGraph.Watch.Handler
import SheetGraph.Watch.Session
import SheetGraph.Watch.Tracker
import SheetGraph.Proofs.FileTree.Bound
import SheetGraph.Proofs.Graph.Staging
import SheetGraph.Proofs.Graph.Indexing
import SheetGraph.Proofs.Graph.Batches
import SheetGraph.Proofs.Graph.WellFormed
import SheetGraph.Proofs.Graph.Closure
import SheetGraph.Proofs.Graph.History
import SheetGraph.Proofs.Graph.Failure
import SheetGraph.Proofs.Graph.Permutation
import SheetGraph.Proofs.Discovery.Listing
import SheetGraph.Proofs.Discovery.MainSource
import SheetGraph.Proofs.FileTree.Edit
import SheetGraph.Proofs.Graph.Dependency
import SheetGraph.Proofs.Build.Results
import SheetGraph.Proofs.Watch.Rebuild
import SheetGraph.Proofs.Watch.Completeness
import SheetGraph.Proofs.Watch.Runs
import SheetGraph.Proofs.Watch.InTurn
import SheetGraph.Proofs.Watch.States
import SheetGraph.Proofs.Watch.Removal
import SheetGraph.Proofs.Candidates
import SheetGraph.Proofs.Watch.Coverage
import SheetGraph.Proofs.Watch.BrokenLinks
import SheetGraph.Proofs.Graph.Libraries
import SheetGraph.Proofs.Stylesheet.Comment
import SheetGraph.Proofs.Stylesheet.Directive
import SheetGraph.Proofs.Stylesheet.Printing
import SheetGraph.Proofs.FileTree.Create
import SheetGraph.Proofs.Build.Outputs
import SheetGraph.Proofs.Build.Writing
import SheetGraph.Proofs.Build.Independence
import SheetGraph.Proofs.Discovery.Sorted
import SheetGraph.Proofs.Build.Footprint
import SheetGraph.Proofs.Build.Repetition
import SheetGraph.Proofs.Graph.BreadthFirst
import SheetGraph.Proofs.Graph.StackWalk
import SheetGraph.Proofs.Watch.IndexErrors
import SheetGraph.Proofs.Watch.Minimality
import SheetGraph.Proofs.FileTree.Write
import SheetGraph.Proofs.Lookup
import SheetGraph.Proofs.Stylesheet.Sequence
import SheetGraph.Proofs.Stylesheet.Strings
import SheetGraph.Proofs.Stylesheet.Urls
import SheetGraph.Proofs.Stylesheet.Removal
import SheetGraph.Proofs.Path.Components
import SheetGraph.Proofs.Discovery.Sources
import SheetGraph.Proofs.Discovery.Mirror
import SheetGraph.Proofs.Watch.Streaks
import SheetGraph.Proofs.Build.Sources
import SheetGraph.Proofs.Build.Calls
import SheetGraph.Proofs.Build.Contents
import SheetGraph.Proofs.Path.Segments
import SheetGraph.Proofs.Settings.Directories
import SheetGraph.Proofs.Compile.Report
import SheetGraph.Proofs.FileTree.Directories
import SheetGraph.Proofs.Scaffold.Layout
import SheetGraph.Proofs.Scaffold.NewDirectory
import SheetGraph.Proofs.Toml.Comment
import SheetGraph.Proofs.Scaffold.Contents
import SheetGraph.Proofs.Path.Folding
import SheetGraph.Proofs.Preference
import SheetGraph.Proofs.Stylesheet.Lines
import SheetGraph.Proofs.CommandLine.Effects
import SheetGraph.Proofs.CommandLine.SettingUp
import SheetGraph.Proofs.CommandLine.Verdict
