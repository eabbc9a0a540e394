import ChainRunner.Binaries
import ChainRunner.Chain.Basic
import ChainRunner.Chain.Parser
import ChainRunner.CommandLine.Arguments
import ChainRunner.CommandLine.Option
import ChainRunner.CommandLine.Sorted
import ChainRunner.CommandLine.Usage
import ChainRunner.Document.Json
import ChainRunner.Document.Toml.Moment
import ChainRunner.Document.Toml.Parser
import ChainRunner.Document.Toml.Quoted
import ChainRunner.Document.Toml.Scalar
import ChainRunner.Document.Toml.Table
import ChainRunner.Document.Value
import ChainRunner.Execution.Site
import ChainRunner.Expansion
import ChainRunner.Files.Disk
import ChainRunner.Files.Errno
import ChainRunner.Files.Tree
import ChainRunner.Files.View
import ChainRunner.Glob.Expr
import ChainRunner.Glob.Parser
import ChainRunner.Glob.Token
import ChainRunner.Main
import ChainRunner.Manifest.Basic
import ChainRunner.Manifest.Draft
import ChainRunner.Manifest.References
import ChainRunner.NameMap
import ChainRunner.Path
import ChainRunner.Process.Capture
import ChainRunner.Process.Handle
import ChainRunner.Process.Supervision
import ChainRunner.Process.Table
import ChainRunner.Program.DryRun
import ChainRunner.Program.Invocation
import ChainRunner.Program.Load
import ChainRunner.Program.Logging
import ChainRunner.Program.Problem
import ChainRunner.Program.Surroundings
import ChainRunner.Program.Watching
import ChainRunner.Proofs.Binaries.Command
import ChainRunner.Proofs.Binaries.Scan
import ChainRunner.Proofs.Chain.Batches
import ChainRunner.Proofs.Chain.Parser
import ChainRunner.Proofs.CommandLine.Sorted
import ChainRunner.Proofs.CommandLine.Spelling
import ChainRunner.Proofs.Execution.Site
import ChainRunner.Proofs.Expansion
import ChainRunner.Proofs.Expansion.Labels
import ChainRunner.Proofs.Expansion.Product
import ChainRunner.Proofs.Files.Coherent
import ChainRunner.Proofs.Files.Collect
import ChainRunner.Proofs.Files.Inward
import ChainRunner.Proofs.Files.Search
import ChainRunner.Proofs.Files.Tree
import ChainRunner.Proofs.Files.Walk
import ChainRunner.Proofs.Glob.Below
import ChainRunner.Proofs.Glob.Exact
import ChainRunner.Proofs.Glob.Expr
import ChainRunner.Proofs.Glob.Literal
import ChainRunner.Proofs.Glob.Place
import ChainRunner.Proofs.Glob.Rooted
import ChainRunner.Proofs.Glob.Segments
import ChainRunner.Proofs.Interleaving
import ChainRunner.Proofs.Manifest.Circle
import ChainRunner.Proofs.Manifest.Height
import ChainRunner.Proofs.Manifest.Names
import ChainRunner.Proofs.Manifest.References
import ChainRunner.Proofs.Manifest.Search
import ChainRunner.Proofs.NameMap
import ChainRunner.Proofs.Path
import ChainRunner.Proofs.Process.Capture
import ChainRunner.Proofs.Process.Handle
import ChainRunner.Proofs.Process.Heard
import ChainRunner.Proofs.Process.Interrupt
import ChainRunner.Proofs.Process.Lifecycle
import ChainRunner.Proofs.Process.Outcome
import ChainRunner.Proofs.Process.Scene
import ChainRunner.Proofs.Process.Seen
import ChainRunner.Proofs.Process.Signals
import ChainRunner.Proofs.Process.Stopped
import ChainRunner.Proofs.Process.Supervision
import ChainRunner.Proofs.Process.Table
import ChainRunner.Proofs.Process.Tracked
import ChainRunner.Proofs.Program.Background
import ChainRunner.Proofs.Program.Invocation
import ChainRunner.Proofs.Program.Unbroken
import ChainRunner.Proofs.Rehearsal.Launcher
import ChainRunner.Proofs.Rehearsal.Log
import ChainRunner.Proofs.Rehearsal.Undisturbed
import ChainRunner.Proofs.Run.Aggregate
import ChainRunner.Proofs.Run.Alike
import ChainRunner.Proofs.Run.Background
import ChainRunner.Proofs.Run.Barrier
import ChainRunner.Proofs.Run.Calm
import ChainRunner.Proofs.Run.Change
import ChainRunner.Proofs.Run.Chronicle
import ChainRunner.Proofs.Run.Culprit
import ChainRunner.Proofs.Run.Cycles
import ChainRunner.Proofs.Run.Delivery
import ChainRunner.Proofs.Run.Dispatch
import ChainRunner.Proofs.Run.DryRun
import ChainRunner.Proofs.Run.Endings
import ChainRunner.Proofs.Run.Failure
import ChainRunner.Proofs.Run.Family
import ChainRunner.Proofs.Run.Foreground
import ChainRunner.Proofs.Run.Happens
import ChainRunner.Proofs.Run.History
import ChainRunner.Proofs.Run.Launch
import ChainRunner.Proofs.Run.Lockstep
import ChainRunner.Proofs.Run.Log
import ChainRunner.Proofs.Run.Members
import ChainRunner.Proofs.Run.Names
import ChainRunner.Proofs.Run.Nesting
import ChainRunner.Proofs.Run.Noninterference
import ChainRunner.Proofs.Run.Origin
import ChainRunner.Proofs.Run.Pairing
import ChainRunner.Proofs.Run.Processes
import ChainRunner.Proofs.Run.Progress
import ChainRunner.Proofs.Run.Records
import ChainRunner.Proofs.Run.Registry
import ChainRunner.Proofs.Run.Reports
import ChainRunner.Proofs.Run.Requests
import ChainRunner.Proofs.Run.Rest
import ChainRunner.Proofs.Run.Stop
import ChainRunner.Proofs.Run.Tags
import ChainRunner.Proofs.Run.Tasks
import ChainRunner.Proofs.Run.Termination
import ChainRunner.Proofs.Run.Track
import ChainRunner.Proofs.Run.Triggered
import ChainRunner.Proofs.Run.Unknown
import ChainRunner.Proofs.Run.Views
import ChainRunner.Proofs.Run.Watching
import ChainRunner.Proofs.Shell.Quoting
import ChainRunner.Proofs.Shell.Token
import ChainRunner.Proofs.Text.Blank
import ChainRunner.Proofs.Text.Offsets
import ChainRunner.Proofs.Text.Utf8
import ChainRunner.Proofs.Text.Words
import ChainRunner.Proofs.Traversal
import ChainRunner.Proofs.Variables.Basic
import ChainRunner.Proofs.Variables.Parts
import ChainRunner.Proofs.Variables.Table
import ChainRunner.Proofs.Variables.Template
import ChainRunner.Proofs.Watch.Backends
import ChainRunner.Proofs.Watch.Cache
import ChainRunner.Proofs.Watch.Checked
import ChainRunner.Proofs.Watch.Cover
import ChainRunner.Proofs.Watch.Directory
import ChainRunner.Proofs.Watch.Escape
import ChainRunner.Proofs.Watch.Filling
import ChainRunner.Proofs.Watch.Normal
import ChainRunner.Proofs.Watch.Pattern
import ChainRunner.Proofs.Watch.Pending
import ChainRunner.Proofs.Watch.Plan
import ChainRunner.Proofs.Watch.Polling
import ChainRunner.Proofs.Watch.Root
import ChainRunner.Proofs.Watch.RootDir
import ChainRunner.Proofs.Watch.Roots
import ChainRunner.Proofs.Watch.Variants
import ChainRunner.Rehearsal.Session
import ChainRunner.Rehearsal.Trial
import ChainRunner.Run.Clock
import ChainRunner.Run.Dispatch
import ChainRunner.Run.Horizon
import ChainRunner.Run.Log
import ChainRunner.Run.Machine
import ChainRunner.Run.Moves
import ChainRunner.Run.Names
import ChainRunner.Run.Plan
import ChainRunner.Run.Report
import ChainRunner.Run.State
import ChainRunner.Shell.Arithmetic
import ChainRunner.Shell.Expansion
import ChainRunner.Shell.Machine
import ChainRunner.Shell.Parser
import ChainRunner.Shell.State
import ChainRunner.Shell.Syntax
import ChainRunner.Shell.Token
import ChainRunner.Shell.Utility
import ChainRunner.Text.Blank
import ChainRunner.Text.Hidden
import ChainRunner.Text.Quoted
import ChainRunner.Text.Reader
import ChainRunner.Text.Utf8
import ChainRunner.Variables.Axis
import ChainRunner.Variables.Basic
import ChainRunner.Variables.Template
import ChainRunner.Watch.Pattern
import ChainRunner.Watch.Pending
import ChainRunner.Watch.Polling
import ChainRunner.Watch.Rule
