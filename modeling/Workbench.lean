import Workbench.Activation
import Workbench.Archive
import Workbench.Build.Coordinator
import Workbench.Build.Reading
import Workbench.Build.Result
import Workbench.Build.Schedule
import Workbench.Build.Session
import Workbench.Command.Arguments
import Workbench.Command.Line
import Workbench.Command.Run
import Workbench.Discovery
import Workbench.Discovery.Locate
import Workbench.Disk
import Workbench.Editor
import Workbench.Failure
import Workbench.Field
import Workbench.Fold
import Workbench.Host
import Workbench.Index.Diagnostics
import Workbench.Index.Symbols
import Workbench.Install
import Workbench.Install.Plan
import Workbench.Install.Release
import Workbench.Install.Site
import Workbench.Install.Unpack
import Workbench.Json.Display
import Workbench.Json.Reader
import Workbench.Json.Value
import Workbench.Json.Writer
import Workbench.Language.Client
import Workbench.Language.Server
import Workbench.Log.Channel
import Workbench.Log.Format
import Workbench.Log.Level
import Workbench.Log.Moment
import Workbench.Log.Setup
import Workbench.Log.Template
import Workbench.Main
import Workbench.Number.Binary64
import Workbench.Number.Layout
import Workbench.Number.Shortest
import Workbench.OrderedMap
import Workbench.Path.Name
import Workbench.Path.Normal
import Workbench.Record
import Workbench.Record.Line
import Workbench.Report
import Workbench.Settings
import Workbench.Stream.Decoder
import Workbench.Stream.LineBuffer
import Workbench.Stream.Pump
import Workbench.Stream.Router
import Workbench.Text.Basic
import Workbench.Text.Blank
import Workbench.Text.Case
import Workbench.Text.Case.Table
import Workbench.Text.Lines
import Workbench.Text.Printable
import Workbench.Text.Quoted
import Workbench.Text.Utf8
import Workbench.Toolchain
import Workbench.Toolchain.Invoke
import Workbench.Tools.Catalogue
import Workbench.Tools.Context
import Workbench.Uri.File
import Workbench.Uri.Host
import Workbench.Uri.Percent
import Workbench.Uri.Reference
import Workbench.Version
import Workbench.Web.Address
import Workbench.Web.Exchange
import Workbench.World
import Workbench.World.Recorded
import Workbench.Proofs.Text.Pieces
import Workbench.Proofs.Text.Utf8.Decoding
import Workbench.Proofs.Stream.Chunking
import Workbench.Proofs.Json.Limits
import Workbench.Proofs.OrderedMap
import Workbench.Proofs.Stream.Isolation
import Workbench.Proofs.Index.History
import Workbench.Proofs.Path.Normal
import Workbench.Proofs.Stream.Pumping
import Workbench.Proofs.Build.Commit
import Workbench.Proofs.Build.Abort
import Workbench.Proofs.Build.Steps
import Workbench.Proofs.Build.SingleFlight
import Workbench.Proofs.Build.Reading
import Workbench.Proofs.Build.Snapshots
import Workbench.Proofs.Build.Freshness
import Workbench.Proofs.Build.Schedule
import Workbench.Proofs.Build.Lifecycle
import Workbench.Proofs.Fold
import Workbench.Proofs.Disk
import Workbench.Proofs.Install.Places
import Workbench.Proofs.Install.Saving
import Workbench.Proofs.Install.Unpack
import Workbench.Proofs.Install.Download
import Workbench.Proofs.Install.Attempts
import Workbench.Proofs.Build.Undisturbed
import Workbench.Proofs.Build.Idle
import Workbench.Proofs.Build.Tended
import Workbench.Proofs.Build.Order
import Workbench.Proofs.Discovery.Locate
import Workbench.Proofs.Command.Builds
import Workbench.Proofs.Language.Conversation
import Workbench.Proofs.Build.Answers
import Workbench.Proofs.Build.Modes
import Workbench.Proofs.Build.Projection
import Workbench.Proofs.Build.RootIsolation
import Workbench.Proofs.Build.Solo
import Workbench.Proofs.Tools.History
import Workbench.Proofs.Path.Joined
import Workbench.Proofs.Uri.Percent
import Workbench.Proofs.Uri.Files
import Workbench.Proofs.Install.Rediscovery
import Workbench.Proofs.Build.Failures
import Workbench.Proofs.Build.Resilience
import Workbench.Proofs.Build.Spawns
import Workbench.Proofs.Activation.Tiers
import Workbench.Proofs.Text.Words
import Workbench.Proofs.Text.Numeral
import Workbench.Proofs.Version.Grammar
import Workbench.Proofs.Toolchain.Detection
import Workbench.Proofs.Text.Scalar
import Workbench.Proofs.Text.Case
import Workbench.Proofs.Json.Grammar
import Workbench.Proofs.Json.Tokens
import Workbench.Proofs.Json.Exact
import Workbench.Proofs.Json.Writing
import Workbench.Proofs.Json.Display
import Workbench.Proofs.Field.Integer
import Workbench.Proofs.Record.Classification
import Workbench.Proofs.Record.Coordinates
import Workbench.Proofs.Report
import Workbench.Proofs.Build.Delivery
import Workbench.Proofs.Build.Plain
import Workbench.Proofs.Tools.Replies
import Workbench.Proofs.Text.Sigma
import Workbench.Proofs.Index.Search
import Workbench.Proofs.Build.Forwarding
import Workbench.Proofs.Path.Within
import Workbench.Proofs.Build.Due
import Workbench.Proofs.Build.Triggers
import Workbench.Proofs.Install.Archives
import Workbench.Proofs.Install.Cache
import Workbench.Proofs.Discovery.Order
import Workbench.Proofs.Discovery.Configured
import Workbench.Proofs.Editor
import Workbench.Proofs.Discovery.Offer
import Workbench.Proofs.Language.Unstopped
import Workbench.Proofs.Command.Reports
import Workbench.Proofs.Log.Channel
import Workbench.Proofs.Stream.Accounting
import Workbench.Proofs.Path.Keys
import Workbench.Proofs.Build.Identity
import Workbench.Proofs.Index.Grouping
