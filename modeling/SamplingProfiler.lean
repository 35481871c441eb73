import SamplingProfiler.ConfigText
import SamplingProfiler.CommandLine.EmptyDirectory
import SamplingProfiler.Main
import SamplingProfiler.Session.Run
import SamplingProfiler.ShadowStack.Guards
import SamplingProfiler.Proofs.Replies
import SamplingProfiler.Proofs.AllocationGate
import SamplingProfiler.Proofs.Settings
import SamplingProfiler.Proofs.ShadowStack
import SamplingProfiler.Proofs.GuardedStack
import SamplingProfiler.Proofs.Snapshot
import SamplingProfiler.Proofs.Log.Links
import SamplingProfiler.Proofs.Log.WellFormed
import SamplingProfiler.Proofs.Log.Table
import SamplingProfiler.Proofs.Log.Reference
import SamplingProfiler.Proofs.Log.Total
import SamplingProfiler.Proofs.Log.Amortised
import SamplingProfiler.Proofs.Log.Survivors
import SamplingProfiler.Proofs.Log.Credits
import SamplingProfiler.Proofs.Log.Heaviest
import SamplingProfiler.Proofs.Log.Room
import SamplingProfiler.Proofs.Log.Uses
import SamplingProfiler.Proofs.Log.NextRow
import SamplingProfiler.Proofs.Log.Checks
import SamplingProfiler.Proofs.Log.Coherence
import SamplingProfiler.Proofs.Log.Scratch
import SamplingProfiler.Proofs.Json.Lexemes
import SamplingProfiler.Proofs.Json.Grammar
import SamplingProfiler.Proofs.Json.Skipping
import SamplingProfiler.Proofs.Json.Objects
import SamplingProfiler.Proofs.Json.Values
import SamplingProfiler.Proofs.Json.Records
import SamplingProfiler.Proofs.Json.Truncation
import SamplingProfiler.Proofs.ConfigText
import SamplingProfiler.Proofs.Workload
import SamplingProfiler.Proofs.Document.RoundTrip
import SamplingProfiler.Proofs.Document.Samples
import SamplingProfiler.Proofs.Document.Image
import SamplingProfiler.Proofs.Document.Summary
import SamplingProfiler.Proofs.Document.Sink
import SamplingProfiler.Proofs.Document.Truncation
import SamplingProfiler.Proofs.Interleaving.Weave
import SamplingProfiler.Proofs.Interleaving.Adequacy
import SamplingProfiler.Proofs.Interleaving.Turn
import SamplingProfiler.Proofs.Interleaving.Custody
import SamplingProfiler.Proofs.Interleaving.Accounting
import SamplingProfiler.Proofs.Interleaving.Sessions
import SamplingProfiler.Proofs.Interleaving.Pacing
import SamplingProfiler.Proofs.Interleaving.Confined
import SamplingProfiler.Proofs.Interleaving.Holding
import SamplingProfiler.Proofs.Interleaving.Starting
import SamplingProfiler.Proofs.Replay.Page
import SamplingProfiler.Proofs.Replay.Quiet
import SamplingProfiler.Proofs.Replay.Book
import SamplingProfiler.Proofs.Replay.History
import SamplingProfiler.Proofs.Replay.Panics
import SamplingProfiler.Proofs.Replay.Snapshots
import SamplingProfiler.Proofs.Replay.Exact
import SamplingProfiler.Proofs.Replay.Remainder
import SamplingProfiler.Proofs.Replay.Intervals
import SamplingProfiler.Proofs.Independence.Twins
import SamplingProfiler.Proofs.Independence.Deletion
