import InFMon.CounterTable.Model
import InFMon.Foundations.PowerOfTwo
import InFMon.CounterTable.Geometry
import InFMon.CounterTable.Update
import InFMon.CounterTable.Effects
import InFMon.CounterTable.ExactMap
import InFMon.CounterTable.Reachability
import InFMon.CounterTable.Heap
import InFMon.Foundations.CountedLoop
import InFMon.Snapshot.Manager
import InFMon.Snapshot.AllOrNothing
import InFMon.Snapshot.Ownership
import InFMon.CounterTable.Shape
import InFMon.Snapshot.Quiescence
import InFMon.FlowRule.Model
import InFMon.Api.Handler
import InFMon.Api.Rows
import InFMon.FlowRule.RuleList
import InFMon.Api.Alignment
import InFMon.Api.Ownership
import InFMon.Foundations.TracedReader
import InFMon.Parser.Erspan
import InFMon.Parser.Grammar
import InFMon.Parser.Accept
import InFMon.DataPath.FlowFields
import InFMon.Parser.Bounds
import InFMon.FlowRule.Key
import InFMon.Frontend.Decode
import InFMon.FlowRule.Codec
import InFMon.DataPath.FlowMatch
import InFMon.DataPath.Keys
import InFMon.DataPath.Dispatch
import InFMon.Plugin.State
import InFMon.Plugin.Handlers
import InFMon.Plugin.Context
import InFMon.Plugin.Frames
import InFMon.Plugin.SnapshotBudget
import InFMon.Plugin.Interleaving
import InFMon.Plugin.TableLifetime
import InFMon.Frontend.Model
import InFMon.Frontend.VapiClient
import InFMon.Frontend.Control
import InFMon.Frontend.RuleTransfer
import InFMon.Foundations.KeyedMerge
import InFMon.Frontend.Poller
import InFMon.Frontend.DecodedFlows
import InFMon.Frontend.StatsJoin
import InFMon.Plugin.Cli
import InFMon.Plugin.SharedRules
import InFMon.Plugin.Admission
import InFMon.Plugin.ApiPhase
import InFMon.Plugin.Attribution
import InFMon.Plugin.CurrentRules
import InFMon.Plugin.Coherence
import InFMon.Plugin.FrameRules
import InFMon.Plugin.Outcome
import InFMon.Config.Model
import InFMon.Config.Validate
import InFMon.Config.RuleSet
import InFMon.Config.ErrorTexts
import InFMon.Config.Bisimulation
import InFMon.Frontend.ControlRuns
import InFMon.Frontend.BackendSync
import InFMon.CounterTable.Outcome
import InFMon.CounterTable.Accounting
import InFMon.CounterTable.Representation
import InFMon.Foundations.ReaderPairs
import InFMon.Parser.SnapLength
import InFMon.CounterTable.HashedKeys
import InFMon.Plugin.StoredKeys
import InFMon.Frontend.StatsClient
import InFMon.Frontend.SnapshotDumps
import InFMon.Frontend.LatestSnapshot
import InFMon.Otlp.Model
import InFMon.Otlp.Request
import InFMon.Otlp.Batches
import InFMon.Otlp.Export
import InFMon.Otlp.BatchFates
import InFMon.Frontend.FailedInserts
import InFMon.Otlp.ExportRuns
import InFMon.Plugin.Credits
import InFMon.Plugin.DumpLedger
import InFMon.Plugin.Handover
import InFMon.Foundations.Apportionment
import InFMon.Otlp.BatchContents
import InFMon.Otlp.ExportCap
import InFMon.Otlp.Emission
import InFMon.Api.KeyCap
import InFMon.CounterTable.Eviction
import InFMon.DataPath.NextFrames
import InFMon.DataPath.FramePass
import InFMon.Plugin.FrontDoors
import InFMon.Foundations.CappedLine
import InFMon.Frontend.ControlWire
import InFMon.Plugin.ExactlyOnce
import InFMon.Foundations.IndexedMerge
import InFMon.Frontend.WorkerMerge
import InFMon.Foundations.BitCounts
import InFMon.Frontend.LostPackets
import InFMon.Foundations.SparseArray
import InFMon.StatsSegment.Model
import InFMon.StatsSegment.Invariant
import InFMon.StatsSegment.Identity
import InFMon.Otlp.PointsEmitted
import InFMon.Config.Durations
import InFMon.DataPath.InnerL3
import InFMon.DataPath.DecapLoop
import InFMon.Foundations.JoinedText
import InFMon.Frontend.AddressText
import InFMon.Otlp.SeriesIdentity
import InFMon.Foundations.Utf8Prefix
import InFMon.Otlp.Truncation
import InFMon.CounterTable.FailedUpdates
import InFMon.DataPath.FailureCauses
import InFMon.Foundations.LoopAccesses
import InFMon.Plugin.WorkerRows
import InFMon.Foundations.SmallStep
import InFMon.CounterTable.Steps
import InFMon.CounterTable.StepEffects
import InFMon.CounterTable.StepRefinement
import InFMon.CounterTable.SoleWriter
import InFMon.CounterTable.ArenaBounds
import InFMon.Foundations.Seqlock
import InFMon.CounterTable.SeqlockReads
import InFMon.CounterTable.SharedLedger
import InFMon.CounterTable.SharedUpdates
import InFMon.Foundations.BoundedChannel
import InFMon.Foundations.FairRuns
import InFMon.Daemon.Threads
import InFMon.Daemon.Steps
import InFMon.Daemon.Accounting
import InFMon.Daemon.Pulls
import InFMon.Daemon.Endings
import InFMon.Daemon.Shutdown
import InFMon.Daemon.Dropped
import InFMon.Daemon.Answers
import InFMon.Plugin.Meter
import InFMon.Plugin.FrameHits
import InFMon.Plugin.MeterRuns
import InFMon.Frontend.MeteredDumps
import InFMon.Frontend.MeteredRuns
import InFMon.Foundations.Numerals
import InFMon.Frontend.RuleIds
import InFMon.Cli.Spec
import InFMon.Cli.Client
import InFMon.Foundations.Sessions
import InFMon.Cli.Sessions
import InFMon.CounterTable.Lifetime
