import Enkaku.Lib.Sql
import Enkaku.Queue.Exclusive
import Enkaku.Queue.Caps
import Enkaku.Jobs.Numbering
import Enkaku.Jobs.ExecutorHost
import Enkaku.Jobs.HostIsolation
import Enkaku.Jobs.CancelFinal
import Enkaku.Lib.OrdMap
import Enkaku.Workflow.Doc
import Enkaku.Workflow.Resolve
import Enkaku.Workflow.StepCompute
import Enkaku.Workflow.StepTable
import Enkaku.Workflow.Executor
import Enkaku.Workflow.Simulate
import Enkaku.Workflow.Loop
import Enkaku.Lib.Lockstep
import Enkaku.Workflow.Refinement
import Enkaku.Workflow.Attempts
import Enkaku.Workflow.Resume
import Enkaku.Lib.Handoff
import Enkaku.Workflow.Check
import Enkaku.Workflow.Shuffle
import Enkaku.Expr.FilterWhere
import Enkaku.Expr.Parse
import Enkaku.Expr.Grammar
import Enkaku.Lib.Digraph
import Enkaku.Workflow.Graph
import Enkaku.Workflow.Bindings
import Enkaku.Workflow.Budget
import Enkaku.Workflow.CheckWorkflow
import Enkaku.Workflow.ForwardRef
import Enkaku.Workflow.LoopBound
import Enkaku.Workflow.Cost
import Enkaku.Groups.Pacer
import Enkaku.Lib.Barrier
import Enkaku.Groups.Members
import Enkaku.Groups.Sequential
import Enkaku.Groups.Advance
import Enkaku.Groups.Dispatched
import Enkaku.Groups.Phases
import Enkaku.Jobs.Triggers
import Enkaku.Agents.Authority
import Enkaku.Lib.SplitOn
import Enkaku.Lib.Utf16
import Enkaku.Workflow.SetJson
import Enkaku.Workflow.SetText
import Enkaku.Workflow.SetCodec
import Enkaku.Workflow.SetRoundTrip
import Enkaku.Workflow.Grouped
import Enkaku.Network.ReverseRegistry
import Enkaku.Network.ReverseTruth
import Enkaku.Workflow.Upgrade
import Enkaku.Workflow.UpgradeRuns
import Enkaku.Adb.StreamMux
import Enkaku.Adb.MuxTable
import Enkaku.Adb.MuxLossless
import Enkaku.Adb.MuxLimits
import Enkaku.Adb.MuxBound
import Enkaku.Adb.Semaphore
import Enkaku.Adb.SemaphoreCap
import Enkaku.Adb.DeviceQueue
import Enkaku.Adb.QueueAdmission
import Enkaku.Adb.QueueChain
import Enkaku.Adb.QueueFifo
import Enkaku.Adb.QueueIdle
import Enkaku.Workflow.JsonText
import Enkaku.Workflow.SetDecode
import Enkaku.Schema.Node
import Enkaku.Schema.Validate
import Enkaku.Session.PortAllocator
import Enkaku.Session.InputArbiter
import Enkaku.Scrcpy.Clipboard
import Enkaku.Kv.Expired
import Enkaku.Kv.Store
import Enkaku.Kv.Versions
import Enkaku.Device.Readiness
import Enkaku.Device.HoldCounts
import Enkaku.Device.WorkHold
import Enkaku.Registry.Cutover
import Enkaku.Registry.CutoverWatch
import Enkaku.Schedules.Cron
import Enkaku.Schedules.Runner
import Enkaku.Schedules.Occurrences
import Enkaku.Schedules.Overlap
import Enkaku.Workflow.Sequence
import Enkaku.Workflow.SetHeap
import Enkaku.Workflow.SetLens
import Enkaku.Queue.NextQueued
import Enkaku.Lib.Keyset
import Enkaku.Queue.JobList
import Enkaku.Registry.DeviceNumbers
import Enkaku.Registry.DeviceNumbersKept
import Enkaku.Registry.DeviceNumbersCompact
import Enkaku.Workflow.Settle
import Enkaku.Workflow.Tally
import Enkaku.Jobs.BulkCancel
import Enkaku.Jobs.BulkStops
import Enkaku.Jobs.BulkTree
import Enkaku.Jobs.BulkAccounts
import Enkaku.Lib.JsData
import Enkaku.Expr.Eval
import Enkaku.Expr.JsonLaw
import Enkaku.Adb.FrameReader
import Enkaku.Adb.ShellFrames
import Enkaku.Adb.ShellQuote
import Enkaku.Adb.Tracker
import Enkaku.Adb.Sync
import Enkaku.Adb.SyncPull
import Enkaku.Adb.ByteQueue
import Enkaku.Adb.Socket
import Enkaku.Adb.SocketWrites
import Enkaku.Workflow.Rotation
import Enkaku.Schema.Defaults
import Enkaku.Expr.Compose
import Enkaku.Workflow.Template
import Enkaku.Workflow.Evaluate
import Enkaku.Workflow.GroupSplit
import Enkaku.Kv.Increment
import Enkaku.Scrcpy.Keyframe
import Enkaku.Kv.Paging
import Enkaku.Lib.Staged
import Enkaku.Scrcpy.ByteRing
import Enkaku.Scrcpy.Demuxer
import Enkaku.Scrcpy.DeviceMessages
import Enkaku.Lib.Binary64
import Enkaku.Scripts.Semver
import Enkaku.Kv.Redactor
import Enkaku.Schema.Zod
import Enkaku.Workflow.DocSchema
import Enkaku.Workflow.RankLayout
import Enkaku.Workflow.StoredUpgrade
import Enkaku.Schema.Clamp
import Enkaku.Schema.GateCover
import Enkaku.Device.Selector
import Enkaku.Schedules.WakeTimer
import Enkaku.Device.FsPath
import Enkaku.Workspace.Path
import Enkaku.Workspace.Quota
import Enkaku.Workspace.Grants
import Enkaku.Device.CrashParser
import Enkaku.Registry.Endpoints
import Enkaku.Adb.InputText
import Enkaku.Workflow.WeightedSwitch
import Enkaku.Api.Pagination
import Enkaku.Jobs.TraceRecorder
import Enkaku.Queue.Settled
