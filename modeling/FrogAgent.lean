import FrogAgent.Host.JournalRevert
import FrogAgent.Hook.CodeRestore
import FrogAgent.Hook.ContextLifetime
import FrogAgent.Hook.Precedence
import FrogAgent.Hook.Transparency
import FrogAgent.Runtime.Teardown
import FrogAgent.Runtime.Handoff
import FrogAgent.Runtime.Overlap
import FrogAgent.Runtime.LockDiscipline
import FrogAgent.Core.PackedArgChecked
import FrogAgent.Lib.LongestSuffix
import FrogAgent.Protocol.FrameRing
import FrogAgent.Core.Metadata
import FrogAgent.Core.LossyText
import FrogAgent.Core.MetadataParse
import FrogAgent.Hook.RegisterConvention
import FrogAgent.Hook.ReturnPaths
import FrogAgent.Internals.Dump
import FrogAgent.Internals.DumpMerge
import FrogAgent.Core.Consensus
import FrogAgent.Internals.Calibration
import FrogAgent.Internals.LayoutRecovery
import FrogAgent.Protocol.PendingReceives
import FrogAgent.Hook.SlabAgreement
import FrogAgent.Lib.Incremental
import FrogAgent.Protocol.PacketStream
import FrogAgent.Runtime.Fuel
import FrogAgent.Hook.InstallAtomic
import FrogAgent.Hook.NestedDispatch
import FrogAgent.Hook.ArgWriteback
import FrogAgent.Hook.Fallback
import FrogAgent.Internals.InvokeConvention
import FrogAgent.Internals.InvokeTypes
import FrogAgent.Lib.Buffer
import FrogAgent.External.Scan
import FrogAgent.Host.GuestCalls
import FrogAgent.Host.GuestBounds
import FrogAgent.Core.MetadataLayouts
import FrogAgent.Core.MetadataSafety
import FrogAgent.Lib.Occurrences
import FrogAgent.Host.CompareAndWrite
import FrogAgent.Lib.MarkedLog
import FrogAgent.Host.PermanentWrites
import FrogAgent.Lib.BinarySearch
import FrogAgent.External.VirtualMemory
import FrogAgent.External.RegionMap
import FrogAgent.External.RegionCache
import FrogAgent.External.GuardedWrite
import FrogAgent.Internals.InstanceIter
import FrogAgent.Internals.FieldAccess
import FrogAgent.Runtime.Watcher
import FrogAgent.Lib.Lowest
import FrogAgent.Lib.MachineCode
import FrogAgent.Lib.X64Bytes
import FrogAgent.Internals.SignatureScan
import FrogAgent.Hook.StolenPrefix
import FrogAgent.Lib.KeyedDiff
import FrogAgent.Core.RegionChurn
import FrogAgent.Internals.KlassIter
import FrogAgent.Lib.SlotWalk
import FrogAgent.Internals.TypeNameRender
import FrogAgent.Internals.TypeNames
import FrogAgent.Lib.Tally
import FrogAgent.Internals.TypeMaps
import FrogAgent.Internals.DumpFields
import FrogAgent.Internals.StartupDump
import FrogAgent.Lib.MaximalRuns
import FrogAgent.External.ClassTable
import FrogAgent.External.MetadataScan
import FrogAgent.External.TypesArray
import FrogAgent.Protocol.CaptureDetours
import FrogAgent.Lib.BestScore
import FrogAgent.Internals.CalibratedConfig
import FrogAgent.Internals.KlassElection
import FrogAgent.Internals.ParamLayout
import FrogAgent.Lib.PrefixPieces
import FrogAgent.Protocol.ScatterCapture
import FrogAgent.Protocol.PacketServer
import FrogAgent.Protocol.PacketHooks
import FrogAgent.Runtime.Detach
import FrogAgent.Lib.Records
import FrogAgent.Host.GuestAbi
import FrogAgent.Host.ScriptRun
import FrogAgent.Lib.Plateau
import FrogAgent.Internals.Stability
import FrogAgent.Lib.Decimal
import FrogAgent.Runtime.Timestamp
import FrogAgent.Lib.FileSystem
import FrogAgent.Runtime.StateFile
import FrogAgent.Runtime.StateWriters
import FrogAgent.Lib.Gregorian
import FrogAgent.Lib.MachineInt
import FrogAgent.Runtime.CivilTime
