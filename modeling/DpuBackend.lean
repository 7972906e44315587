import DpuBackend.Lib.Mem
import DpuBackend.Lib.Loops
import DpuBackend.Lib.Simd
import DpuBackend.Lib.Hoare
import DpuBackend.Xeon.Interleave
import DpuBackend.Xeon.Address
import DpuBackend.Xeon.Transfer
import DpuBackend.Xeon.FlatTransfer
import DpuBackend.Xeon.ReduceScatterRg
import DpuBackend.Xeon.RoundTrip
import DpuBackend.Xeon.SgIterator
import DpuBackend.Xeon.SgWrite
import DpuBackend.Xeon.SgRead
import DpuBackend.Xeon.ScatterGather
import DpuBackend.Xeon.SgPadding
import DpuBackend.Ufi.Slice
import DpuBackend.Ufi.Rank
import DpuBackend.Ufi.Runner
import DpuBackend.Ufi.Memory
import DpuBackend.Ufi.MuxSpec
import DpuBackend.Ufi.MuxExclusion
import DpuBackend.Ufi.MuxRecord
import DpuBackend.Ufi.MatrixAccess
import DpuBackend.Ufi.MemoryFrames
import DpuBackend.Ufi.LineWrite
import DpuBackend.Ufi.Isolation
import DpuBackend.Ufi.CommandWords
import DpuBackend.Ufi.Commands
import DpuBackend.Ufi.Confinement
import DpuBackend.Ufi.ConfinedRuns
import DpuBackend.Lib.Barrier
import DpuBackend.Lib.System
import DpuBackend.Lib.WaitFor
import DpuBackend.PidComm.Hypercube
import DpuBackend.PidComm.Relocate
import DpuBackend.PidComm.RelocateRounds
import DpuBackend.PidComm.RelocateRaces
import DpuBackend.PidComm.RelocateInPlace
import DpuBackend.PidComm.AllToAllPairs
import DpuBackend.Pimnic.Entities
import DpuBackend.Xeon.AllToAllRg
import DpuBackend.Api.SymbolAccess
import DpuBackend.Api.SgXfer
import DpuBackend.Api.MramAccess
import DpuBackend.Api.MramWrite
import DpuBackend.Jobs.Rank
import DpuBackend.Jobs.SlotSignal
import DpuBackend.Jobs.LockOrder
import DpuBackend.Jobs.Machine
import DpuBackend.Jobs.Ownership
import DpuBackend.Jobs.Parking
import DpuBackend.Jobs.Invariant
import DpuBackend.Jobs.Effects
import DpuBackend.Jobs.FifoOrder
import DpuBackend.Jobs.Requeue
import DpuBackend.Api.EntangledGroup
import DpuBackend.Lib.Base128
import DpuBackend.Vpd.Container
import DpuBackend.Vpd.DecodeSafety
import DpuBackend.Vpd.EncodeRuns
import DpuBackend.Vpd.DatabaseRoundTrip
import DpuBackend.Lib.Layout
import DpuBackend.Vpd.Image
import DpuBackend.Vpd.ImageRoundTrip
import DpuBackend.Vpd.SramRepairs
import DpuBackend.Vpd.RepairEntries
import DpuBackend.Vpd.SetString
import DpuBackend.Ufi.Completion
import DpuBackend.Lib.FirstFailure
import DpuBackend.Ufi.ResetRank
import DpuBackend.Ufi.ResetEnabled
import DpuBackend.Api.DpuLog
import DpuBackend.Api.Checkpoint
import DpuBackend.Api.CheckpointRoundTrip
import DpuBackend.Api.RankAcquisition
import DpuBackend.Api.CommAllocation
import DpuBackend.Xeon.TransferPools
import DpuBackend.Lib.RefCount
import DpuBackend.Api.ProgramReferences
import DpuBackend.Api.ElfLoad
import DpuBackend.Api.ElfLoadSegment
import DpuBackend.Api.ElfLoadExact
import DpuBackend.Api.Polling
import DpuBackend.Api.PollingWakeups
import DpuBackend.Ufi.ControlInterface
import DpuBackend.Ufi.LinkInvariant
import DpuBackend.Ufi.FramedCalls
import DpuBackend.Ufi.DebugContext
import DpuBackend.Ufi.DebugTransparency
import DpuBackend.Ufi.EnabledGroups
import DpuBackend.Api.RankHandler
import DpuBackend.Api.HandlerLifetime
import DpuBackend.Commons.Properties
import DpuBackend.Commons.Profile
import DpuBackend.Commons.ConfigText
import DpuBackend.Api.DebugSchedule
import DpuBackend.Ufi.Board
import DpuBackend.Ufi.MatrixTransfer
import DpuBackend.Ufi.MatrixRead
import DpuBackend.Ufi.MatrixTransferExact
import DpuBackend.Ufi.RegisterImage
import DpuBackend.Ufi.DebugRoutine
import DpuBackend.Ufi.ConfigReadBack
import DpuBackend.Lib.Calc
import DpuBackend.Ufi.RefreshTiming
import DpuBackend.Ufi.RepairPlan
import DpuBackend.Ufi.PollingBudget
import DpuBackend.Ufi.FaultStorage
import DpuBackend.Api.DpuDisabling
import DpuBackend.Api.SetRelease
import DpuBackend.Lib.BitMoves
import DpuBackend.Ufi.BitConfig
import DpuBackend.Lib.Ring
import DpuBackend.Ufi.CommandTrace
import DpuBackend.Lib.Regions
import DpuBackend.Api.SgPool
import DpuBackend.PidComm.GroupShare
import DpuBackend.PidComm.RelocateOut
import DpuBackend.PidComm.HostAllToAll
import DpuBackend.PidComm.Collective
import DpuBackend.PidComm.AllToAllTranspose
import DpuBackend.PidComm.ReduceScatterRns
import DpuBackend.PidComm.HostReduceScatter
import DpuBackend.PidComm.ReduceScatterSum
import DpuBackend.Lib.Slots
import DpuBackend.Api.Registries
import DpuBackend.Power9.RankTransfer
import DpuBackend.Lib.FilledTable
import DpuBackend.Api.ProfilingStats
import DpuBackend.Jobs.SlotCustody
import DpuBackend.Jobs.SyncSound
import DpuBackend.Ufi.CacheCoherence
