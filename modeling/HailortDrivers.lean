import HailortDrivers.MachineWord
import HailortDrivers.DescriptorProgramming
import HailortDrivers.ProgrammedPages
import HailortDrivers.DescriptorsListCreation
import HailortDrivers.BoundBuffers
import HailortDrivers.BufferPages
import HailortDrivers.DescriptorWords
import HailortDrivers.FastPathAgreement
import HailortDrivers.ScatterGatherCoverage
import HailortDrivers.ChannelTransfers
import HailortDrivers.CircularBuffer
import HailortDrivers.LaunchSteps
import HailortDrivers.LaunchOutcomes
import HailortDrivers.LaunchedBuffers
import HailortDrivers.OngoingRing
import HailortDrivers.VdmaEngine
import HailortDrivers.CompletionSteps
import HailortDrivers.EngineSteps
import HailortDrivers.DirtyDescriptors
import HailortDrivers.LaunchedWindows
import HailortDrivers.DescriptorWindow
import HailortDrivers.CompletionWindows
import HailortDrivers.CompletionOrder
import HailortDrivers.VdmaIoctl
import HailortDrivers.VdmaSystem
import HailortDrivers.OwnedObjects
import HailortDrivers.RequestEffects
import HailortDrivers.ChannelOwnership
import HailortDrivers.ListLifetime
import HailortDrivers.BufferLifetime
import HailortDrivers.LittleEndian
import HailortDrivers.ResourceAccess
import HailortDrivers.ByteViews
import HailortDrivers.FirmwareLog
import HailortDrivers.FirmwareLogRuns
import HailortDrivers.FirmwareLogBounds
import HailortDrivers.FirmwareFormat
import HailortDrivers.DeviceMemory
import HailortDrivers.DeviceWindow
import HailortDrivers.WindowedCopies
import HailortDrivers.FirmwareLoading
import HailortDrivers.MemoryRuns
import HailortDrivers.BrokenWrites
import HailortDrivers.FirmwareLayout
import HailortDrivers.InterruptHandling
import HailortDrivers.BoardCalls
import HailortDrivers.HeldReferences
import HailortDrivers.BoardSteps
import HailortDrivers.BoardAccounting
import HailortDrivers.BoardLifetime
import HailortDrivers.DeviceRemoval
import HailortDrivers.NotificationDelivery
import HailortDrivers.NotificationRuns
import HailortDrivers.FirmwareControl
import HailortDrivers.KernelCompletion
import HailortDrivers.ControlSteps
import HailortDrivers.ControlResponses
import HailortDrivers.TimestampReads
import HailortDrivers.ProgramIoctl
import HailortDrivers.TimestampDelivery
import HailortDrivers.DivisorSafety
import HailortDrivers.RingPositions
import HailortDrivers.AcceptedRanges
import HailortDrivers.BufferMapping
import HailortDrivers.MappingLeaks
import HailortDrivers.MappedUserBytes
import HailortDrivers.ChannelControl
import HailortDrivers.IdleTest
import HailortDrivers.RepeatedStops
import HailortDrivers.SoftReset
import HailortDrivers.LockInvariants
import HailortDrivers.BoardPrograms
import HailortDrivers.BoardMutex
import HailortDrivers.BoardMutexRuns
import HailortDrivers.IdleBoard
import HailortDrivers.InterruptCauses
import HailortDrivers.ChannelHistories
import HailortDrivers.DisabledChannel
import HailortDrivers.IndexRanges
import HailortDrivers.IndexSteps
import HailortDrivers.BootProgramming
import HailortDrivers.BootDescriptors
import HailortDrivers.PagePacking
import HailortDrivers.BootBatch
import HailortDrivers.BootDelivery
import HailortDrivers.BootSuccess
import HailortDrivers.BootInterrupts
import HailortDrivers.BootTransfer
import HailortDrivers.ResourceBytes
import HailortDrivers.NumAvailAdvance
import HailortDrivers.ListLimits
import HailortDrivers.BatchPattern
import HailortDrivers.BatchOverlap
import HailortDrivers.PagePositions
import HailortDrivers.StridedProgramming
import HailortDrivers.SocConnect
import HailortDrivers.SocOwnership
import HailortDrivers.ControlProtocol
import HailortDrivers.ControlByteOrder
import HailortDrivers.BootActivation
import HailortDrivers.BootCounters
import HailortDrivers.CleanBoot
import HailortDrivers.ChunkCounts
import HailortDrivers.BindIndices
import HailortDrivers.SyncCoverage
import HailortDrivers.VdmaMmap
import HailortDrivers.VdmaHandles
import HailortDrivers.BoardInsertion
import HailortDrivers.SocIndices
import HailortDrivers.BootChannelBounds
import HailortDrivers.EncoderBounds
import HailortDrivers.BootResources
import HailortDrivers.BootReleases
import HailortDrivers.BoardResources
import HailortDrivers.BufferUnmapping
import HailortDrivers.FileMemory
import HailortDrivers.ModuleLife
import HailortDrivers.Doorbells
import HailortDrivers.SleepingDevice
import HailortDrivers.SocExchange
import HailortDrivers.WaitQueues
import HailortDrivers.WakeUps
import HailortDrivers.MappedPages
import HailortDrivers.TransferAccounts
import HailortDrivers.ChannelShares
import HailortDrivers.KernelShares
import HailortDrivers.UndisturbedFiles
