import HailortDrivers.VdmaIoctl

/-!
`HAILO_DESC_LIST_PROGRAM`: a batch of transfers of one mapped buffer is programmed into a
descriptors list, without a channel. `HAILO_VDMA_BUFFER_SYNC` is here too.
-/
namespace HailortDrivers.ProgramIoctl
open KernelExec VdmaTypes DescriptorProgramming VdmaMemory VdmaIoctl

/-- Loop variables of `hailo_vdma_program_descriptors_list_batch`. -/
structure BatchCursor where
  offset : UInt32
  startingDesc : UInt32
  totalDescProgrammed : Int32
  descList : HailoVdmaDescriptorsList

section
variable (vdmaHw : HailoVdmaHw) (sgTable : SgTable) (transferSize : UInt32) (shouldBind : Bool)
  (channelIndex : UInt8) (lastDescInterrupts : HailoVdmaInterruptsDomain) (isDebug : Bool)
  (stride : UInt32)

/-- Where the next transfer of the batch starts. -/
def nextStartingDesc (descList : HailoVdmaDescriptorsList) (startingDesc : UInt32) : Exec UInt32 :=
  if descList.isCircular then umod startingDesc descList.descCount else .ok startingDesc

/-- The loop, `batch_size` rounds. -/
def programBatch : Nat → BatchCursor → Exec (Int32 × HailoVdmaDescriptorsList)
  | 0, c => .ok (c.totalDescProgrammed, c.descList)
  | rounds + 1, c => do
    let (ret, descList) ← hailoVdmaProgramDescriptorsList vdmaHw c.descList c.startingDesc
      ⟨sgTable, transferSize, c.offset, 0⟩ shouldBind channelIndex
      (if rounds = 0 then lastDescInterrupts else hailoVdmaInterruptsDomainNone) isDebug stride
    if ret < 0 then
      return (ret, descList)
    let startingDesc ← nextStartingDesc descList (c.startingDesc + ret.toUInt32)
    programBatch rounds
      { offset := c.offset + ret.toUInt32 * descList.descPageSize.toUInt32
        startingDesc := startingDesc
        totalDescProgrammed := c.totalDescProgrammed + ret
        descList := descList }

def hailoVdmaProgramDescriptorsListBatch (descList : HailoVdmaDescriptorsList)
    (startingDesc bufferOffset batchSize : UInt32) : Exec (Int32 × HailoVdmaDescriptorsList) :=
  programBatch vdmaHw sgTable transferSize shouldBind channelIndex lastDescInterrupts isDebug stride
    batchSize.toNat ⟨bufferOffset, startingDesc, 0, descList⟩

end

structure HailoDescListProgramParams where
  bufferHandle : UInt64
  bufferSize : UInt64
  bufferOffset : UInt64
  batchSize : UInt32
  descHandle : UInt64
  channelIndex : UInt8
  startingDesc : UInt32
  shouldBind : Bool
  lastInterruptsDomain : HailoVdmaInterruptsDomain
  isDebug : Bool
  stride : UInt32

/-- `enum hailo_vdma_buffer_sync_type`, as a request carries it -/
inductive HailoVdmaBufferSyncType
  | syncForCpu
  | syncForDevice
  | other (value : UInt32)
deriving DecidableEq

structure HailoVdmaBufferSyncParams where
  handle : UInt64
  syncType : HailoVdmaBufferSyncType
  offset : UInt64
  count : UInt64

variable {n : Nat}

def hailoDescListProgramIoctl (vdmaHw : HailoVdmaHw) (kernel : KernelState n)
    (context : HailoVdmaFileContext n) (params : HailoDescListProgramParams) :
    Exec (Int32 × KernelState n) := do
  match ← hailoVdmaFindMappedBufferByHandle context kernel.buffers params.bufferHandle,
      hailoVdmaFindDescriptorsBuffer context params.descHandle with
  | some address, some descriptors =>
    let mappedBuffer ← loadMappedBuffer kernel.buffers address
    if params.bufferSize > mappedBuffer.size.toUInt64 then
      return (-efault, kernel)
    let descList ← loadDescList kernel.descLists (some descriptors.descListAddress)
    let (ret, descList) ← hailoVdmaProgramDescriptorsListBatch vdmaHw
      ⟨address, mappedBuffer.sgTable⟩ params.bufferSize.toUInt32 params.shouldBind
      params.channelIndex params.lastInterruptsDomain params.isDebug params.stride descList
      params.startingDesc params.bufferOffset.toUInt32 params.batchSize
    return (ret,
      { kernel with
        descLists := storeDescList kernel.descLists (some descriptors.descListAddress) descList })
  | _, _ => return (-efault, kernel)

/-- `hailo_vdma_buffer_sync` on the `size_t` of a request. -/
def hailoVdmaBufferSyncSize (buffer : HailoVdmaBuffer) (offset size : UInt64) :
    List ScatterEntry :=
  if buffer.isMmio || buffer.isDmabuf then []
  else if offset = 0 ∧ size = buffer.size.toUInt64 then buffer.sgTable
  else vdmaSyncBufferInterval offset.toNat (offset + size).toNat 0 buffer.sgTable

/-- The DMA ranges that the request hands over are returned beside its result. -/
def hailoVdmaBufferSyncIoctl (kernel : KernelState n) (context : HailoVdmaFileContext n)
    (syncInfo : HailoVdmaBufferSyncParams) : Exec (Int32 × List ScatterEntry) := do
  match ← hailoVdmaFindMappedBufferByHandle context kernel.buffers syncInfo.handle with
  | none => return (-einval, [])
  | some address =>
    let mappedBuffer ← loadMappedBuffer kernel.buffers address
    if syncInfo.syncType ≠ .syncForCpu ∧ syncInfo.syncType ≠ .syncForDevice then
      return (-einval, [])
    if syncInfo.offset + syncInfo.count > mappedBuffer.size.toUInt64 then
      return (-einval, [])
    return (0, hailoVdmaBufferSyncSize mappedBuffer syncInfo.offset syncInfo.count)

/-- The two agree on 32-bit arguments, as a completion passes them. -/
theorem hailoVdmaBufferSyncSize_toUInt64 (buffer : HailoVdmaBuffer) (offset size : UInt32) :
    hailoVdmaBufferSyncSize buffer offset.toUInt64 size.toUInt64 =
      hailoVdmaBufferSync buffer offset size := by
  have hoffset := offset.toNat_lt
  have hsize := size.toNat_lt
  have hend : (offset.toUInt64 + size.toUInt64).toNat = offset.toNat + size.toNat := by
    rw [UInt64.toNat_add, UInt32.toNat_toUInt64, UInt32.toNat_toUInt64]
    omega
  have hzero : offset.toUInt64 = 0 ↔ offset = 0 := by
    rw [← UInt64.toNat_inj, ← UInt32.toNat_inj, UInt32.toNat_toUInt64]
    rfl
  have hall : size.toUInt64 = buffer.size.toUInt64 ↔ size = buffer.size := by
    rw [← UInt64.toNat_inj, ← UInt32.toNat_inj, UInt32.toNat_toUInt64, UInt32.toNat_toUInt64]
  rw [hailoVdmaBufferSyncSize, hailoVdmaBufferSync, hend, UInt32.toNat_toUInt64]
  simp only [hzero, hall]

end HailortDrivers.ProgramIoctl
