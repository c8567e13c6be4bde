import HailortDrivers.VdmaTypes

/-! Programming a descriptors list from a scatter list (`vdma_common.c`):
`hailo_vdma_program_descriptors_in_chunk`, the binding walk over the DMA entries
and the shortcut that only rewrites the last descriptor.
A C function that changes the list returns it beside its `int`. -/
namespace HailortDrivers.DescriptorProgramming
open KernelExec VdmaTypes

def descriptorPageSizeShift : UInt64 := 8
def descriptorDescControl : UInt64 := 0x2
def descriptorAddrLMask : UInt64 := 0xFFFFFFC0

def descStatusReq : UInt64 := 0x1
def descStatusReqErr : UInt64 := 0x2
def descRequestIrqProcessed : UInt64 := 0x4
def descRequestIrqErr : UInt64 := 0x8

def hailoVdmaProgramDescriptor (dmaAddress pageSize : UInt64) (dataId : UInt8) :
    HailoVdmaDescriptor where
  pageSizeDescControl := ((pageSize <<< descriptorPageSizeShift) + descriptorDescControl).toUInt32
  addrLRsvdDataID := ((dmaAddress &&& descriptorAddrLMask) ||| dataId.toUInt64).toUInt32
  addrH := (dmaAddress >>> 32).toUInt32
  remainingPageSizeStatus := 0

def getChannelId (channelIndex : UInt8) : UInt8 :=
  if channelIndex.toNat < maxVdmaChannelsPerEngine then channelIndex &&& 0xF
  else invalidVdmaChannel

/-- Loop variables of `hailo_vdma_program_descriptors_in_chunk`. -/
structure ChunkCursor where
  descIndex : UInt32
  encodedAddr : UInt64
  descList : Nat → HailoVdmaDescriptor

/-- The `for` loop over all descriptors but the last, as many rounds as the
index has to go up to reach `last_desc_to_program`. -/
def programAllButLast (addrMask stride : UInt32) (pageSize : UInt64) (dataId : UInt8) :
    Nat → ChunkCursor → ChunkCursor
  | 0, c => c
  | n + 1, c => programAllButLast addrMask stride pageSize dataId n
      { descIndex := c.descIndex + 1
        encodedAddr := c.encodedAddr + pageSize
        descList := Function.update c.descList (c.descIndex &&& addrMask).toNat
          (hailoVdmaProgramDescriptor c.encodedAddr stride.toUInt64 dataId) }

def hailoVdmaProgramDescriptorsInChunk (chunkAddr : UInt64) (chunkSize : UInt32)
    (descList : HailoVdmaDescriptorsList) (descIndex maxDescIndex : UInt32) (dataId : UInt8)
    (stride : UInt32) (maskedChannelId : UInt64) : Exec (Int32 × HailoVdmaDescriptorsList) := do
  let pageSize := descList.descPageSize.toUInt32
  let residueSize ← umod chunkSize pageSize
  let descsToProgram ← divRoundUp chunkSize pageSize
  let addrMask := descList.descCountMask
  let lastDescToProgram := descIndex + descsToProgram - 1
  if descIndex + descsToProgram > maxDescIndex + 1 then
    return (-erange, descList)
  let c := programAllButLast addrMask stride pageSize.toUInt64 dataId
    (lastDescToProgram.toNat - descIndex.toNat)
    ⟨descIndex, chunkAddr ||| maskedChannelId, descList.descList⟩
  let lastSize := if residueSize = 0 then stride else residueSize.toUInt16.toUInt32
  return (descsToProgram.toInt32, (descList.withDescs c.descList).store (c.descIndex &&& addrMask)
    (hailoVdmaProgramDescriptor c.encodedAddr lastSize.toUInt64 dataId))

def getInterruptsBitmask (vdmaHw : HailoVdmaHw) (interruptsDomain : HailoVdmaInterruptsDomain)
    (isDebug : Bool) : UInt64 :=
  let device := if hailoVdmaInterruptsDomainDevice &&& interruptsDomain ≠ 0 then
    vdmaHw.deviceInterruptsBitmask else 0
  let host := if hailoVdmaInterruptsDomainHost &&& interruptsDomain ≠ 0 then
    vdmaHw.hostInterruptsBitmask else 0
  let bitmask := device ||| host
  if bitmask ≠ 0 then
    bitmask ||| (descRequestIrqProcessed ||| descRequestIrqErr) |||
      (if isDebug then descStatusReq ||| descStatusReqErr else 0)
  else bitmask

/-- `desc_list->desc_list[index].PageSize_DescControl |= bitmask` -/
def orPageSizeDescControl (descList : HailoVdmaDescriptorsList) (index : UInt32)
    (bitmask : UInt64) : HailoVdmaDescriptorsList :=
  let desc := descList.descList index.toNat
  descList.store index
    { desc with pageSizeDescControl := (desc.pageSizeDescControl.toUInt64 ||| bitmask).toUInt32 }

/-- Loop variables of `bind_and_program_descriptors_list`. A table has at most
`2 ^ 32` entries of less than `2 ^ 32` bytes, so the `size_t` offset cannot wrap. -/
structure BindCursor where
  descProgrammed : Int32
  startingDesc : UInt32
  programSize : UInt32
  bufferCurrentOffset : Nat
  descList : HailoVdmaDescriptorsList

/-- The walk either runs to its end or returns the error of a chunk. -/
inductive BindExit
  | walked (c : BindCursor)
  | failed (err : Int32) (descList : HailoVdmaDescriptorsList)

/-- Where in an entry the buffer's bytes start, and how many follow there. -/
def chunkOfEntry (e : ScatterEntry) (bufferCurrentOffset bufferOffset : Nat) : UInt64 × UInt32 :=
  if bufferCurrentOffset < bufferOffset then
    (e.dmaAddress + UInt64.ofNat (bufferOffset - bufferCurrentOffset),
      UInt32.ofNat (e.dmaLen.toNat - (bufferOffset - bufferCurrentOffset)))
  else (e.dmaAddress, e.dmaLen)

/-- `for_each_sgtable_dma_sg` -/
def bindSgEntries (bufferOffset maxDescIndex : UInt32) (dataId : UInt8) (stride : UInt32)
    (maskedChannelId : UInt64) : List ScatterEntry → BindCursor → Exec BindExit
  | [], c => .ok (.walked c)
  | e :: es, c =>
    let next := c.bufferCurrentOffset + e.dmaLen.toNat
    -- Skip entries until the buffer offset; it can be in the middle of an entry.
    if next < bufferOffset.toNat then
      bindSgEntries bufferOffset maxDescIndex dataId stride maskedChannelId es
        { c with bufferCurrentOffset := next }
    else
      let chunk := chunkOfEntry e c.bufferCurrentOffset bufferOffset.toNat
      if chunk.2 = 0 then
        bindSgEntries bufferOffset maxDescIndex dataId stride maskedChannelId es
          { c with bufferCurrentOffset := next }
      else if c.programSize = 0 then .ok (.walked c)
      else do
        let chunkSize := min c.programSize chunk.2
        let (ret, descList) ← hailoVdmaProgramDescriptorsInChunk chunk.1 chunkSize c.descList
          c.startingDesc maxDescIndex dataId stride maskedChannelId
        if ret < 0 then
          return .failed ret descList
        let c' : BindCursor :=
          { descProgrammed := c.descProgrammed + ret
            startingDesc := c.startingDesc + ret.toUInt32
            programSize := c.programSize - chunkSize
            bufferCurrentOffset := next
            descList := descList }
        if c'.programSize = 0 then
          return .walked c'
        bindSgEntries bufferOffset maxDescIndex dataId stride maskedChannelId es c'

/-- `bind_and_program_descriptors_list` from the computation of `max_desc_index` on. -/
def bindFromStart (vdmaHw : HailoVdmaHw) (descList : HailoVdmaDescriptorsList)
    (startingDesc : UInt32) (buffer : HailoVdmaMappedTransferBuffer) (channelIndex : UInt8)
    (lastDescInterrupts : HailoVdmaInterruptsDomain) (isDebug : Bool) (stride : UInt32) :
    Exec (Int32 × HailoVdmaDescriptorsList) := do
  -- On a circular list descCount descriptors may be programmed from startingDesc
  -- on; otherwise descCount may not be passed.
  let maxDescIndex := if descList.isCircular then startingDesc + descList.descCount - 1
    else descList.descCount - 1
  let exit ← bindSgEntries buffer.offset maxDescIndex vdmaHw.ddrDataId stride
    (vdmaHw.getMaskedChannelId (getChannelId channelIndex)) buffer.sgTable.sgl
    ⟨0, startingDesc, buffer.size, 0, descList⟩
  match exit with
  | .failed err descList => return (err, descList)
  | .walked c =>
    if c.programSize ≠ 0 then
      return (-efault, c.descList)
    let last ← umod (c.startingDesc - 1) descList.descCount
    return (c.descProgrammed, orPageSizeDescControl c.descList last
      (getInterruptsBitmask vdmaHw lastDescInterrupts isDebug))

def bindAndProgramDescriptorsList (vdmaHw : HailoVdmaHw) (descList : HailoVdmaDescriptorsList)
    (startingDesc : UInt32) (buffer : HailoVdmaMappedTransferBuffer) (channelIndex : UInt8)
    (lastDescInterrupts : HailoVdmaInterruptsDomain) (isDebug : Bool) (stride : UInt32) :
    Exec (Int32 × HailoVdmaDescriptorsList) := do
  let pageSize := descList.descPageSize.toUInt32
  let offsetResidue ← umod buffer.offset pageSize
  if offsetResidue ≠ 0 ∨ startingDesc ≥ descList.descCount then
    return (-einval, descList)
  let strideResidue ← umod stride pageSize
  if strideResidue = 0 then
    bindFromStart vdmaHw descList startingDesc buffer channelIndex lastDescInterrupts isDebug
      pageSize
  else
    let sizeResidue ← umod buffer.size pageSize
    if sizeResidue ≠ 0 then
      return (-einval, descList)
    else if stride > pageSize then
      return (-einval, descList)
    else
      bindFromStart vdmaHw descList startingDesc buffer channelIndex lastDescInterrupts isDebug
        stride

def programLastDesc (vdmaHw : HailoVdmaHw) (descList : HailoVdmaDescriptorsList)
    (startingDesc : UInt32) (transferBuffer : HailoVdmaMappedTransferBuffer)
    (lastDescInterrupts : HailoVdmaInterruptsDomain) (isDebug : Bool) :
    Exec (Int32 × HailoVdmaDescriptorsList) := do
  let pageSize := descList.descPageSize.toUInt32
  let control : UInt8 :=
    (descriptorDescControl ||| getInterruptsBitmask vdmaHw lastDescInterrupts isDebug).toUInt8
  let totalDescs ← divRoundUp transferBuffer.size pageSize
  let lastDesc ← umod (startingDesc + totalDescs - 1) descList.descCount
  let lastDescSize := transferBuffer.size - (totalDescs - 1) * pageSize
  let desc := descList.descList lastDesc.toNat
  return (totalDescs.toInt32, descList.store lastDesc
    { desc with pageSizeDescControl := (lastDescSize <<< 8) + control.toUInt32 })

def hailoVdmaProgramDescriptorsList (vdmaHw : HailoVdmaHw) (descList : HailoVdmaDescriptorsList)
    (startingDesc : UInt32) (buffer : HailoVdmaMappedTransferBuffer) (shouldBind : Bool)
    (channelIndex : UInt8) (lastDescInterrupts : HailoVdmaInterruptsDomain) (isDebug : Bool)
    (stride : UInt32) : Exec (Int32 × HailoVdmaDescriptorsList) :=
  if shouldBind then
    bindAndProgramDescriptorsList vdmaHw descList startingDesc buffer channelIndex
      lastDescInterrupts isDebug stride
  else programLastDesc vdmaHw descList startingDesc buffer lastDescInterrupts isDebug

/-- Programming writes descriptors and nothing else of the list. -/
def SameShape (l l' : HailoVdmaDescriptorsList) : Prop := ∃ descs, l' = l.withDescs descs

theorem SameShape.refl (l : HailoVdmaDescriptorsList) : SameShape l l := ⟨l.descList, rfl⟩

theorem SameShape.trans {l l' l'' : HailoVdmaDescriptorsList} (h : SameShape l l')
    (h' : SameShape l' l'') : SameShape l l'' := by
  obtain ⟨descs, rfl⟩ := h
  obtain ⟨descs', rfl⟩ := h'
  exact ⟨descs', rfl⟩

section SameShape
variable {vdmaHw : HailoVdmaHw} {l l' : HailoVdmaDescriptorsList}
  {buffer : HailoVdmaMappedTransferBuffer} {startingDesc stride : UInt32} {channelIndex : UInt8}
  {lastDescInterrupts : HailoVdmaInterruptsDomain} {isDebug : Bool} {n : Int32}

theorem store_sameShape (index : UInt32) (desc : HailoVdmaDescriptor) :
    SameShape l (l.store index desc) := ⟨_, rfl⟩

theorem orPageSizeDescControl_sameShape (index : UInt32) (bitmask : UInt64) :
    SameShape l (orPageSizeDescControl l index bitmask) := ⟨_, rfl⟩

theorem hailoVdmaProgramDescriptorsInChunk_sameShape {chunkAddr maskedChannelId : UInt64}
    {chunkSize descIndex maxDescIndex : UInt32} {dataId : UInt8}
    (h : hailoVdmaProgramDescriptorsInChunk chunkAddr chunkSize l descIndex maxDescIndex dataId
      stride maskedChannelId = .ok (n, l')) : SameShape l l' := by
  obtain ⟨residueSize, -, h⟩ := bind_ok h
  obtain ⟨descsToProgram, -, h⟩ := bind_ok h
  simp only at h
  split at h
  · cases h
    exact .refl l
  · cases h
    exact ⟨_, rfl⟩

/-- The list an exit of the walk leaves. -/
def BindExit.descList : BindExit → HailoVdmaDescriptorsList
  | walked c => c.descList
  | failed _ descList => descList

theorem bindSgEntries_sameShape {bufferOffset maxDescIndex : UInt32} {dataId : UInt8}
    {maskedChannelId : UInt64} {sgl : List ScatterEntry} {c : BindCursor} {exit : BindExit}
    (h : bindSgEntries bufferOffset maxDescIndex dataId stride maskedChannelId sgl c = .ok exit) :
    SameShape c.descList exit.descList := by
  induction sgl generalizing c with
  | nil =>
    cases h
    exact .refl _
  | cons e es ih =>
    rw [bindSgEntries] at h
    simp only at h
    split at h
    · have hrest := ih h
      exact hrest
    · split at h
      · have hrest := ih h
        exact hrest
      · split at h
        · cases h
          exact .refl _
        · obtain ⟨⟨ret, descList⟩, hchunk, h⟩ := bind_ok h
          have hshape := hailoVdmaProgramDescriptorsInChunk_sameShape hchunk
          simp only at h
          split at h
          · cases h
            exact hshape
          · split at h
            · cases h
              exact hshape
            · exact hshape.trans (ih h)

theorem bindFromStart_sameShape
    (h : bindFromStart vdmaHw l startingDesc buffer channelIndex lastDescInterrupts isDebug
      stride = .ok (n, l')) : SameShape l l' := by
  obtain ⟨exit, hwalk, h⟩ := bind_ok h
  have hshape := bindSgEntries_sameShape hwalk
  cases exit with
  | failed err descList =>
    cases h
    exact hshape
  | walked c =>
    simp only at h
    split at h
    · cases h
      exact hshape
    · obtain ⟨last, -, h⟩ := bind_ok h
      cases h
      exact hshape.trans (orPageSizeDescControl_sameShape _ _)

theorem bindAndProgramDescriptorsList_sameShape
    (h : bindAndProgramDescriptorsList vdmaHw l startingDesc buffer channelIndex
      lastDescInterrupts isDebug stride = .ok (n, l')) : SameShape l l' := by
  obtain ⟨offsetResidue, -, h⟩ := bind_ok h
  split at h
  · cases h
    exact .refl l
  · obtain ⟨strideResidue, -, h⟩ := bind_ok h
    split at h
    · exact bindFromStart_sameShape h
    · obtain ⟨sizeResidue, -, h⟩ := bind_ok h
      split at h
      · cases h
        exact .refl l
      · split at h
        · cases h
          exact .refl l
        · exact bindFromStart_sameShape h

theorem hailoVdmaProgramDescriptorsList_sameShape {shouldBind : Bool}
    (h : hailoVdmaProgramDescriptorsList vdmaHw l startingDesc buffer shouldBind channelIndex
      lastDescInterrupts isDebug stride = .ok (n, l')) : SameShape l l' := by
  cases shouldBind with
  | true => exact bindAndProgramDescriptorsList_sameShape h
  | false =>
    obtain ⟨totalDescs, -, h⟩ := bind_ok h
    obtain ⟨lastDesc, -, h⟩ := bind_ok h
    cases h
    exact store_sameShape _ _

end SameShape

end HailortDrivers.DescriptorProgramming
