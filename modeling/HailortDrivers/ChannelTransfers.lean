import HailortDrivers.DescriptorProgramming

/-! The transfers of one vDMA channel (`vdma_common.c`): launching, the ring of
ongoing transfers, and reading completions. Registers are passed as the words
that the reads return. The `transfer_done` callback is a parameter that acts on
a state of its own. -/
namespace HailortDrivers.ChannelTransfers
open KernelExec VdmaTypes DescriptorProgramming

def channelControlOffset : Nat := 0x0
def channelNumAvailOffset : Nat := 0x2
def channelNumProcOffset : Nat := 0x4
def channelErrorOffset : Nat := 0x8
def byteSize : Nat := 1
def wordSize : Nat := 2
def bitsInByte : Nat := 8
def u32Max : UInt32 := 0xFFFFFFFF

/-- `CIRC_CNT` -/
def circCnt (head tail size : UInt64) : UInt64 := (head - tail) &&& (size - 1)

/-- `CIRC_SPACE` -/
def circSpace (head tail size : UInt64) : UInt64 := circCnt tail (head + 1) size

def ongoingTransfersCircCnt (transfers : HailoOngoingTransfersList) : UInt64 :=
  circCnt transfers.head transfers.tail hailoVdmaMaxOngoingTransfers

def ongoingTransfersCircSpace (transfers : HailoOngoingTransfersList) : UInt64 :=
  circSpace transfers.head transfers.tail hailoVdmaMaxOngoingTransfers

theorem maskedIndex_lt (i : UInt64) :
    (i &&& hailoVdmaMaxOngoingTransfersMask).toNat < 128 := by
  rw [UInt64.toNat_and]
  exact Nat.and_lt_two_pow _ (by decide : hailoVdmaMaxOngoingTransfersMask.toNat < 2 ^ 7)

/-- `transfers[head] = transfer`, and the head moves on. -/
def pushed (transfers : HailoOngoingTransfersList) (transfer : HailoOngoingTransfer) :
    HailoOngoingTransfersList where
  head := (transfers.head + 1) &&& hailoVdmaMaxOngoingTransfersMask
  tail := transfers.tail
  transfers := Function.update transfers.transfers transfers.head.toNat transfer
  head_lt := maskedIndex_lt _
  tail_lt := transfers.tail_lt

/-- The tail moves on. -/
def popped (transfers : HailoOngoingTransfersList) : HailoOngoingTransfersList where
  head := transfers.head
  tail := (transfers.tail + 1) &&& hailoVdmaMaxOngoingTransfersMask
  transfers := transfers.transfers
  head_lt := transfers.head_lt
  tail_lt := maskedIndex_lt _

def ongoingTransferPush (channel : HailoVdmaChannel) (transfer : HailoOngoingTransfer) :
    Int32 × HailoVdmaChannel :=
  if ongoingTransfersCircSpace channel.ongoingTransfers = 0 then (-efault, channel)
  else if transfer.dirtyDescs.length > maxDirtyDescriptorsPerTransfer then (-efault, channel)
  else (0, { channel with ongoingTransfers := pushed channel.ongoingTransfers transfer })

/-- The transfer that comes out is the one at the tail; without one it is `-EFAULT`. -/
def ongoingTransferPop (channel : HailoVdmaChannel) :
    Except Int32 (HailoOngoingTransfer × HailoVdmaChannel) :=
  if ongoingTransfersCircCnt channel.ongoingTransfers = 0 then .error (-efault)
  else .ok (channel.ongoingTransfers.transfers channel.ongoingTransfers.tail.toNat,
    { channel with ongoingTransfers := popped channel.ongoingTransfers })

def clearDirtyDesc (descList : HailoVdmaDescriptorsList) (desc : UInt16) :
    HailoVdmaDescriptorsList :=
  descList.store desc.toUInt32
    { descList.descList desc.toNat with
      pageSizeDescControl := (descList.descPageSize.toUInt32 <<< 8) + 0x2 }

/-- The list is followed for each descriptor, so never when there is none to clear. -/
def clearDirtyDescs (lastDescList : Option Nat) (transfer : HailoOngoingTransfer)
    (heap : DescListHeap) : Exec DescListHeap :=
  if transfer.dirtyDescs.length > maxDirtyDescriptorsPerTransfer then .error .bugOn
  else if transfer.dirtyDescs.isEmpty then .ok heap
  else do
    let descList ← loadDescList heap lastDescList
    return storeDescList heap lastDescList (transfer.dirtyDescs.foldl clearDirtyDesc descList)

def descStatusDoneBit : Nat := 0x0
def descStatusErrorBit : Nat := 0x1
def descStatusMask : UInt32 := 0xFF

def validateLastDescStatus (lastDescList : Option Nat) (transfer : HailoOngoingTransfer)
    (heap : DescListHeap) : Exec Bool := do
  let descList ← loadDescList heap lastDescList
  let lastDescControl :=
    (descList.descList transfer.lastDesc.toNat).remainingPageSizeStatus &&& descStatusMask
  return hailoTestBit descStatusDoneBit lastDescControl &&
    !hailoTestBit descStatusErrorBit lastDescControl

/-- Only a debug transfer has the status of its last descriptor checked. -/
def validateTransfer (lastDescList : Option Nat) (transfer : HailoOngoingTransfer)
    (heap : DescListHeap) : Exec Bool :=
  if transfer.isDebug then validateLastDescStatus lastDescList transfer heap else .ok true

def channelControlRegIsActive (control : UInt8) : Bool := control &&& 0x1 == 0x1

def validateChannelState (channel : HailoVdmaChannel) (regs : ChannelRegs) : Int32 :=
  let hostRegsValue := (regs.hostRegs 0).toNat
  let control := readBitsAtOffset (byteSize * bitsInByte) (channelControlOffset * bitsInByte)
    hostRegsValue
  let hwNumAvail := readBitsAtOffset (wordSize * bitsInByte) (channelNumAvailOffset * bitsInByte)
    hostRegsValue
  if !channelControlRegIsActive (UInt8.ofNat control) then -econnreset
  else if UInt16.ofNat hwNumAvail ≠ channel.state.numAvail then -efault
  else 0

def hailoVdmaSetNumAvail (regs : ChannelRegs) (numAvail : UInt16) : ChannelRegs :=
  let regsVal := writeBitsAtOffset 16 16 (regs.hostRegs 0) numAvail.toUInt32
  { regs with hostRegs := Function.update regs.hostRegs 0 regsVal }

/-- Loop variables of `hailo_vdma_launch_transfer`. -/
structure LaunchCursor where
  totalDescs : UInt32
  lastDesc : UInt32
  startingDesc : UInt32
  dirtyDescs : List UInt16
  descList : HailoVdmaDescriptorsList

/-- What one round of the loop does with what programming the buffer returned. -/
def launchRound (ret : Int32) (descList : HailoVdmaDescriptorsList) (c : LaunchCursor) :
    Exec LaunchCursor := do
  let lastDesc ← umod (c.startingDesc + ret.toUInt32 - 1) descList.descCount
  let startingDesc ← umod (c.startingDesc + ret.toUInt32) descList.descCount
  return { totalDescs := c.totalDescs + ret.toUInt32
           lastDesc := lastDesc
           startingDesc := startingDesc
           dirtyDescs := c.dirtyDescs ++ [lastDesc.toUInt16]
           descList := descList }

def launchBuffers (vdmaHw : HailoVdmaHw) (shouldBind : Bool) (channelIndex : UInt8)
    (lastDescInterrupts : HailoVdmaInterruptsDomain) (isDebug : Bool) :
    List HailoVdmaMappedTransferBuffer → LaunchCursor → Exec LaunchCursor
  | [], c => .ok c
  | buffer :: buffers, c => do
    let (ret, descList) ← hailoVdmaProgramDescriptorsList vdmaHw c.descList c.startingDesc buffer
      shouldBind channelIndex
      (if buffers.isEmpty then lastDescInterrupts else hailoVdmaInterruptsDomainNone) isDebug
      defaultStride
    let c' ← launchRound ret descList c
    launchBuffers vdmaHw shouldBind channelIndex lastDescInterrupts isDebug buffers c'

/-- `hailo_vdma_launch_transfer` from the ring push on. -/
def publishTransfer (channel : HailoVdmaChannel) (regs : ChannelRegs)
    (buffers : List HailoVdmaMappedTransferBuffer) (isDebug : Bool) (c : LaunchCursor) :
    Exec (Int32 × HailoVdmaChannel × HailoVdmaDescriptorsList × ChannelRegs) := do
  let (ret, channel) := ongoingTransferPush channel
    { lastDesc := c.lastDesc.toUInt16
      buffers := buffers
      dirtyDescs := c.dirtyDescs
      isDebug := isDebug }
  if ret < 0 then
    return (ret, channel, c.descList, regs)
  let newNumAvail ← umod (c.lastDesc + 1) c.descList.descCount
  return (c.totalDescs.toInt32,
    { channel with state := { channel.state with numAvail := newNumAvail.toUInt16 } },
    c.descList, hailoVdmaSetNumAvail regs newNumAvail.toUInt16)

/-- `desc_list` is given by its address and its content. -/
def hailoVdmaLaunchTransfer (vdmaHw : HailoVdmaHw) (channel : HailoVdmaChannel)
    (descListAddress : Nat) (descList : HailoVdmaDescriptorsList) (regs : ChannelRegs)
    (startingDesc : UInt32) (buffers : List HailoVdmaMappedTransferBuffer) (shouldBind : Bool)
    (firstInterruptsDomain lastDescInterrupts : HailoVdmaInterruptsDomain) (isDebug : Bool) :
    Exec (Int32 × HailoVdmaChannel × HailoVdmaDescriptorsList × ChannelRegs) := do
  let channel := { channel with
    state := { channel.state with descCountMask := descList.descCount - 1 } }
  if channel.lastDescList ≠ none ∧ channel.lastDescList ≠ some descListAddress then
    return (-einval, channel, descList, regs)
  let channel := { channel with lastDescList := some descListAddress }
  let ret := validateChannelState channel regs
  if ret < 0 then
    return (ret, channel, descList, regs)
  if channel.state.numAvail ≠ startingDesc.toUInt16 then
    return (-efault, channel, descList, regs)
  if buffers.length > hailoMaxBuffersPerSingleTransfer then
    return (-einval, channel, descList, regs)
  let c ← launchBuffers vdmaHw shouldBind channel.index lastDescInterrupts isDebug buffers
    ⟨0, u32Max, startingDesc, [startingDesc.toUInt16], descList⟩
  let descList := orPageSizeDescControl c.descList startingDesc
    (getInterruptsBitmask vdmaHw firstInterruptsDomain isDebug)
  publishTransfer channel regs buffers isDebug { c with descList := descList }

def isDescBetween (begin_ end_ desc : UInt16) : Bool :=
  if begin_ = end_ then false
  else if begin_ < end_ then begin_ ≤ desc && desc < end_
  else desc < end_ || begin_ ≤ desc

def isTransferComplete (channel : HailoVdmaChannel) (transfer : HailoOngoingTransfer)
    (hwNumProc : UInt16) : Bool :=
  if channel.state.numAvail = hwNumProc then true
  else isDescBetween channel.state.numProc hwNumProc transfer.lastDesc

/-- `ioread64_safe` on the host registers -/
def hostRegsLowQword (regs : ChannelRegs) : UInt64 :=
  ((regs.hostRegs 4).toUInt64 <<< 32) ||| (regs.hostRegs 0).toUInt64

/-- `hw_num_proc` -/
def readHwNumProc (channel : HailoVdmaChannel) (regs : ChannelRegs) : UInt16 :=
  (UInt32.ofNat (readBitsAtOffset (wordSize * bitsInByte) (channelNumProcOffset * bitsInByte)
    (hostRegsLowQword regs).toNat) &&& channel.state.descCountMask).toUInt16

/-- `is_active` -/
def readIsActive (regs : ChannelRegs) : Bool :=
  channelControlRegIsActive (UInt8.ofNat (readBitsAtOffset (byteSize * bitsInByte)
    (channelControlOffset * bitsInByte) (hostRegsLowQword regs).toNat))

section Completion
variable {σ : Type} (transferDone : HailoOngoingTransfer → σ → Exec σ)

/-- Loop variables of `fill_channel_irq_data`, with the state of the callback. -/
structure CompletionCursor (σ : Type) where
  channel : HailoVdmaChannel
  heap : DescListHeap
  done : σ
  transfersCompleted : UInt8
  validationSuccess : Bool
  isDebug : Bool

/-- One round of the loop, the transfer at the tail being complete. -/
def completeTransfer (c : CompletionCursor σ) : Exec (CompletionCursor σ) := do
  let transfers := c.channel.ongoingTransfers
  let curTransfer := transfers.transfers transfers.tail.toNat
  let valid ← validateTransfer c.channel.lastDescList curTransfer c.heap
  let heap ← clearDirtyDescs c.channel.lastDescList curTransfer c.heap
  let done ← transferDone curTransfer c.done
  let numProc :=
    ((curTransfer.lastDesc.toUInt32 + 1) &&& c.channel.state.descCountMask).toUInt16
  return { channel := { c.channel with
             state := { c.channel.state with numProc := numProc }
             ongoingTransfers := popped transfers }
           heap := heap
           done := done
           transfersCompleted := c.transfersCompleted + 1
           validationSuccess := c.validationSuccess && valid
           isDebug := c.isDebug || !valid }

/-- The `while` loop, as many rounds at most as the ring has entries: each round pops one. -/
def completeTransfers (hwNumProc : UInt16) : Nat → CompletionCursor σ →
    Exec (CompletionCursor σ)
  | 0, c => .ok c
  | n + 1, c =>
    if !isTransferComplete c.channel
        (c.channel.ongoingTransfers.transfers c.channel.ongoingTransfers.tail.toNat)
        hwNumProc then
      .ok c
    else do
      let c' ← completeTransfer transferDone c
      completeTransfers hwNumProc n c'

/-- Whether an error register of either side holds an error. -/
def channelHasError (regs : ChannelRegs) : Bool :=
  let srcErr := readBitsAtOffset (byteSize * bitsInByte) 0 (regs.hostRegs channelErrorOffset).toNat
  let dstErr :=
    readBitsAtOffset (byteSize * bitsInByte) 0 (regs.deviceRegs channelErrorOffset).toNat
  srcErr ≠ 0 || dstErr ≠ 0

def fillChannelIrqData (engineIndex : UInt8) (channel : HailoVdmaChannel) (regs : ChannelRegs)
    (heap : DescListHeap) (done : σ) :
    Exec (HailoVdmaInterruptsChannelData × HailoVdmaChannel × DescListHeap × σ) := do
  let c ← completeTransfers transferDone (readHwNumProc channel regs)
    (ongoingTransfersCircCnt channel.ongoingTransfers).toNat
    ⟨channel, heap, done, 0, true, false⟩
  let validationSuccess := c.validationSuccess && !(c.isDebug && channelHasError regs)
  let data :=
    if !readIsActive regs then vdmaTransferDataChannelNotActive
    else if !validationSuccess then vdmaTransferDataChannelWithError
    else c.transfersCompleted
  return (⟨engineIndex, channel.index, data⟩, c.channel, c.heap, c.done)

end Completion

end HailortDrivers.ChannelTransfers
