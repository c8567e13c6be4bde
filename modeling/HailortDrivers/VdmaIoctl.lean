import HailortDrivers.VdmaEngine
import HailortDrivers.VdmaMemory

/-! The vDMA requests of an open file (`ioctl.c`) and what closing it does
(`vdma.c`), on a controller with `n` engines. A request runs under the board mutex.
The register words it reads are given with it, and so are the outcomes of kernel
calls: addresses, memory and whether a result could be copied to the user. -/
namespace HailortDrivers.VdmaIoctl
open KernelExec VdmaTypes DescriptorsListCreation ChannelTransfers VdmaEngine VdmaMemory

/-- What the files of one board share. -/
structure KernelState (n : Nat) where
  engines : Fin n → HailoVdmaEngine
  descLists : DescListHeap
  buffers : MappedBufferHeap

structure HailoVdmaTransferBuffer where
  bufferType : HailoDmaBufferType
  addrOrFd : UInt64
  size : UInt32

/-- `buffers` is the used prefix of the array. -/
structure HailoVdmaLaunchTransferParams where
  engineIndex : UInt8
  channelIndex : UInt8
  descHandle : UInt64
  startingDesc : UInt32
  shouldBind : Bool
  buffers : List HailoVdmaTransferBuffer
  firstInterruptsDomain : HailoVdmaInterruptsDomain
  lastInterruptsDomain : HailoVdmaInterruptsDomain
  isDebug : Bool

structure HailoVdmaBufferMapParams where
  userAddress : UInt64
  size : UInt64
  dataDirection : HailoDmaDataDirection
  bufferType : HailoDmaBufferType

structure HailoDescListCreateParams where
  descCount : UInt64
  descPageSize : UInt16
  isCircular : Bool

variable {n : Nat}

def hailoVdmaEnableChannelsIoctl (kernel : KernelState n) (context : HailoVdmaFileContext n)
    (channelsBitmapPerEngine : Fin n → UInt32) (enableTimestampsMeasure : Bool) :
    Int32 × KernelState n × HailoVdmaFileContext n :=
  if ∃ e, channelsBitmapPerEngine e &&& (kernel.engines e).enabledChannels ≠ 0 then
    (-einval, kernel, context)
  else
    (0, { kernel with
          engines := fun e => hailoVdmaEngineEnableChannels (kernel.engines e)
            (channelsBitmapPerEngine e) enableTimestampsMeasure },
      { context with
        enabledChannelsBitmap := fun e =>
          context.enabledChannelsBitmap e ||| channelsBitmapPerEngine e })

/-- Disable the channels of a bitmap on some of the engines, one after the other. -/
def disableEngines (channelsBitmapPerEngine : Fin n → UInt32) :
    List (Fin n) → KernelState n → Exec (KernelState n)
  | [], kernel => .ok kernel
  | e :: es, kernel => do
    let (engine, descLists) ← hailoVdmaEngineDisableChannels (kernel.engines e)
      (channelsBitmapPerEngine e) kernel.descLists
    disableEngines channelsBitmapPerEngine es
      { kernel with
        engines := Function.update kernel.engines e
          (hailoVdmaEngineClearChannelInterrupts engine (channelsBitmapPerEngine e))
        descLists := descLists }

/-- Channels that were not enabled are warned about and disabled all the same. -/
def hailoVdmaDisableChannelsIoctl (kernel : KernelState n) (context : HailoVdmaFileContext n)
    (channelsBitmapPerEngine : Fin n → UInt32) :
    Exec (Int32 × KernelState n × HailoVdmaFileContext n) := do
  let kernel ← disableEngines channelsBitmapPerEngine (List.finRange n) kernel
  return (0, kernel,
    { context with
      enabledChannelsBitmap := fun e =>
        context.enabledChannelsBitmap e &&& ~~~(channelsBitmapPerEngine e) })

/-- The buffers of the transfer are handed over to the CPU; `synced` are the DMA
ranges handed over so far. -/
def transferDone (buffers : MappedBufferHeap) (transfer : HailoOngoingTransfer)
    (synced : List ScatterEntry) : Exec (List ScatterEntry) :=
  transfer.buffers.foldlM (fun synced buffer => do
    let mappedBuffer ← loadMappedBuffer buffers buffer.opaqueBuffer
    return synced ++ hailoVdmaBufferSync mappedBuffer buffer.offset buffer.size) synced

/-- What reading the interrupts changes, engine by engine. -/
structure WaitCursor (n : Nat) where
  kernel : KernelState n
  irqData : List HailoVdmaInterruptsChannelData
  synced : List ScatterEntry

/-- `hailo_vdma_interrupts_wait_ioctl` once the wait is over. The bitmap is looked up
by the index that the engine carries. -/
def waitEngines (channelsBitmapPerEngine : Nat → UInt32)
    (regs : Fin n → ChannelIndex → ChannelRegs) :
    List (Fin n) → WaitCursor n → Exec (Int32 × WaitCursor n)
  | [], c => .ok (0, c)
  | e :: es, c => do
    let (irqBitmap, engine) :=
      hailoVdmaEngineReadInterrupts (c.kernel.engines e)
        (channelsBitmapPerEngine (c.kernel.engines e).index.toNat)
    let (err, filled) ← hailoVdmaEngineFillIrqData (transferDone c.kernel.buffers) c.irqData engine
      irqBitmap (regs e) c.kernel.descLists c.synced
    let c : WaitCursor n :=
      { kernel := { c.kernel with
          engines := Function.update c.kernel.engines e filled.engine
          descLists := filled.heap }
        irqData := filled.irqData
        synced := filled.done }
    if err < 0 then return (err, c) else waitEngines channelsBitmapPerEngine regs es c

def hailoVdmaInterruptsWaitIoctl (kernel : KernelState n)
    (channelsBitmapPerEngine : Nat → UInt32) (regs : Fin n → ChannelIndex → ChannelRegs) :
    Exec (Int32 × WaitCursor n) :=
  if ∀ e : Fin n, channelsBitmapPerEngine e = 0 then .ok (-einval, ⟨kernel, [], []⟩)
  else waitEngines channelsBitmapPerEngine regs (List.finRange n) ⟨kernel, [], []⟩

def hailoVdmaBufferMapIoctl (kernel : KernelState n) (context : HailoVdmaFileContext n)
    (params : HailoVdmaBufferMapParams) (mapped : Except Int32 MappedMemory) (copied : Bool) :
    Exec (Int32 × KernelState n × HailoVdmaFileContext n) :=
  let direction := getDmaDirection params.dataDirection
  if direction = .none then .ok (-einval, kernel, context)
  else
    match mapped with
    | .error err => .ok (err, kernel, context)
    | .ok memory =>
      let lastHandle := context.lastVdmaUserBufferHandle + 1
      let buffer := { hailoVdmaBufferMap params.userAddress params.size direction
        params.bufferType memory with handle := lastHandle.toInt64.toUInt64 }
      let buffers := Function.update kernel.buffers memory.address (some buffer)
      let context := { context with lastVdmaUserBufferHandle := lastHandle }
      if !copied then do
        let buffers ← hailoVdmaBufferPut buffers memory.address
        return (-efault, { kernel with buffers := buffers }, context)
      else
        .ok (0, { kernel with buffers := buffers },
          { context with
            mappedUserBufferList := memory.address :: context.mappedUserBufferList })

def hailoVdmaBufferUnmapIoctl (kernel : KernelState n) (context : HailoVdmaFileContext n)
    (mappedHandle : UInt64) : Exec (Int32 × KernelState n × HailoVdmaFileContext n) := do
  let found ← hailoVdmaFindMappedBufferByHandle context kernel.buffers mappedHandle
  match found with
  | none => return (-einval, kernel, context)
  | some address =>
    let buffers ← hailoVdmaBufferPut kernel.buffers address
    return (0, { kernel with buffers := buffers },
      { context with mappedUserBufferList := context.mappedUserBufferList.erase address })

/-- `address` is where `kzalloc` put the list, `memory` what `dma_alloc_coherent` gave. -/
def hailoDescListCreateIoctl (kernel : KernelState n) (context : HailoVdmaFileContext n)
    (params : HailoDescListCreateParams) (address : Option Nat)
    (memory : Option (Nat → HailoVdmaDescriptor)) (copied : Bool) :
    Int32 × KernelState n × HailoVdmaFileContext n :=
  if params.isCircular && !isPowerof2 params.descCount then (-einval, kernel, context)
  else if !isPowerof2 params.descPageSize.toUInt64 then (-einval, kernel, context)
  else
    match address with
    | none => (-enomem, kernel, context)
    | some address =>
      let lastHandle := context.lastVdmaHandle + 1
      let context := { context with lastVdmaHandle := lastHandle }
      match hailoDescListCreate params.descCount.toUInt32 params.descPageSize params.isCircular
        memory with
      | .error err => (err, kernel, context)
      | .ok descList =>
        if !copied then (-efault, kernel, context)
        else
          (0, { kernel with
                descLists := Function.update kernel.descLists address (some descList) },
            { context with
              descriptorsBufferList :=
                ⟨lastHandle.toInt64.toUInt64 <<< pageShift, address⟩ ::
                  context.descriptorsBufferList })

def hailoDescListReleaseIoctl (kernel : KernelState n) (context : HailoVdmaFileContext n)
    (descHandle : UInt64) : Int32 × KernelState n × HailoVdmaFileContext n :=
  match hailoVdmaFindDescriptorsBuffer context descHandle with
  | none => (-einval, kernel, context)
  | some descriptors =>
    (0, { kernel with descLists := hailoDescListRelease kernel.descLists descriptors },
      { context with
        descriptorsBufferList := context.descriptorsBufferList.erase descriptors })

/-- The mapped buffer that a transfer buffer stands for. -/
def findTransferBuffer (context : HailoVdmaFileContext n) (buffers : MappedBufferHeap)
    (direction : DmaDataDirection) (buffer : HailoVdmaTransferBuffer) : Exec (Option Nat) :=
  match buffer.bufferType with
  | .userPtrBuffer => hailoVdmaFindMappedBufferByAddress context buffers buffer.addrOrFd
      buffer.size.toUInt64 direction
  | .dmabufBuffer => hailoVdmaFindMappedBufferByFd context buffers buffer.addrOrFd
      buffer.size.toUInt64 direction
  | .other _ => .ok none

/-- The loop over the buffers of a launch. A buffer that is not found, or is of no
valid type, is an error. Syncing for the device leaves no trace in the driver. -/
def mapTransferBuffers (context : HailoVdmaFileContext n) (buffers : MappedBufferHeap)
    (direction : DmaDataDirection) : List HailoVdmaTransferBuffer →
    Exec (Except Int32 (List HailoVdmaMappedTransferBuffer))
  | [] => .ok (.ok [])
  | buffer :: rest => do
    match ← findTransferBuffer context buffers direction buffer with
    | none => return .error (-efault)
    | some address =>
      let mappedBuffer ← loadMappedBuffer buffers address
      let offsetFromMap := if buffer.bufferType = .userPtrBuffer then
        (buffer.addrOrFd - mappedBuffer.addrOrFd).toUInt32 else 0
      match ← mapTransferBuffers context buffers direction rest with
      | .error err => return .error err
      | .ok mapped =>
        return .ok
          ({ sgTable := ⟨address, mappedBuffer.sgTable⟩
             size := buffer.size
             offset := offsetFromMap
             opaqueBuffer := address } :: mapped)

def hailoVdmaLaunchTransferIoctl (vdmaHw : HailoVdmaHw) (kernel : KernelState n)
    (context : HailoVdmaFileContext n) (params : HailoVdmaLaunchTransferParams)
    (regs : ChannelRegs) : Exec (Int32 × KernelState n) :=
  if hengine : params.engineIndex.toNat < n then
    if hchannel : params.channelIndex.toNat < maxVdmaChannelsPerEngine then
      let engine := kernel.engines ⟨params.engineIndex.toNat, hengine⟩
      let channel := engine.channels ⟨params.channelIndex.toNat, hchannel⟩
      let direction := if hailoTestBit params.channelIndex.toNat vdmaHw.srcChannelsBitmask then
        DmaDataDirection.toDevice else .fromDevice
      if params.buffers.length > hailoMaxBuffersPerSingleTransfer then .ok (-einval, kernel)
      else
        match hailoVdmaFindDescriptorsBuffer context params.descHandle with
        | none => .ok (-efault, kernel)
        | some descriptors => do
          match ← mapTransferBuffers context kernel.buffers direction params.buffers with
          | .error err => return (err, kernel)
          | .ok mapped =>
            let descList ← loadDescList kernel.descLists (some descriptors.descListAddress)
            let (ret, channel, descList, _) ← hailoVdmaLaunchTransfer vdmaHw channel
              descriptors.descListAddress descList regs params.startingDesc mapped
              params.shouldBind params.firstInterruptsDomain params.lastInterruptsDomain
              params.isDebug
            return (ret,
              { kernel with
                engines := Function.update kernel.engines ⟨params.engineIndex.toNat, hengine⟩
                  { engine with
                    channels := Function.update engine.channels
                      ⟨params.channelIndex.toNat, hchannel⟩ channel }
                descLists := storeDescList kernel.descLists
                  (some descriptors.descListAddress) descList })
    else .ok (-einval, kernel)
  else .ok (-einval, kernel)

/-- Closing a file: its channels are disabled, then its mapped buffers are put and its
descriptors lists freed. -/
def hailoVdmaFileContextFinalize (kernel : KernelState n) (context : HailoVdmaFileContext n) :
    Exec (KernelState n) := do
  let kernel ← disableEngines context.enabledChannelsBitmap
    ((List.finRange n).filter fun e => context.enabledChannelsBitmap e ≠ 0) kernel
  let buffers ← hailoVdmaClearMappedUserBufferList context.mappedUserBufferList kernel.buffers
  return { kernel with
    buffers := buffers
    descLists := hailoVdmaClearDescriptorsBufferList context.descriptorsBufferList
      kernel.descLists }

end HailortDrivers.VdmaIoctl
