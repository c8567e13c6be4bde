import HailortDrivers.DescriptorProgramming
import HailortDrivers.FirmwareLoading

/-!
Programming the files of a boot stage into the descriptors lists of the boot channels
(`pcie.c`): a file is copied into the memory of the current channel and bound there, chunk by
chunk, and what does not fit goes to the next channel. The channels are indexed without a
bound, as C indexes the array. A loop that has not ended after `rounds` rounds is `none`.
-/
namespace HailortDrivers.BootProgramming
open KernelExec VdmaTypes DescriptorProgramming FirmwareLoading

def maxSgDescsCount : UInt32 := 64 * 1024
def hailoPciOverVdmaNumChannels : Nat := 8
def hailoPciOverVdmaPageSize : Nat := 512
def hailoPciEpHostDmaDataId : UInt8 := 6

/-- A byte of a file of the batch. The driver copies bytes and looks at none. -/
structure FirmwareByte where
  file : Nat
  position : Nat
deriving DecidableEq

/-- The memory behind an `sg_table`: how many bytes its entries hold and what was copied there. -/
structure BounceBuffer where
  size : Nat
  bytes : Nat → Option FirmwareByte

structure HailoPcieBootDmaChannelState where
  hostDescriptorsBuffer : HailoVdmaDescriptorsList
  deviceDescriptorsBuffer : HailoVdmaDescriptorsList
  sgTable : SgTable
  buffer : BounceBuffer
  descProgramNum : UInt32

/-- `hailo_pcie_boot_dma_state` and the bitmap beside it in `hailo_pcie_fw_boot`. -/
structure BootState where
  channels : Nat → HailoPcieBootDmaChannelState
  currChannelIndex : UInt8
  bootUsedChannelBitmap : UInt16

def BootState.currChannel (s : BootState) : HailoPcieBootDmaChannelState :=
  s.channels s.currChannelIndex.toNat

def BootState.setCurrChannel (s : BootState) (channel : HailoPcieBootDmaChannelState) :
    BootState :=
  { s with channels := Function.update s.channels s.currChannelIndex.toNat channel }

/-- `sg_pcopy_from_buffer`, from byte `dataOffset` of a file on -/
def sgPcopyFromBuffer (buffer : BounceBuffer) (file dataOffset buflen skip : Nat) :
    Nat × BounceBuffer :=
  let copied := min buflen (buffer.size - skip)
  (copied, { buffer with
    bytes := fun p => if skip ≤ p ∧ p < skip + copied then some ⟨file, dataOffset + (p - skip)⟩
      else buffer.bytes p })

def pcieVdmaProgramOneFileDescriptors (channel : HailoPcieBootDmaChannelState)
    (fileAddress : UInt32) (transferBuffer : HailoVdmaMappedTransferBuffer) (channelIndex : UInt8)
    (raiseIntOnCompletion : Bool) : Exec (Int32 × HailoPcieBootDmaChannelState) := do
  let interruptsDomain := if raiseIntOnCompletion then hailoVdmaInterruptsDomainHost
    else hailoVdmaInterruptsDomainNone
  let (deviceDesc, deviceList) ← hailoVdmaProgramDescriptorsInChunk fileAddress.toUInt64
    transferBuffer.size channel.deviceDescriptorsBuffer channel.descProgramNum
    (channel.deviceDescriptorsBuffer.descCount - 1) hailoPciEpHostDmaDataId defaultStride 0
  let channel := { channel with deviceDescriptorsBuffer := deviceList }
  if deviceDesc < 0 then
    return (deviceDesc, channel)
  let (hostDesc, hostList) ← hailoVdmaProgramDescriptorsList hailoPcieVdmaHw
    channel.hostDescriptorsBuffer channel.descProgramNum transferBuffer true channelIndex
    interruptsDomain false defaultStride
  let channel := { channel with hostDescriptorsBuffer := hostList }
  if hostDesc < 0 then
    return (hostDesc, channel)
  if hostDesc ≠ deviceDesc then
    return (-einval, channel)
  return (hostDesc, channel)

/-- The start of a round: a full channel is left for the next. -/
def selectChannel (s : BootState) : BootState :=
  if maxSgDescsCount - 1 = s.currChannel.descProgramNum then
    let index := s.currChannelIndex + 1
    { s with
      currChannelIndex := index
      bootUsedChannelBitmap :=
        s.bootUsedChannelBitmap ||| ((1 : UInt32) <<< index.toUInt32).toUInt16 }
  else s

/-- Loop variables of `pcie_vdma_program_one_file`. -/
structure FileCursor where
  remainingSize : Nat
  dataOffset : Nat
  descProgrammed : Int32
  boot : BootState

/-- The loop goes on, or a round returns from the function. -/
inductive RoundExit
  | next (c : FileCursor)
  | failed (err : Int32) (boot : BootState)

/-- `transfer_buffer`, for the bytes that remain -/
def transferBufferOf (channel : HailoPcieBootDmaChannelState) (remainingSize : Nat) :
    HailoVdmaMappedTransferBuffer :=
  let descNumLeft := maxSgDescsCount - 1 - channel.descProgramNum
  { sgTable := channel.sgTable
    size := UInt32.ofNat (min remainingSize (descNumLeft.toNat * hailoPciOverVdmaPageSize))
    offset := channel.descProgramNum * UInt32.ofNat hailoPciOverVdmaPageSize
    opaqueBuffer := 0 }

/-- `rais_interrupt_on_last_chunk` -/
def raisInterruptOnLastChunk (channel : HailoPcieBootDmaChannelState) (size remainingSize : Nat)
    (raiseIntOnCompletion : Bool) : Bool :=
  let currentDescToProgram := size / hailoPciOverVdmaPageSize
  let isLastDescChunkOfCurrChannel : Bool :=
    (maxSgDescsCount - 1).toNat = currentDescToProgram + channel.descProgramNum.toNat
  isLastDescChunkOfCurrChannel || (raiseIntOnCompletion && decide (remainingSize = size))

/-- One round of the loop over a file, `fileAddress + data_offset` cut to 32 bits. -/
def programRound (file : Nat) (fileAddress : UInt32) (raiseIntOnCompletion : Bool)
    (c : FileCursor) : Exec RoundExit := do
  let s := selectChannel c.boot
  let channel := s.currChannel
  let transferBuffer := transferBufferOf channel c.remainingSize
  let size := transferBuffer.size.toNat
  let (bytesCopied, buffer) := sgPcopyFromBuffer channel.buffer file c.dataOffset size
    transferBuffer.offset.toNat
  let channel := { channel with buffer := buffer }
  if size ≠ bytesCopied then
    return .failed (-efbig) (s.setCurrChannel channel)
  let (descProgrammed, channel) ← pcieVdmaProgramOneFileDescriptors channel
    (UInt32.ofNat (fileAddress.toNat + c.dataOffset)) transferBuffer s.currChannelIndex
    (raisInterruptOnLastChunk channel size c.remainingSize raiseIntOnCompletion)
  if descProgrammed < 0 then
    return .failed descProgrammed (s.setCurrChannel channel)
  return .next
    { remainingSize := c.remainingSize - size
      dataOffset := c.dataOffset + size
      descProgrammed := descProgrammed
      boot := s.setCurrChannel
        { channel with descProgramNum := channel.descProgramNum + descProgrammed.toUInt32 } }

/-- `while (remaining_size > 0)` -/
def programRounds (file : Nat) (fileAddress : UInt32) (raiseIntOnCompletion : Bool) :
    Nat → FileCursor → Exec (Option RoundExit)
  | 0, c => if c.remainingSize = 0 then .ok (some (.next c)) else .ok none
  | rounds + 1, c =>
    if c.remainingSize = 0 then .ok (some (.next c))
    else do
      match ← programRound file fileAddress raiseIntOnCompletion c with
      | .failed err boot => return some (.failed err boot)
      | .next c => programRounds file fileAddress raiseIntOnCompletion rounds c

section
variable (request : FirmwareStore) (rounds : Nat)

def pcieVdmaProgramOneFile (file : Nat) (fileInfo : HailoFileBatch) (raiseIntOnCompletion : Bool)
    (boot : BootState) : Exec (Option (Int32 × BootState)) :=
  match request fileInfo.filename with
  | .error err => .ok (some (err.val, boot))
  | .ok firmware => do
    match ← programRounds file fileInfo.address raiseIntOnCompletion rounds
        ⟨firmware.size.toNat, 0, 0, boot⟩ with
    | none => return none
    | some (.failed err boot) => return some (err, boot)
    | some (.next c) => return some (c.descProgrammed, c.boot)

/-- The loop over the files, the last of which raises an interrupt. -/
def programFiles : Nat → List HailoFileBatch → BootState → Exec (Option (Int32 × BootState))
  | _, [], boot => .ok (some (0, boot))
  | file, fileInfo :: rest, boot =>
    if fileInfo.filename = none then .ok (some (0, boot))
    else do
      match ← pcieVdmaProgramOneFile request rounds file fileInfo rest.isEmpty boot with
      | none => return none
      | some (err, boot) =>
        if err < 0 then return some (err, boot)
        programFiles (file + 1) rest boot

def pcieVdmaProgramEntireBatch (stageInfo : HailoPcieLoadingStage) (boot : BootState) :
    Exec (Option (Int32 × BootState)) := programFiles request rounds 0 stageInfo.files boot

end

end HailortDrivers.BootProgramming
