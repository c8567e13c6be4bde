import HailortDrivers.ChannelTransfers

/-! The channels of one vDMA engine (`vdma_common.c` and `vdma_common.h`):
enabling and disabling them by bitmap, the interrupt bitmaps, and collecting the
completions of all interrupted channels. -/
namespace HailortDrivers.VdmaEngine
open KernelExec VdmaTypes ChannelTransfers

abbrev ChannelIndex := Fin maxVdmaChannelsPerEngine

instance : NeZero maxVdmaChannelsPerEngine := ⟨by decide⟩

/-- `channel_state_init`; the mask is the value of a channel that is not active. -/
def channelStateInit : HailoVdmaChannelState where
  numAvail := 0
  numProc := 0
  descCountMask := u32Max

/-- The ring without entries; the array keeps what it holds. -/
def emptyRing (transfers : Nat → HailoOngoingTransfer) : HailoOngoingTransfersList where
  head := 0
  tail := 0
  transfers := transfers
  head_lt := toNat_zero_lt
  tail_lt := toNat_zero_lt

/-- `engine` is the memory that is initialized. -/
def hailoVdmaEngineInit (engine : HailoVdmaEngine) (engineIndex : UInt8) : HailoVdmaEngine where
  index := engineIndex
  enabledChannels := 0
  interruptedChannels := 0
  channels := fun i =>
    { index := UInt8.ofNat i
      lastDescList := none
      state := channelStateInit
      ongoingTransfers := emptyRing (engine.channels i).ongoingTransfers.transfers
      timestampMeasureEnabled := false
      timestampList := (engine.channels i).timestampList }

def hailoVdmaEngineEnableChannels (engine : HailoVdmaEngine) (bitmap : UInt32)
    (measureTimestamp : Bool) : HailoVdmaEngine :=
  { engine with
    enabledChannels := engine.enabledChannels ||| bitmap
    channels := fun i =>
      if hailoTestBit i bitmap then
        { engine.channels i with
          timestampMeasureEnabled := measureTimestamp
          timestampList := { (engine.channels i).timestampList with head := 0, tail := 0 } }
      else engine.channels i }

/-- The `while` loop over the ongoing transfers of a channel that is disabled, as
many rounds as the ring has entries: each round pops one. -/
def drainTransfers : Nat → HailoVdmaChannel → DescListHeap →
    Exec (HailoVdmaChannel × DescListHeap)
  | 0, channel, heap => .ok (channel, heap)
  | n + 1, channel, heap => do
    let transfer := channel.ongoingTransfers.transfers channel.ongoingTransfers.tail.toNat
    let channel := { channel with ongoingTransfers := popped channel.ongoingTransfers }
    if channel.lastDescList = none then
      drainTransfers n channel heap
    else
      let heap ← clearDirtyDescs channel.lastDescList transfer heap
      drainTransfers n channel heap

def disableChannel (channel : HailoVdmaChannel) (heap : DescListHeap) :
    Exec (HailoVdmaChannel × DescListHeap) := do
  let (channel, heap) ← drainTransfers
    (ongoingTransfersCircCnt channel.ongoingTransfers).toNat
    { channel with state := channelStateInit } heap
  return ({ channel with lastDescList := none }, heap)

/-- `for_each_vdma_channel`, for the channels of a disabled bitmap -/
def disableChannels (bitmap : UInt32) : List ChannelIndex → HailoVdmaEngine → DescListHeap →
    Exec (HailoVdmaEngine × DescListHeap)
  | [], engine, heap => .ok (engine, heap)
  | i :: is, engine, heap =>
    if hailoTestBit i bitmap then do
      let (channel, heap) ← disableChannel (engine.channels i) heap
      disableChannels bitmap is
        { engine with channels := Function.update engine.channels i channel } heap
    else disableChannels bitmap is engine heap

def hailoVdmaEngineDisableChannels (engine : HailoVdmaEngine) (bitmap : UInt32)
    (heap : DescListHeap) : Exec (HailoVdmaEngine × DescListHeap) :=
  disableChannels bitmap (List.finRange maxVdmaChannelsPerEngine)
    { engine with enabledChannels := engine.enabledChannels &&& ~~~bitmap } heap

def hailoVdmaEngineClearChannelInterrupts (engine : HailoVdmaEngine) (bitmap : UInt32) :
    HailoVdmaEngine :=
  { engine with interruptedChannels := engine.interruptedChannels &&& ~~~bitmap }

def hailoVdmaEngineSetChannelInterrupts (engine : HailoVdmaEngine) (bitmap : UInt32) :
    HailoVdmaEngine :=
  { engine with interruptedChannels := engine.interruptedChannels ||| bitmap }

def hailoVdmaEngineReadInterrupts (engine : HailoVdmaEngine) (requestedBitmap : UInt32) :
    UInt32 × HailoVdmaEngine :=
  let irqChannelsBitmap :=
    requestedBitmap &&& engine.enabledChannels &&& engine.interruptedChannels
  (irqChannelsBitmap, hailoVdmaEngineClearChannelInterrupts engine irqChannelsBitmap)

/-- `ARRAY_SIZE(irq_data->irq_data)` -/
def irqDataSize : Nat := maxVdmaChannelsPerEngine * maxVdmaEngines

section FillIrqData
variable {σ : Type} (transferDone : HailoOngoingTransfer → σ → Exec σ)

/-- What a call of `hailo_vdma_engine_fill_irq_data` changes. `irqData` is the
used prefix of the array, so `channels_count` is its length. -/
structure FillCursor (σ : Type) where
  engine : HailoVdmaEngine
  heap : DescListHeap
  irqData : List HailoVdmaInterruptsChannelData
  done : σ

/-- The loop over the set bits of the bitmap, from the lowest on. -/
def fillChannels (bitmap : UInt32) (regs : ChannelIndex → ChannelRegs) :
    List ChannelIndex → FillCursor σ → Exec (Int32 × FillCursor σ)
  | [], c => .ok (0, c)
  | i :: is, c =>
    let channel := c.engine.channels i
    if !hailoTestBit i bitmap then fillChannels bitmap regs is c
    else if channel.lastDescList = none then fillChannels bitmap regs is c
    else if c.irqData.length ≥ irqDataSize then .ok (-einval, c)
    else do
      let (data, channel, heap, done) ← fillChannelIrqData transferDone c.engine.index channel
        (regs i) c.heap c.done
      fillChannels bitmap regs is
        { engine := { c.engine with channels := Function.update c.engine.channels i channel }
          heap := heap
          irqData := c.irqData ++ [data]
          done := done }

def hailoVdmaEngineFillIrqData (irqData : List HailoVdmaInterruptsChannelData)
    (engine : HailoVdmaEngine) (irqChannelsBitmap : UInt32) (regs : ChannelIndex → ChannelRegs)
    (heap : DescListHeap) (done : σ) : Exec (Int32 × FillCursor σ) :=
  fillChannels transferDone irqChannelsBitmap regs (List.finRange maxVdmaChannelsPerEngine)
    ⟨engine, heap, irqData, done⟩

end FillIrqData

end HailortDrivers.VdmaEngine
