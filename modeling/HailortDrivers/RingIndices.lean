import HailortDrivers.ChannelTransfers
import HailortDrivers.VdmaEngine

/-!
The indices of the two rings of every channel, as the code computes them from whatever the
memory of the engine held before: `hailo_vdma_engine_init` resets those of the transfers,
enabling a channel those of its timestamps. Each operation says which indices it accesses the
arrays with.
-/
namespace HailortDrivers.RingIndices
open KernelExec VdmaTypes ChannelTransfers VdmaEngine

/-- `head` and `tail` of `ongoing_transfers` -/
structure TransferIndices where
  head : UInt64
  tail : UInt64

/-- `head` and `tail` of `timestamp_list`, which are `int` -/
structure TimestampIndices where
  head : Int32
  tail : Int32

structure ChannelIndices where
  timestampMeasureEnabled : Bool
  ongoingTransfers : TransferIndices
  timestampList : TimestampIndices

/-- An access to an array of a channel. -/
inductive Access
  | transfers (index : Nat)
  | timestamps (index : Int)

def Access.InRange : Access → Prop
  | .transfers index => index < hailoVdmaMaxOngoingTransfers.toNat
  | .timestamps index => 0 ≤ index ∧ index < channelIrqTimestampsSize

section Transfers

def transfersCircCnt (transfers : TransferIndices) : UInt64 :=
  circCnt transfers.head transfers.tail hailoVdmaMaxOngoingTransfers

def transfersCircSpace (transfers : TransferIndices) : UInt64 :=
  circSpace transfers.head transfers.tail hailoVdmaMaxOngoingTransfers

/-- `fits` says that the transfer has no more dirty descriptors than its array. -/
def ongoingTransferPush (transfers : TransferIndices) (fits : Bool) :
    List Access × TransferIndices :=
  if transfersCircSpace transfers = 0 then ([], transfers)
  else if !fits then ([], transfers)
  else ([.transfers transfers.head.toNat],
    ⟨(transfers.head + 1) &&& hailoVdmaMaxOngoingTransfersMask, transfers.tail⟩)

/-- The tail after a pop of a ring with transfers. -/
def ongoingTransferPop (transfers : TransferIndices) : TransferIndices :=
  ⟨transfers.head, (transfers.tail + 1) &&& hailoVdmaMaxOngoingTransfersMask⟩

/-- The loop of a disabled channel; each round reads the transfer that it pops. -/
def drainRounds : Nat → TransferIndices → List Access × TransferIndices
  | 0, transfers => ([], transfers)
  | n + 1, transfers =>
    (.transfers transfers.tail.toNat :: (drainRounds n (ongoingTransferPop transfers)).1,
      (drainRounds n (ongoingTransferPop transfers)).2)

/-- The loop of `fill_channel_irq_data`: every round looks at the transfer at the tail, and the
first that is not complete is the last round. -/
def completeRounds (isComplete : Nat → Bool) : Nat → TransferIndices →
    List Access × TransferIndices
  | 0, transfers => ([], transfers)
  | n + 1, transfers =>
    if isComplete n then
      (.transfers transfers.tail.toNat ::
          (completeRounds isComplete n (ongoingTransferPop transfers)).1,
        (completeRounds isComplete n (ongoingTransferPop transfers)).2)
    else ([.transfers transfers.tail.toNat], transfers)

end Transfers

section Timestamps

def timestampsSize : Int32 := 256
def timestampsSizeMask : Int32 := timestampsSize - 1

/-- `CIRC_CNT`, on two `int` -/
def intCircCnt (head tail size : Int32) : Int32 := (head - tail) &&& (size - 1)

def timestampsCircCnt (list : TimestampIndices) : Int32 :=
  intCircCnt list.head list.tail timestampsSize

def timestampsCircSpace (list : TimestampIndices) : Int32 :=
  intCircCnt list.tail (list.head + 1) timestampsSize

def hailoVdmaPushTimestamp (list : TimestampIndices) : List Access × TimestampIndices :=
  if timestampsCircSpace list ≠ 0 then
    ([.timestamps list.head.toInt], ⟨(list.head + 1) &&& timestampsSizeMask, list.tail⟩)
  else ([], list)

def hailoVdmaPopTimestamp (list : TimestampIndices) : Option (Access × TimestampIndices) :=
  if timestampsCircCnt list = 0 then none
  else some (.timestamps list.tail.toInt, ⟨list.head, (list.tail + 1) &&& timestampsSizeMask⟩)

/-- `hailo_vdma_pop_timestamps_to_response`, with `room` entries of the response left -/
def popTimestampsToResponse : (room : Nat) → TimestampIndices → List Access × TimestampIndices
  | room, list =>
    match hailoVdmaPopTimestamp list with
    | none => ([], list)
    | some (access, list) =>
      match room with
      | 0 => ([access], list)
      | room + 1 =>
        (access :: (popTimestampsToResponse room list).1, (popTimestampsToResponse room list).2)

end Timestamps

/-- The operations on an engine. What else they look at decides whether a launch gets to push
its transfer, which channels a completion read visits and which transfers are complete. -/
inductive Operation
  | enable (bitmap : UInt32) (measureTimestamp : Bool)
  | disable (bitmap : UInt32)
  | launch (channel : ChannelIndex) (pushes fits : Bool)
  | pushTimestamps (bitmap : UInt32)
  | fillIrqData (visited : ChannelIndex → Bool) (isComplete : ChannelIndex → Nat → Bool)
  | readTimestamps (channelIndex : UInt8)

def ChannelIndices.setTransfers (x : ChannelIndices) (after : List Access × TransferIndices) :
    List Access × ChannelIndices :=
  (after.1, { x with ongoingTransfers := after.2 })

def ChannelIndices.setTimestamps (x : ChannelIndices)
    (after : List Access × TimestampIndices) : List Access × ChannelIndices :=
  (after.1, { x with timestampList := after.2 })

/-- What an operation does to one channel. -/
def channelStep (c : ChannelIndex) (x : ChannelIndices) :
    Operation → List Access × ChannelIndices
  | .enable bitmap measureTimestamp =>
    if hailoTestBit c bitmap then ([], ⟨measureTimestamp, x.ongoingTransfers, ⟨0, 0⟩⟩) else ([], x)
  | .disable bitmap =>
    if hailoTestBit c bitmap then
      x.setTransfers (drainRounds (transfersCircCnt x.ongoingTransfers).toNat x.ongoingTransfers)
    else ([], x)
  | .launch channel pushes fits =>
    if c = channel ∧ pushes then x.setTransfers (ongoingTransferPush x.ongoingTransfers fits)
    else ([], x)
  | .pushTimestamps bitmap =>
    if hailoTestBit c bitmap && x.timestampMeasureEnabled then
      x.setTimestamps (hailoVdmaPushTimestamp x.timestampList)
    else ([], x)
  | .fillIrqData visited isComplete =>
    if visited c then
      x.setTransfers (completeRounds (isComplete c)
        (transfersCircCnt x.ongoingTransfers).toNat x.ongoingTransfers)
    else ([], x)
  | .readTimestamps channelIndex =>
    -- an index from `MAX_VDMA_CHANNELS_PER_ENGINE` on is refused
    if channelIndex.toNat = c then
      x.setTimestamps (popTimestampsToResponse channelIrqTimestampsSize x.timestampList)
    else ([], x)

abbrev EngineIndices := ChannelIndex → ChannelIndices

/-- `hailo_vdma_engine_init` on memory that was never written -/
def hailoVdmaEngineInit (memory : EngineIndices) : EngineIndices := fun c =>
  ⟨false, ⟨0, 0⟩, (memory c).timestampList⟩

def accesses (s : EngineIndices) (op : Operation) : List Access :=
  (List.finRange maxVdmaChannelsPerEngine).flatMap fun c => (channelStep c (s c) op).1

def next (s : EngineIndices) (op : Operation) : EngineIndices := fun c =>
  (channelStep c (s c) op).2

/-- Every access of operations one after the other -/
def runAccesses : EngineIndices → List Operation → List Access
  | _, [] => []
  | s, op :: ops => accesses s op ++ runAccesses (next s op) ops

end HailortDrivers.RingIndices
