import HailortDrivers.TimestampRing

/-!
`hailo_vdma_engine_read_timestamps` while the interrupt handler pushes. A call pops into
the array of its parameters until the ring is empty or the array is full; it pops before it
looks at the index. The history says which timestamps were accepted and which were taken
out of the ring.
-/
namespace HailortDrivers.TimestampReads
open KernelExec VdmaTypes VdmaEngine EngineSteps TimestampRing

/-- The loop variables of `hailo_vdma_pop_timestamps_to_response`, with the indices that were
stored to so far and what was popped. -/
structure Reading where
  channel : ChannelIndex
  i : Nat
  timestamps : Nat → HailoChannelInterruptTimestamp
  written : List Nat
  taken : List HailoChannelInterruptTimestamp

/-- A call that returned: its parameters, and how it filled them. -/
structure ReadResult where
  channel : ChannelIndex
  timestampsCount : Nat
  timestamps : Nat → HailoChannelInterruptTimestamp
  descCountMask : UInt32
  written : List Nat
  taken : List HailoChannelInterruptTimestamp

/-- What the user gets: the first `timestamps_count` entries. -/
def ReadResult.returned (result : ReadResult) : List HailoChannelInterruptTimestamp :=
  (List.range result.timestampsCount).map result.timestamps

/-- The counter of a timestamp as the call returns it. -/
def masked (descCountMask : UInt32) (timestamp : HailoChannelInterruptTimestamp) :
    HailoChannelInterruptTimestamp :=
  { timestamp with
    descNumProcessed := (timestamp.descNumProcessed.toUInt32 &&& descCountMask).toUInt16 }

structure TimestampSystem where
  engine : HailoVdmaEngine
  reading : Option Reading
  accepted : ChannelIndex → List HailoChannelInterruptTimestamp
  results : List ReadResult

inductive Event
  | pushTimestamp (bitmap : UInt32) (channel : ChannelIndex) (now : UInt64) (regs : ChannelRegs)
  | readTimestamps (channelIndex : UInt8) (timestamps : Nat → HailoChannelInterruptTimestamp)
  | popTimestamp
  | setChannelState (channel : ChannelIndex) (state : HailoVdmaChannelState)

namespace Reading
variable (r : Reading)

/-- `result->timestamps[i] = entry` -/
def store (entry : HailoChannelInterruptTimestamp) : Reading :=
  { r with timestamps := Function.update r.timestamps r.i entry }

/-- A pop that succeeds stores to the entry at the index. -/
def pop (entry : HailoChannelInterruptTimestamp) : Reading :=
  { r.store entry with written := r.written ++ [r.i], taken := r.taken ++ [entry] }

/-- The body of the loop. -/
def advance (descCountMask : UInt32) : Reading :=
  { r.store (masked descCountMask (r.timestamps r.i)) with i := r.i + 1 }

def finish (descCountMask : UInt32) : ReadResult where
  channel := r.channel
  timestampsCount := r.i
  timestamps := r.timestamps
  descCountMask := descCountMask
  written := r.written
  taken := r.taken

end Reading

namespace TimestampSystem
variable (s : TimestampSystem)

def list (c : ChannelIndex) : HailoChannelInterruptTimestampList :=
  (s.engine.channels c).timestampList

def descCountMask (c : ChannelIndex) : UInt32 := (s.engine.channels c).state.descCountMask

def setList (c : ChannelIndex) (list : HailoChannelInterruptTimestampList) : TimestampSystem :=
  { s with engine := setChannel s.engine c { s.engine.channels c with timestampList := list } }

def setState (c : ChannelIndex) (state : HailoVdmaChannelState) : TimestampSystem :=
  { s with engine := setChannel s.engine c { s.engine.channels c with state := state } }

def setReading (reading : Option Reading) : TimestampSystem := { s with reading := reading }

def accept (c : ChannelIndex) (timestamp : HailoChannelInterruptTimestamp) : TimestampSystem :=
  { s with accepted := Function.update s.accepted c (s.accepted c ++ [timestamp]) }

/-- `result->timestamps_count = i` and the end of the call -/
def finish (r : Reading) : TimestampSystem :=
  { s with reading := none, results := s.results ++ [r.finish (s.descCountMask r.channel)] }

end TimestampSystem

/-- The turn of one channel in `hailo_vdma_engine_push_timestamps`. -/
def pushTurn (s : TimestampSystem) (bitmap : UInt32) (c : ChannelIndex) (now : UInt64)
    (regs : ChannelRegs) : TimestampSystem :=
  if hailoTestBit c bitmap && (s.engine.channels c).timestampMeasureEnabled then
    let pushed := s.setList c (hailoVdmaPushTimestamp now regs (s.list c))
    if timestampsCircSpace (s.list c) ≠ 0 then pushed.accept c ⟨now, hailoVdmaGetNumProc regs⟩
    else pushed
  else s

/-- The condition of the loop, and the body where it holds. -/
def popTurn (s : TimestampSystem) (r : Reading) : TimestampSystem :=
  match hailoVdmaPopTimestamp (s.list r.channel) with
  | none => s.finish r
  | some (entry, list) =>
    let s := s.setList r.channel list
    let r := r.pop entry
    if r.i < channelIrqTimestampsSize then
      s.setReading (some (r.advance (s.descCountMask r.channel)))
    else s.finish r

/-- The board mutex is held from the start of a call to its end, so that neither another call
nor a launch gets in between; the interrupt handler does. -/
def step (s : TimestampSystem) : Event → Option TimestampSystem
  | .pushTimestamp bitmap channel now regs => some (pushTurn s bitmap channel now regs)
  | .readTimestamps channelIndex timestamps =>
    match s.reading with
    | some _ => none
    | none =>
      if h : channelIndex.toNat < maxVdmaChannelsPerEngine then
        some (s.setReading (some ⟨⟨channelIndex.toNat, h⟩, 0, timestamps, [], []⟩))
      else some s
  | .popTimestamp => s.reading.map (popTurn s)
  | .setChannelState channel state =>
    match s.reading with
    | some _ => none
    | none => some (s.setState channel state)

/-- A step, where events are admitted under a condition. -/
def Steps (Admitted : TimestampSystem → Event → Prop) (s s' : TimestampSystem) : Prop :=
  ∃ event, Admitted s event ∧ step s event = some s'

/-- Right after channels were enabled. -/
def initialSystem (engine : HailoVdmaEngine) (bitmap : UInt32) (measureTimestamp : Bool) :
    TimestampSystem where
  engine := hailoVdmaEngineEnableChannels engine bitmap measureTimestamp
  reading := none
  accepted := fun _ => []
  results := []

end HailortDrivers.TimestampReads
