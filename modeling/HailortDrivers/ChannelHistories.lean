import HailortDrivers.TimestampReads

/-!
What is done to the channels of an engine over time: operations with what the caller, the
device and the clock put into them, and everything that comes out of them.
-/
namespace HailortDrivers.ChannelHistories
open KernelExec VdmaTypes ChannelTransfers VdmaEngine EngineSteps CompletionSteps TimestampRing
open TimestampReads (masked)

def hailoVdmaEnginePushTimestamps (engine : HailoVdmaEngine) (bitmap : UInt32)
    (now : ChannelIndex → UInt64) (regs : ChannelIndex → ChannelRegs) : HailoVdmaEngine :=
  { engine with
    channels := fun i =>
      if hailoTestBit i bitmap && (engine.channels i).timestampMeasureEnabled then
        { engine.channels i with
          timestampList := hailoVdmaPushTimestamp (now i) (regs i)
            (engine.channels i).timestampList }
      else engine.channels i }

/-- The loop at index `i` with `room` entries of the array left. A pop stores before the index
is compared. -/
def popTimestamps (descCountMask : UInt32) : (room i : Nat) →
    HailoChannelInterruptTimestampList → (Nat → HailoChannelInterruptTimestamp) →
    Nat × (Nat → HailoChannelInterruptTimestamp) × HailoChannelInterruptTimestampList
  | room, i, list, timestamps =>
    match hailoVdmaPopTimestamp list with
    | none => (i, timestamps, list)
    | some (entry, list) =>
      match room with
      | 0 => (i, Function.update timestamps i entry, list)
      | room + 1 =>
        popTimestamps descCountMask room (i + 1) list
          (Function.update timestamps i (masked descCountMask entry))

/-- The result is `timestamps_count` and the array `timestamps`. -/
def hailoVdmaPopTimestampsToResponse (channel : HailoVdmaChannel)
    (timestamps : Nat → HailoChannelInterruptTimestamp) :
    Nat × (Nat → HailoChannelInterruptTimestamp) × HailoVdmaChannel :=
  let (count, timestamps, list) := popTimestamps channel.state.descCountMask
    channelIrqTimestampsSize 0 channel.timestampList timestamps
  (count, timestamps, { channel with timestampList := list })

/-- What an operation returns and writes: codes, channel data, timestamps, the descriptors lists
and the registers after it. -/
inductive Outcome (σ : Type)
  | done
  | descriptors (heap : DescListHeap)
  | launched (ret : Int32) (descList : HailoVdmaDescriptorsList) (regs : ChannelRegs)
  | interrupts (irqChannelsBitmap : UInt32)
  | filled (ret : Int32) (irqData : List HailoVdmaInterruptsChannelData) (heap : DescListHeap)
      (done : σ)
  | timestamps (count : Nat) (timestamps : Nat → HailoChannelInterruptTimestamp)
  | rejected (ret : Int32)

inductive Operation (σ : Type)
  | enable (bitmap : UInt32) (measureTimestamp : Bool)
  | disable (bitmap : UInt32) (heap : DescListHeap)
  | launch (channel : ChannelIndex) (descListAddress : Nat) (descList : HailoVdmaDescriptorsList)
      (regs : ChannelRegs) (startingDesc : UInt32) (buffers : List HailoVdmaMappedTransferBuffer)
      (shouldBind : Bool) (firstInterruptsDomain lastDescInterrupts : HailoVdmaInterruptsDomain)
      (isDebug : Bool)
  | setInterrupts (bitmap : UInt32)
  | clearInterrupts (bitmap : UInt32)
  | readInterrupts (requestedBitmap : UInt32)
  | pushTimestamps (bitmap : UInt32) (now : ChannelIndex → UInt64)
      (regs : ChannelIndex → ChannelRegs)
  | fillIrqData (irqData : List HailoVdmaInterruptsChannelData) (irqChannelsBitmap : UInt32)
      (regs : ChannelIndex → ChannelRegs) (heap : DescListHeap) (done : σ)
  | readTimestamps (channelIndex : UInt8) (timestamps : Nat → HailoChannelInterruptTimestamp)

variable {σ : Type}

/-- `hailo_vdma_engine_read_timestamps` -/
def hailoVdmaEngineReadTimestamps (engine : HailoVdmaEngine) (channelIndex : UInt8)
    (timestamps : Nat → HailoChannelInterruptTimestamp) : Outcome σ × HailoVdmaEngine :=
  if h : channelIndex.toNat < maxVdmaChannelsPerEngine then
    let (count, timestamps, channel) := hailoVdmaPopTimestampsToResponse
      (engine.channels ⟨channelIndex.toNat, h⟩) timestamps
    (.timestamps count timestamps, setChannel engine ⟨channelIndex.toNat, h⟩ channel)
  else (.rejected (-einval), engine)

variable (vdmaHw : HailoVdmaHw) (transferDone : HailoOngoingTransfer → σ → Exec σ)

def apply (engine : HailoVdmaEngine) : Operation σ → Exec (Outcome σ × HailoVdmaEngine)
  | .enable bitmap measureTimestamp =>
    .ok (.done, hailoVdmaEngineEnableChannels engine bitmap measureTimestamp)
  | .disable bitmap heap => do
    let (engine, heap) ← hailoVdmaEngineDisableChannels engine bitmap heap
    return (.descriptors heap, engine)
  | .launch channel descListAddress descList regs startingDesc buffers shouldBind
      firstInterruptsDomain lastDescInterrupts isDebug => do
    let (ret, launched, descList, regs) ← hailoVdmaLaunchTransfer vdmaHw (engine.channels channel)
      descListAddress descList regs startingDesc buffers shouldBind firstInterruptsDomain
      lastDescInterrupts isDebug
    return (.launched ret descList regs, setChannel engine channel launched)
  | .setInterrupts bitmap => .ok (.done, hailoVdmaEngineSetChannelInterrupts engine bitmap)
  | .clearInterrupts bitmap => .ok (.done, hailoVdmaEngineClearChannelInterrupts engine bitmap)
  | .readInterrupts requestedBitmap =>
    .ok (.interrupts (hailoVdmaEngineReadInterrupts engine requestedBitmap).1,
      (hailoVdmaEngineReadInterrupts engine requestedBitmap).2)
  | .pushTimestamps bitmap now regs =>
    .ok (.done, hailoVdmaEnginePushTimestamps engine bitmap now regs)
  | .fillIrqData irqData irqChannelsBitmap regs heap done => do
    let (ret, c) ← hailoVdmaEngineFillIrqData transferDone irqData engine irqChannelsBitmap regs
      heap done
    return (.filled ret c.irqData c.heap c.done, c.engine)
  | .readTimestamps channelIndex timestamps =>
    .ok (hailoVdmaEngineReadTimestamps engine channelIndex timestamps)

/-- The outcomes of operations one after the other; a fault ends the run. -/
def runOperations : HailoVdmaEngine → List (Operation σ) →
    Exec (List (Outcome σ) × HailoVdmaEngine)
  | engine, [] => .ok ([], engine)
  | engine, op :: ops => do
    let (outcome, engine) ← apply vdmaHw transferDone engine op
    let (outcomes, engine) ← runOperations engine ops
    return (outcome :: outcomes, engine)

/-- No operation changes the indices that the engine was initialized with. -/
structure Indexed (engineIndex : UInt8) (engine : HailoVdmaEngine) : Prop where
  own : engine.index = engineIndex
  channels : ∀ i : ChannelIndex, (engine.channels i).index = UInt8.ofNat i

variable {engine engine' : HailoVdmaEngine} {engineIndex : UInt8}

theorem indexed_init (memory : HailoVdmaEngine) (engineIndex : UInt8) :
    Indexed engineIndex (hailoVdmaEngineInit memory engineIndex) := ⟨rfl, fun _ => rfl⟩

theorem Indexed.setChannel (h : Indexed engineIndex engine) {i : ChannelIndex}
    {channel : HailoVdmaChannel} (hchannel : channel.index = (engine.channels i).index) :
    Indexed engineIndex (setChannel engine i channel) where
  own := h.own
  channels := by
    intro j
    by_cases hji : j = i
    · subst hji
      rw [setChannel_self, hchannel]
      exact h.channels j
    · rw [setChannel_of_ne engine hji]
      exact h.channels j

theorem Indexed.disable {bitmap : UInt32} {heap heap' : DescListHeap}
    (h : Indexed engineIndex engine)
    (hdisable : hailoVdmaEngineDisableChannels engine bitmap heap = .ok (engine', heap')) :
    Indexed engineIndex engine' := by
  refine disableChannels_inv (I := fun engine _ => Indexed engineIndex engine) ?_ hdisable
    ⟨h.own, h.channels⟩
  intro engine heap i channel' heap' hindexed _ hturn
  refine hindexed.setChannel ?_
  rw [(disableChannel_ok hturn).1]

theorem Indexed.apply (h : Indexed engineIndex engine) {op : Operation σ} {outcome : Outcome σ}
    (hop : apply vdmaHw transferDone engine op = .ok (outcome, engine')) :
    Indexed engineIndex engine' := by
  cases op with
  | enable bitmap measureTimestamp =>
    cases hop
    refine ⟨h.own, fun i => ?_⟩
    simp only [hailoVdmaEngineEnableChannels]
    split <;> exact h.channels i
  | disable bitmap heap =>
    obtain ⟨⟨engine₁, heap₁⟩, hdisable, hop⟩ := bind_ok hop
    cases hop
    exact h.disable hdisable
  | launch channel =>
    obtain ⟨⟨ret, launched, descList, regs⟩, hlaunch, hop⟩ := bind_ok hop
    cases hop
    refine h.setChannel ?_
    have houtcome := LaunchSteps.launch_outcome hlaunch
    cases houtcome with
    | _ => rfl
  | setInterrupts bitmap =>
    cases hop
    exact ⟨h.own, h.channels⟩
  | clearInterrupts bitmap =>
    cases hop
    exact ⟨h.own, h.channels⟩
  | readInterrupts requestedBitmap =>
    cases hop
    exact ⟨h.own, h.channels⟩
  | pushTimestamps bitmap now regs =>
    cases hop
    refine ⟨h.own, fun i => ?_⟩
    simp only [hailoVdmaEnginePushTimestamps]
    split <;> exact h.channels i
  | fillIrqData irqData irqChannelsBitmap regs heap done =>
    obtain ⟨⟨ret, c⟩, hfill, hop⟩ := bind_ok hop
    cases hop
    obtain ⟨turns, hturns⟩ := fillChannels_fills hfill
    refine hturns.inv (I := fun c => Indexed engineIndex c.engine) ?_ h
    intro c i data removed cc hindexed _ _ hcompletes
    exact hindexed.setChannel hcompletes.sameChannel.index
  | readTimestamps channelIndex timestamps =>
    have hread : hailoVdmaEngineReadTimestamps engine channelIndex timestamps =
        (outcome, engine') := Except.ok.inj hop
    unfold hailoVdmaEngineReadTimestamps at hread
    split at hread
    · cases hread
      exact h.setChannel rfl
    · cases hread
      exact h

theorem Indexed.run (h : Indexed engineIndex engine) {ops : List (Operation σ)}
    {outcomes : List (Outcome σ)}
    (hrun : runOperations vdmaHw transferDone engine ops = .ok (outcomes, engine')) :
    Indexed engineIndex engine' := by
  induction ops generalizing engine outcomes with
  | nil =>
    cases hrun
    exact h
  | cons op ops ih =>
    obtain ⟨⟨outcome, engine₁⟩, hop, hrun⟩ := bind_ok hrun
    obtain ⟨⟨outcomes₁, engine₂⟩, hrest, hrun⟩ := bind_ok hrun
    cases hrun
    exact ih (h.apply vdmaHw transferDone hop) hrest

end HailortDrivers.ChannelHistories
