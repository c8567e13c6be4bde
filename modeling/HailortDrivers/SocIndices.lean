import HailortDrivers.SocOwnership

/-!
The channel indices that a SoC device answers with, and those that a user closes. They are eight
bits wide and the engine has 32 channels. The only check of an index is whether its bit is set in
a word of 32 bits, where C leaves open what a shift by more gives; recording an index is word
arithmetic on `unsigned long`, which reaches past the bitmap. A close has no check.
-/
namespace HailortDrivers.SocIndices
open KernelExec VdmaTypes ChannelControl SocControl
open VdmaMemory (enomem)

/-- `1 << bit` on one machine -/
structure Shifter where
  shiftOne : UInt8 → UInt32
  shiftOne_of_lt : ∀ bit : UInt8, bit.toNat < 32 → shiftOne bit = bitAt bit

/-- The amount is taken modulo the width, as x86 and arm64 do. -/
def maskedShifter : Shifter := ⟨bitAt, fun _ _ => rfl⟩

def bitsPerLong : UInt8 := 64

/-- `BIT_MASK`, stored in a `u32` -/
def bitMask (nr : UInt8) : UInt32 := ((1 : UInt64) <<< (nr % bitsPerLong).toUInt64).toUInt32

/-- `BIT_WORD` -/
def bitWord (nr : UInt8) : Nat := (nr / bitsPerLong).toNat

/-- The words from `addr` on; the bitmap is the first of them. -/
def hailoSetBit (nr : UInt8) (addr : Nat → UInt32) : Nat → UInt32 :=
  Function.update addr (bitWord nr) (addr (bitWord nr) ||| bitMask nr)

section SetBit
variable {nr : UInt8} (addr : Nat → UInt32)

theorem bitMask_of_lt (h : nr.toNat < 32) : bitMask nr = bitAt nr := by
  have hamount : nr % bitsPerLong = nr := by
    rw [← UInt8.toNat_inj, UInt8.toNat_mod]
    exact Nat.mod_eq_of_lt (Nat.lt_trans h (by decide))
  have hone : (1 : UInt64).toNat = 1 := rfl
  have hone' : (1 : UInt32).toNat = 1 := rfl
  have hpow : 2 ^ nr.toNat < 2 ^ 32 := Nat.pow_lt_pow_right (by decide) h
  have hpow' : 2 ^ nr.toNat < 2 ^ 64 := Nat.lt_trans hpow (by decide)
  rw [← UInt32.toNat_inj, bitMask, hamount, bitAt, UInt64.toNat_toUInt32,
    UInt64.toNat_shiftLeft, UInt32.toNat_shiftLeft, UInt8.toNat_toUInt64, UInt8.toNat_toUInt32,
    hone, hone', Nat.mod_eq_of_lt h, Nat.mod_eq_of_lt (Nat.lt_trans h (by decide)),
    Nat.shiftLeft_eq, Nat.one_mul, Nat.mod_eq_of_lt hpow', Nat.mod_eq_of_lt hpow]

theorem hailoSetBit_of_lt (h : nr.toNat < 32) :
    hailoSetBit nr addr = Function.update addr 0 (SocControl.hailoSetBit nr (addr 0)) := by
  have hword : bitWord nr = 0 := by
    rw [bitWord, UInt8.toNat_div]
    exact Nat.div_eq_of_lt (Nat.lt_trans h (by decide))
  rw [hailoSetBit, hword, bitMask_of_lt h, SocControl.hailoSetBit]

end SetBit

section Check
variable (machine : Shifter)

/-- `hailo_check_channel_index`, with both tests as the machine makes them -/
def hailoCheckChannelIndex (channelIndex : UInt8) (srcChannelsBitmask : UInt32)
    (isInputChannel : Bool) : Bool :=
  let tested := srcChannelsBitmask &&& machine.shiftOne channelIndex != 0
  if isInputChannel then tested else !tested

theorem and_bitAt_eq_zero_iff {channelIndex : UInt8} (h : channelIndex.toNat < 32)
    (bits : UInt32) :
    bits &&& bitAt channelIndex = 0 ↔ hailoTestBit channelIndex.toNat bits = false := by
  rw [and_eq_zero_iff]
  constructor
  · intro hclear
    by_contra hset
    have hbit := hclear _ (Bool.eq_true_of_not_eq_false hset)
    rw [hailoTestBit_bitAt h, decide_eq_true rfl] at hbit
    cases hbit
  · intro hclear pos hpos
    rw [hailoTestBit_bitAt h, decide_eq_false]
    rintro rfl
    rw [hclear] at hpos
    cases hpos

/-- Below 32 the check is the one on the bits of the word. -/
theorem hailoCheckChannelIndex_of_lt {channelIndex : UInt8} (h : channelIndex.toNat < 32)
    (srcChannelsBitmask : UInt32) (isInputChannel : Bool) :
    hailoCheckChannelIndex machine channelIndex srcChannelsBitmask isInputChannel =
      (hailoTestBit channelIndex.toNat srcChannelsBitmask == isInputChannel) := by
  have htested : (srcChannelsBitmask &&& bitAt channelIndex != 0) =
      hailoTestBit channelIndex.toNat srcChannelsBitmask := by
    cases hbit : hailoTestBit channelIndex.toNat srcChannelsBitmask with
    | false => rw [(and_bitAt_eq_zero_iff h _).mpr hbit, bne_self_eq_false]
    | true =>
      refine bne_iff_ne.mpr fun hzero => ?_
      rw [(and_bitAt_eq_zero_iff h _).mp hzero] at hbit
      cases hbit
  simp only [hailoCheckChannelIndex, machine.shiftOne_of_lt channelIndex h, htested]
  cases isInputChannel with
  | false => simp
  | true => simp

end Check

/-- The lists of a file, and the words from `soc_used_channels_bitmap` on: behind the bitmap lies
what is not of this file. -/
structure FileWords where
  descriptorsBufferList : List HailoDescriptorsListBuffer
  words : Nat → UInt32

def FileWords.context (file : FileWords) : HailoFileContext :=
  ⟨file.descriptorsBufferList, file.words 0⟩

/-- `accessed`: the indices of `engine->channels` that the request looked at. -/
structure ConnectOutcome where
  ret : Int32
  params : HailoSocConnectParams
  accessed : List UInt8
  board : SocBoard
  file : FileWords

section Connect
variable (machine : Shifter) (vdmaHw : HailoVdmaHw) (call : ConnectCall) (board : SocBoard)
  (file : FileWords)

def startChannels (input output : HailoDescriptorsListBuffer) : ConnectOutcome :=
  let params := call.answered
  let board := board.startChannel vdmaHw params.inputChannelIndex input
  let board := board.startChannel vdmaHw params.outputChannelIndex output
  let words := hailoSetBit params.outputChannelIndex
    (hailoSetBit params.inputChannelIndex file.words)
  { ret := if call.writable then 0 else -enomem
    params := if call.writable then params else call.params
    accessed := [params.inputChannelIndex, params.outputChannelIndex]
    board := board
    file := { file with words := words } }

def hailoSocConnectIoctl : ConnectOutcome :=
  if !call.readable then ⟨-enomem, call.params, [], board, file⟩
  else
    -- the device has the request from here on
    let board := { board with connected := board.connected ||| call.answer.channels }
    let err := socControl hailoPcieSocControlCodeConnect call.answer
    let params := call.answered
    if err < 0 then ⟨err, call.params, [], board, file⟩
    else if !hailoCheckChannelIndex machine params.inputChannelIndex vdmaHw.srcChannelsBitmask
        true then ⟨-einval, call.params, [], board, file⟩
    else if !hailoCheckChannelIndex machine params.outputChannelIndex vdmaHw.srcChannelsBitmask
        false then ⟨-einval, call.params, [], board, file⟩
    else
      match findDescriptorsBuffers file.context params with
      | .error err => ⟨err, call.params, [], board, file⟩
      | .ok (input, output) => startChannels vdmaHw call board file input output

/-- The driver gets past its checks. -/
structure Accepted : Prop where
  readable : call.readable = true
  agreed : ¬ socControl hailoPcieSocControlCodeConnect call.answer < 0
  inputChannel : hailoCheckChannelIndex machine call.answered.inputChannelIndex
    vdmaHw.srcChannelsBitmask true = true
  outputChannel : hailoCheckChannelIndex machine call.answered.outputChannelIndex
    vdmaHw.srcChannelsBitmask false = true
  buffers : ∃ input output,
    findDescriptorsBuffers file.context call.answered = .ok (input, output)

/-- The answer was turned down with nothing touched, or the channels are two of the engine, of the
right directions, and nothing but their registers and their bits has changed. -/
def ConnectValidated (result : ConnectOutcome) : Prop :=
  (result.ret < 0 ∧ result.accessed = [] ∧ result.board.hostRegs = board.hostRegs ∧
    result.file = file) ∨
  (∀ channelIndex ∈ result.accessed, channelIndex.toNat < maxVdmaChannelsPerEngine) ∧
    hailoTestBit call.answered.inputChannelIndex.toNat vdmaHw.srcChannelsBitmask = true ∧
    hailoTestBit call.answered.outputChannelIndex.toNat vdmaHw.srcChannelsBitmask = false ∧
    (∀ channel, channel ≠ call.answered.inputChannelIndex.toNat →
      channel ≠ call.answered.outputChannelIndex.toNat →
      result.board.hostRegs channel = board.hostRegs channel) ∧
    ∀ word pos, hailoTestBit pos (result.file.words word) =
      (hailoTestBit pos (file.words word) ||
        decide (word = 0 ∧ (pos = call.answered.inputChannelIndex.toNat ∨
          pos = call.answered.outputChannelIndex.toNat)))

variable {machine vdmaHw call file}

theorem findDescriptorsBuffers_error {context : HailoFileContext} {params : HailoSocConnectParams}
    {err : Int32} (h : findDescriptorsBuffers context params = .error err) : err = -einval := by
  rcases SocConnect.findDescriptorsBuffers_cases hailoPcieVdmaHw context params with
    ⟨input, output, -, -, -, -, hfound⟩ | ⟨-, hfound⟩
  · rw [hfound] at h
    cases h
  · rw [hfound] at h
    cases h
    rfl

/-- One way through the checks, and nothing touched on the others. -/
theorem connect_accepted (h : Accepted machine vdmaHw call file) :
    ∃ input output, hailoSocConnectIoctl machine vdmaHw call board file =
      startChannels vdmaHw call { board with connected := board.connected ||| call.answer.channels }
        file input output := by
  obtain ⟨input, output, hbuffers⟩ := h.buffers
  refine ⟨input, output, ?_⟩
  simp only [hailoSocConnectIoctl, h.readable, h.agreed, h.inputChannel, h.outputChannel, hbuffers,
    Bool.not_true, Bool.false_eq_true, if_false]

theorem connect_turnedDown (h : ¬ Accepted machine vdmaHw call file) :
    ∃ ret connected, ret < 0 ∧ hailoSocConnectIoctl machine vdmaHw call board file =
      ⟨ret, call.params, [], { board with connected := connected }, file⟩ := by
  simp only [hailoSocConnectIoctl]
  split
  · exact ⟨-enomem, board.connected, by decide, rfl⟩
  · next hread =>
    split
    · next herr => exact ⟨_, _, herr, rfl⟩
    · next hagreed =>
      split
      · exact ⟨-einval, _, by decide, rfl⟩
      · next hinput =>
        split
        · exact ⟨-einval, _, by decide, rfl⟩
        · next houtput =>
          split
          · next err hbuffers =>
            refine ⟨err, _, ?_, rfl⟩
            rw [findDescriptorsBuffers_error hbuffers]
            decide
          · next input output hbuffers =>
            rw [Bool.not_eq_true', Bool.not_eq_false] at hread hinput houtput
            exact absurd ⟨hread, hagreed, hinput, houtput, input, output, hbuffers⟩ h

theorem hailoTestBit_words {input output : UInt8} (hinput : input.toNat < 32)
    (houtput : output.toNat < 32) (words : Nat → UInt32) (word pos : Nat) :
    hailoTestBit pos (hailoSetBit output (hailoSetBit input words) word) =
      (hailoTestBit pos (words word) ||
        decide (word = 0 ∧ (pos = input.toNat ∨ pos = output.toNat))) := by
  rw [hailoSetBit_of_lt _ houtput, hailoSetBit_of_lt _ hinput, Function.update_self,
    Function.update_idem]
  by_cases hword : word = 0
  · rw [hword, Function.update_self, hailoTestBit_setBit houtput, hailoTestBit_setBit hinput,
      Bool.or_assoc, ← Bool.decide_or]
    simp only [true_and]
  · rw [Function.update_of_ne hword]
    simp only [hword, false_and, decide_false, Bool.or_false]

/-- The request is validated exactly if what gets past the checks are two indices of the
engine. -/
theorem connectValidated_iff :
    ConnectValidated vdmaHw call board file (hailoSocConnectIoctl machine vdmaHw call board file) ↔
      (Accepted machine vdmaHw call file →
        call.answered.inputChannelIndex.toNat < maxVdmaChannelsPerEngine ∧
          call.answered.outputChannelIndex.toNat < maxVdmaChannelsPerEngine) := by
  by_cases haccepted : Accepted machine vdmaHw call file
  · obtain ⟨input, output, hconnect⟩ := connect_accepted board haccepted
    rw [hconnect]
    constructor
    · rintro (⟨-, hnone, -⟩ | ⟨hbelow, -⟩) -
      · exact absurd hnone (List.cons_ne_nil _ _)
      · exact ⟨hbelow _ (by simp [startChannels]), hbelow _ (by simp [startChannels])⟩
    · intro hindices
      obtain ⟨hinput, houtput⟩ := hindices haccepted
      have hsource := haccepted.inputChannel
      have hdest := haccepted.outputChannel
      rw [hailoCheckChannelIndex_of_lt machine hinput, beq_iff_eq] at hsource
      rw [hailoCheckChannelIndex_of_lt machine houtput, beq_iff_eq] at hdest
      refine Or.inr ⟨?_, hsource, hdest, ?_, fun word pos => ?_⟩
      · intro channelIndex hmem
        rcases List.mem_pair.mp hmem with rfl | rfl
        · exact hinput
        · exact houtput
      · intro channel hne hne'
        simp only [startChannels, SocBoard.startChannel]
        rw [Function.update_of_ne hne', Function.update_of_ne hne]
      · exact hailoTestBit_words hinput houtput file.words word pos
  · obtain ⟨ret, connected, hret, hconnect⟩ := connect_turnedDown board haccepted
    rw [hconnect]
    exact ⟨fun _ h => absurd h haccepted, fun _ => Or.inl ⟨hret, rfl, rfl, rfl⟩⟩

theorem startChannels_refines
    (hinput : call.answered.inputChannelIndex.toNat < maxVdmaChannelsPerEngine)
    (houtput : call.answered.outputChannelIndex.toNat < maxVdmaChannelsPerEngine)
    (input output : HailoDescriptorsListBuffer) :
    let result := startChannels vdmaHw call board file input output
    SocControl.startChannels vdmaHw call input output board file.context =
      (result.ret, result.params, result.board, result.file.context) := by
  have hwords : hailoSetBit call.answered.outputChannelIndex
      (hailoSetBit call.answered.inputChannelIndex file.words) 0 =
      SocControl.hailoSetBit call.answered.outputChannelIndex
        (SocControl.hailoSetBit call.answered.inputChannelIndex (file.words 0)) := by
    rw [hailoSetBit_of_lt _ houtput, hailoSetBit_of_lt _ hinput, Function.update_self,
      Function.update_self]
  simp only [SocControl.startChannels, startChannels, FileWords.context, hwords]
  cases call.writable with
  | false => rfl
  | true => rfl

/-- With indices of the engine the request does what the model of the connections says. -/
theorem connect_refines
    (hinput : call.answered.inputChannelIndex.toNat < maxVdmaChannelsPerEngine)
    (houtput : call.answered.outputChannelIndex.toNat < maxVdmaChannelsPerEngine) :
    let result := hailoSocConnectIoctl machine vdmaHw call board file
    SocControl.hailoSocConnectIoctl vdmaHw call board file.context =
      some (result.ret, result.params, result.board, result.file.context) := by
  simp only [SocControl.hailoSocConnectIoctl, hailoSocConnectIoctl, validateConnect,
    SocControl.hailoCheckChannelIndex, hinput, houtput, if_true,
    hailoCheckChannelIndex_of_lt machine hinput, hailoCheckChannelIndex_of_lt machine houtput]
  split
  · rfl
  · split
    · rfl
    · cases hailoTestBit call.answered.inputChannelIndex.toNat vdmaHw.srcChannelsBitmask with
      | false => rfl
      | true =>
        cases hailoTestBit call.answered.outputChannelIndex.toNat vdmaHw.srcChannelsBitmask with
        | true => rfl
        | false =>
          cases findDescriptorsBuffers file.context call.answered with
          | error err => rfl
          | ok buffers => exact congrArg some (startChannels_refines _ hinput houtput _ _)

end Connect

section Close
variable (machine : Shifter) (call : CloseCall) (board : SocBoard) (file : FileWords)

/-- `(1 << params.input_channel_index) | (1 << params.output_channel_index)` -/
def channelsBitmap (params : HailoSocCloseParams) : UInt32 :=
  machine.shiftOne params.inputChannelIndex ||| machine.shiftOne params.outputChannelIndex

def hailoClearBit (bit : UInt8) (addr : Nat → UInt32) : Nat → UInt32 :=
  Function.update addr 0 (addr 0 &&& ~~~machine.shiftOne bit)

def hailoSocCloseIoctl : Int32 × SocBoard × FileWords :=
  let params := call.params
  if !call.readable then (-enomem, board, file)
  else
    let (err, board) := closeChannels (channelsBitmap machine params) call.answer board
    if err ≠ 0 then (err, board, file)
    else
      (err, board, { file with
        words := hailoClearBit machine params.outputChannelIndex
          (hailoClearBit machine params.inputChannelIndex file.words) })

/-- Once read, the indices are two of the engine. Those channels are stopped and, if the device
confirms it, their bits are cleared, and nothing else is. -/
def CloseValidated (result : Int32 × SocBoard × FileWords) : Prop :=
  call.readable = true →
    call.params.inputChannelIndex.toNat < maxVdmaChannelsPerEngine ∧
    call.params.outputChannelIndex.toNat < maxVdmaChannelsPerEngine ∧
    (∀ channel, result.2.1.hostRegs channel =
      if channel = call.params.inputChannelIndex.toNat ∨
          channel = call.params.outputChannelIndex.toNat then
        hailoVdmaStopChannel (board.hostRegs channel)
      else board.hostRegs channel) ∧
    ∀ word pos, hailoTestBit pos (result.2.2.words word) =
      (hailoTestBit pos (file.words word) &&
        !decide (result.1 = 0 ∧ word = 0 ∧ (pos = call.params.inputChannelIndex.toNat ∨
          pos = call.params.outputChannelIndex.toNat)))

variable {machine call}

theorem hailoTestBit_channelsBitmap {params : HailoSocCloseParams}
    (hinput : params.inputChannelIndex.toNat < 32) (houtput : params.outputChannelIndex.toNat < 32)
    (pos : Nat) :
    hailoTestBit pos (channelsBitmap machine params) =
      decide (pos = params.inputChannelIndex.toNat ∨ pos = params.outputChannelIndex.toNat) := by
  rw [channelsBitmap, machine.shiftOne_of_lt _ hinput, machine.shiftOne_of_lt _ houtput,
    hailoTestBit_or, hailoTestBit_bitAt hinput, hailoTestBit_bitAt houtput, Bool.decide_or]

theorem hailoTestBit_cleared {input output : UInt8} (hinput : input.toNat < 32)
    (houtput : output.toNat < 32) (words : Nat → UInt32) (word pos : Nat) :
    hailoTestBit pos (hailoClearBit machine output (hailoClearBit machine input words) word) =
      (hailoTestBit pos (words word) &&
        !decide (word = 0 ∧ (pos = input.toNat ∨ pos = output.toNat))) := by
  rw [hailoClearBit, hailoClearBit, Function.update_self, Function.update_idem,
    machine.shiftOne_of_lt _ hinput, machine.shiftOne_of_lt _ houtput]
  by_cases hword : word = 0
  · rw [hword, Function.update_self, hailoTestBit_and_not, hailoTestBit_and_not,
      hailoTestBit_bitAt hinput, hailoTestBit_bitAt houtput, Bool.and_assoc, ← Bool.not_or,
      ← Bool.decide_or]
    simp only [true_and]
  · rw [Function.update_of_ne hword]
    simp only [hword, false_and, decide_false, Bool.not_false, Bool.and_true]

theorem closeValidated_iff :
    CloseValidated call board file (hailoSocCloseIoctl machine call board file) ↔
      (call.readable = true →
        call.params.inputChannelIndex.toNat < maxVdmaChannelsPerEngine ∧
          call.params.outputChannelIndex.toNat < maxVdmaChannelsPerEngine) := by
  constructor
  · intro h hread
    obtain ⟨hinput, houtput, -⟩ := h hread
    exact ⟨hinput, houtput⟩
  · intro h hread
    obtain ⟨hinput, houtput⟩ := h hread
    refine ⟨hinput, houtput, ?_, ?_⟩
    · intro channel
      have hregs : (hailoSocCloseIoctl machine call board file).2.1 =
          (closeChannels (channelsBitmap machine call.params) call.answer board).2 := by
        simp only [hailoSocCloseIoctl, hread, Bool.not_true, Bool.false_eq_true, if_false]
        split <;> rfl
      rw [hregs]
      simp only [closeChannels, hailoTestBit_channelsBitmap hinput houtput, decide_eq_true_eq]
    · intro word pos
      simp only [hailoSocCloseIoctl, hread, Bool.not_true, Bool.false_eq_true, if_false]
      split
      · next herr =>
        simp only [herr, false_and, decide_false, Bool.not_false, Bool.and_true]
      · next herr =>
        rw [hailoTestBit_cleared hinput houtput]
        simp only [not_not.mp herr, true_and]

end Close

/-- A connect request is validated exactly if what gets past its checks are two indices of the
engine, and a close request exactly if it names two of them. -/
theorem indices_validated_iff (machine : Shifter) (vdmaHw : HailoVdmaHw) (board : SocBoard)
    (file : FileWords) (call : ConnectCall) (closeCall : CloseCall) :
    (ConnectValidated vdmaHw call board file
        (hailoSocConnectIoctl machine vdmaHw call board file) ↔
      (Accepted machine vdmaHw call file →
        call.answered.inputChannelIndex.toNat < maxVdmaChannelsPerEngine ∧
          call.answered.outputChannelIndex.toNat < maxVdmaChannelsPerEngine)) ∧
    (CloseValidated closeCall board file (hailoSocCloseIoctl machine closeCall board file) ↔
      (closeCall.readable = true →
        closeCall.params.inputChannelIndex.toNat < maxVdmaChannelsPerEngine ∧
          closeCall.params.outputChannelIndex.toNat < maxVdmaChannelsPerEngine)) :=
  ⟨connectValidated_iff board, closeValidated_iff board file⟩

section Examples

/-- The device answers with channels 40 and 16, in time. -/
def farCall : ConnectCall where
  params := ⟨80, 0, 0, 1, 2⟩
  readable := true
  writable := true
  answer := ⟨0x10001, 1, ⟨hailoPcieSocControlCodeConnect, 0, 40, 16⟩⟩

def farClose : CloseCall where
  params := ⟨40, 16⟩
  readable := true
  answer := ⟨0x10001, 1, ⟨hailoPcieSocControlCodeClose, 0, 0, 0⟩⟩

def twoListsFile : FileWords := ⟨SocConnect.twoLists.descriptorsBufferList, fun _ => 0⟩

/-- Where shifts take the amount modulo 32, index 40 passes for channel 8, which is one of the
source channels: `channels[40]` is started, and its bit is not recorded. A close of channel 40
stops channel 8. -/
theorem index40_accepted :
    let result := hailoSocConnectIoctl maskedShifter hailoPcieVdmaHw farCall SocConnect.idleBoard
      twoListsFile
    result.ret = 0 ∧ result.accessed = [40, 16] ∧ result.file.words 0 = 0x10000 ∧
      ¬ ConnectValidated hailoPcieVdmaHw farCall SocConnect.idleBoard twoListsFile result ∧
      hailoTestBit 8 (channelsBitmap maskedShifter farClose.params) = true ∧
      ¬ CloseValidated farClose SocConnect.idleBoard twoListsFile
        (hailoSocCloseIoctl maskedShifter farClose SocConnect.idleBoard twoListsFile) := by
  have hfar : ¬ farCall.answered.inputChannelIndex.toNat < maxVdmaChannelsPerEngine := by decide
  have haccepted : Accepted maskedShifter hailoPcieVdmaHw farCall twoListsFile :=
    ⟨rfl, by decide, by decide, by decide, ⟨1, 0x10000, 16⟩, ⟨2, 0x20000, 16⟩, rfl⟩
  refine ⟨rfl, rfl, by decide, fun h => ?_, by decide, fun h => ?_⟩
  · exact hfar ((connectValidated_iff SocConnect.idleBoard).mp h haccepted).1
  · exact absurd (h rfl).1 (by decide)

end Examples

end HailortDrivers.SocIndices
