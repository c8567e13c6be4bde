import HailortDrivers.SocControl

/-!
What a connect request leaves behind. The driver checks its part after the device has
connected the channels, and does not look at whether the channels were started.
-/
namespace HailortDrivers.SocConnect
open KernelExec VdmaTypes ChannelControl RegisterBits DescriptorsListCreation SocControl
open VdmaMemory (enomem)

section Registers
variable {regs : RegisterWindow} {descDmaAddress : UInt64} {descCount : UInt32} {dataId : UInt8}

end Registers

/-- Some open file has the channel in its bitmap. -/
def Recorded (files : Nat → Option HailoFileContext) (channel : Nat) : Prop :=
  ∃ filp context, files filp = some context ∧
    hailoTestBit channel context.socUsedChannelsBitmap = true

/-- The device answered in time, for this request and without an error. -/
structure Agreed (answer : SocAnswer) : Prop where
  inTime : 0 < answer.waited
  status : 0 ≤ answer.response.status
  controlCode : answer.response.controlCode = hailoPcieSocControlCodeConnect

/-- Every channel index that is looked at is one of the engine's. -/
def InEngine (vdmaHw : HailoVdmaHw) (params : HailoSocConnectParams) : Prop :=
  params.inputChannelIndex.toNat < maxVdmaChannelsPerEngine ∧
    (hailoTestBit params.inputChannelIndex.toNat vdmaHw.srcChannelsBitmask = true →
      params.outputChannelIndex.toNat < maxVdmaChannelsPerEngine)

/-- The channels have the right directions, and the lists are there with lengths that are powers
of two. -/
structure Valid (vdmaHw : HailoVdmaHw) (context : HailoFileContext)
    (params : HailoSocConnectParams) (input output : HailoDescriptorsListBuffer) : Prop where
  inputChannel : hailoTestBit params.inputChannelIndex.toNat vdmaHw.srcChannelsBitmask = true
  outputChannel : hailoTestBit params.outputChannelIndex.toNat vdmaHw.srcChannelsBitmask = false
  inputBuffer : hailoVdmaFindDescriptorsBuffer context params.inputDescHandle = some input
  outputBuffer : hailoVdmaFindDescriptorsBuffer context params.outputDescHandle = some output
  inputCount : isPowerof2 input.descCount.toUInt64 = true
  outputCount : isPowerof2 output.descCount.toUInt64 = true

section Control
variable {answer : SocAnswer}

theorem socControl_of_agreed (h : Agreed answer) :
    socControl hailoPcieSocControlCodeConnect answer = 0 := by
  have hzero : answer.waited ≠ 0 := fun heq => by
    have hpos := h.inTime
    rw [heq] at hpos
    exact absurd hpos (by decide)
  rw [socControl, if_neg hzero, if_neg (Int32.not_lt.mpr (Int32.le_of_lt h.inTime)),
    if_neg (Int32.not_lt.mpr h.status), if_neg (not_not.mpr h.controlCode)]

theorem socControl_of_not_agreed (h : ¬ Agreed answer) :
    socControl hailoPcieSocControlCodeConnect answer < 0 := by
  rw [socControl]
  split
  · decide
  · next hzero =>
    split
    · next hneg => exact hneg
    · next hnonneg =>
      split
      · next hstatus => exact hstatus
      · next hstatus =>
        split
        · decide
        · next hcode =>
          refine absurd ⟨?_, Int32.not_lt.mp hstatus, not_not.mp hcode⟩ h
          exact Int32.lt_of_le_of_ne (Int32.not_lt.mp hnonneg) (Ne.symm hzero)

end Control

section Checks
variable (vdmaHw : HailoVdmaHw) (context : HailoFileContext) (params : HailoSocConnectParams)

theorem findDescriptorsBuffers_cases :
    (∃ input output,
      hailoVdmaFindDescriptorsBuffer context params.inputDescHandle = some input ∧
      hailoVdmaFindDescriptorsBuffer context params.outputDescHandle = some output ∧
      isPowerof2 input.descCount.toUInt64 = true ∧ isPowerof2 output.descCount.toUInt64 = true ∧
      findDescriptorsBuffers context params = .ok (input, output)) ∨
    (∀ input output, ¬ Valid vdmaHw context params input output) ∧
      findDescriptorsBuffers context params = .error (-einval) := by
  cases hinput : hailoVdmaFindDescriptorsBuffer context params.inputDescHandle with
  | none =>
    refine Or.inr ⟨fun _ _ hvalid => ?_, ?_⟩
    · rw [hvalid.inputBuffer] at hinput
      cases hinput
    · simp only [findDescriptorsBuffers, hinput]
  | some input =>
    cases houtput : hailoVdmaFindDescriptorsBuffer context params.outputDescHandle with
    | none =>
      refine Or.inr ⟨fun _ _ hvalid => ?_, ?_⟩
      · rw [hvalid.outputBuffer] at houtput
        cases houtput
      · simp only [findDescriptorsBuffers, hinput, houtput]
    | some output =>
      by_cases hcounts : isPowerof2 input.descCount.toUInt64 = true ∧
          isPowerof2 output.descCount.toUInt64 = true
      · refine Or.inl ⟨input, output, rfl, rfl, hcounts.1, hcounts.2, ?_⟩
        simp only [findDescriptorsBuffers, hinput, houtput, hcounts.1, hcounts.2, Bool.not_true,
          Bool.or_false, Bool.false_eq_true, if_false]
      · refine Or.inr ⟨fun _ _ hvalid => hcounts ?_, ?_⟩
        · have hsame := hvalid.inputBuffer
          have hsame' := hvalid.outputBuffer
          rw [hinput, Option.some.injEq] at hsame
          rw [houtput, Option.some.injEq] at hsame'
          rw [hsame, hsame']
          exact ⟨hvalid.inputCount, hvalid.outputCount⟩
        · have hbad : (!isPowerof2 input.descCount.toUInt64 ||
              !isPowerof2 output.descCount.toUInt64) = true := by
            rw [← Bool.not_and, Bool.not_eq_true', Bool.and_eq_false_iff]
            by_contra hneither
            push Not at hneither
            simp only [ne_eq, Bool.not_eq_false] at hneither
            exact hcounts hneither
          simp only [findDescriptorsBuffers, hinput, houtput, hbad, if_true]

/-- The checks read past the array, turn the request down, or let it through. -/
theorem validateConnect_cases :
    (¬ InEngine vdmaHw params ∧ validateConnect vdmaHw context params = none) ∨
    InEngine vdmaHw params ∧
      ((∀ input output, ¬ Valid vdmaHw context params input output) ∧
          validateConnect vdmaHw context params = some (.error (-einval)) ∨
        ∃ input output, Valid vdmaHw context params input output ∧
          validateConnect vdmaHw context params = some (.ok (input, output))) := by
  by_cases hinput : params.inputChannelIndex.toNat < maxVdmaChannelsPerEngine
  · cases hsrc : hailoTestBit params.inputChannelIndex.toNat vdmaHw.srcChannelsBitmask with
    | false =>
      refine Or.inr ⟨⟨hinput, fun h => ?_⟩, Or.inl ⟨fun _ _ hvalid => ?_, ?_⟩⟩
      · rw [hsrc] at h
        cases h
      · rw [hvalid.inputChannel] at hsrc
        cases hsrc
      · simp only [validateConnect, hailoCheckChannelIndex, hinput, if_true, hsrc]
        rfl
    | true =>
      by_cases houtput : params.outputChannelIndex.toNat < maxVdmaChannelsPerEngine
      · refine Or.inr ⟨⟨hinput, fun _ => houtput⟩, ?_⟩
        cases hdst : hailoTestBit params.outputChannelIndex.toNat vdmaHw.srcChannelsBitmask with
        | true =>
          refine Or.inl ⟨fun _ _ hvalid => ?_, ?_⟩
          · rw [hvalid.outputChannel] at hdst
            cases hdst
          · simp only [validateConnect, hailoCheckChannelIndex, hinput, houtput, if_true, hsrc,
              hdst]
            rfl
        | false =>
          have hchecked : validateConnect vdmaHw context params =
              some (findDescriptorsBuffers context params) := by
            simp only [validateConnect, hailoCheckChannelIndex, hinput, houtput, if_true, hsrc,
              hdst]
            rfl
          rcases findDescriptorsBuffers_cases vdmaHw context params with
            ⟨input, output, hin, hout, hcount, hcount', hfound⟩ | ⟨hnone, hfound⟩
          · refine Or.inr ⟨input, output, ⟨hsrc, hdst, hin, hout, hcount, hcount'⟩, ?_⟩
            rw [hchecked, hfound]
          · refine Or.inl ⟨hnone, ?_⟩
            rw [hchecked, hfound]
      · refine Or.inl ⟨fun h => houtput (h.2 hsrc), ?_⟩
        simp only [validateConnect, hailoCheckChannelIndex, hinput, houtput, if_true, if_false,
          hsrc]
        rfl
  · refine Or.inl ⟨fun h => hinput h.1, ?_⟩
    simp only [validateConnect, hailoCheckChannelIndex, hinput, if_false]

end Checks

section Starts
variable {regs : RegisterWindow} {buffer : HailoDescriptorsListBuffer} {dataId : UInt8}

end Starts

section Outcome
variable {files : Nat → Option HailoFileContext} {filp : Nat} {call : ConnectCall}
  {board : SocBoard} {context : HailoFileContext}

variable {vdmaHw : HailoVdmaHw} {input output : HailoDescriptorsListBuffer}

theorem connect_unread (h : call.readable = false) :
    hailoSocConnectIoctl vdmaHw call board context =
      some (-enomem, call.params, board, context) := by
  rw [hailoSocConnectIoctl, h, Bool.not_false, if_pos rfl]

theorem connect_disagreed (hread : call.readable = true) (h : ¬ Agreed call.answer) :
    hailoSocConnectIoctl vdmaHw call board context =
      some (socControl hailoPcieSocControlCodeConnect call.answer, call.params,
        { board with connected := board.connected ||| call.answer.channels }, context) := by
  have hneg := socControl_of_not_agreed h
  simp only [hailoSocConnectIoctl, hread, Bool.not_true, Bool.false_eq_true, if_false, hneg,
    if_true]

/-- Once the device agreed, the checks decide. -/
theorem connect_agreed (hread : call.readable = true) (h : Agreed call.answer) :
    hailoSocConnectIoctl vdmaHw call board context =
      let board := { board with connected := board.connected ||| call.answer.channels }
      match validateConnect vdmaHw context call.answered with
      | none => none
      | some (.error err) => some (err, call.params, board, context)
      | some (.ok (input, output)) =>
        some (startChannels vdmaHw call input output board context) := by
  have hnonneg : ¬ ((0 : Int32) < 0) := by decide
  cases hchecked : validateConnect vdmaHw context call.answered with
  | none =>
    simp only [hailoSocConnectIoctl, hread, Bool.not_true, Bool.false_eq_true, if_false,
      socControl_of_agreed h, hnonneg, hchecked]
  | some checked =>
    cases checked with
    | error err =>
      simp only [hailoSocConnectIoctl, hread, Bool.not_true, Bool.false_eq_true, if_false,
        socControl_of_agreed h, hnonneg, hchecked]
    | ok buffers =>
      simp only [hailoSocConnectIoctl, hread, Bool.not_true, Bool.false_eq_true, if_false,
        socControl_of_agreed h, hnonneg, hchecked]

end Outcome

def idleRegs : RegisterWindow := ⟨fun _ => 0, fun _ => 0, 0, [], []⟩

def idleBoard : SocBoard := ⟨0, fun _ => idleRegs⟩

/-- An open file with two lists of 16 descriptors. -/
def twoLists : HailoFileContext := ⟨[⟨1, 0x10000, 16⟩, ⟨2, 0x20000, 16⟩], 0⟩

end HailortDrivers.SocConnect
