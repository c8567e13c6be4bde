import HailortDrivers.DescriptorsListCreation
import HailortDrivers.LaunchSteps

/-! What a launch that fails leaves behind: whether a failure of programming is
published to the device, and whether the channel keeps its software state. -/
namespace HailortDrivers.LaunchOutcomes
open KernelExec VdmaTypes DescriptorProgramming ChannelTransfers LaunchSteps
open DescriptorsListCreation

/-- Masking a 7-bit index that was moved on by one does not give it back. -/
theorem pushed_ne (transfers : HailoOngoingTransfersList) (transfer : HailoOngoingTransfer) :
    pushed transfers transfer ≠ transfers := by
  intro h
  have hhead := congrArg (fun t : HailoOngoingTransfersList => t.head.toNat) h
  have hlt := transfers.head_lt
  have hmask : hailoVdmaMaxOngoingTransfersMask.toNat = 2 ^ 7 - 1 := rfl
  simp only [pushed, UInt64.toNat_and, UInt64.toNat_add, UInt64.toNat_one, hmask,
    Nat.and_two_pow_sub_one_eq_mod] at hhead
  omega

/-- Programming returns a negative value for one of the buffers. -/
def ProgrammingFails (vdmaHw : HailoVdmaHw) (shouldBind : Bool) (channelIndex : UInt8)
    (lastDescInterrupts : HailoVdmaInterruptsDomain) (isDebug : Bool)
    (buffers : List HailoVdmaMappedTransferBuffer) (startingDesc : UInt32)
    (descList : HailoVdmaDescriptorsList) : Prop :=
  ∃ rets, programReturns vdmaHw shouldBind channelIndex lastDescInterrupts isDebug buffers
    startingDesc descList = .ok rets ∧ ∃ ret ∈ rets, ret.toInt < 0

section
variable {vdmaHw : HailoVdmaHw} {channel channel' : HailoVdmaChannel} {descListAddress : Nat}
  {descList descList' : HailoVdmaDescriptorsList} {regs regs' : ChannelRegs}
  {startingDesc : UInt32} {buffers : List HailoVdmaMappedTransferBuffer} {shouldBind : Bool}
  {firstInterruptsDomain lastDescInterrupts : HailoVdmaInterruptsDomain} {isDebug : Bool}
  {ret : Int32}

/-- A failure of programming stays unpublished exactly when the launch is turned
down for another reason, or there is no such failure. -/
theorem hailoVdmaLaunchTransfer_unpublished_iff
    (h : hailoVdmaLaunchTransfer vdmaHw channel descListAddress descList regs startingDesc buffers
      shouldBind firstInterruptsDomain lastDescInterrupts isDebug =
      .ok (ret, channel', descList', regs')) :
    (ProgrammingFails vdmaHw shouldBind channel.index lastDescInterrupts isDebug buffers
          startingDesc descList →
        ret.toInt < 0 ∧ channel'.ongoingTransfers = channel.ongoingTransfers ∧
          channel'.state.numAvail = channel.state.numAvail ∧ regs' = regs) ↔
      (¬ ChecksPass channel descListAddress regs startingDesc buffers ∨ RingFull channel ∨
        ¬ ProgrammingFails vdmaHw shouldBind channel.index lastDescInterrupts isDebug buffers
          startingDesc descList) := by
  cases launch_outcome h with
  | otherList hsome hother =>
    refine iff_of_true (fun _ => ⟨by decide, rfl, rfl, rfl⟩) (Or.inl fun hchecks => ?_)
    exact hchecks.sameList.elim hsome hother
  | rejected _ hret hsame hchecks =>
    exact iff_of_true (fun _ => ⟨hret, rfl, rfl, rfl⟩) (Or.inl hchecks)
  | ringFull c hchecks hloop hfull =>
    exact iff_of_true (fun _ => ⟨by decide, rfl, rfl, rfl⟩) (Or.inr (Or.inl hfull))
  | launched c hchecks hloop hroom hcount =>
    constructor
    · intro hunpublished
      exact Or.inr (Or.inr fun hfails => pushed_ne _ _ (hunpublished hfails).2.1)
    · rintro (hturned | hfull | hclean) hfails
      · exact absurd hchecks hturned
      · exact absurd hfull hroom
      · exact absurd hfails hclean

end

/-- Its offset is no multiple of any page size above one. -/
def misalignedBuffer : HailoVdmaMappedTransferBuffer where
  sgTable := ⟨0, [⟨0x1000, 128⟩]⟩
  size := 64
  offset := 1
  opaqueBuffer := 0

theorem misalignedBuffer_fails :
    ProgrammingFails hailoPcieVdmaHw true 0 hailoVdmaInterruptsDomainHost false
      [misalignedBuffer] 0 ringOfFour :=
  ⟨[-22], rfl, -22, List.mem_singleton_self _, by decide⟩

/-- The launch returns the error of the buffer and still puts it on the ring. -/
theorem misalignedBuffer_published :
    ∃ channel' descList' regs',
      hailoVdmaLaunchTransfer hailoPcieVdmaHw idleChannel 1 ringOfFour activeRegs 0
        [misalignedBuffer] true hailoVdmaInterruptsDomainNone hailoVdmaInterruptsDomainHost false =
        .ok (-22, channel', descList', regs') ∧
      ProgrammingFails hailoPcieVdmaHw true idleChannel.index hailoVdmaInterruptsDomainHost false
        [misalignedBuffer] 0 ringOfFour ∧
      channel'.ongoingTransfers ≠ idleChannel.ongoingTransfers ∧
      channel'.state.numAvail = 2 ∧ idleChannel.state.numAvail = 0 ∧
      regs'.hostRegs 0 ≠ activeRegs.hostRegs 0 :=
  ⟨_, _, _, rfl, misalignedBuffer_fails, pushed_ne _ _, rfl, rfl, by decide⟩

theorem hailoVdmaLaunchTransfer_unpublished_iff_misalignedBuffer :
    ∃ channel' descList' regs',
      hailoVdmaLaunchTransfer hailoPcieVdmaHw idleChannel 1 ringOfFour activeRegs 0
        [misalignedBuffer] true hailoVdmaInterruptsDomainNone hailoVdmaInterruptsDomainHost false =
        .ok (-22, channel', descList', regs') ∧
      ¬ (ProgrammingFails hailoPcieVdmaHw true idleChannel.index hailoVdmaInterruptsDomainHost
            false [misalignedBuffer] 0 ringOfFour →
          (-22 : Int32).toInt < 0 ∧
            channel'.ongoingTransfers = idleChannel.ongoingTransfers ∧
            channel'.state.numAvail = idleChannel.state.numAvail ∧ regs' = activeRegs) := by
  obtain ⟨channel', descList', regs', hrun⟩ : ∃ channel' descList' regs',
      hailoVdmaLaunchTransfer hailoPcieVdmaHw idleChannel 1 ringOfFour activeRegs 0
        [misalignedBuffer] true hailoVdmaInterruptsDomainNone hailoVdmaInterruptsDomainHost false =
        .ok (-22, channel', descList', regs') := ⟨_, _, _, rfl⟩
  have hchecks : ChecksPass idleChannel 1 activeRegs 0 [misalignedBuffer] :=
    ⟨Or.inl rfl, by decide, rfl, by decide⟩
  refine ⟨channel', descList', regs', hrun, fun hunpublished => ?_⟩
  rcases (hailoVdmaLaunchTransfer_unpublished_iff hrun).mp hunpublished with h | h | h
  · exact h hchecks
  · exact absurd h (by decide : ¬ ongoingTransfersCircSpace idleChannel.ongoingTransfers = 0)
  · exact h misalignedBuffer_fails

end HailortDrivers.LaunchOutcomes
