import HailortDrivers.ChannelTransfers

/-! What one launch can do: every way through `hailo_vdma_launch_transfer`, with
what it leaves in the channel, the list and the registers. -/
namespace HailortDrivers.LaunchSteps
open KernelExec VdmaTypes DescriptorProgramming ChannelTransfers

/-- What programming the buffers in turn returns. -/
def programReturns (vdmaHw : HailoVdmaHw) (shouldBind : Bool) (channelIndex : UInt8)
    (lastDescInterrupts : HailoVdmaInterruptsDomain) (isDebug : Bool) :
    List HailoVdmaMappedTransferBuffer → UInt32 → HailoVdmaDescriptorsList → Exec (List Int32)
  | [], _, _ => .ok []
  | buffer :: buffers, startingDesc, descList => do
    let (ret, descList) ← hailoVdmaProgramDescriptorsList vdmaHw descList startingDesc buffer
      shouldBind channelIndex
      (if buffers.isEmpty then lastDescInterrupts else hailoVdmaInterruptsDomainNone) isDebug
      defaultStride
    let startingDesc ← umod (startingDesc + ret.toUInt32) descList.descCount
    let rets ← programReturns vdmaHw shouldBind channelIndex lastDescInterrupts isDebug buffers
      startingDesc descList
    return ret :: rets

/-- `channel->state.desc_count_mask = desc_list->desc_count - 1` -/
def remask (channel : HailoVdmaChannel) (descList : HailoVdmaDescriptorsList) :
    HailoVdmaChannel :=
  { channel with state := { channel.state with descCountMask := descList.descCount - 1 } }

def attach (channel : HailoVdmaChannel) (descListAddress : Nat)
    (descList : HailoVdmaDescriptorsList) : HailoVdmaChannel :=
  { remask channel descList with lastDescList := some descListAddress }

/-- The channel after a push and the new `num_avail`. -/
def publish (channel : HailoVdmaChannel) (transfer : HailoOngoingTransfer) (numAvail : UInt16) :
    HailoVdmaChannel :=
  { channel with
    state := { channel.state with numAvail := numAvail }
    ongoingTransfers := pushed channel.ongoingTransfers transfer }

/-- The checks that come before the first descriptor is written. -/
structure ChecksPass (channel : HailoVdmaChannel) (descListAddress : Nat) (regs : ChannelRegs)
    (startingDesc : UInt32) (buffers : List HailoVdmaMappedTransferBuffer) : Prop where
  sameList : channel.lastDescList = none ∨ channel.lastDescList = some descListAddress
  validState : ¬ validateChannelState channel regs < 0
  inSync : channel.state.numAvail = startingDesc.toUInt16
  fewBuffers : buffers.length ≤ hailoMaxBuffersPerSingleTransfer

def RingFull (channel : HailoVdmaChannel) : Prop :=
  ongoingTransfersCircSpace channel.ongoingTransfers = 0

section
variable {vdmaHw : HailoVdmaHw} {channel : HailoVdmaChannel} {descListAddress : Nat}
  {descList : HailoVdmaDescriptorsList} {regs : ChannelRegs} {startingDesc : UInt32}
  {buffers : List HailoVdmaMappedTransferBuffer} {shouldBind : Bool} {channelIndex : UInt8}
  {firstInterruptsDomain lastDescInterrupts : HailoVdmaInterruptsDomain} {isDebug : Bool}

/-- The cursor after a round in which programming returned `ret` and left `descList`. -/
def nextCursor (c : LaunchCursor) (ret : Int32) (descList : HailoVdmaDescriptorsList) :
    LaunchCursor where
  totalDescs := c.totalDescs + ret.toUInt32
  lastDesc := (c.startingDesc + ret.toUInt32 - 1) % descList.descCount
  startingDesc := (c.startingDesc + ret.toUInt32) % descList.descCount
  dirtyDescs := c.dirtyDescs ++
    [((c.startingDesc + ret.toUInt32 - 1) % descList.descCount).toUInt16]
  descList := descList

variable (vdmaHw shouldBind channelIndex lastDescInterrupts isDebug) in
/-- A run of the loop, with what programming returned in each round. -/
inductive Rounds : List HailoVdmaMappedTransferBuffer → LaunchCursor → List Int32 →
    LaunchCursor → Prop
  | nil (c : LaunchCursor) : Rounds [] c [] c
  | cons {buffer : HailoVdmaMappedTransferBuffer} {buffers : List HailoVdmaMappedTransferBuffer}
      {c c' : LaunchCursor} {ret : Int32} {rets : List Int32}
      {descList : HailoVdmaDescriptorsList}
      (hprogram : hailoVdmaProgramDescriptorsList vdmaHw c.descList c.startingDesc buffer
        shouldBind channelIndex
        (if buffers.isEmpty then lastDescInterrupts else hailoVdmaInterruptsDomainNone) isDebug
        defaultStride = .ok (ret, descList))
      (hcount : descList.descCount ≠ 0)
      (hrest : Rounds buffers (nextCursor c ret descList) rets c') :
      Rounds (buffer :: buffers) c (ret :: rets) c'

theorem launchRound_ok {ret : Int32} {c c' : LaunchCursor}
    (h : launchRound ret descList c = .ok c') :
    descList.descCount ≠ 0 ∧ c' = nextCursor c ret descList := by
  obtain ⟨lastDesc, hlast, h⟩ := bind_ok h
  obtain ⟨startingDesc, hstart, h⟩ := bind_ok h
  obtain ⟨hne, rfl⟩ := umod_ok hlast
  obtain ⟨-, rfl⟩ := umod_ok hstart
  cases h
  exact ⟨hne, rfl⟩

theorem launchBuffers_rounds {c c' : LaunchCursor}
    (h : launchBuffers vdmaHw shouldBind channelIndex lastDescInterrupts isDebug buffers c =
      .ok c') :
    ∃ rets, programReturns vdmaHw shouldBind channelIndex lastDescInterrupts isDebug buffers
        c.startingDesc c.descList = .ok rets ∧
      Rounds vdmaHw shouldBind channelIndex lastDescInterrupts isDebug buffers c rets c' := by
  induction buffers generalizing c with
  | nil =>
    cases h
    exact ⟨[], rfl, .nil _⟩
  | cons buffer buffers ih =>
    obtain ⟨⟨ret, descList⟩, hprogram, h⟩ := bind_ok h
    obtain ⟨c₁, hround, hrest⟩ := bind_ok h
    obtain ⟨hne, rfl⟩ := launchRound_ok hround
    obtain ⟨rets, hrets, hrounds⟩ := ih hrest
    refine ⟨ret :: rets, ?_, .cons hprogram hne hrounds⟩
    rw [nextCursor] at hrets
    rw [programReturns, hprogram, ok_bind]
    simp only [umod_of_ne hne, ok_bind, hrets]
    rfl

section Rounds
variable {c c' : LaunchCursor} {rets : List Int32}

theorem Rounds.totalDescs
    (h : Rounds vdmaHw shouldBind channelIndex lastDescInterrupts isDebug buffers c rets c') :
    c'.totalDescs.toInt32 = c.totalDescs.toInt32 + rets.sum := by
  induction h with
  | nil c => exact (Int32.add_zero _).symm
  | cons hprogram hcount hrest ih =>
    rw [ih, nextCursor, UInt32.toInt32_add, Int32.toInt32_toUInt32, List.sum_cons, Int32.add_assoc]

theorem Rounds.length_dirtyDescs
    (h : Rounds vdmaHw shouldBind channelIndex lastDescInterrupts isDebug buffers c rets c') :
    c'.dirtyDescs.length = c.dirtyDescs.length + buffers.length := by
  induction h with
  | nil c => rfl
  | cons hprogram hcount hrest ih =>
    rw [ih, nextCursor, List.length_append, List.length_cons, List.length_cons, List.length_nil]
    omega

/-- The rounds only add to the dirty descriptors. -/
theorem Rounds.dirtyDescs_prefix
    (h : Rounds vdmaHw shouldBind channelIndex lastDescInterrupts isDebug buffers c rets c') :
    c.dirtyDescs <+: c'.dirtyDescs := by
  induction h with
  | nil c => exact List.prefix_refl _
  | cons hprogram hcount hrest ih => exact (List.prefix_append _ _).trans ih

theorem Rounds.sameShape
    (h : Rounds vdmaHw shouldBind channelIndex lastDescInterrupts isDebug buffers c rets c') :
    SameShape c.descList c'.descList := by
  induction h with
  | nil c => exact .refl _
  | cons hprogram hcount hrest ih =>
    exact (hailoVdmaProgramDescriptorsList_sameShape hprogram).trans ih

end Rounds

/-- The list after the loop, with the interrupts of the first descriptor. -/
def launchedList (vdmaHw : HailoVdmaHw) (startingDesc : UInt32)
    (firstInterruptsDomain : HailoVdmaInterruptsDomain) (isDebug : Bool) (c : LaunchCursor) :
    HailoVdmaDescriptorsList :=
  orPageSizeDescControl c.descList startingDesc
    (getInterruptsBitmask vdmaHw firstInterruptsDomain isDebug)

theorem launchedList_of_ne {c : LaunchCursor} {x : Nat} (h : x ≠ startingDesc.toNat) :
    (launchedList vdmaHw startingDesc firstInterruptsDomain isDebug c).descList x =
      c.descList.descList x := Function.update_of_ne h _ _

def launchedTransfer (buffers : List HailoVdmaMappedTransferBuffer) (isDebug : Bool)
    (c : LaunchCursor) : HailoOngoingTransfer where
  lastDesc := c.lastDesc.toUInt16
  buffers := buffers
  dirtyDescs := c.dirtyDescs
  isDebug := isDebug

/-- The cursor the loop starts from. -/
def launchStart (startingDesc : UInt32) (descList : HailoVdmaDescriptorsList) : LaunchCursor :=
  ⟨0, u32Max, startingDesc, [startingDesc.toUInt16], descList⟩

theorem ongoingTransferPush_full (h : RingFull channel) (transfer : HailoOngoingTransfer) :
    ongoingTransferPush channel transfer = (-efault, channel) := if_pos h

theorem ongoingTransferPush_room (h : ¬ RingFull channel) {transfer : HailoOngoingTransfer}
    (hdirty : transfer.dirtyDescs.length ≤ maxDirtyDescriptorsPerTransfer) :
    ongoingTransferPush channel transfer =
      (0, { channel with ongoingTransfers := pushed channel.ongoingTransfers transfer }) := by
  exact (if_neg h).trans (if_neg (Nat.not_lt.mpr hdirty))

theorem publishTransfer_ok {c : LaunchCursor}
    {result : Int32 × HailoVdmaChannel × HailoVdmaDescriptorsList × ChannelRegs}
    (h : publishTransfer channel regs buffers isDebug c = .ok result)
    (hdirty : c.dirtyDescs.length ≤ maxDirtyDescriptorsPerTransfer) :
    RingFull channel ∧ result = (-efault, channel, c.descList, regs) ∨
    ¬ RingFull channel ∧ c.descList.descCount ≠ 0 ∧
      result = (c.totalDescs.toInt32,
        publish channel (launchedTransfer buffers isDebug c)
          ((c.lastDesc + 1) % c.descList.descCount).toUInt16,
        c.descList,
        hailoVdmaSetNumAvail regs ((c.lastDesc + 1) % c.descList.descCount).toUInt16) := by
  rw [publishTransfer] at h
  by_cases hfull : RingFull channel
  · rw [ongoingTransferPush_full hfull] at h
    simp only at h
    rw [if_pos (by decide)] at h
    cases h
    exact Or.inl ⟨hfull, rfl⟩
  · rw [ongoingTransferPush_room hfull hdirty] at h
    simp only at h
    rw [if_neg (by decide)] at h
    obtain ⟨newNumAvail, hmod, h⟩ := bind_ok h
    obtain ⟨hne, rfl⟩ := umod_ok hmod
    cases h
    exact Or.inr ⟨hfull, hne, rfl⟩

variable (vdmaHw channel descListAddress descList regs startingDesc buffers shouldBind
  firstInterruptsDomain lastDescInterrupts isDebug) in
inductive LaunchOutcome :
    Int32 × HailoVdmaChannel × HailoVdmaDescriptorsList × ChannelRegs → Prop
  | otherList (hsome : channel.lastDescList ≠ none)
      (hother : channel.lastDescList ≠ some descListAddress) :
      LaunchOutcome (-einval, remask channel descList, descList, regs)
  | rejected (ret : Int32) (hret : ret.toInt < 0)
      (hsame : channel.lastDescList = none ∨ channel.lastDescList = some descListAddress)
      (hchecks : ¬ ChecksPass channel descListAddress regs startingDesc buffers) :
      LaunchOutcome (ret, attach channel descListAddress descList, descList, regs)
  | ringFull (c : LaunchCursor)
      (hchecks : ChecksPass channel descListAddress regs startingDesc buffers)
      (hloop : launchBuffers vdmaHw shouldBind channel.index lastDescInterrupts isDebug buffers
        (launchStart startingDesc descList) = .ok c)
      (hfull : RingFull channel) :
      LaunchOutcome (-efault, attach channel descListAddress descList,
        launchedList vdmaHw startingDesc firstInterruptsDomain isDebug c, regs)
  | launched (c : LaunchCursor)
      (hchecks : ChecksPass channel descListAddress regs startingDesc buffers)
      (hloop : launchBuffers vdmaHw shouldBind channel.index lastDescInterrupts isDebug buffers
        (launchStart startingDesc descList) = .ok c)
      (hroom : ¬ RingFull channel) (hcount : c.descList.descCount ≠ 0) :
      LaunchOutcome (c.totalDescs.toInt32,
        publish (attach channel descListAddress descList) (launchedTransfer buffers isDebug c)
          ((c.lastDesc + 1) % c.descList.descCount).toUInt16,
        launchedList vdmaHw startingDesc firstInterruptsDomain isDebug c,
        hailoVdmaSetNumAvail regs ((c.lastDesc + 1) % c.descList.descCount).toUInt16)

theorem launch_outcome {result : Int32 × HailoVdmaChannel × HailoVdmaDescriptorsList × ChannelRegs}
    (h : hailoVdmaLaunchTransfer vdmaHw channel descListAddress descList regs startingDesc buffers
      shouldBind firstInterruptsDomain lastDescInterrupts isDebug = .ok result) :
    LaunchOutcome vdmaHw channel descListAddress descList regs startingDesc buffers shouldBind
      firstInterruptsDomain lastDescInterrupts isDebug result := by
  unfold hailoVdmaLaunchTransfer at h
  simp only at h
  split at h
  · next hother =>
    cases h
    exact .otherList hother.1 hother.2
  · next hsame =>
    rw [← or_iff_not_and_not] at hsame
    split at h
    · next hinvalid =>
      cases h
      exact .rejected _ (Int32.lt_iff_toInt_lt.mp hinvalid) hsame fun hp => hp.validState hinvalid
    · next hvalid =>
      split at h
      · next houtOfSync =>
        cases h
        exact .rejected _ (by decide) hsame fun hp => houtOfSync hp.inSync
      · next hinSync =>
        split at h
        · next hmany =>
          cases h
          exact .rejected _ (by decide) hsame fun hp => Nat.not_lt.mpr hp.fewBuffers hmany
        · next hfew =>
          obtain ⟨c, hloop, h⟩ := bind_ok h
          have hchecks : ChecksPass channel descListAddress regs startingDesc buffers :=
            ⟨hsame, hvalid, not_not.mp hinSync, Nat.not_lt.mp hfew⟩
          obtain ⟨rets, -, hrounds⟩ := launchBuffers_rounds hloop
          have hdirty := hrounds.length_dirtyDescs
          rw [List.length_singleton] at hdirty
          have hlen : c.dirtyDescs.length ≤ maxDirtyDescriptorsPerTransfer := by
            have := hchecks.fewBuffers
            rw [maxDirtyDescriptorsPerTransfer]
            omega
          have hpublish : publishTransfer (attach channel descListAddress descList) regs buffers
              isDebug { c with
                descList := launchedList vdmaHw startingDesc firstInterruptsDomain isDebug c } =
              .ok result := h
          rcases publishTransfer_ok hpublish hlen with ⟨hfull, rfl⟩ | ⟨hroom, hcount, rfl⟩
          · exact .ringFull c hchecks hloop hfull
          · exact .launched c hchecks hloop hroom hcount

end

/-- A channel that was initialized and never used, with an empty ring. -/
def idleChannel : HailoVdmaChannel where
  index := 0
  lastDescList := none
  state := ⟨0, 0, u32Max⟩
  ongoingTransfers := ⟨0, 0, fun _ => ⟨0, [], [], false⟩, toNat_zero_lt, toNat_zero_lt⟩
  timestampMeasureEnabled := false
  timestampList := ⟨0, 0, fun _ => ⟨0, 0⟩⟩

/-- The registers of a channel that was started and has nothing available. -/
def activeRegs : ChannelRegs where
  hostRegs := fun offset => if offset = 0 then 1 else 0
  deviceRegs := fun _ => 0

end HailortDrivers.LaunchSteps
