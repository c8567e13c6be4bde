import HailortDrivers.CompletionWindows
import HailortDrivers.DivisorSafety
import HailortDrivers.RegisterBits

/-!
Which created lists have their ring positions kept by the 16-bit fields of a channel and by
the mask that a launch sets: those of a power of two of at most 65536 descriptors. A list of
no descriptors has no positions.
-/
namespace HailortDrivers.RingPositions
open KernelExec MachineWord VdmaTypes DescriptorProgramming ChannelTransfers LaunchSteps
open CompletionSteps CompletionWindows VdmaMemory VdmaIoctl VdmaSystem RegisterBits DivisorSafety

/-- A mask that keeps every number up to itself is one less than a power of two. -/
theorem isPowerOfTwo_of_and_eq {m : Nat} (h : ∀ p ≤ m, p &&& m = p) : (m + 1).isPowerOfTwo := by
  by_cases hm : m = 0
  · exact ⟨0, by omega⟩
  · have hlow := Nat.log2_self_le hm
    have hhigh := Nat.lt_log2_self (n := m)
    have hpos := Nat.two_pow_pos m.log2
    -- the ones below the highest bit of the mask
    have hones := h (2 ^ m.log2 - 1) (by omega)
    rw [Nat.and_comm, Nat.and_two_pow_sub_one_eq_mod] at hones
    refine ⟨m.log2 + 1, ?_⟩
    rw [Nat.mod_eq_sub_mod hlow, Nat.mod_eq_of_lt (by omega)] at hones
    omega

/-- The last descriptor of each buffer, given what programming them returned. -/
def lastDescs (descCount : UInt32) : UInt32 → List Int32 → List UInt32
  | _, [] => []
  | startingDesc, ret :: rets =>
    (startingDesc + ret.toUInt32 - 1) % descCount ::
      lastDescs descCount ((startingDesc + ret.toUInt32) % descCount) rets

/-- The recorded transfer and `num_avail` denote the positions of the launch. -/
structure Recorded (descCount startingDesc : UInt32) (rets : List Int32)
    (transfer : HailoOngoingTransfer) (numAvail : UInt16) : Prop where
  dirtyDescs : transfer.dirtyDescs.map UInt16.toUInt32 =
    startingDesc :: lastDescs descCount startingDesc rets
  lastDesc : (lastDescs descCount startingDesc rets).getLast? = some transfer.lastDesc.toUInt32
  numAvail : numAvail.toUInt32 = (transfer.lastDesc.toUInt32 + 1) % descCount

/-- `num_avail` as the hardware has it. -/
def readHwNumAvail (regs : ChannelRegs) : UInt16 :=
  UInt16.ofNat (readBitsAtOffset (wordSize * bitsInByte) (channelNumAvailOffset * bitsInByte)
    (regs.hostRegs 0).toNat)

/-- A launch records nothing, or exactly its positions. -/
def LaunchKept (vdmaHw : HailoVdmaHw) (l : HailoVdmaDescriptorsList) : Prop :=
  ∀ (channel channel' : HailoVdmaChannel) (address : Nat) (regs regs' : ChannelRegs)
    (startingDesc : UInt32) (buffers : List HailoVdmaMappedTransferBuffer) (shouldBind : Bool)
    (firstInterruptsDomain lastDescInterrupts : HailoVdmaInterruptsDomain) (isDebug : Bool)
    (l₁ l₂ : HailoVdmaDescriptorsList) (ret : Int32),
    SameShape l l₁ → startingDesc < l.descCount → buffers ≠ [] →
    hailoVdmaLaunchTransfer vdmaHw channel address l₁ regs startingDesc buffers shouldBind
      firstInterruptsDomain lastDescInterrupts isDebug = .ok (ret, channel', l₂, regs') →
    channel'.ongoingTransfers = channel.ongoingTransfers ∧ regs' = regs ∨
    ∃ rets transfer,
      programReturns vdmaHw shouldBind channel.index lastDescInterrupts isDebug buffers
        startingDesc l₁ = .ok rets ∧
      channel'.ongoingTransfers = pushed channel.ongoingTransfers transfer ∧
      channel.state.numAvail.toUInt32 = startingDesc ∧
      channel'.state.descCountMask = l.descCount - 1 ∧
      readHwNumAvail regs' = channel'.state.numAvail ∧
      Recorded l.descCount startingDesc rets transfer channel'.state.numAvail

/-- Positions of a list are kept where they are stored and where they are masked. -/
structure PositionsKept (vdmaHw : HailoVdmaHw) (l : HailoVdmaDescriptorsList) : Prop where
  launched : LaunchKept vdmaHw l
  processed : ∀ (channel : HailoVdmaChannel) (regs : ChannelRegs) (p : UInt32),
    p < l.descCount → channel.state.descCountMask = l.descCount - 1 →
    ShowsProcessed l.descCount.toNat regs p.toNat → (readHwNumProc channel regs).toUInt32 = p
  completed : ∀ (σ : Type) (transferDone : HailoOngoingTransfer → σ → Exec σ)
    (c c' : CompletionCursor σ) (p : UInt32),
    p < l.descCount → c.channel.state.descCountMask = l.descCount - 1 →
    (curTransfer c.channel).lastDesc = p.toUInt16 → completeTransfer transferDone c = .ok c' →
    c'.channel.state.numProc.toUInt32 = (p + 1) % l.descCount

theorem toUInt32_toUInt16 {p : UInt32} (h : p.toNat < 65536) : p.toUInt16.toUInt32 = p := by
  rw [← UInt32.toNat_inj, UInt16.toNat_toUInt32, UInt32.toNat_toUInt16]
  exact Nat.mod_eq_of_lt h

theorem readHwNumAvail_set (regs : ChannelRegs) (numAvail : UInt16) :
    readHwNumAvail (hailoVdmaSetNumAvail regs numAvail) = numAvail := by
  have hread := readBits_writeBits (n := 16) (o := 16) (w := regs.hostRegs 0)
    (v := numAvail.toUInt32) (by decide) (by decide)
  rw [UInt16.toNat_toUInt32, Nat.mod_eq_of_lt numAvail.toNat_lt] at hread
  have hword : (hailoVdmaSetNumAvail regs numAvail).hostRegs 0 =
      writeBitsAtOffset 16 16 (regs.hostRegs 0) numAvail.toUInt32 := by
    simp only [hailoVdmaSetNumAvail, Function.update_self]
  rw [readHwNumAvail, hword, ← UInt16.toNat_inj, UInt16.toNat_ofNat']
  refine (congrArg (· % 2 ^ 16) hread).trans ?_
  exact Nat.mod_eq_of_lt numAvail.toNat_lt

section Launch
variable {vdmaHw : HailoVdmaHw} {shouldBind isDebug : Bool} {channelIndex : UInt8}
  {lastDescInterrupts : HailoVdmaInterruptsDomain} {descCount : UInt32}
  {buffers : List HailoVdmaMappedTransferBuffer} {c c' : LaunchCursor} {rets : List Int32}

theorem lastDescs_lt (h : descCount ≠ 0) (startingDesc : UInt32) (rets : List Int32) :
    ∀ p ∈ lastDescs descCount startingDesc rets, p < descCount := by
  induction rets generalizing startingDesc with
  | nil => exact fun p hp => absurd hp List.not_mem_nil
  | cons ret rets ih =>
    intro p hp
    rcases List.mem_cons.mp hp with rfl | hp
    · exact UInt32.mod_lt _ (UInt32.pos_iff_ne_zero.mpr h)
    · exact ih _ p hp

/-- A run of the loop records the last descriptors it went through. -/
theorem Rounds.recorded
    (h : Rounds vdmaHw shouldBind channelIndex lastDescInterrupts isDebug buffers c rets c')
    (hcount : c.descList.descCount = descCount) :
    c'.dirtyDescs =
        c.dirtyDescs ++ (lastDescs descCount c.startingDesc rets).map UInt32.toUInt16 ∧
      c'.lastDesc = (lastDescs descCount c.startingDesc rets).getLast?.getD c.lastDesc := by
  induction h with
  | nil c => exact ⟨(List.append_nil _).symm, rfl⟩
  | cons hprogram hne hrest ih =>
    have hshape := hailoVdmaProgramDescriptorsList_sameShape hprogram
    obtain ⟨descs, rfl⟩ := hshape
    obtain ⟨hdirty, hlast⟩ := ih hcount
    subst hcount
    constructor
    · rw [hdirty, lastDescs, List.map_cons, nextCursor, List.append_assoc]
      rfl
    · rw [hlast, lastDescs, List.getLast?_cons, Option.getD_some]
      rfl

theorem Rounds.rets_ne_nil
    (h : Rounds vdmaHw shouldBind channelIndex lastDescInterrupts isDebug buffers c rets c')
    (hne : buffers ≠ []) : rets ≠ [] := by
  cases h with
  | nil c => exact absurd rfl hne
  | cons hprogram hcount hrest => exact List.cons_ne_nil _ _

end Launch

section Kept
variable {vdmaHw : HailoVdmaHw} {l : HailoVdmaDescriptorsList}

theorem getLast?_mem {α : Type} {xs : List α} {x : α} (h : xs.getLast? = some x) : x ∈ xs := by
  obtain ⟨ys, rfl⟩ := List.getLast?_eq_some_iff.mp h
  exact List.mem_append_right _ List.mem_cons_self

theorem map_toUInt32_toUInt16 (ps : List UInt32) (h : ∀ p ∈ ps, p.toNat < 65536) :
    (ps.map UInt32.toUInt16).map UInt16.toUInt32 = ps := by
  rw [List.map_map]
  exact (List.map_congr_left fun p hp => toUInt32_toUInt16 (h p hp)).trans (List.map_id' ps)

theorem launchKept (hle : l.descCount.toNat ≤ 65536) : LaunchKept vdmaHw l := by
  intro channel channel' address regs regs' startingDesc buffers shouldBind firstInterruptsDomain
    lastDescInterrupts isDebug l₁ l₂ ret hshape hstart hbuffers hlaunch
  obtain ⟨descs, rfl⟩ := hshape
  cases launch_outcome hlaunch with
  | otherList hsome hother => exact Or.inl ⟨rfl, rfl⟩
  | rejected ret hret hsame hchecks => exact Or.inl ⟨rfl, rfl⟩
  | ringFull c hchecks hloop hfull => exact Or.inl ⟨rfl, rfl⟩
  | launched c hchecks hloop hroom hcount =>
    obtain ⟨rets, hrets, hrounds⟩ := launchBuffers_rounds hloop
    obtain ⟨hdirty, hlast⟩ := Rounds.recorded hrounds (show _ = l.descCount from rfl)
    have hcount' : c.descList.descCount = l.descCount := by
      obtain ⟨descs', hdescs⟩ := hrounds.sameShape
      rw [hdescs]
      rfl
    have hne : l.descCount ≠ 0 := hcount' ▸ hcount
    have hlt {p : UInt32} (hp : p < l.descCount) : p.toNat < 65536 :=
      Nat.lt_of_lt_of_le (UInt32.lt_iff_toNat_lt.mp hp) hle
    have hpositions := lastDescs_lt hne startingDesc rets
    -- there is a buffer, so the loop did set the last descriptor
    cases hlasts : (lastDescs l.descCount startingDesc rets).getLast? with
    | none =>
      have hnil := List.getLast?_eq_none_iff.mp hlasts
      cases rets with
      | nil => exact absurd rfl (Rounds.rets_ne_nil hrounds hbuffers)
      | cons ret rets => cases hnil
    | some p =>
      have hp := hpositions p (getLast?_mem hlasts)
      have hlastDesc : c.lastDesc = p := by
        rw [hlast]
        exact congrArg (·.getD u32Max) hlasts
      have hstored : c.lastDesc.toUInt16.toUInt32 = p := by
        rw [hlastDesc, toUInt32_toUInt16 (hlt hp)]
      refine Or.inr ⟨rets, launchedTransfer buffers isDebug c, hrets, rfl, ?_, rfl,
        readHwNumAvail_set _ _, ?_, ?_, ?_⟩
      · rw [hchecks.inSync, toUInt32_toUInt16 (hlt hstart)]
      · change c.dirtyDescs.map UInt16.toUInt32 = _
        rw [hdirty, ← map_toUInt32_toUInt16 (startingDesc :: lastDescs l.descCount _ rets)]
        · rfl
        · intro q hq
          rcases List.mem_cons.mp hq with rfl | hq
          · exact hlt hstart
          · exact hlt (hpositions q hq)
      · rw [hlasts]
        exact congrArg some hstored.symm
      · change ((c.lastDesc + 1) % c.descList.descCount).toUInt16.toUInt32 =
          (c.lastDesc.toUInt16.toUInt32 + 1) % l.descCount
        rw [hstored, hlastDesc, hcount', toUInt32_toUInt16]
        exact hlt (UInt32.mod_lt _ (UInt32.pos_iff_ne_zero.mpr hne))

/-- The counts whose positions are kept. -/
def RingSized (descCount : UInt32) : Prop :=
  descCount = 0 ∨ descCount.toNat.isPowerOfTwo ∧ descCount.toNat ≤ 65536

theorem positionsKept_of_ringSized (h : RingSized l.descCount) : PositionsKept vdmaHw l := by
  rcases h with hzero | ⟨⟨k, hk⟩, hle⟩
  · have hnone {p : UInt32} : ¬ p < l.descCount := by
      rw [hzero]
      exact UInt32.not_lt_zero
    exact ⟨launchKept (by rw [hzero]; decide), fun _ _ _ hp => absurd hp hnone,
      fun _ _ _ _ _ hp => absurd hp hnone⟩
  · have hmask : (l.descCount - 1).toNat + 1 = 2 ^ k := by
      have hpos := Nat.two_pow_pos k
      have hone : (1 : UInt32).toNat = 1 := rfl
      have hlt := l.descCount.toNat_lt
      rw [UInt32.toNat_sub, hone]
      omega
    refine ⟨launchKept hle, ?_, ?_⟩
    · intro channel regs p hp hchannel hshows
      have hp' : p.toNat < 2 ^ k := hk ▸ UInt32.lt_iff_toNat_lt.mp hp
      rw [← hchannel] at hmask
      rw [← UInt32.toNat_inj, UInt16.toNat_toUInt32,
        toNat_readHwNumProc hmask (hk ▸ hle) (hk ▸ hshows)]
      exact Nat.mod_eq_of_lt hp'
    · intro σ transferDone c c' p hp hchannel hlast hcomplete
      have hp' : p.toNat < 2 ^ k := hk ▸ UInt32.lt_iff_toNat_lt.mp hp
      have hone : (1 : UInt32).toNat = 1 := rfl
      obtain ⟨valid, done, -, -, rfl⟩ := completeTransfer_ok hcomplete
      change (((curTransfer c.channel).lastDesc.toUInt32 + 1) &&&
        c.channel.state.descCountMask).toUInt16.toUInt32 = _
      rw [hlast, toUInt32_toUInt16 (p := p) (by omega), hchannel, toUInt32_toUInt16]
      · rw [← UInt32.toNat_inj, toNat_and_mask hmask, hmask, UInt32.toNat_mod, hk]
      · have hlt := Nat.mod_lt (p + 1).toNat (Nat.two_pow_pos k)
        rw [toNat_and_mask hmask, hmask]
        omega

/-- Registers whose processed counter shows `p`. -/
def regsShowing (p : UInt32) : ChannelRegs where
  hostRegs := fun offset => if offset = channelNumProcOffset then p else 0
  deviceRegs := fun _ => 0

theorem readBits_regsShowing {p : UInt32} (hp : p.toNat < 65536) :
    readBitsAtOffset (wordSize * bitsInByte) (channelNumProcOffset * bitsInByte)
      (hostRegsLowQword (regsShowing p)).toNat = p.toNat := by
  have hqword : hostRegsLowQword (regsShowing p) = (p.toUInt64 <<< 32) ||| 0 := rfl
  have hshift : (32 : UInt64).toNat % 64 = 32 := rfl
  have hnat : (hostRegsLowQword (regsShowing p)).toNat = p.toNat * 2 ^ 32 := by
    rw [hqword, UInt64.or_zero, UInt64.toNat_shiftLeft, hshift, UInt32.toNat_toUInt64,
      Nat.shiftLeft_eq]
    omega
  rw [hnat, readBits_eq]
  change p.toNat * 2 ^ 32 / 2 ^ 32 % 2 ^ 16 = _
  omega

/-- A channel whose every transfer ended at `p`. -/
def endedAt (descCountMask p : UInt32) : HailoVdmaChannel where
  index := 0
  lastDescList := none
  state := ⟨0, 0, descCountMask⟩
  ongoingTransfers := ⟨1, 0, fun _ => ⟨p.toUInt16, [], [], false⟩, by decide, by decide⟩
  timestampMeasureEnabled := false
  timestampList := ⟨0, 0, fun _ => ⟨0, 0⟩⟩

theorem le_of_positionsKept (h : PositionsKept vdmaHw l) : l.descCount.toNat ≤ 65536 := by
  by_contra hgt
  have hlast : (65535 : UInt32).toNat = 65535 := rfl
  have hp : (65535 : UInt32) < l.descCount := by
    rw [UInt32.lt_iff_toNat_lt, hlast]
    omega
  have hnext := h.completed Unit (fun _ _ => .ok ())
    ⟨endedAt (l.descCount - 1) 65535, fun _ => none, (), 0, true, false⟩ _ 65535 hp rfl rfl rfl
  rw [← UInt32.toNat_inj, UInt16.toNat_toUInt32, UInt32.toNat_mod] at hnext
  have hsum : ((65535 : UInt32) + 1).toNat = 65536 := rfl
  rw [hsum, Nat.mod_eq_of_lt (Nat.not_le.mp hgt)] at hnext
  exact absurd hnext (Nat.ne_of_lt (UInt16.toNat_lt _))

theorem ringSized_of_positionsKept (h : PositionsKept vdmaHw l) : RingSized l.descCount := by
  have hle := le_of_positionsKept h
  by_cases hzero : l.descCount = 0
  · exact Or.inl hzero
  · have hpos := toNat_pos_iff.mpr hzero
    have hone : (1 : UInt32).toNat = 1 := rfl
    have hmask : (l.descCount - 1).toNat = l.descCount.toNat - 1 := by
      have hlt := l.descCount.toNat_lt
      rw [UInt32.toNat_sub, hone]
      omega
    refine Or.inr ⟨?_, hle⟩
    have hpower := isPowerOfTwo_of_and_eq (m := l.descCount.toNat - 1) fun p hp => ?_
    · rwa [Nat.sub_add_cancel hpos] at hpower
    · have hnat : (UInt32.ofNat p).toNat = p := toNat_ofNat_of_lt (by omega)
      have hlt : (UInt32.ofNat p).toNat < 65536 := by omega
      have hshown := readBits_regsShowing hlt
      have hread := h.processed (endedAt (l.descCount - 1) 0) (regsShowing (UInt32.ofNat p))
        (UInt32.ofNat p) (by rw [UInt32.lt_iff_toNat_lt]; omega) rfl
        (Or.inl (by rw [hshown, Nat.mod_eq_of_lt (by omega)]))
      rw [readHwNumProc, hshown, hnat] at hread
      have hand : (UInt32.ofNat p &&& (l.descCount - 1)).toNat = p &&& (l.descCount.toNat - 1) := by
        rw [UInt32.toNat_and, hnat, hmask]
      have hle' : p &&& (l.descCount.toNat - 1) ≤ p := Nat.and_le_left
      have hkept : (UInt32.ofNat p &&& (l.descCount - 1)).toUInt16.toUInt32 = UInt32.ofNat p :=
        hread
      rw [toUInt32_toUInt16 (by omega), ← UInt32.toNat_inj, hand, hnat] at hkept
      exact hkept

end Kept

/-- Only the count decides whether the positions of a created list are kept. -/
theorem positionsKept_iff {n : Nat} (vdmaHw : HailoVdmaHw) {kernel kernel' : KernelState n}
    {context context' : HailoVdmaFileContext n} {params : HailoDescListCreateParams}
    {address : Option Nat} {memory : Option (Nat → HailoVdmaDescriptor)} {copied : Bool}
    (hcreate : hailoDescListCreateIoctl kernel context params address memory copied =
      (0, kernel', context')) :
    ∃ descriptors l, context'.descriptorsBufferList =
        descriptors :: context.descriptorsBufferList ∧
      kernel'.descLists descriptors.descListAddress = some l ∧
      (PositionsKept vdmaHw l ↔ RingSized params.descCount.toUInt32) := by
  obtain ⟨descriptors, l, hlist, hl, hcount, -⟩ := hailoDescListCreateIoctl_ok hcreate
  refine ⟨descriptors, l, hlist, hl, ?_⟩
  rw [← hcount]
  exact ⟨ringSized_of_positionsKept, positionsKept_of_ringSized⟩

/-- On a circular list of four descriptors. -/
theorem positionsKept_iff_ringOfFour : ∃ (kernel' : KernelState 1)
    (context' : HailoVdmaFileContext 1) (descriptors : HailoDescriptorsListBuffer)
    (l : HailoVdmaDescriptorsList), context'.descriptorsBufferList = [descriptors] ∧
      kernel'.descLists descriptors.descListAddress = some l ∧
      PositionsKept hailoPcieVdmaHw l := by
  have hcreate : hailoDescListCreateIoctl (initialState idleMemory).kernel
      (hailoVdmaFileContextInit 1) ⟨4, 64, true⟩ (some 7) (some fun _ => ⟨0, 0, 0, 0⟩) true =
        (0, _, _) := rfl
  obtain ⟨descriptors, l, hlist, hl, hkept⟩ := positionsKept_iff hailoPcieVdmaHw hcreate
  exact ⟨_, _, descriptors, l, hlist, hl, hkept.mpr (Or.inr ⟨⟨2, rfl⟩, by decide⟩)⟩

/-- A list of three descriptors can be created and launched on, and the processed
counter 1 is read as 0. -/
theorem listOfThree_positionLost : ∃ (kernel' : KernelState 1)
    (context' : HailoVdmaFileContext 1) (l l' : HailoVdmaDescriptorsList)
    (channel' : HailoVdmaChannel) (regs' : ChannelRegs),
      hailoDescListCreateIoctl (initialState idleMemory).kernel (hailoVdmaFileContextInit 1)
        ⟨3, 64, false⟩ (some 7) (some fun _ => ⟨0, 0, 0, 0⟩) true = (0, kernel', context') ∧
      kernel'.descLists 7 = some l ∧
      hailoVdmaLaunchTransfer hailoPcieVdmaHw idleChannel 7 l activeRegs 0
        [⟨⟨1, []⟩, 64, 0, 1⟩] false hailoVdmaInterruptsDomainNone hailoVdmaInterruptsDomainHost
        false = .ok (1, channel', l', regs') ∧
      ShowsProcessed l.descCount.toNat (regsShowing 1) 1 ∧
      readHwNumProc channel' (regsShowing 1) = 0 :=
  ⟨_, _, _, _, _, _, rfl, rfl, rfl, Or.inl rfl, rfl⟩

end HailortDrivers.RingPositions
