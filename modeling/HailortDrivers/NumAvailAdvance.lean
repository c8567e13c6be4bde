import HailortDrivers.LaunchedWindows
import HailortDrivers.RingPositions

/-!
How far a launch moves `num_avail`. It is computed back from the last descriptor: without a
buffer that is still `U32_MAX`, and with the 32-bit position at 0 the step back goes to the
end of the 32-bit range and not of the ring.
-/
namespace HailortDrivers.NumAvailAdvance
open KernelExec MachineWord VdmaTypes DescriptorProgramming DescriptorsListCreation
open BoundBuffers ChannelTransfers LaunchSteps LaunchedBuffers LaunchedWindows RegisterBits
open RingPositions

/-- The register word keeps its control and depth bits, and no other register changes. -/
structure OnlyNumAvail (regs regs' : ChannelRegs) : Prop where
  lowHalf : readBitsAtOffset 16 0 (regs'.hostRegs 0).toNat =
    readBitsAtOffset 16 0 (regs.hostRegs 0).toNat
  hostRegs : ∀ offset ≠ 0, regs'.hostRegs offset = regs.hostRegs offset
  deviceRegs : regs'.deviceRegs = regs.deviceRegs

theorem onlyNumAvail_set (regs : ChannelRegs) (numAvail : UInt16) :
    OnlyNumAvail regs (hailoVdmaSetNumAvail regs numAvail) where
  lowHalf := by
    have hword : (hailoVdmaSetNumAvail regs numAvail).hostRegs 0 =
        writeBitsAtOffset 16 16 (regs.hostRegs 0) numAvail.toUInt32 := by
      simp only [hailoVdmaSetNumAvail, Function.update_self]
    rw [hword]
    exact readBits_writeBits_of_disjoint (n := 16) (o := 16) (by decide) (by decide)
      (Or.inl (by decide))
  hostRegs offset h := Function.update_of_ne h _ _
  deviceRegs := rfl

/-- What a launch that returns `r` does to `num_avail`, given what programming its buffers
returned. -/
structure Advances (descCount : Nat) (rets : List Int32) (r : Int32)
    (channel channel' : HailoVdmaChannel) (regs regs' : ChannelRegs) : Prop where
  total : r.toInt = launchedCount rets
  numAvail : channel'.state.numAvail.toNat =
    (channel.state.numAvail.toNat + r.toInt.toNat) % descCount
  register : readHwNumAvail regs' = channel'.state.numAvail
  others : OnlyNumAvail regs regs'
  lastDesc : ∃ transfer, channel'.ongoingTransfers = pushed channel.ongoingTransfers transfer ∧
    transfer.lastDesc.toNat = (channel'.state.numAvail.toNat + descCount - 1) % descCount

/-- The sum of which the remainder by `descCount` is taken for the last buffer: where that
buffer starts, plus its descriptors. Only where the first buffer ends can wrap. -/
def lastSum (descCount startingDesc : UInt32) : List Int32 → Nat
  | [] => startingDesc.toNat
  | [ret] => (startingDesc + ret.toUInt32).toNat
  | ret :: ret' :: rets =>
    ((startingDesc + ret.toUInt32).toNat + launchedCount (ret' :: rets).dropLast) %
        descCount.toNat + ((ret' :: rets).getLast (List.cons_ne_nil _ _)).toInt.toNat

/-- The descriptor after the last one of the launch. -/
def nextDesc (descCount startingDesc : UInt32) (rets : List Int32) : Nat :=
  if lastSum descCount startingDesc rets = 0 then 2 ^ 32 % descCount.toNat
  else lastSum descCount startingDesc rets % descCount.toNat

/-- When a launch moves `num_avail` by what it programmed. -/
def RingAdvances (descCount startingDesc : UInt32) (rets : List Int32) : Prop :=
  if rets = [] then descCount = 65536 ∧ startingDesc.toUInt16 = 0
  else launchedCount rets < 2 ^ 31 ∧
    if startingDesc < descCount ∧ descCount ≤ 65536 then
      descCount.toNat ∣ 2 ^ 32 ∨ rets.getLast? ≠ some 0 ∨
        ¬ descCount.toNat ∣ startingDesc.toNat + launchedCount rets
    else
      nextDesc descCount startingDesc rets % 65536 =
          (startingDesc.toNat % 65536 + launchedCount rets) % descCount.toNat ∧
        (65536 < descCount → ¬ 65536 ∣ nextDesc descCount startingDesc rets)

section Positions
variable {descCount startingDesc : UInt32} {rets : List Int32}

/-- One step back and one forward in the ring, from a 32-bit position. -/
theorem back_and_next (hcount : 0 < descCount.toNat) (hle : descCount.toNat ≤ 2 ^ 31)
    (y : UInt32) :
    (((y - 1) % descCount + 1) % descCount).toNat =
      if y.toNat = 0 then 2 ^ 32 % descCount.toNat else y.toNat % descCount.toNat := by
  have hone : (1 : UInt32).toNat = 1 := rfl
  have hlt := y.toNat_lt
  have hmod := Nat.mod_lt (y - 1).toNat hcount
  rw [UInt32.toNat_mod, toNat_add_of_lt (by rw [UInt32.toNat_mod, hone]; omega), UInt32.toNat_mod,
    hone, Nat.mod_add_mod, UInt32.toNat_sub, hone]
  split
  · next hzero =>
    have hlast : (2 ^ 32 - 1 + 0) % 2 ^ 32 + 1 = 2 ^ 32 := by decide
    rw [hzero, hlast]
  · next hpos =>
    congr 1
    omega

theorem lastSum_cons {ret ret' : Int32} (hle : descCount.toNat ≤ 2 ^ 31)
    (hcount : 0 < descCount.toNat) (hret' : 0 ≤ ret'.toInt) :
    lastSum descCount ((startingDesc + ret.toUInt32) % descCount) (ret' :: rets) =
      lastSum descCount startingDesc (ret :: ret' :: rets) := by
  have hlt := Nat.mod_lt (startingDesc + ret.toUInt32).toNat hcount
  have hnat := toNat_toUInt32_of_nonneg hret'
  have hbound := ret'.toInt_lt
  have hsum : ((startingDesc + ret.toUInt32) % descCount + ret'.toUInt32).toNat =
      (startingDesc + ret.toUInt32).toNat % descCount.toNat + ret'.toInt.toNat := by
    rw [toNat_add_of_lt, UInt32.toNat_mod, hnat]
    rw [UInt32.toNat_mod, hnat]
    omega
  cases rets with
  | nil => exact hsum.trans (by rw [lastSum]; rfl)
  | cons ret'' rets =>
    have hdrop : (ret' :: ret'' :: rets).dropLast = ret' :: (ret'' :: rets).dropLast := rfl
    rw [lastSum, lastSum, hsum, hdrop, launchedCount_cons, Nat.add_assoc, Nat.mod_add_mod]
    rfl

/-- The launch goes on after the descriptor that it recorded last. -/
theorem lastDescs_next (hcount : 0 < descCount.toNat) (hle : descCount.toNat ≤ 2 ^ 31)
    (hne : rets ≠ []) (hok : ∀ ret ∈ rets, 0 ≤ ret.toInt) :
    ∃ last, (lastDescs descCount startingDesc rets).getLast? = some last ∧
      ((last + 1) % descCount).toNat = nextDesc descCount startingDesc rets := by
  induction rets generalizing startingDesc with
  | nil => exact absurd rfl hne
  | cons ret rets ih =>
    cases rets with
    | nil => exact ⟨_, rfl, back_and_next hcount hle _⟩
    | cons ret' rets =>
      obtain ⟨last, hlast, hnext⟩ := @ih ((startingDesc + ret.toUInt32) % descCount)
        (List.cons_ne_nil _ _) fun r hr => hok r (List.mem_cons_of_mem ret hr)
      refine ⟨last, ?_, ?_⟩
      · rw [lastDescs, List.getLast?_cons, hlast]
        rfl
      · have hret' := hok ret' (List.mem_cons_of_mem ret List.mem_cons_self)
        rw [hnext, nextDesc, lastSum_cons hle hcount hret', nextDesc]

theorem launchedCount_dropLast (hne : rets ≠ []) :
    launchedCount rets = launchedCount rets.dropLast + (rets.getLast hne).toInt.toNat := by
  conv_lhs => rw [← List.dropLast_append_getLast hne]
  rw [launchedCount, List.map_append, List.sum_append, List.map_singleton, List.sum_singleton,
    launchedCount]

theorem getLast?_zero_iff (hne : rets ≠ []) (hok : ∀ ret ∈ rets, 0 ≤ ret.toInt) :
    rets.getLast? = some 0 ↔ (rets.getLast hne).toInt.toNat = 0 := by
  have hlast := hok _ (List.getLast_mem hne)
  have hzero : (0 : Int32).toInt = 0 := rfl
  rw [List.getLast?_eq_some_getLast hne, Option.some.injEq, ← Int32.toInt_inj, hzero]
  omega

/-- From a position in the list, the sum is that of all descriptors, by the ring. -/
theorem lastSum_of_lt (hstart : startingDesc < descCount) (hle : descCount.toNat ≤ 2 ^ 31)
    (hne : rets ≠ []) (hok : ∀ ret ∈ rets, 0 ≤ ret.toInt) :
    lastSum descCount startingDesc rets % descCount.toNat =
        (startingDesc.toNat + launchedCount rets) % descCount.toNat ∧
      (lastSum descCount startingDesc rets = 0 ↔ rets.getLast? = some 0 ∧
        descCount.toNat ∣ startingDesc.toNat + launchedCount rets) := by
  have hstart := UInt32.lt_iff_toNat_lt.mp hstart
  rw [getLast?_zero_iff hne hok]
  cases rets with
  | nil => exact absurd rfl hne
  | cons ret rets =>
    have hret := hok ret List.mem_cons_self
    have hnat := toNat_toUInt32_of_nonneg hret
    have hbound := ret.toInt_lt
    have hfirst : (startingDesc + ret.toUInt32).toNat = startingDesc.toNat + ret.toInt.toNat := by
      rw [toNat_add_of_lt (by omega), hnat]
    cases rets with
    | nil =>
      have hcount : launchedCount [ret] = ret.toInt.toNat := rfl
      rw [lastSum, hfirst, hcount, List.getLast_singleton]
      refine ⟨rfl, fun h => ⟨by omega, by rw [h]; exact dvd_zero _⟩, fun h => ?_⟩
      have hzero := Nat.eq_zero_of_dvd_of_lt h.2 (by omega)
      omega
    | cons ret' rets =>
      have hdrop := launchedCount_dropLast (List.cons_ne_nil ret' rets)
      rw [List.getLast_cons (List.cons_ne_nil ret' rets), lastSum, hfirst, launchedCount_cons,
        hdrop]
      generalize (ret' :: rets).getLast (List.cons_ne_nil ret' rets) = last
      constructor
      · rw [Nat.mod_add_mod, Nat.add_assoc, Nat.add_assoc]
      · rw [Nat.add_eq_zero_iff, and_comm, ← Nat.dvd_iff_mod_eq_zero]
        refine and_congr_right fun hlast => ?_
        rw [hlast, Nat.add_zero, Nat.add_assoc]

theorem nextDesc_lt (hcount : 0 < descCount.toNat) (startingDesc : UInt32) (rets : List Int32) :
    nextDesc descCount startingDesc rets < descCount.toNat := by
  unfold nextDesc
  split
  · exact Nat.mod_lt _ hcount
  · exact Nat.mod_lt _ hcount

/-- Within a list that 16 bits can index, only the step back from 0 goes astray. -/
theorem nextDesc_eq_iff (hstart : startingDesc < descCount) (hcount : descCount ≤ 65536)
    (hne : rets ≠ []) (hok : ∀ ret ∈ rets, 0 ≤ ret.toInt) :
    nextDesc descCount startingDesc rets % 65536 =
        (startingDesc.toNat % 65536 + launchedCount rets) % descCount.toNat ↔
      descCount.toNat ∣ 2 ^ 32 ∨ rets.getLast? ≠ some 0 ∨
        ¬ descCount.toNat ∣ startingDesc.toNat + launchedCount rets := by
  have hlt := UInt32.lt_iff_toNat_lt.mp hstart
  have hle : descCount.toNat ≤ 65536 := UInt32.le_iff_toNat_le.mp hcount
  obtain ⟨hmod, hzero⟩ := lastSum_of_lt hstart (by omega) hne hok
  have hnext : nextDesc descCount startingDesc rets < descCount.toNat :=
    nextDesc_lt (by omega) startingDesc rets
  rw [Nat.mod_eq_of_lt (by omega : nextDesc descCount startingDesc rets < 65536),
    Nat.mod_eq_of_lt (by omega : startingDesc.toNat < 65536), nextDesc]
  by_cases hlast : lastSum descCount startingDesc rets = 0
  · obtain ⟨hnone, hdvd⟩ := hzero.mp hlast
    rw [if_pos hlast, Nat.mod_eq_zero_of_dvd hdvd, ← Nat.dvd_iff_mod_eq_zero]
    exact ⟨Or.inl, fun h => h.resolve_right fun h => h.elim (· hnone) (· hdvd)⟩
  · rw [if_neg hlast]
    refine iff_of_true hmod (Or.inr ?_)
    by_contra hboth
    rw [not_or, not_not, not_not] at hboth
    exact hlast (hzero.mpr hboth)

/-- Whether the 16-bit fields still have the last descriptor just before the next one. -/
theorem lastDesc_eq_iff {N L X : Nat} (hL : L < N) (hX : X = (L + 1) % N) :
    L % 65536 = (X % 65536 + N - 1) % N ↔ (65536 < N → ¬ 65536 ∣ X) := by
  rcases Nat.lt_or_ge (L + 1) N with hlt | hge
  · rw [Nat.mod_eq_of_lt hlt] at hX
    by_cases hdvd : 65536 ∣ X
    · have hback : (X % 65536 + N - 1) % N = N - 1 := by
        rw [Nat.mod_eq_zero_of_dvd hdvd, Nat.zero_add]
        exact Nat.mod_eq_of_lt (by omega)
      rw [hback]
      constructor
      · intro h hN
        omega
      · intro h
        exact absurd hdvd (h (by omega))
    · have hback : (X % 65536 + N - 1) % N = X % 65536 - 1 := by
        have hsum : X % 65536 + N - 1 = X % 65536 - 1 + N := by omega
        rw [hsum, Nat.add_mod_right]
        exact Nat.mod_eq_of_lt (by omega)
      rw [hback]
      exact iff_of_true (by omega) fun _ => hdvd
  · have hend : L + 1 = N := by omega
    rw [hend, Nat.mod_self] at hX
    have hback : (X % 65536 + N - 1) % N = N - 1 := by
      rw [hX, Nat.zero_mod, Nat.zero_add]
      exact Nat.mod_eq_of_lt (by omega)
    rw [hback, hX]
    constructor
    · intro h hN
      omega
    · intro h
      by_contra hne
      exact h (by omega) (dvd_zero _)

end Positions

section Launch
variable {vdmaHw : HailoVdmaHw} {channel channel' : HailoVdmaChannel} {descListAddress : Nat}
  {l l' : HailoVdmaDescriptorsList} {regs regs' : ChannelRegs} {startingDesc : UInt32}
  {buffers : List HailoVdmaMappedTransferBuffer} {shouldBind : Bool} {channelIndex : UInt8}
  {firstInterruptsDomain lastDescInterrupts : HailoVdmaInterruptsDomain} {isDebug : Bool}
  {r : Int32} {rets : List Int32}

theorem Rounds.toNat_totalDescs {c c' : LaunchCursor}
    (h : Rounds vdmaHw shouldBind channelIndex lastDescInterrupts isDebug buffers c rets c')
    (hok : ∀ ret ∈ rets, 0 ≤ ret.toInt) :
    c'.totalDescs.toNat = (c.totalDescs.toNat + launchedCount rets) % 2 ^ 32 := by
  induction h with
  | nil c => exact (Nat.mod_eq_of_lt c.totalDescs.toNat_lt).symm
  | @cons buffer buffers c c' ret rets descList hprogram hcount hrest ih =>
    rw [ih fun r hr => hok r (List.mem_cons_of_mem ret hr), nextCursor, UInt32.toNat_add,
      toNat_toUInt32_of_nonneg (hok ret List.mem_cons_self), Nat.mod_add_mod, launchedCount_cons,
      Nat.add_assoc]

theorem pushed_inj {transfers : HailoOngoingTransfersList} {t t' : HailoOngoingTransfer}
    (h : pushed transfers t = pushed transfers t') : t = t' := by
  have hat := congrFun (congrArg HailoOngoingTransfersList.transfers h) transfers.head.toNat
  simpa only [pushed, Function.update_self] using hat

theorem advances_iff_last {c : LaunchCursor} {X : Nat} {transfer : HailoOngoingTransfer}
    (hr : r.toInt = (launchedCount rets % 2 ^ 32 : Nat))
    (hsync : channel.state.numAvail = startingDesc.toUInt16)
    (hnext : ((c.lastDesc + 1) % l.descCount).toNat = X)
    (htransfer : transfer.lastDesc = c.lastDesc.toUInt16)
    (hring : channel'.ongoingTransfers = pushed channel.ongoingTransfers transfer)
    (hchannel : channel'.state.numAvail = ((c.lastDesc + 1) % l.descCount).toUInt16)
    (hregs : regs' = hailoVdmaSetNumAvail regs channel'.state.numAvail) :
    Advances l.descCount.toNat rets r channel channel' regs regs' ↔
      launchedCount rets < 2 ^ 32 ∧
        X % 65536 = (startingDesc.toNat % 65536 + launchedCount rets) % l.descCount.toNat ∧
        c.lastDesc.toNat % 65536 =
          (X % 65536 + l.descCount.toNat - 1) % l.descCount.toNat := by
  have hnew : channel'.state.numAvail.toNat = X % 65536 := by
    rw [hchannel, UInt32.toNat_toUInt16, hnext]
  have hold : channel.state.numAvail.toNat = startingDesc.toNat % 65536 := by
    rw [hsync, UInt32.toNat_toUInt16]
  have hlast : transfer.lastDesc.toNat = c.lastDesc.toNat % 65536 := by
    rw [htransfer, UInt32.toNat_toUInt16]
  constructor
  · intro h
    have htotal := h.total
    have hsmall : launchedCount rets < 2 ^ 32 := by omega
    have hcount : r.toInt.toNat = launchedCount rets := by omega
    refine ⟨hsmall, ?_, ?_⟩
    · rw [← hnew, h.numAvail, hold, hcount]
    · obtain ⟨transfer', hring', hlast'⟩ := h.lastDesc
      rw [hring] at hring'
      rw [← hlast, pushed_inj hring', hlast', hnew]
  · rintro ⟨hsmall, hadvance, hback⟩
    have htotal : r.toInt = launchedCount rets := by omega
    refine ⟨htotal, ?_, ?_, ?_, ⟨transfer, hring, ?_⟩⟩
    · rw [hnew, hadvance, hold, htotal, Int.toNat_natCast]
    · rw [hregs, readHwNumAvail_set]
    · rw [hregs]
      exact onlyNumAvail_set _ _
    · rw [hlast, hback, hnew]

/-- Without a buffer the last descriptor stays `U32_MAX`. -/
theorem noBuffers_iff {descCount : UInt32} :
    launchedCount [] < 2 ^ 32 ∧
        ((u32Max + 1) % descCount).toNat % 65536 =
          (startingDesc.toNat % 65536 + launchedCount []) % descCount.toNat ∧
        u32Max.toNat % 65536 =
          (((u32Max + 1) % descCount).toNat % 65536 + descCount.toNat - 1) % descCount.toNat ↔
      descCount = 65536 ∧ startingDesc.toUInt16 = 0 := by
  have hnext : ((u32Max + 1) % descCount).toNat = 0 := by
    have hwrap : u32Max + 1 = 0 := by decide
    rw [hwrap, UInt32.toNat_mod, UInt32.toNat_zero, Nat.zero_mod]
  have hlow : u32Max.toNat % 65536 = 65535 := by decide
  have hnone : launchedCount [] = 0 := rfl
  have hsize : (65536 : UInt32).toNat = 65536 := rfl
  have hstart : startingDesc.toUInt16 = 0 ↔ startingDesc.toNat % 65536 = 0 := by
    rw [← UInt16.toNat_inj, UInt32.toNat_toUInt16]
    rfl
  rw [hnext, hlow, hnone, hstart, ← UInt32.toNat_inj, hsize, Nat.zero_mod, Nat.add_zero,
    Nat.zero_add]
  constructor
  · rintro ⟨-, hzero, hback⟩
    have hpos : 0 < descCount.toNat := by
      by_contra hnot
      rw [Nat.le_zero.mp (Nat.not_lt.mp hnot)] at hback
      exact absurd hback (by decide)
    rw [Nat.mod_eq_of_lt (by omega : descCount.toNat - 1 < descCount.toNat)] at hback
    have hcount : descCount.toNat = 65536 := by omega
    rw [hcount] at hzero
    exact ⟨hcount, by omega⟩
  · rintro ⟨hcount, hzero⟩
    rw [hcount, hzero]
    decide

/-- A launch that returns a count moves `num_avail` by what it programmed exactly then. -/
theorem hailoVdmaLaunchTransfer_advances_iff (hwf : WellFormed l)
    (h : hailoVdmaLaunchTransfer vdmaHw channel descListAddress l regs startingDesc buffers
      shouldBind firstInterruptsDomain lastDescInterrupts isDebug =
      .ok (r, channel', l', regs'))
    (hr : 0 ≤ r.toInt)
    (hreturns : programReturns vdmaHw shouldBind channel.index lastDescInterrupts isDebug buffers
      startingDesc l = .ok rets)
    (hok : ∀ ret ∈ rets, 0 ≤ ret.toInt) :
    Advances l.descCount.toNat rets r channel channel' regs regs' ↔
      RingAdvances l.descCount startingDesc rets := by
  have hle : l.descCount.toNat ≤ 2 ^ 31 := UInt32.le_iff_toNat_le.mp hwf.count_le
  cases launch_outcome h with
  | otherList hsome hother => exact absurd hr (by decide)
  | rejected _ hret hsame hchecks => exact absurd hr (not_le.mpr hret)
  | ringFull c hchecks hloop hfull => exact absurd hr (by decide)
  | launched c hchecks hloop hroom hcount =>
    obtain ⟨rets', hrets', hrounds⟩ := launchBuffers_rounds hloop
    obtain rfl : rets' = rets := Except.ok.inj (hrets'.symm.trans hreturns)
    obtain ⟨-, hlast⟩ := Rounds.recorded hrounds (show _ = l.descCount from rfl)
    have hsize : c.descList.descCount = l.descCount := by
      obtain ⟨descs', hdescs⟩ := hrounds.sameShape
      rw [hdescs]
      rfl
    rw [hsize] at hcount ⊢
    have hpos : 0 < l.descCount.toNat := toNat_pos_iff.mpr hcount
    have htotal := Rounds.toNat_totalDescs hrounds hok
    have hsmall := toInt32_nonneg_iff.mp hr
    have hret : c.totalDescs.toInt32.toInt = (launchedCount rets' % 2 ^ 32 : Nat) := by
      rw [toInt_toInt32_of_lt hsmall, htotal]
      exact congrArg _ (congrArg (· % 2 ^ 32) (Nat.zero_add _))
    refine (advances_iff_last hret hchecks.inSync rfl rfl rfl rfl rfl).trans ?_
    rw [RingAdvances]
    by_cases hnil : rets' = []
    · have hnone : c.lastDesc = u32Max := by
        subst hnil
        exact hlast
      rw [if_pos hnil, hnone, hnil]
      exact noBuffers_iff
    · obtain ⟨last, hgetLast, hnext⟩ := lastDescs_next hpos hle hnil hok
      have hmem := lastDescs_lt hcount startingDesc rets' last (getLast?_mem hgetLast)
      have hlastDesc : c.lastDesc = last := by
        rw [hlast]
        exact congrArg (·.getD u32Max) hgetLast
      have hlt := UInt32.lt_iff_toNat_lt.mp hmem
      have hone : (1 : UInt32).toNat = 1 := rfl
      have hstep : nextDesc l.descCount startingDesc rets' =
          (last.toNat + 1) % l.descCount.toNat := by
        rw [← hnext, UInt32.toNat_mod, toNat_add_of_lt (by omega), hone]
      have hsum : launchedCount rets' < 2 ^ 32 → launchedCount rets' < 2 ^ 31 := by
        have htotal' : c.totalDescs.toNat = launchedCount rets' % 2 ^ 32 :=
          htotal.trans (congrArg (· % 2 ^ 32) (Nat.zero_add _))
        omega
      rw [if_neg hnil, hlastDesc, hnext, lastDesc_eq_iff hlt hstep]
      split
      · next hring =>
        rw [nextDesc_eq_iff hring.1 hring.2 hnil hok]
        have hnot : ¬ 65536 < l.descCount.toNat :=
          Nat.not_lt.mpr (UInt32.le_iff_toNat_le.mp hring.2)
        exact ⟨fun h => ⟨hsum h.1, h.2.1⟩,
          fun h => ⟨h.1.trans (by decide), h.2, fun hbig => absurd hbig hnot⟩⟩
      · rw [UInt32.lt_iff_toNat_lt]
        exact ⟨fun h => ⟨hsum h.1, h.2⟩, fun h => ⟨h.1.trans (by decide), h.2⟩⟩

end Launch

/-- The registers of a channel that was started and has `p` descriptors available. -/
def regsAvailable (p : UInt32) : ChannelRegs where
  hostRegs := fun offset => if offset = 0 then p * 65536 + 1 else 0
  deviceRegs := fun _ => 0

/-- A launch without buffers sets `num_avail` back from 2 to 0. -/
theorem noBuffers_restart :
    ∃ channel' l' regs',
      hailoVdmaLaunchTransfer hailoPcieVdmaHw
        { idleChannel with state := ⟨2, 0, 3⟩ } 1 ringOfFour (regsAvailable 2) 2 [] false
        hailoVdmaInterruptsDomainNone hailoVdmaInterruptsDomainHost false =
        .ok (0, channel', l', regs') ∧
      ¬ Advances ringOfFour.descCount.toNat [] 0
        { idleChannel with state := ⟨2, 0, 3⟩ } channel' (regsAvailable 2) regs' :=
  ⟨_, _, _, rfl, fun h => absurd h.numAvail (by decide)⟩

theorem hailoVdmaLaunchTransfer_advances_iff_ringOfFour :
    ∃ channel' l' regs',
      hailoVdmaLaunchTransfer hailoPcieVdmaHw idleChannel 1 ringOfFour activeRegs 0
        [splitBuffer] true hailoVdmaInterruptsDomainNone hailoVdmaInterruptsDomainHost false =
        .ok (3, channel', l', regs') ∧
      Advances ringOfFour.descCount.toNat [3] 3 idleChannel channel' activeRegs regs' := by
  obtain ⟨channel', l', regs', hrun⟩ : ∃ channel' l' regs',
      hailoVdmaLaunchTransfer hailoPcieVdmaHw idleChannel 1 ringOfFour activeRegs 0
        [splitBuffer] true hailoVdmaInterruptsDomainNone hailoVdmaInterruptsDomainHost false =
        .ok (3, channel', l', regs') := ⟨_, _, _, rfl⟩
  have hok : ∀ ret ∈ [(3 : Int32)], 0 ≤ ret.toInt := by
    intro ret hret
    obtain rfl := List.mem_singleton.mp hret
    decide
  refine ⟨channel', l', regs', hrun, (hailoVdmaLaunchTransfer_advances_iff ringOfFour_wellFormed
    hrun (by decide) rfl hok).mpr ?_⟩
  have hinside : (0 : UInt32) < ringOfFour.descCount ∧ ringOfFour.descCount ≤ 65536 := by decide
  rw [RingAdvances, if_neg (List.cons_ne_nil _ _), if_pos hinside]
  exact ⟨by decide, Or.inl (Nat.dvd_of_mod_eq_zero rfl)⟩

end HailortDrivers.NumAvailAdvance
