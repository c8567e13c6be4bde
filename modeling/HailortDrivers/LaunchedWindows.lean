import HailortDrivers.EngineRuns
import HailortDrivers.LaunchedBuffers
import HailortDrivers.ModularWindow

/-! The stretch of the descriptors ring that a launched transfer takes: from
`starting_desc` over as many descriptors as programming its buffers returned, up
to the new `num_avail`. -/
namespace HailortDrivers.LaunchedWindows
open KernelExec MachineWord VdmaTypes DescriptorProgramming DescriptorsListCreation
open ChannelTransfers LaunchSteps LaunchedBuffers OngoingRing VdmaEngine EngineSteps EngineRuns
open ModularWindow

/-- The first descriptor of a launch is the first one listed as dirty. -/
def firstDesc (t : HailoOngoingTransfer) : Nat := (t.dirtyDescs.headD 0).toNat

def lastDescIndex (t : HailoOngoingTransfer) : Nat := t.lastDesc.toNat

/-- The ongoing transfers take the ring's counter from `b` to `e`. -/
abbrev Windows (n : Nat) := Laid n firstDesc lastDescIndex

section
variable {vdmaHw : HailoVdmaHw} {buffers : List HailoVdmaMappedTransferBuffer}
  {channelIndex : UInt8} {shouldBind : Bool} {lastDescInterrupts : HailoVdmaInterruptsDomain}
  {isDebug : Bool} {c c' : LaunchCursor} {rets : List Int32} {l : HailoVdmaDescriptorsList}

theorem launchedCount_cons (ret : Int32) (rets : List Int32) :
    launchedCount (ret :: rets) = ret.toInt.toNat + launchedCount rets := by
  rw [launchedCount, List.map_cons, List.sum_cons, launchedCount]

theorem toNat_toUInt32_of_nonneg {ret : Int32} (hret : 0 ≤ ret.toInt) :
    ret.toUInt32.toNat = ret.toInt.toNat := by
  have hnat := toUInt32_toNat_of_nonneg hret
  omega

theorem dvd_word {k : Nat} (hN : l.descCount.toNat = 2 ^ k) : l.descCount.toNat ∣ 2 ^ 32 := by
  have hlt := l.descCount.toNat_lt
  rw [hN] at hlt ⊢
  exact Nat.pow_dvd_pow 2 (Nat.le_of_lt ((Nat.pow_lt_pow_iff_right (by decide)).mp hlt))

theorem nextCursor_startingDesc_of_dvd {ret : Int32} (hret : 0 ≤ ret.toInt)
    (hdvd : l.descCount.toNat ∣ 2 ^ 32) :
    (nextCursor c ret l).startingDesc.toNat =
      (c.startingDesc.toNat + ret.toInt.toNat) % l.descCount.toNat := by
  rw [nextCursor, UInt32.toNat_mod, UInt32.toNat_add, Nat.mod_mod_of_dvd _ hdvd,
    toNat_toUInt32_of_nonneg hret]

theorem nextCursor_lastDesc_of_dvd {ret : Int32} (hret : 0 ≤ ret.toInt)
    (hdvd : l.descCount.toNat ∣ 2 ^ 32) :
    (nextCursor c ret l).lastDesc.toNat =
      (c.startingDesc.toNat + ret.toInt.toNat + (l.descCount.toNat - 1)) % l.descCount.toNat := by
  have hone : (1 : UInt32).toNat = 1 := rfl
  obtain ⟨q, hq⟩ := hdvd
  have hq0 : q ≠ 0 := by
    rintro rfl
    cases hq
  obtain ⟨q, rfl⟩ := Nat.exists_eq_succ_of_ne_zero hq0
  rw [Nat.mul_succ] at hq
  have hN : 0 < l.descCount.toNat := by
    by_contra hzero
    have hzero : l.descCount.toNat = 0 := by omega
    rw [hzero] at hq
    omega
  have hsum : 2 ^ 32 - 1 + (c.startingDesc.toNat + ret.toInt.toNat) =
      c.startingDesc.toNat + ret.toInt.toNat + (l.descCount.toNat - 1) +
        l.descCount.toNat * q := by omega
  have hdvd : l.descCount.toNat ∣ 2 ^ 32 := ⟨q + 1, by rw [Nat.mul_succ]; exact hq⟩
  rw [nextCursor, UInt32.toNat_mod, UInt32.toNat_sub, UInt32.toNat_add, hone,
    toNat_toUInt32_of_nonneg hret, Nat.add_mod_mod, Nat.mod_mod_of_dvd _ hdvd, hsum,
    Nat.add_mul_mod_self_left]

/-- On a ring of a power of two the rounds move by what programming returned, whatever
the sizes of the buffers are. -/
theorem Rounds.window_of_dvd
    (h : Rounds vdmaHw shouldBind channelIndex lastDescInterrupts isDebug buffers c rets c')
    (hdvd : c.descList.descCount.toNat ∣ 2 ^ 32)
    (hstart : c.startingDesc.toNat < c.descList.descCount.toNat)
    (hok : ∀ ret ∈ rets, 0 ≤ ret.toInt) :
    c'.startingDesc.toNat =
      (c.startingDesc.toNat + launchedCount rets) % c.descList.descCount.toNat ∧
    (buffers ≠ [] → c'.lastDesc.toNat =
      (c.startingDesc.toNat + launchedCount rets + (c.descList.descCount.toNat - 1)) %
        c.descList.descCount.toNat) := by
  induction h with
  | nil c => exact ⟨(Nat.mod_eq_of_lt hstart).symm, fun hne => absurd rfl hne⟩
  | @cons buffer buffers c c' ret rets descList hprogram hcount hrest ih =>
    obtain ⟨descs, rfl⟩ := hailoVdmaProgramDescriptorsList_sameShape hprogram
    have hret := hok ret List.mem_cons_self
    have hnext := nextCursor_startingDesc_of_dvd (c := c) (l := c.descList.withDescs descs) hret
      hdvd
    obtain ⟨hstarting, hlast⟩ := ih hdvd (nextCursor_startingDesc_lt hcount)
      (fun r hr => hok r (List.mem_cons_of_mem ret hr))
    rw [hnext] at hstarting hlast
    simp only [nextCursor, HailoVdmaDescriptorsList.withDescs_descCount] at hstarting hlast
    rw [launchedCount_cons, ← Nat.add_assoc]
    refine ⟨by rw [hstarting, Nat.mod_add_mod], fun _ => ?_⟩
    cases hrest with
    | nil => exact nextCursor_lastDesc_of_dvd hret hdvd
    | cons _ _ _ =>
      rw [hlast (List.cons_ne_nil _ _), Nat.add_assoc, Nat.mod_add_mod, ← Nat.add_assoc]

end

section Launched
variable {vdmaHw : HailoVdmaHw} {i : ChannelIndex} {address : Nat} {args : LaunchArgs}
  {l : HailoVdmaDescriptorsList} {rets : List Int32} {s s' : EngineState} {c : LaunchCursor}

theorem LaunchesIn.numAvail_eq (h : LaunchesIn vdmaHw i address args l rets s s' c)
    (hcount : l.descCount.toNat ≤ 65536) :
    (s.engine.channels i).state.numAvail.toNat = args.startingDesc.toNat := by
  rw [h.checks.inSync, UInt32.toNat_toUInt16]
  exact Nat.mod_eq_of_lt (h.start.trans_le hcount)

theorem LaunchesIn.firstDesc_eq (h : LaunchesIn vdmaHw i address args l rets s s' c)
    (hcount : l.descCount.toNat ≤ 65536) :
    firstDesc (launchedTransfer args.buffers args.isDebug c) = args.startingDesc.toNat := by
  obtain ⟨descs, hdescs⟩ := h.rounds.dirtyDescs_prefix
  have hhead : c.dirtyDescs = args.startingDesc.toUInt16 :: descs := hdescs.symm
  rw [firstDesc, launchedTransfer, hhead, List.headD_cons, UInt32.toNat_toUInt16]
  exact Nat.mod_eq_of_lt (h.start.trans_le hcount)

/-- A launch that uses a descriptor ends on the one before where the next one starts. -/
theorem LaunchesIn.lastDesc_eq (h : LaunchesIn vdmaHw i address args l rets s s' c)
    (hdvd : l.descCount.toNat ∣ 2 ^ 32) (hpos : 0 < launchedCount rets) :
    c.lastDesc.toNat =
      (args.startingDesc.toNat + launchedCount rets - 1) % l.descCount.toNat := by
  have hstart := h.start
  have hbuffers : args.buffers ≠ [] := by
    intro hnil
    have hrounds := h.rounds
    rw [hnil] at hrounds
    cases hrounds
    exact absurd hpos (Nat.lt_irrefl 0)
  obtain ⟨-, hlast⟩ := Rounds.window_of_dvd h.rounds hdvd hstart h.programmed
  have hsum : args.startingDesc.toNat + launchedCount rets + (l.descCount.toNat - 1) =
      args.startingDesc.toNat + launchedCount rets - 1 + l.descCount.toNat := by omega
  have hlast := hlast hbuffers
  simp only [launchStart] at hlast
  rw [hlast, hsum, Nat.add_mod_right]

theorem LaunchesIn.descCountMask_eq (h : LaunchesIn vdmaHw i address args l rets s s' c) :
    (s'.engine.channels i).state.descCountMask.toNat + 1 = l.descCount.toNat := by
  have hone : (1 : UInt32).toNat = 1 := rfl
  have hstart := h.start
  have hle : 1 ≤ l.descCount := by
    rw [UInt32.le_iff_toNat_le, hone]
    omega
  rw [h.channel_eq]
  change (l.descCount - 1).toNat + 1 = _
  rw [UInt32.toNat_sub_of_le _ _ hle, hone]
  omega

/-- With its last descriptor known, a launch takes the next stretch of the ring, and
`num_avail` moves to its end. -/
theorem LaunchesIn.windows (h : LaunchesIn vdmaHw i address args l rets s s' c)
    (hcount : l.descCount.toNat ≤ 65536) {n e : Nat} (hpos : 0 < n)
    (hlast : c.lastDesc.toNat = (args.startingDesc.toNat + n - 1) % l.descCount.toNat)
    (he : e % l.descCount.toNat = args.startingDesc.toNat) :
    Windows l.descCount.toNat e [(launchedTransfer args.buffers args.isDebug c, e + n)] (e + n) ∧
      (s'.engine.channels i).state.numAvail.toNat = (e + n) % l.descCount.toNat := by
  have hN : 0 < l.descCount.toNat := by
    have := h.start
    omega
  have hmodlt := Nat.mod_lt (args.startingDesc.toNat + n - 1) hN
  have hone : (1 : UInt32).toNat = 1 := rfl
  obtain ⟨descs, hshape⟩ := h.rounds.sameShape
  have hsize : c.descList.descCount = l.descCount := by rw [hshape]; rfl
  refine ⟨.cons (by omega) ?_ ?_ (.nil _), ?_⟩
  · rw [LaunchesIn.firstDesc_eq h hcount, he]
  · rw [lastDescIndex, launchedTransfer, UInt32.toNat_toUInt16, hlast,
      Nat.mod_eq_of_lt (by omega : _ < 2 ^ 16), ← he, Nat.add_sub_assoc hpos, Nat.mod_add_mod,
      ← Nat.add_sub_assoc hpos]
  · rw [h.channel_eq]
    have hnext : ((c.lastDesc + 1) % c.descList.descCount).toNat = (e + n) % l.descCount.toNat := by
      rw [hsize, UInt32.toNat_mod, UInt32.toNat_add, hone, hlast,
        Nat.mod_eq_of_lt (a := _ + 1) (by omega), Nat.mod_add_mod, ← he, Nat.add_sub_assoc hpos,
        Nat.add_assoc, Nat.mod_add_mod, Nat.sub_add_cancel hpos]
    have hlt := Nat.mod_lt (e + n) hN
    change ((c.lastDesc + 1) % c.descList.descCount).toUInt16.toNat = _
    rw [UInt32.toNat_toUInt16, hnext]
    exact Nat.mod_eq_of_lt (by omega)

end Launched

end HailortDrivers.LaunchedWindows
