import HailortDrivers.BufferPages
import HailortDrivers.DescriptorWords

/-! `program_last_desc` only rewrites one descriptor. Over scatter entries that
end on page boundaries it finds the very descriptor that binding left last, and
the very word that binding left there. -/
namespace HailortDrivers.FastPathAgreement
open KernelExec MachineWord VdmaTypes DescriptorProgramming SegmentSlicing
open DescriptorsListCreation ProgrammedPages BoundBuffers BufferPages DescriptorWords

section
variable {vdmaHw : HailoVdmaHw} {l l' : HailoVdmaDescriptorsList} {startingDesc : UInt32}
  {buffer : HailoVdmaMappedTransferBuffer} {channelIndex : UInt8}
  {lastDescInterrupts : HailoVdmaInterruptsDomain} {isDebug : Bool} {n : Int32}

/-- The index of the last descriptor of a run of `count` descriptors. -/
def lastIndex (descList : HailoVdmaDescriptorsList) (startingDesc : UInt32) (count : Nat) : Nat :=
  (startingDesc.toNat + count - 1) % descList.descCount.toNat

theorem lastIndex_lt {count : Nat} (hcount : 0 < l.descCount.toNat) :
    lastIndex l startingDesc count < l.descCount.toNat := Nat.mod_lt _ hcount

theorem toNat_ofNat_lastIndex {count : Nat} (hcount : 0 < l.descCount.toNat) :
    (UInt32.ofNat (lastIndex l startingDesc count)).toNat = lastIndex l startingDesc count :=
  toNat_ofNat_of_lt ((lastIndex_lt hcount).trans l.descCount.toNat_lt)

theorem programLastDesc_eq (hP : 0 < l.descPageSize.toNat) (hcount : 0 < l.descCount.toNat)
    (hsize : 0 < buffer.size.toNat) (hfit : buffer.size.toNat + l.descPageSize.toNat < 2 ^ 32)
    (hwrap : startingDesc.toNat + buffer.size.toNat ⌈/⌉ l.descPageSize.toNat < 2 ^ 32) :
    let count := buffer.size.toNat ⌈/⌉ l.descPageSize.toNat
    let last := lastIndex l startingDesc count
    programLastDesc vdmaHw l startingDesc buffer lastDescInterrupts isDebug =
      .ok ((UInt32.ofNat count).toInt32, l.store (UInt32.ofNat last)
        { l.descList last with
          pageSizeDescControl :=
            (UInt32.ofNat (buffer.size.toNat - (count - 1) * l.descPageSize.toNat) <<< 8) +
              (descriptorDescControl |||
                getInterruptsBitmask vdmaHw lastDescInterrupts isDebug).toUInt8.toUInt32 }) := by
  intro count last
  have hpage : l.descPageSize.toUInt32.toNat = l.descPageSize.toNat := by simp
  have hcountPos : 0 < count := ceilDiv_pos hP hsize
  have hle : (count - 1) * l.descPageSize.toNat < buffer.size.toNat := by
    by_contra hge
    have := (ceilDiv_le_iff_le_mul hP).mpr ((Nat.not_lt.mp hge).trans_eq (Nat.mul_comm _ _))
    omega
  have htotal : (buffer.size + l.descPageSize.toUInt32 - 1) / l.descPageSize.toUInt32 =
      UInt32.ofNat count := by
    rw [← UInt32.toNat_inj, toNat_ceilDiv (hpage ▸ hP) (by omega), hpage,
      ← Nat.ceilDiv_eq_add_pred_div, toNat_ofNat_of_lt (by omega)]
  have hlast : (startingDesc + UInt32.ofNat count - 1) % l.descCount = UInt32.ofNat last := by
    rw [← UInt32.toNat_inj, UInt32.toNat_mod, toNat_ofNat_lastIndex hcount,
      toNat_add_sub_one (by rw [toNat_ofNat_of_lt (by omega)]; omega)
        (by rw [toNat_ofNat_of_lt (by omega)]; omega), toNat_ofNat_of_lt (by omega)]
    rfl
  have hresidue : buffer.size - (UInt32.ofNat count - 1) * l.descPageSize.toUInt32 =
      UInt32.ofNat (buffer.size.toNat - (count - 1) * l.descPageSize.toNat) := by
    have hone : (UInt32.ofNat count - 1).toNat = count - 1 := by
      have hcountNat : (UInt32.ofNat count).toNat = count := toNat_ofNat_of_lt (by omega)
      rw [UInt32.toNat_sub_of_le _ _ (by
        rw [UInt32.le_iff_toNat_le, UInt32.toNat_one, hcountNat]
        omega), hcountNat]
      rfl
    have hmul : ((UInt32.ofNat count - 1) * l.descPageSize.toUInt32).toNat =
        (count - 1) * l.descPageSize.toNat := by
      rw [UInt32.toNat_mul, hone, hpage, Nat.mod_eq_of_lt (by omega)]
    rw [← UInt32.toNat_inj, UInt32.toNat_sub_of_le _ _ (by
      rw [UInt32.le_iff_toNat_le, hmul]
      omega), hmul, toNat_ofNat_of_lt (by omega)]
  have hlastNat : (UInt32.ofNat last).toNat = last := toNat_ofNat_lastIndex hcount
  simp only [programLastDesc, divRoundUp_of_ne (toNat_pos_iff.mp (hpage ▸ hP)), ok_bind, htotal,
    umod_of_ne (toNat_pos_iff.mp hcount), hlast, hresidue, hlastNat]
  rfl

@[simp] theorem boundList_descPageSize : (boundList vdmaHw l startingDesc buffer channelIndex
    lastDescInterrupts isDebug).descPageSize = l.descPageSize := rfl

@[simp] theorem lastIndex_boundList (start : UInt32) (count : Nat) :
    lastIndex (boundList vdmaHw l startingDesc buffer channelIndex lastDescInterrupts isDebug)
      start count = lastIndex l start count := rfl

/-- The last descriptor of a bound buffer. -/
theorem boundList_last (hwf : WellFormed l) (hP : 0 < l.descPageSize.toNat)
    (hfits : Fits l startingDesc buffer) (hlt : descsNeeded l buffer < 2 ^ 31)
    {init : List PageEntry} {last : PageEntry}
    (hpages : boundPages vdmaHw l channelIndex buffer = init ++ [last])
    (lastDescInterrupts : HailoVdmaInterruptsDomain) (isDebug : Bool) :
    (boundList vdmaHw l startingDesc buffer channelIndex lastDescInterrupts isDebug).descList
        (lastIndex l startingDesc (descsNeeded l buffer)) =
      { pageDescriptor vdmaHw.ddrDataId last with
        pageSizeDescControl :=
          ((pageDescriptor vdmaHw.ddrDataId last).pageSizeDescControl.toUInt64 |||
            getInterruptsBitmask vdmaHw lastDescInterrupts isDebug).toUInt32 } := by
  have hlen : (boundPages vdmaHw l channelIndex buffer).length = descsNeeded l buffer :=
    length_boundPages hP vdmaHw channelIndex
  have hindices := hfits.indicesAt hwf hlt
  have hle := hfits.descsNeeded_le
  rw [← hlen] at hindices hle
  have hpos : 0 < l.descCount.toNat := toNat_pos_iff.mpr hfits.descCount_ne
  have hlastPage : (boundPages vdmaHw l channelIndex buffer).length - 1 <
      (boundPages vdmaHw l channelIndex buffer).length := by
    rw [hpages, List.length_append, List.length_singleton]
    omega
  have hhit : writePages l.descCountMask vdmaHw.ddrDataId startingDesc _ l.descList _ = _ :=
    writePages_hit hindices hle hlastPage
  have hindex : startingDesc.toNat + ((boundPages vdmaHw l channelIndex buffer).length - 1) =
      startingDesc.toNat + descsNeeded l buffer - 1 := by omega
  rw [hindex] at hhit
  have hget : (boundPages vdmaHw l channelIndex buffer)[
      (boundPages vdmaHw l channelIndex buffer).length - 1] = last := by
    simp [hpages]
  rw [hget] at hhit
  have hindexNat : (UInt32.ofNat (lastIndex l startingDesc (descsNeeded l buffer))).toNat =
      lastIndex l startingDesc (descsNeeded l buffer) := toNat_ofNat_lastIndex hpos
  rw [lastIndex] at hindexNat
  rw [lastIndex, boundList, orPageSizeDescControl]
  simp only [HailoVdmaDescriptorsList.store, hindexNat, HailoVdmaDescriptorsList.withDescs_descList,
    Function.update_self, hhit]

/-- Programming a bound buffer again without binding changes nothing. -/
theorem hailoVdmaProgramDescriptorsList_noBind (hwf : WellFormed l)
    (haligned : AlignedButLast l.descPageSize.toNat (segments buffer.sgTable.sgl))
    (hsize : 0 < buffer.size.toNat) (hfit : buffer.size.toNat + l.descPageSize.toNat < 2 ^ 32)
    (hhost : vdmaHw.hostInterruptsBitmask.toNat < 2 ^ 8)
    (hdevice : vdmaHw.deviceInterruptsBitmask.toNat < 2 ^ 8) (hn : 0 ≤ n.toInt)
    (h : hailoVdmaProgramDescriptorsList vdmaHw l startingDesc buffer true channelIndex
      lastDescInterrupts isDebug defaultStride = .ok (n, l')) :
    hailoVdmaProgramDescriptorsList vdmaHw l' startingDesc buffer false channelIndex
      lastDescInterrupts isDebug defaultStride = .ok (n, l') := by
  obtain ⟨hP, hfits, hret, rfl⟩ := bind_nonneg hwf hsize hfit hn h
  have hcov := hfits.totalLen_boundSegments
  have hneeded := descsNeeded_aligned hP hsize haligned hfits.offset_dvd hcov
  have hlt : descsNeeded l buffer < 2 ^ 31 := by
    have := n.toInt_lt
    omega
  obtain ⟨init, last, hpages, -, hlast, hlastLe⟩ := boundPages_eq_concat hP hsize haligned
    hfits.offset_dvd hcov vdmaHw channelIndex
  have hlastWord := boundList_last hwf hP hfits hlt hpages lastDescInterrupts isDebug
  have hpos : 0 < l.descCount.toNat := toNat_pos_iff.mpr hfits.descCount_ne
  have hmax : l.descCount.toNat ≤ 2 ^ 31 := UInt32.le_iff_toNat_le.mp hwf.count_le
  have hstart := hfits.start_lt
  rw [hailoVdmaProgramDescriptorsList, if_neg (by decide),
    programLastDesc_eq (l := boundList vdmaHw l startingDesc buffer channelIndex
      lastDescInterrupts isDebug) hP hpos hsize hfit (hneeded ▸ (by omega))]
  have hsame : UInt32.ofNat (buffer.size.toNat - (descsNeeded l buffer - 1) *
      l.descPageSize.toNat) = last.size := by
    rw [← hlast, UInt32.ofNat_toNat]
  have hword := programLastDesc_word
    (hlastLe.trans_lt l.descPageSize.toNat_lt) (getInterruptsBitmask_lt hhost hdevice
      lastDescInterrupts isDebug) last.addr vdmaHw.ddrDataId
  simp only [boundList_descPageSize, lastIndex_boundList, ← hneeded, hlastWord, hsame, hword]
  have hcount : (UInt32.ofNat (descsNeeded l buffer)).toInt32 = n := by
    rw [← Int32.toInt_inj, toInt_toInt32_of_lt (by rw [toNat_ofNat_of_lt (by omega)]; exact hlt),
      toNat_ofNat_of_lt (by omega), hret]
  have hstore := HailoVdmaDescriptorsList.store_self
    (boundList vdmaHw l startingDesc buffer channelIndex lastDescInterrupts isDebug)
    (UInt32.ofNat (lastIndex l startingDesc (descsNeeded l buffer)))
  rw [toNat_ofNat_lastIndex hpos, hlastWord] at hstore
  rw [hcount]
  exact congrArg (fun list => Except.ok (n, list)) hstore

end

theorem hailoVdmaProgramDescriptorsList_noBind_splitBuffer :
    ∃ l', hailoVdmaProgramDescriptorsList hailoPcieVdmaHw ringOfFour 3 splitBuffer true 0
        hailoVdmaInterruptsDomainHost true defaultStride = .ok (3, l') ∧
      hailoVdmaProgramDescriptorsList hailoPcieVdmaHw l' 3 splitBuffer false 0
        hailoVdmaInterruptsDomainHost true defaultStride = .ok (3, l') :=
  ⟨_, rfl, hailoVdmaProgramDescriptorsList_noBind ringOfFour_wellFormed splitBuffer_aligned
    (by decide) (by decide) (by decide) (by decide) (by decide) rfl⟩

end HailortDrivers.FastPathAgreement
