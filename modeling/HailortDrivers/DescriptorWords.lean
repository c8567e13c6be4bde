import HailortDrivers.BoundBuffers

/-! The words of one descriptor: what the device reads back from the words that
`hailo_vdma_program_descriptor` and `program_last_desc` put together. -/
namespace HailortDrivers.DescriptorWords
open MachineWord VdmaTypes DescriptorProgramming ProgrammedPages

/-- `AddrH:AddrL` without the low six bits. -/
def descriptorAddress (d : HailoVdmaDescriptor) : UInt64 :=
  (d.addrH.toUInt64 <<< 32) ||| (d.addrLRsvdDataID.toUInt64 &&& descriptorAddrLMask)

def descriptorPageSize (d : HailoVdmaDescriptor) : UInt32 :=
  d.pageSizeDescControl >>> descriptorPageSizeShift.toUInt32

/-- `(desc_page_size << 8) + 2` -/
def defaultPageSizeDescControl (descPageSize : UInt16) : UInt32 :=
  (descPageSize.toUInt32 <<< descriptorPageSizeShift.toUInt32) + descriptorDescControl.toUInt32

theorem testBit_addrLMask (i : Nat) :
    descriptorAddrLMask.toNat.testBit i = (decide (6 ≤ i) && decide (i < 32)) := by
  have hmask : descriptorAddrLMask.toNat = (2 ^ 26 - 1) <<< 6 := by decide
  rw [hmask, Nat.testBit_shiftLeft, Nat.testBit_two_pow_sub_one]
  rcases Nat.lt_or_ge i 6 with hlt | hge
  · simp [Nat.not_le.mpr hlt]
  · simp only [hge, decide_true, Bool.true_and]
    congr 1
    exact propext ⟨fun h => by omega, fun h => by omega⟩

theorem testBit_of_dvd_64 {n i : Nat} (h : 64 ∣ n) (hi : i < 6) : n.testBit i = false := by
  obtain ⟨c, rfl⟩ := h
  have hshift : 64 * c = c <<< 6 := by rw [Nat.shiftLeft_eq, Nat.mul_comm]
  rw [hshift, Nat.testBit_shiftLeft, decide_eq_false (by omega), Bool.false_and]

theorem testBit_of_lt_64 {n i : Nat} (h : n < 64) (hi : 6 ≤ i) : n.testBit i = false :=
  Nat.testBit_lt_two_pow (h.trans_le (Nat.pow_le_pow_right (n := 2) (by decide) hi))

/-- An address of a 64-byte granule survives the two address words. -/
theorem descriptorAddress_pageDescriptor {dataId : UInt8} (hdataId : dataId.toNat < 64)
    {p : PageEntry} (haddr : 64 ∣ p.addr.toNat) :
    descriptorAddress (pageDescriptor dataId p) = p.addr := by
  rw [← UInt64.toNat_inj]
  apply Nat.eq_of_testBit_eq
  intro i
  simp only [descriptorAddress, pageDescriptor, hailoVdmaProgramDescriptor]
  rw [UInt64.toNat_or, UInt64.toNat_and, UInt64.toNat_shiftLeft, UInt32.toNat_toUInt64,
    UInt32.toNat_toUInt64, UInt64.toNat_toUInt32, UInt64.toNat_toUInt32, UInt64.toNat_or,
    UInt64.toNat_and, UInt64.toNat_shiftRight, UInt8.toNat_toUInt64]
  have hshift : UInt64.toNat 32 % 64 = 32 := rfl
  simp only [Nat.testBit_or, Nat.testBit_and, Nat.testBit_mod_two_pow, Nat.testBit_shiftLeft,
    Nat.testBit_shiftRight, testBit_addrLMask, hshift]
  by_cases hlow : i < 6
  · simp [Nat.not_le.mpr hlow, testBit_of_dvd_64 haddr hlow, show ¬ 32 ≤ i by omega]
  · rw [testBit_of_lt_64 hdataId (Nat.not_lt.mp hlow)]
    by_cases hmid : i < 32
    · simp [hmid, Nat.not_lt.mp hlow, show ¬ 32 ≤ i by omega]
    · by_cases hhigh : i < 64
      · simp [hhigh, hmid, Nat.not_lt.mp hmid, Nat.add_sub_of_le (Nat.not_lt.mp hmid),
          show i - 32 < 32 by omega]
      · have hzero : p.addr.toNat.testBit i = false := Nat.testBit_lt_two_pow
          (p.addr.toNat_lt.trans_le (Nat.pow_le_pow_right (by decide) (Nat.not_lt.mp hhigh)))
        simp [hhigh, hmid, hzero]

theorem toNat_pageSizeDescControl (dmaAddress : UInt64) (dataId : UInt8) (pageSize : UInt32)
    (h : pageSize.toNat < 2 ^ 16) :
    (hailoVdmaProgramDescriptor dmaAddress pageSize.toUInt64 dataId).pageSizeDescControl.toNat =
      pageSize.toNat * 2 ^ 8 + 2 := by
  simp only [hailoVdmaProgramDescriptor, descriptorPageSizeShift, descriptorDescControl,
    UInt64.toNat_toUInt32, UInt64.toNat_add, UInt64.toNat_shiftLeft, UInt32.toNat_toUInt64,
    Nat.shiftLeft_eq]
  simp
  omega

theorem toNat_defaultPageSizeDescControl (descPageSize : UInt16) :
    (defaultPageSizeDescControl descPageSize).toNat = descPageSize.toNat * 2 ^ 8 + 2 := by
  have hlt := descPageSize.toNat_lt
  simp only [defaultPageSizeDescControl, descriptorPageSizeShift, descriptorDescControl,
    UInt32.toNat_add, UInt32.toNat_shiftLeft, UInt16.toNat_toUInt32, Nat.shiftLeft_eq]
  simp
  omega

/-- A page of the list's page size is programmed with the default word. -/
theorem pageDescriptor_default (dataId : UInt8) {p : PageEntry} {descPageSize : UInt16}
    (h : p.size = descPageSize.toUInt32) :
    (pageDescriptor dataId p).pageSizeDescControl = defaultPageSizeDescControl descPageSize := by
  have hlt := descPageSize.toNat_lt
  have hsize : p.size.toNat = descPageSize.toNat := by rw [h, UInt16.toNat_toUInt32]
  rw [← UInt32.toNat_inj, pageDescriptor, toNat_pageSizeDescControl _ _ _ (by omega), hsize,
    toNat_defaultPageSizeDescControl]

/-- A bitmask of one byte leaves the page size of a word alone. -/
theorem shiftRight_or_of_lt {w b : Nat} (hb : b < 2 ^ 8) : (w ||| b) >>> 8 = w >>> 8 := by
  rw [Nat.shiftRight_or_distrib, Nat.shiftRight_eq_div_pow b, Nat.div_eq_of_lt hb, Nat.or_zero]

theorem toNat_or_bitmask {w : UInt32} {bitmask : UInt64} (h : bitmask.toNat < 2 ^ 8) :
    (w.toUInt64 ||| bitmask).toUInt32.toNat = w.toNat ||| bitmask.toNat := by
  rw [UInt64.toNat_toUInt32, UInt64.toNat_or, UInt32.toNat_toUInt64]
  exact Nat.mod_eq_of_lt (Nat.or_lt_two_pow w.toNat_lt (h.trans (by decide)))

theorem descriptorPageSize_or {d : HailoVdmaDescriptor} {bitmask : UInt64}
    (h : bitmask.toNat < 2 ^ 8) :
    descriptorPageSize { d with
      pageSizeDescControl := (d.pageSizeDescControl.toUInt64 ||| bitmask).toUInt32 } =
      descriptorPageSize d := by
  rw [← UInt32.toNat_inj]
  simp only [descriptorPageSize, UInt32.toNat_shiftRight]
  rw [toNat_or_bitmask h]
  exact shiftRight_or_of_lt h

theorem descriptorPageSize_pageDescriptor {dataId : UInt8} {p : PageEntry}
    (h : p.size.toNat < 2 ^ 16) : descriptorPageSize (pageDescriptor dataId p) = p.size := by
  rw [← UInt32.toNat_inj]
  simp only [descriptorPageSize, UInt32.toNat_shiftRight]
  rw [pageDescriptor, toNat_pageSizeDescControl _ _ _ h]
  have hshift : descriptorPageSizeShift.toUInt32.toNat % 32 = 8 := rfl
  rw [hshift, Nat.shiftRight_eq_div_pow]
  omega

theorem getInterruptsBitmask_lt {vdmaHw : HailoVdmaHw}
    (hhost : vdmaHw.hostInterruptsBitmask.toNat < 2 ^ 8)
    (hdevice : vdmaHw.deviceInterruptsBitmask.toNat < 2 ^ 8)
    (interruptsDomain : HailoVdmaInterruptsDomain) (isDebug : Bool) :
    (getInterruptsBitmask vdmaHw interruptsDomain isDebug).toNat < 2 ^ 8 := by
  have hzero : (0 : UInt64).toNat < 2 ^ 8 := by decide
  have hor {a b : UInt64} (ha : a.toNat < 2 ^ 8) (hb : b.toNat < 2 ^ 8) :
      (a ||| b).toNat < 2 ^ 8 := by
    rw [UInt64.toNat_or]
    exact Nat.or_lt_two_pow ha hb
  have hdomains : ((if hailoVdmaInterruptsDomainDevice &&& interruptsDomain ≠ 0 then
      vdmaHw.deviceInterruptsBitmask else 0) |||
      (if hailoVdmaInterruptsDomainHost &&& interruptsDomain ≠ 0 then
      vdmaHw.hostInterruptsBitmask else 0)).toNat < 2 ^ 8 := by
    refine hor ?_ ?_
    · split
      · exact hdevice
      · exact hzero
    · split
      · exact hhost
      · exact hzero
  have hrequests (b : UInt64) (hb : b.toNat < 2 ^ 8) :
      (if b ≠ 0 then b ||| (descRequestIrqProcessed ||| descRequestIrqErr) |||
        (if isDebug then descStatusReq ||| descStatusReqErr else 0) else b).toNat < 2 ^ 8 := by
    split
    · refine hor (hor hb ?_) ?_
      · decide
      · cases isDebug
        · exact hzero
        · decide
    · exact hb
  exact hrequests _ hdomains

/-- `program_last_desc` adds the control byte where binding ors it in. -/
theorem programLastDesc_word {size : UInt32} {bitmask : UInt64} (hsize : size.toNat < 2 ^ 16)
    (h : bitmask.toNat < 2 ^ 8) (dmaAddress : UInt64) (dataId : UInt8) :
    (size <<< 8) + (descriptorDescControl ||| bitmask).toUInt8.toUInt32 =
      ((hailoVdmaProgramDescriptor dmaAddress size.toUInt64 dataId).pageSizeDescControl.toUInt64
        ||| bitmask).toUInt32 := by
  have hcontrol : (descriptorDescControl ||| bitmask).toUInt8.toUInt32.toNat =
      2 ||| bitmask.toNat := by
    rw [UInt8.toNat_toUInt32, UInt64.toNat_toUInt8, UInt64.toNat_or]
    exact Nat.mod_eq_of_lt (Nat.or_lt_two_pow (by decide) h)
  have hshift : (size <<< 8).toNat = 2 ^ 8 * size.toNat := by
    rw [UInt32.toNat_shiftLeft, Nat.shiftLeft_eq, Nat.mul_comm]
    exact Nat.mod_eq_of_lt (by simp; omega)
  have hbyte : 2 ||| bitmask.toNat < 2 ^ 8 := Nat.or_lt_two_pow (by decide) h
  rw [← UInt32.toNat_inj, toNat_or_bitmask h, toNat_pageSizeDescControl _ _ _ hsize,
    toNat_add_of_lt (by omega), hshift, hcontrol, Nat.two_pow_add_eq_or_of_lt hbyte,
    ← Nat.or_assoc, ← Nat.two_pow_add_eq_or_of_lt (by decide : 2 < 2 ^ 8), Nat.mul_comm]

end HailortDrivers.DescriptorWords
