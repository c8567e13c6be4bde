import HailortDrivers.BootProgramming
import HailortDrivers.PagePacking
import HailortDrivers.ScatterGatherCoverage
import Mathlib.Data.Nat.Bitwise

/-!
What one chunk of a boot file leaves in the two descriptors lists of a channel: the pages of
the channel's memory on the host side, and a run of device addresses on the device side, whose
whole pages get the default stride as their size.
-/
namespace HailortDrivers.BootDescriptors
open KernelExec MachineWord VdmaTypes DescriptorProgramming SegmentSlicing
open DescriptorsListCreation ProgrammedPages BoundBuffers BufferPages DescriptorWords
open ScatterGatherCoverage BootProgramming

/-- A list that `pcie_vdme_allocate_boot_resources` creates. -/
def BootList (l : HailoVdmaDescriptorsList) : Prop :=
  ∃ memory, hailoDescListCreate maxSgDescsCount (UInt16.ofNat hailoPciOverVdmaPageSize) false
    (some memory) = .ok l

/-- The DMA entries of a table over whole pages. -/
structure WholePages (sgl : List ScatterEntry) : Prop where
  address : ∀ e ∈ sgl, 64 ∣ e.dmaAddress.toNat
  length : ∀ e ∈ sgl, hailoPciOverVdmaPageSize ∣ e.dmaLen.toNat

/-- The descriptor asks the device to interrupt the host. -/
def raisesHostInterrupt (d : HailoVdmaDescriptor) : Bool :=
  d.pageSizeDescControl.toUInt64 &&& hailoPcieVdmaHw.hostInterruptsBitmask != 0

section Lists
variable {l : HailoVdmaDescriptorsList}

theorem BootList.eq (h : BootList l) :
    l = { descList := l.descList, descCount := 65536, descCountMask := 65535,
          descPageSize := 512, isCircular := false } := by
  obtain ⟨memory, h⟩ := h
  cases h
  rfl

theorem BootList.withDescs (h : BootList l) (descs : Nat → HailoVdmaDescriptor) :
    BootList (l.withDescs descs) := by
  rw [h.eq]
  exact ⟨descs, rfl⟩

theorem BootList.of_sameShape (h : BootList l) {l' : HailoVdmaDescriptorsList}
    (hshape : SameShape l l') : BootList l' := by
  obtain ⟨descs, rfl⟩ := hshape
  exact h.withDescs descs

theorem BootList.wellFormed (h : BootList l) : WellFormed l := by
  obtain ⟨memory, h⟩ := h
  have h' : hailoDescListCreate (65536 : UInt64).toUInt32 512 false (some memory) = .ok l := h
  exact hailoDescListCreate_wellFormed (fun hcircular => Bool.noConfusion hcircular) h'

theorem BootList.descCount (h : BootList l) : l.descCount.toNat = 65536 := by
  rw [h.eq]
  rfl

theorem BootList.descPageSize (h : BootList l) : l.descPageSize.toNat = 512 := by
  rw [h.eq]
  rfl

theorem BootList.indicesAt (h : BootList l) {i : UInt32} {n : Nat}
    (hroom : i.toNat + n ≤ 65536) :
    IndicesAt l.descCountMask i l.descCount.toNat i.toNat n := by
  have hcount := h.descCount
  exact indicesAt_of_wellFormed h.wellFormed (toNat_pos_iff.mp (by omega)) (by omega)
    (Or.inr (by omega))

end Lists

section Interrupts

theorem raisesHostInterrupt_eq (d : HailoVdmaDescriptor) :
    raisesHostInterrupt d = hailoTestBit 5 d.pageSizeDescControl := by
  have hmask : hailoPcieVdmaHw.hostInterruptsBitmask.toNat = 2 ^ 5 := rfl
  rw [raisesHostInterrupt, hailoTestBit, Bool.eq_iff_iff, bne_iff_ne, ne_eq,
    ← UInt64.toNat_inj, UInt64.toNat_and, hmask, UInt32.toNat_toUInt64, Nat.and_two_pow]
  cases d.pageSizeDescControl.toNat.testBit 5 with
  | false => simp
  | true => simp

theorem raisesHostInterrupt_pageDescriptor {dataId : UInt8} {p : PageEntry}
    (hsize : p.size.toNat < 2 ^ 16) : raisesHostInterrupt (pageDescriptor dataId p) = false := by
  rw [raisesHostInterrupt_eq, hailoTestBit, pageDescriptor,
    toNat_pageSizeDescControl _ _ _ hsize, Nat.mul_comm,
    Nat.testBit_two_pow_mul_add _ (by decide)]
  rfl

theorem raisesHostInterrupt_or {d : HailoVdmaDescriptor} (raiseInt : Bool) :
    raisesHostInterrupt { d with
      pageSizeDescControl := (d.pageSizeDescControl.toUInt64 ||| getInterruptsBitmask
        hailoPcieVdmaHw (if raiseInt then hailoVdmaInterruptsDomainHost
          else hailoVdmaInterruptsDomainNone) false).toUInt32 } =
      (raisesHostInterrupt d || raiseInt) := by
  rw [raisesHostInterrupt_eq, raisesHostInterrupt_eq, hailoTestBit, hailoTestBit,
    toNat_or_bitmask (getInterruptsBitmask_lt (by decide) (by decide) _ _), Nat.testBit_or]
  congr 1
  cases raiseInt with
  | false => decide
  | true => decide

end Interrupts

section Host
variable {l l' : HailoVdmaDescriptorsList} {startingDesc : UInt32}
  {buffer : HailoVdmaMappedTransferBuffer} {channelIndex : UInt8} {raiseInt : Bool} {ret : Int32}

/-- Host descriptors `start` to `start + n - 1` hold `bytes` bytes of the memory behind `sgl`
from byte `start * 512` on, and only the last can raise an interrupt. -/
structure HostChunk (sgl : List ScatterEntry) (l l' : HailoVdmaDescriptorsList)
    (start n bytes : Nat) (raiseInt : Bool) : Prop where
  bootList : BootList l'
  base : ∀ j < n, (allBytes (segments sgl))[(start + j) * 512]? =
    some (descriptorSegment (l'.descList (start + j))).base
  len : ∀ j < n, (descriptorSegment (l'.descList (start + j))).len = min 512 (bytes - j * 512)
  interrupt : ∀ j < n, raisesHostInterrupt (l'.descList (start + j)) =
    (raiseInt && decide (j + 1 = n))
  frame : ∀ x, x < start ∨ start + n ≤ x → l'.descList x = l.descList x

theorem segments_aligned {P : Nat} {sgl : List ScatterEntry}
    (h : ∀ e ∈ sgl, P ∣ e.dmaLen.toNat) : AlignedButLast P (segments sgl) := by
  intro s hs
  obtain ⟨e, he, rfl⟩ := List.mem_map.mp (List.mem_of_mem_dropLast hs)
  exact h e he

theorem size_le_of_mem_boundPages (hl : BootList l) (hfits : Fits l startingDesc buffer)
    {p : PageEntry} (hp : p ∈ boundPages hailoPcieVdmaHw l channelIndex buffer) :
    p.size.toNat ≤ 512 := by
  have hP : 0 < l.descPageSize.toNat := by
    rw [hl.descPageSize]
    decide
  rw [boundPages_eq hP _ _ hfits.totalLen_boundSegments] at hp
  obtain ⟨s, hs, rfl⟩ := List.mem_map.mp hp
  have hle := len_le_of_mem_allPages hs
  rw [hl.descPageSize] at hle
  rw [pageOfSegment, toNat_ofNat_of_lt (by omega)]
  exact hle

/-- No descriptor raises an interrupt before the bits of the last are added. -/
theorem raisesHostInterrupt_written (hl : BootList l) (hfits : Fits l startingDesc buffer)
    {j : Nat} (hroom : startingDesc.toNat + descsNeeded l buffer ≤ 65535)
    (hj : j < descsNeeded l buffer) :
    raisesHostInterrupt (writePages l.descCountMask hailoPcieVdmaHw.ddrDataId startingDesc
      (boundPages hailoPcieVdmaHw l channelIndex buffer) l.descList (startingDesc.toNat + j)) =
        false := by
  have hP : 0 < l.descPageSize.toNat := by
    rw [hl.descPageSize]
    decide
  have hcount := hl.descCount
  have hlen : (boundPages hailoPcieVdmaHw l channelIndex buffer).length = descsNeeded l buffer :=
    length_boundPages hP _ _
  have hindices : IndicesAt l.descCountMask startingDesc l.descCount.toNat startingDesc.toNat
      (descsNeeded l buffer) := hl.indicesAt (by omega)
  rw [← hlen] at hindices hj
  have hhit : writePages l.descCountMask hailoPcieVdmaHw.ddrDataId startingDesc
      (boundPages hailoPcieVdmaHw l channelIndex buffer) l.descList
        ((startingDesc.toNat + j) % l.descCount.toNat) = _ :=
    writePages_hit hindices (by omega) hj
  rw [Nat.mod_eq_of_lt (by omega)] at hhit
  rw [hhit]
  have hle := size_le_of_mem_boundPages hl hfits (List.getElem_mem hj)
  exact raisesHostInterrupt_pageDescriptor (by omega)

@[simp] theorem boundList_descCount {vdmaHw : HailoVdmaHw}
    {lastDescInterrupts : HailoVdmaInterruptsDomain} {isDebug : Bool} :
    (boundList vdmaHw l startingDesc buffer channelIndex lastDescInterrupts isDebug).descCount =
      l.descCount := rfl

section Bound
variable (hl : BootList l) (hfits : Fits l startingDesc buffer)
  (hroom : startingDesc.toNat + descsNeeded l buffer ≤ 65535)
include hl hfits hroom

theorem boundList_interrupt {j : Nat} (hj : j < descsNeeded l buffer) :
    raisesHostInterrupt ((boundList hailoPcieVdmaHw l startingDesc buffer channelIndex
        (if raiseInt then hailoVdmaInterruptsDomainHost else hailoVdmaInterruptsDomainNone)
        false).descList (startingDesc.toNat + j)) =
      (raiseInt && decide (j + 1 = descsNeeded l buffer)) := by
  have hcount := hl.descCount
  have hwritten : raisesHostInterrupt (writePages l.descCountMask hailoPcieVdmaHw.ddrDataId
      startingDesc (boundPages hailoPcieVdmaHw l channelIndex buffer) l.descList
      (startingDesc.toNat + j)) = false := raisesHostInterrupt_written hl hfits hroom hj
  have hlast : (UInt32.ofNat ((startingDesc.toNat + descsNeeded l buffer - 1) %
      l.descCount.toNat)).toNat = startingDesc.toNat + (descsNeeded l buffer - 1) := by
    rw [Nat.add_sub_assoc (by omega), Nat.mod_eq_of_lt (by omega), toNat_ofNat_of_lt (by omega)]
  simp only [boundList, orPageSizeDescControl, HailoVdmaDescriptorsList.store,
    HailoVdmaDescriptorsList.withDescs_descList, hlast]
  by_cases hj' : j + 1 = descsNeeded l buffer
  · obtain rfl : j = descsNeeded l buffer - 1 := by omega
    rw [Function.update_self, raisesHostInterrupt_or, hwritten, Bool.false_or,
      decide_eq_true hj', Bool.and_true]
  · rw [Function.update_of_ne (by omega), hwritten, decide_eq_false hj', Bool.and_false]

theorem boundList_segment (hsgl : WholePages buffer.sgTable.sgl)
    {lastDescInterrupts : HailoVdmaInterruptsDomain} {j : Nat} (hsize : 0 < buffer.size.toNat)
    (hj : j < descsNeeded l buffer) :
    (allBytes (segments buffer.sgTable.sgl))[buffer.offset.toNat + j * 512]? =
        some (descriptorSegment ((boundList hailoPcieVdmaHw l startingDesc buffer channelIndex
          lastDescInterrupts false).descList (startingDesc.toNat + j))).base ∧
      (descriptorSegment ((boundList hailoPcieVdmaHw l startingDesc buffer channelIndex
          lastDescInterrupts false).descList (startingDesc.toNat + j))).len =
        min 512 (buffer.size.toNat - j * 512) := by
  have hpage := hl.descPageSize
  have hcount := hl.descCount
  have hsegment := @boundList_page hailoPcieVdmaHw l startingDesc buffer channelIndex
    lastDescInterrupts false hailoPcieVdmaHw_plainAddresses hl.wellFormed (by omega)
    (by rw [hpage]; decide) hsgl.address (by rw [hpage]; exact segments_aligned hsgl.length) hsize
    hfits (by omega) j hj
  rwa [hpage, Nat.mod_eq_of_lt (by omega)] at hsegment

end Bound

theorem bind_hostChunk (hl : BootList l) (hsgl : WholePages buffer.sgTable.sgl)
    (hoffset : buffer.offset.toNat = startingDesc.toNat * 512) (hsize : 0 < buffer.size.toNat)
    (hroom : startingDesc.toNat * 512 + buffer.size.toNat ≤ 65535 * 512) (hret : 0 ≤ ret.toInt)
    (h : bindAndProgramDescriptorsList hailoPcieVdmaHw l startingDesc buffer channelIndex
      (if raiseInt then hailoVdmaInterruptsDomainHost else hailoVdmaInterruptsDomainNone) false
      defaultStride = .ok (ret, l')) :
    ret.toInt = buffer.size.toNat ⌈/⌉ 512 ∧
      HostChunk buffer.sgTable.sgl l l' startingDesc.toNat (buffer.size.toNat ⌈/⌉ 512)
        buffer.size.toNat raiseInt := by
  have hpage := hl.descPageSize
  have hcount := hl.descCount
  obtain ⟨hP, hfits, hn, rfl⟩ := bind_nonneg hl.wellFormed hsize (by omega) hret h
  have hcov := hfits.totalLen_boundSegments
  have hneeded : descsNeeded l buffer = buffer.size.toNat ⌈/⌉ 512 := by
    rw [descsNeeded_aligned hP hsize (by rw [hpage]; exact segments_aligned hsgl.length)
      hfits.offset_dvd hcov, hpage]
  have hend : startingDesc.toNat + descsNeeded l buffer ≤ 65535 := by
    have hle : buffer.size.toNat ⌈/⌉ 512 ≤ 65535 - startingDesc.toNat := by
      rw [ceilDiv_le_iff_le_mul (by decide)]
      omega
    omega
  rw [← hneeded]
  refine ⟨hn, hl.of_sameShape (bindAndProgramDescriptorsList_sameShape h), ?_, ?_, ?_, ?_⟩
  · intro j hj
    rw [Nat.add_mul, ← hoffset]
    exact (boundList_segment hl hfits hend hsgl hsize hj).1
  · intro j hj
    exact (boundList_segment hl hfits hend hsgl hsize hj).2
  · intro j hj
    exact boundList_interrupt hl hfits hend hj
  · intro x hx
    refine boundList_frame hl.wellFormed hP hfits (by omega) (descsNeeded_pos hP hsize hcov) ?_
    intro j hj
    rw [Nat.mod_eq_of_lt (by omega)]
    omega

end Host

section Device
variable {l l' : HailoVdmaDescriptorsList} {startingDesc chunkSize : UInt32}
  {chunkAddr : UInt64} {ret : Int32}

/-- Device descriptors `start` to `start + n - 1` go through the device's memory from `address`
on, but only one that is not a whole page has its size. -/
structure DeviceChunk (l l' : HailoVdmaDescriptorsList) (start n bytes address : Nat) : Prop where
  bootList : BootList l'
  address : 64 ∣ address → ∀ j < n,
    (descriptorAddress (l'.descList (start + j))).toNat = address + j * 512
  size : ∀ j < n, (descriptorPageSize (l'.descList (start + j))).toNat =
    if 512 ≤ bytes - j * 512 then 0 else bytes - j * 512
  frame : ∀ x, x < start ∨ start + n ≤ x → l'.descList x = l.descList x

theorem toNat_lastChunkSize_zero {bytes : Nat} (hbytes : bytes = chunkSize.toNat) :
    (lastChunkSize 512 defaultStride chunkSize).toNat = bytes % 512 := by
  have hmod : (chunkSize % 512).toNat = bytes % 512 := by rw [UInt32.toNat_mod, hbytes]; rfl
  have hlt := Nat.mod_lt bytes (by decide : 512 > 0)
  rw [lastChunkSize]
  split
  · next hzero => rw [← hmod, hzero]; rfl
  · rw [UInt16.toNat_toUInt32, UInt32.toNat_toUInt16, hmod, Nat.mod_eq_of_lt (by omega)]

theorem inChunk_deviceChunk (hl : BootList l)
    (hspace : chunkAddr.toNat + chunkSize.toNat < 2 ^ 64) (hsize : 0 < chunkSize.toNat)
    (hroom : startingDesc.toNat * 512 + chunkSize.toNat ≤ 65535 * 512)
    (h : hailoVdmaProgramDescriptorsInChunk chunkAddr chunkSize l startingDesc (l.descCount - 1)
      hailoPciEpHostDmaDataId defaultStride 0 = .ok (ret, l')) :
    ret.toInt = chunkSize.toNat ⌈/⌉ 512 ∧
      DeviceChunk l l' startingDesc.toNat (chunkSize.toNat ⌈/⌉ 512) chunkSize.toNat
        chunkAddr.toNat := by
  have hpage : l.descPageSize.toUInt32 = 512 := by
    rw [hl.eq]
    rfl
  have hcount := hl.descCount
  have hn : (descsToProgram 512 chunkSize).toNat = chunkSize.toNat ⌈/⌉ 512 :=
    toNat_descsToProgram (by decide) (by
      have h512 : (512 : UInt32).toNat = 512 := rfl
      omega)
  have hpos : 0 < chunkSize.toNat ⌈/⌉ 512 := ceilDiv_pos (by decide) hsize
  have hend : startingDesc.toNat + chunkSize.toNat ⌈/⌉ 512 ≤ 65535 := by
    have hle : chunkSize.toNat ⌈/⌉ 512 ≤ 65535 - startingDesc.toNat := by
      rw [ceilDiv_le_iff_le_mul (by decide)]
      omega
    omega
  have hmax : (l.descCount - 1 + 1).toNat = 65536 := by rw [UInt32.sub_add_cancel, hcount]
  rw [hailoVdmaProgramDescriptorsInChunk_eq hpage (by decide), if_neg] at h
  swap
  · rw [gt_iff_lt, UInt32.lt_iff_toNat_lt, hmax, toNat_add_of_lt (by omega), hn]
    omega
  obtain ⟨rfl, rfl⟩ := Prod.mk.inj (Except.ok.inj h)
  rw [toNat_add_sub_one (by omega) (by omega), hn, UInt64.or_zero]
  generalize hpages : chunkPages (512 : UInt32).toUInt64 defaultStride
    (lastChunkSize 512 defaultStride chunkSize)
    (startingDesc.toNat + chunkSize.toNat ⌈/⌉ 512 - 1 - startingDesc.toNat) chunkAddr = pages
  have hlen : pages.length = chunkSize.toNat ⌈/⌉ 512 := by
    rw [← hpages, length_chunkPages]
    omega
  have hindices : IndicesAt l.descCountMask startingDesc l.descCount.toNat startingDesc.toNat
      pages.length := hl.indicesAt (by omega)
  have hwritten (j : Nat) (hj : j < pages.length) :
      writePages l.descCountMask hailoPciEpHostDmaDataId startingDesc pages l.descList
        (startingDesc.toNat + j) = pageDescriptor hailoPciEpHostDmaDataId pages[j] := by
    rw [← writePages_hit hindices (by omega) hj, Nat.mod_eq_of_lt (by omega)]
  have hpageAt (j : Nat) (hj : j < pages.length) : pages[j] =
      ⟨ByteAddress.advance chunkAddr (j * 512), if j + 1 < chunkSize.toNat ⌈/⌉ 512 then
        defaultStride else lastChunkSize 512 defaultStride chunkSize⟩ := by
    subst hpages
    simp only [chunkPages_eq, List.getElem_map, List.getElem_range]
    congr 1
    refine if_congr ?_ rfl rfl
    omega
  have hlast : chunkSize.toNat ≤ 512 * (chunkSize.toNat ⌈/⌉ 512) :=
    (ceilDiv_le_iff_le_mul (by decide)).mp le_rfl
  have hdataId : hailoPciEpHostDmaDataId.toNat < 64 := by
    have hsix : hailoPciEpHostDmaDataId.toNat = 6 := rfl
    omega
  refine ⟨?_, hl.withDescs _, ?_, ?_, ?_⟩
  · rw [toInt_toInt32_of_lt (by omega), hn]
  · intro haddr j hj
    have hsmall := (PagePacking.lt_ceilDiv_iff (by decide : 0 < 512)).mp hj
    have hadvance : (ByteAddress.advance chunkAddr (j * 512)).toNat =
        chunkAddr.toNat + j * 512 := by
      have h := UInt64.toNat_add chunkAddr (UInt64.ofNat (j * 512))
      rw [UInt64.toNat_ofNat_of_lt' (show j * 512 < 2 ^ 64 by omega),
        Nat.mod_eq_of_lt (by omega)] at h
      exact h
    rw [HailoVdmaDescriptorsList.withDescs_descList, hwritten j (by omega),
      descriptorAddress_pageDescriptor hdataId, hpageAt j (by omega), hadvance]
    rw [hpageAt j (by omega), hadvance]
    omega
  · intro j hj
    have hsmall := (PagePacking.lt_ceilDiv_iff (by decide : 0 < 512)).mp hj
    have hres : (lastChunkSize 512 defaultStride chunkSize).toNat = chunkSize.toNat % 512 :=
      toNat_lastChunkSize_zero rfl
    rw [HailoVdmaDescriptorsList.withDescs_descList, hwritten j (by omega),
      descriptorPageSize_pageDescriptor]
    · rw [hpageAt j (by omega)]
      simp only
      split
      · next hbefore =>
        have hnext := (PagePacking.lt_ceilDiv_iff (by decide : 0 < 512)).mp hbefore
        rw [if_pos (by omega)]
        rfl
      · rw [hres]
        split
        · omega
        · omega
    · rw [hpageAt j (by omega)]
      simp only
      split
      · decide
      · omega
  · intro x hx
    refine writePages_miss hindices fun j hj => ?_
    rw [Nat.mod_eq_of_lt (by omega)]
    omega

end Device

end HailortDrivers.BootDescriptors
