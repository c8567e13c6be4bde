import HailortDrivers.BufferPages
import HailortDrivers.DescriptorWords

/-! Binding covers the buffer: read back as address and page size, the
descriptors that it used hold the buffer's bytes, in order, and no others. -/
namespace HailortDrivers.ScatterGatherCoverage
open KernelExec MachineWord VdmaTypes DescriptorProgramming SegmentSlicing
open DescriptorsListCreation ProgrammedPages BoundBuffers BufferPages DescriptorWords

/-- The run of bytes a descriptor points the device at. -/
def descriptorSegment (d : HailoVdmaDescriptor) : Segment UInt64 :=
  ⟨descriptorAddress d, (descriptorPageSize d).toNat⟩

/-- The `n` descriptors from `startingDesc` on. -/
def descriptorsFrom (l : HailoVdmaDescriptorsList) (startingDesc : UInt32) (n : Nat) :
    List HailoVdmaDescriptor :=
  (List.range n).map fun j => l.descList ((startingDesc.toNat + j) % l.descCount.toNat)

/-- The hardware object puts no channel into an address and leaves the address
bits and the page size bits of a descriptor to the transfer. -/
structure PlainAddresses (vdmaHw : HailoVdmaHw) : Prop where
  maskedChannelId : ∀ channelId, vdmaHw.getMaskedChannelId channelId = 0
  ddrDataId : vdmaHw.ddrDataId.toNat < 64
  hostInterrupts : vdmaHw.hostInterruptsBitmask.toNat < 2 ^ 8
  deviceInterrupts : vdmaHw.deviceInterruptsBitmask.toNat < 2 ^ 8

theorem hailoPcieVdmaHw_plainAddresses : PlainAddresses hailoPcieVdmaHw :=
  ⟨fun _ => rfl, by decide, by decide, by decide⟩

section
variable {vdmaHw : HailoVdmaHw} {l l' : HailoVdmaDescriptorsList} {startingDesc : UInt32}
  {buffer : HailoVdmaMappedTransferBuffer} {channelIndex : UInt8}
  {lastDescInterrupts : HailoVdmaInterruptsDomain} {isDebug : Bool} {n : Int32}

theorem hailoVdmaProgramDescriptorsInChunk_noFault (hP : l.descPageSize.toUInt32 ≠ 0)
    (chunkAddr : UInt64) (chunkSize descIndex maxDescIndex : UInt32) (dataId : UInt8)
    (stride : UInt32) (maskedChannelId : UInt64) :
    ∃ ret descs, hailoVdmaProgramDescriptorsInChunk chunkAddr chunkSize l descIndex maxDescIndex
      dataId stride maskedChannelId = .ok (ret, l.withDescs descs) := by
  rw [hailoVdmaProgramDescriptorsInChunk_eq rfl hP]
  split
  · exact ⟨_, l.descList, rfl⟩
  · exact ⟨_, _, rfl⟩

theorem bindSgEntries_noFault {bufferOffset maxDescIndex stride : UInt32} {dataId : UInt8}
    {maskedChannelId : UInt64} {es : List ScatterEntry} {c : BindCursor}
    (hP : c.descList.descPageSize.toUInt32 ≠ 0) :
    ∃ exit, bindSgEntries bufferOffset maxDescIndex dataId stride maskedChannelId es c =
      .ok exit := by
  induction es generalizing c with
  | nil => exact ⟨_, rfl⟩
  | cons e es ih =>
    obtain ⟨ret, descs, hchunk⟩ := hailoVdmaProgramDescriptorsInChunk_noFault hP
      (chunkOfEntry e c.bufferCurrentOffset bufferOffset.toNat).1
      (min c.programSize (chunkOfEntry e c.bufferCurrentOffset bufferOffset.toNat).2)
      c.startingDesc maxDescIndex dataId stride maskedChannelId
    rw [bindSgEntries]
    simp only [hchunk, ok_bind]
    split
    · exact ih hP
    · split
      · exact ih hP
      · split
        · exact ⟨_, rfl⟩
        · split
          · exact ⟨_, rfl⟩
          · split
            · exact ⟨_, rfl⟩
            · exact ih hP

theorem bindAndProgramDescriptorsList_noFault (hP : 0 < l.descPageSize.toNat) :
    ∃ n l', bindAndProgramDescriptorsList vdmaHw l startingDesc buffer channelIndex
      lastDescInterrupts isDebug defaultStride = .ok (n, l') := by
  rw [bind_defaultStride hP]
  split
  · next hcheck =>
    have hcount : l.descCount ≠ 0 := toNat_pos_iff.mp (by omega)
    rw [bindFromStart]
    obtain ⟨exit, hexit⟩ := bindSgEntries_noFault (c := ⟨0, startingDesc, buffer.size, 0, l⟩)
      (toNat_pos_iff.mp (by simpa using hP))
    rw [hexit, ok_bind]
    cases exit with
    | failed err descList => exact ⟨_, _, rfl⟩
    | walked c =>
      simp only [umod_of_ne hcount, ok_bind]
      split
      · exact ⟨_, _, rfl⟩
      · exact ⟨_, _, rfl⟩
  · exact ⟨_, _, rfl⟩

theorem descriptorSegment_pageOfSegment {dataId : UInt8} (hdataId : dataId.toNat < 64)
    {s : Segment UInt64} (hbase : 64 ∣ s.base.toNat) (hlen : s.len < 2 ^ 16) :
    descriptorSegment (pageDescriptor dataId (pageOfSegment s)) = s := by
  have hsize : (pageOfSegment s).size.toNat = s.len := toNat_ofNat_of_lt (by omega)
  rw [descriptorSegment, descriptorAddress_pageDescriptor hdataId hbase,
    descriptorPageSize_pageDescriptor (by omega), hsize]
  rfl

/-- The interrupt bits in the last descriptor do not change what it points at. -/
theorem descriptorSegment_stridedList (hhw : PlainAddresses vdmaHw) (stride : UInt32) (x : Nat) :
    descriptorSegment ((stridedList vdmaHw l startingDesc buffer channelIndex lastDescInterrupts
        isDebug stride).descList x) =
      descriptorSegment (writePages l.descCountMask vdmaHw.ddrDataId startingDesc
        (slicePages l.descPageSize.toUInt32 stride
          (vdmaHw.getMaskedChannelId (getChannelId channelIndex)) (boundSegments buffer))
        l.descList x) := by
  rw [stridedList, orPageSizeDescControl]
  simp only [HailoVdmaDescriptorsList.store, HailoVdmaDescriptorsList.withDescs_descList]
  generalize (UInt32.ofNat _).toNat = last
  by_cases hx : x = last
  · rw [hx, Function.update_self, descriptorSegment, descriptorPageSize_or
      (getInterruptsBitmask_lt hhw.hostInterrupts hhw.deviceInterrupts _ _)]
    rfl
  · rw [Function.update_of_ne hx]

theorem descriptorSegment_boundList (hhw : PlainAddresses vdmaHw) (x : Nat) :
    descriptorSegment ((boundList vdmaHw l startingDesc buffer channelIndex lastDescInterrupts
        isDebug).descList x) =
      descriptorSegment (writePages l.descCountMask vdmaHw.ddrDataId startingDesc
        (boundPages vdmaHw l channelIndex buffer) l.descList x) :=
  descriptorSegment_stridedList hhw l.descPageSize.toUInt32 x

theorem descriptorsFrom_boundList (hwf : WellFormed l) (hP : 0 < l.descPageSize.toNat)
    (hfits : Fits l startingDesc buffer) (hlt : descsNeeded l buffer < 2 ^ 31)
    (hhw : PlainAddresses vdmaHw) :
    (descriptorsFrom (boundList vdmaHw l startingDesc buffer channelIndex lastDescInterrupts
        isDebug) startingDesc (descsNeeded l buffer)).map descriptorSegment =
      (boundPages vdmaHw l channelIndex buffer).map
        (descriptorSegment ∘ pageDescriptor vdmaHw.ddrDataId) := by
  have hlen : (boundPages vdmaHw l channelIndex buffer).length = descsNeeded l buffer :=
    length_boundPages hP vdmaHw channelIndex
  have hindices := hfits.indicesAt hwf hlt
  have hle := hfits.descsNeeded_le
  rw [← hlen] at hindices hle
  apply List.ext_getElem
  · simp [descriptorsFrom, hlen]
  · intro j _ hj
    rw [List.length_map] at hj
    simp only [descriptorsFrom, List.getElem_map, List.getElem_range, Function.comp_apply]
    rw [descriptorSegment_boundList hhw, ← writePages_hit hindices hle hj]
    rfl

theorem dvd_64_advance (a : UInt64) (k : ℕ) (ha : 64 ∣ a.toNat) (hk : 64 ∣ k) :
    64 ∣ (ByteAddress.advance a k).toNat := by
  have hadvance : (ByteAddress.advance a k).toNat = (a.toNat + k % 2 ^ 64) % 2 ^ 64 := by
    simp [ByteAddress.advance]
  rw [hadvance]
  omega

theorem dvd_64_of_isPowerOfTwo {P : ℕ} (hpow : P.isPowerOfTwo) (hP : 64 ≤ P) : 64 ∣ P := by
  obtain ⟨k, rfl⟩ := hpow
  have hk : 6 ≤ k := (Nat.pow_le_pow_iff_right (a := 2) (by decide)).mp hP
  exact Nat.pow_dvd_pow 2 hk

theorem boundPages_decoded (hhw : PlainAddresses vdmaHw) (hP : 0 < l.descPageSize.toNat)
    (hdvd : 64 ∣ l.descPageSize.toNat)
    (haddr : ∀ e ∈ buffer.sgTable.sgl, 64 ∣ e.dmaAddress.toNat)
    (haligned : AlignedButLast 64 (segments buffer.sgTable.sgl))
    (hoffset : l.descPageSize.toNat ∣ buffer.offset.toNat)
    (hcov : totalLen (boundSegments buffer) = buffer.size.toNat) :
    (boundPages vdmaHw l channelIndex buffer).map
        (descriptorSegment ∘ pageDescriptor vdmaHw.ddrDataId) =
      allPages l.descPageSize.toNat (boundSegments buffer) := by
  have hbase : ∀ s ∈ segments buffer.sgTable.sgl, 64 ∣ s.base.toNat := by
    intro s hs
    obtain ⟨e, he, rfl⟩ := List.mem_map.mp hs
    exact haddr e he
  have hplain : (boundSegments buffer).map (maskBase (vdmaHw.getMaskedChannelId
      (getChannelId channelIndex))) = boundSegments buffer := by
    rw [hhw.maskedChannelId]
    exact (List.map_congr_left fun s _ => maskBase_zero s).trans (List.map_id _)
  have hslice := forall_base_slice dvd_64_advance hbase haligned (hdvd.trans hoffset)
    buffer.size.toNat
  have hpages := forall_base_allPages dvd_64_advance hdvd hslice
  rw [boundPages_eq hP vdmaHw channelIndex hcov, hplain, List.map_map]
  apply (List.map_congr_left _).trans (List.map_id _)
  intro s hs
  exact descriptorSegment_pageOfSegment hhw.ddrDataId (hpages s hs)
    ((len_le_of_mem_allPages hs).trans_lt l.descPageSize.toNat_lt)

/-- Over a table of whole pages, descriptor `i` holds the bytes from page `i` of the buffer on. -/
theorem boundList_page (hhw : PlainAddresses vdmaHw) (hwf : WellFormed l)
    (hP : 0 < l.descPageSize.toNat) (hdvd : 64 ∣ l.descPageSize.toNat)
    (haddr : ∀ e ∈ buffer.sgTable.sgl, 64 ∣ e.dmaAddress.toNat)
    (haligned : AlignedButLast l.descPageSize.toNat (segments buffer.sgTable.sgl))
    (hsize : 0 < buffer.size.toNat) (hfits : Fits l startingDesc buffer)
    (hlt : descsNeeded l buffer < 2 ^ 31) {i : ℕ} (hi : i < descsNeeded l buffer) :
    (allBytes (segments buffer.sgTable.sgl))[buffer.offset.toNat + i * l.descPageSize.toNat]? =
        some (descriptorSegment ((boundList vdmaHw l startingDesc buffer channelIndex
          lastDescInterrupts isDebug).descList
            ((startingDesc.toNat + i) % l.descCount.toNat))).base ∧
      (descriptorSegment ((boundList vdmaHw l startingDesc buffer channelIndex
          lastDescInterrupts isDebug).descList
            ((startingDesc.toNat + i) % l.descCount.toNat))).len =
        min l.descPageSize.toNat (buffer.size.toNat - i * l.descPageSize.toNat) := by
  have hcov := hfits.totalLen_boundSegments
  have hslice := slice_aligned haligned hfits.offset_dvd buffer.size.toNat
  have hlist : (descriptorsFrom (boundList vdmaHw l startingDesc buffer channelIndex
      lastDescInterrupts isDebug) startingDesc (descsNeeded l buffer)).map descriptorSegment =
      allPages l.descPageSize.toNat (boundSegments buffer) :=
    (descriptorsFrom_boundList hwf hP hfits hlt hhw).trans
      (boundPages_decoded hhw hP hdvd haddr (fun s hs => hdvd.trans (haligned s hs))
        hfits.offset_dvd hcov)
  have hpages : i < (allPages l.descPageSize.toNat (boundSegments buffer)).length := by
    rw [length_allPages]
    exact hi
  have hget : (allPages l.descPageSize.toNat (boundSegments buffer))[i] = descriptorSegment
      ((boundList vdmaHw l startingDesc buffer channelIndex lastDescInterrupts
        isDebug).descList ((startingDesc.toNat + i) % l.descCount.toNat)) := by
    simp only [← hlist, descriptorsFrom, List.getElem_map, List.getElem_range]
    rfl
  have hsmall : i * l.descPageSize.toNat < buffer.size.toNat := by
    by_contra hge
    rw [descsNeeded_aligned hP hsize haligned hfits.offset_dvd hcov] at hi
    have hle := (ceilDiv_le_iff_le_mul hP).mpr ((Nat.not_lt.mp hge).trans_eq (Nat.mul_comm _ _))
    omega
  obtain ⟨hbase, hlen⟩ := getElem_allPages_aligned hP (boundSegments_ne_nil hsize hcov) hslice
    (fun s hs => boundSegments_pos hs) hpages
  rw [hget] at hbase hlen
  rw [hcov] at hlen
  rw [boundSegments, allBytes_slice, List.getElem?_take_of_lt hsmall, List.getElem?_drop] at hbase
  exact ⟨hbase, hlen⟩

/-- Binding with the default stride succeeds exactly when the buffer fits, and
then programs the bytes of the buffer and nothing else. -/
theorem bindAndProgramDescriptorsList_covers (hhw : PlainAddresses vdmaHw) (hwf : WellFormed l)
    (hcount : l.descCount.toNat ≤ 65536) (hpow : l.descPageSize.toNat.isPowerOfTwo)
    (hP : 64 ≤ l.descPageSize.toNat)
    (haddr : ∀ e ∈ buffer.sgTable.sgl, 64 ∣ e.dmaAddress.toNat)
    (haligned : AlignedButLast 64 (segments buffer.sgTable.sgl))
    (hsize : 0 < buffer.size.toNat) (hfit : buffer.size.toNat + l.descPageSize.toNat < 2 ^ 32) :
    ∃ n l', bindAndProgramDescriptorsList vdmaHw l startingDesc buffer channelIndex
        lastDescInterrupts isDebug defaultStride = .ok (n, l') ∧
      (0 ≤ n.toInt ↔ Fits l startingDesc buffer) ∧
      (0 ≤ n.toInt → n.toInt = descsNeeded l buffer ∧
        allBytes ((descriptorsFrom l' startingDesc (descsNeeded l buffer)).map
            descriptorSegment) =
          ((allBytes (segments buffer.sgTable.sgl)).drop buffer.offset.toNat).take
            buffer.size.toNat ∧
        ∀ x, (∀ j < descsNeeded l buffer,
            (startingDesc.toNat + j) % l.descCount.toNat ≠ x) → l'.descList x = l.descList x) := by
  have hpos : 0 < l.descPageSize.toNat := by omega
  have hlt (hfits : Fits l startingDesc buffer) : descsNeeded l buffer < 2 ^ 31 := by
    have := hfits.descsNeeded_le
    omega
  obtain ⟨n, l', hbind⟩ : ∃ n l', bindAndProgramDescriptorsList vdmaHw l startingDesc buffer
      channelIndex lastDescInterrupts isDebug defaultStride = .ok (n, l') :=
    bindAndProgramDescriptorsList_noFault hpos
  refine ⟨n, l', hbind, ⟨fun hn => (bind_nonneg hwf hsize hfit hn hbind).2.1, ?_⟩, ?_⟩
  · intro hfits
    obtain ⟨m, l'', hbound, hm⟩ := bind_of_fits hwf hpos hsize hfit (hlt hfits) hfits
    cases hbind.symm.trans hbound
    exact hm
  · intro hn
    obtain ⟨-, hfits, hret, rfl⟩ := bind_nonneg hwf hsize hfit hn hbind
    have hcov := hfits.totalLen_boundSegments
    refine ⟨hret, ?_, ?_⟩
    · rw [descriptorsFrom_boundList hwf hpos hfits (hlt hfits) hhw,
        boundPages_decoded hhw hpos (dvd_64_of_isPowerOfTwo hpow hP) haddr haligned
          hfits.offset_dvd hcov, allBytes_allPages _ _ hpos, boundSegments, allBytes_slice]
    · intro x hx
      exact boundList_frame hwf hpos hfits (hlt hfits) (descsNeeded_pos hpos hsize hcov) hx

end

theorem bindAndProgramDescriptorsList_covers_splitBuffer :
    ∃ n l', bindAndProgramDescriptorsList hailoPcieVdmaHw ringOfFour 3 splitBuffer 0
        hailoVdmaInterruptsDomainHost true defaultStride = .ok (n, l') ∧
      (0 ≤ n.toInt → allBytes ((descriptorsFrom l' 3 3).map descriptorSegment) =
        ((allBytes (segments splitBuffer.sgTable.sgl)).drop 64).take 150) := by
  obtain ⟨n, l', hbind, -, hcovers⟩ := bindAndProgramDescriptorsList_covers
    hailoPcieVdmaHw_plainAddresses ringOfFour_wellFormed (by decide) ⟨6, rfl⟩ (by decide)
    (by decide) splitBuffer_aligned (by decide) (by decide)
  exact ⟨n, l', hbind, fun hn => (hcovers hn).2.1⟩

end HailortDrivers.ScatterGatherCoverage
