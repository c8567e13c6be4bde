import HailortDrivers.DescriptorsListCreation
import HailortDrivers.ModularWindow
import HailortDrivers.ProgrammedPages

/-! What `bind_and_program_descriptors_list` does with the default stride: when
it succeeds, how many descriptors it uses and which list it leaves behind. -/
namespace HailortDrivers.BoundBuffers
open KernelExec MachineWord VdmaTypes DescriptorProgramming SegmentSlicing
open DescriptorsListCreation ProgrammedPages

section WritePages
variable {addrMask : UInt32} {dataId : UInt8} {i : UInt32} {ps : List PageEntry}
  {mem : Nat → HailoVdmaDescriptor} {x : Nat}

theorem writePages_of_forall {Q : HailoVdmaDescriptor → Prop}
    (hps : ∀ p ∈ ps, Q (pageDescriptor dataId p)) (hmem : Q (mem x)) :
    Q (writePages addrMask dataId i ps mem x) := by
  induction ps generalizing i mem with
  | nil => exact hmem
  | cons p ps ih =>
    refine ih (fun q hq => hps q (List.mem_cons_of_mem p hq)) ?_
    by_cases hx : x = (i &&& addrMask).toNat
    · rw [hx, Function.update_self]
      exact hps p List.mem_cons_self
    · rw [Function.update_of_ne hx]
      exact hmem

/-- The masked indices of the stores, from `start` on, are remainders by `N`. -/
def IndicesAt (addrMask i : UInt32) (N start n : Nat) : Prop :=
  ∀ j < n, ((i + UInt32.ofNat j) &&& addrMask).toNat = (start + j) % N

theorem IndicesAt.head {N start n : Nat} (h : IndicesAt addrMask i N start (n + 1)) :
    (i &&& addrMask).toNat = start % N := by
  simpa using h 0 (by omega)

theorem IndicesAt.tail {N start n : Nat} (h : IndicesAt addrMask i N start (n + 1)) :
    IndicesAt addrMask (i + 1) N (start + 1) n := by
  intro j hj
  have hnext := h (j + 1) (by omega)
  rw [UInt32.ofNat_add, UInt32.add_comm (UInt32.ofNat j), ← UInt32.add_assoc] at hnext
  rw [Nat.add_assoc, Nat.add_comm 1 j]
  exact hnext

theorem writePages_of_ne
    (hx : ∀ j < ps.length, ((i + UInt32.ofNat j) &&& addrMask).toNat ≠ x) :
    writePages addrMask dataId i ps mem x = mem x := by
  induction ps generalizing i mem with
  | nil => rfl
  | cons p ps ih =>
    rw [List.length_cons] at hx
    have hhead : ((i + 0) &&& addrMask).toNat ≠ x := hx 0 (by omega)
    rw [UInt32.add_zero] at hhead
    rw [writePages, ih, Function.update_of_ne hhead.symm]
    intro j hj
    have hnext := hx (j + 1) (by omega)
    rwa [UInt32.ofNat_add, UInt32.add_comm (UInt32.ofNat j), ← UInt32.add_assoc] at hnext

theorem writePages_of_hit {Q : HailoVdmaDescriptor → Prop}
    (hps : ∀ p ∈ ps, Q (pageDescriptor dataId p)) {j : Nat} (hj : j < ps.length)
    (hx : ((i + UInt32.ofNat j) &&& addrMask).toNat = x) :
    Q (writePages addrMask dataId i ps mem x) := by
  induction ps generalizing i mem j with
  | nil => exact absurd hj (Nat.not_lt_zero j)
  | cons p ps ih =>
    have hrest := fun q hq => hps q (List.mem_cons_of_mem p hq)
    rw [writePages]
    cases j with
    | zero =>
      have hhead : ((i + 0) &&& addrMask).toNat = x := hx
      rw [UInt32.add_zero] at hhead
      refine writePages_of_forall hrest ?_
      rw [hhead, Function.update_self]
      exact hps p List.mem_cons_self
    | succ j =>
      rw [UInt32.ofNat_add, UInt32.add_comm (UInt32.ofNat j), ← UInt32.add_assoc] at hx
      exact ih hrest (Nat.lt_of_succ_lt_succ hj) hx

theorem writePages_miss {N start : Nat} (h : IndicesAt addrMask i N start ps.length)
    (hx : ∀ j < ps.length, (start + j) % N ≠ x) :
    writePages addrMask dataId i ps mem x = mem x :=
  writePages_of_ne fun j hj => by
    rw [h j hj]
    exact hx j hj

theorem writePages_hit {N start : Nat} (h : IndicesAt addrMask i N start ps.length)
    (hN : ps.length ≤ N) {j : Nat} (hj : j < ps.length) :
    writePages addrMask dataId i ps mem ((start + j) % N) = pageDescriptor dataId ps[j] := by
  induction ps generalizing i start mem j with
  | nil => exact absurd hj (Nat.not_lt_zero j)
  | cons p ps ih =>
    rw [List.length_cons] at h hN hj
    rw [writePages]
    cases j with
    | zero =>
      rw [writePages_miss h.tail, Nat.add_zero, ← h.head, Function.update_self]
      · rfl
      · intro k hk
        rw [Nat.add_assoc]
        exact ModularWindow.add_mod_ne (by omega) (by omega) (by omega)
    | succ j =>
      have hindex : start + (j + 1) = start + 1 + j := by omega
      rw [hindex]
      exact ih h.tail (by omega) (by omega)

end WritePages

theorem indicesAt_of_wellFormed {l : HailoVdmaDescriptorsList} (h : WellFormed l)
    (hcount : l.descCount ≠ 0) {i : UInt32} {n : Nat} (hwrap : i.toNat + n ≤ 2 ^ 32)
    (hroom : l.isCircular = true ∨ i.toNat + n ≤ l.descCount.toNat) :
    IndicesAt l.descCountMask i l.descCount.toNat i.toNat n := by
  intro j hj
  have hadd : (i + UInt32.ofNat j).toNat = i.toNat + j := by
    have hofNat : (UInt32.ofNat j).toNat = j := toNat_ofNat_of_lt (by omega)
    rw [toNat_add_of_lt (by omega), hofNat]
  rw [h.masked hcount, hadd]
  rw [hadd]
  exact hroom.imp_right fun hle => by omega

/-- The part of its scatter list that a buffer names. -/
def boundSegments (buffer : HailoVdmaMappedTransferBuffer) : List (Segment UInt64) :=
  slice (segments buffer.sgTable.sgl) buffer.offset.toNat buffer.size.toNat

/-- The number of descriptors that binding the buffer takes. -/
def descsNeeded (descList : HailoVdmaDescriptorsList)
    (buffer : HailoVdmaMappedTransferBuffer) : Nat :=
  pageCount descList.descPageSize.toNat (boundSegments buffer)

def boundPages (vdmaHw : HailoVdmaHw) (descList : HailoVdmaDescriptorsList) (channelIndex : UInt8)
    (buffer : HailoVdmaMappedTransferBuffer) : List PageEntry :=
  slicePages descList.descPageSize.toUInt32 descList.descPageSize.toUInt32
    (vdmaHw.getMaskedChannelId (getChannelId channelIndex)) (boundSegments buffer)

/-- The list that programming the buffer with a stride leaves behind. -/
def stridedList (vdmaHw : HailoVdmaHw) (descList : HailoVdmaDescriptorsList)
    (startingDesc : UInt32) (buffer : HailoVdmaMappedTransferBuffer) (channelIndex : UInt8)
    (lastDescInterrupts : HailoVdmaInterruptsDomain) (isDebug : Bool) (stride : UInt32) :
    HailoVdmaDescriptorsList :=
  orPageSizeDescControl
    (descList.withDescs (writePages descList.descCountMask vdmaHw.ddrDataId startingDesc
      (slicePages descList.descPageSize.toUInt32 stride
        (vdmaHw.getMaskedChannelId (getChannelId channelIndex)) (boundSegments buffer))
      descList.descList))
    (UInt32.ofNat ((startingDesc.toNat + descsNeeded descList buffer - 1) %
      descList.descCount.toNat))
    (getInterruptsBitmask vdmaHw lastDescInterrupts isDebug)

/-- The list that a successful binding leaves behind. -/
def boundList (vdmaHw : HailoVdmaHw) (descList : HailoVdmaDescriptorsList) (startingDesc : UInt32)
    (buffer : HailoVdmaMappedTransferBuffer) (channelIndex : UInt8)
    (lastDescInterrupts : HailoVdmaInterruptsDomain) (isDebug : Bool) :
    HailoVdmaDescriptorsList :=
  orPageSizeDescControl
    (descList.withDescs (writePages descList.descCountMask vdmaHw.ddrDataId startingDesc
      (boundPages vdmaHw descList channelIndex buffer) descList.descList))
    (UInt32.ofNat ((startingDesc.toNat + descsNeeded descList buffer - 1) %
      descList.descCount.toNat))
    (getInterruptsBitmask vdmaHw lastDescInterrupts isDebug)

/-- When binding succeeds. -/
structure Fits (descList : HailoVdmaDescriptorsList) (startingDesc : UInt32)
    (buffer : HailoVdmaMappedTransferBuffer) : Prop where
  offset_dvd : descList.descPageSize.toNat ∣ buffer.offset.toNat
  start_lt : startingDesc.toNat < descList.descCount.toNat
  covered : buffer.offset.toNat + buffer.size.toNat ≤ totalLen (segments buffer.sgTable.sgl)
  room : descsNeeded descList buffer ≤
    if descList.isCircular then descList.descCount.toNat
    else descList.descCount.toNat - startingDesc.toNat

/-- Bytes 64 to 213 of two entries: two pages, then one of 22 bytes. -/
def splitBuffer : HailoVdmaMappedTransferBuffer where
  sgTable := ⟨0, [⟨0x1000, 128⟩, ⟨0x2000, 100⟩]⟩
  size := 150
  offset := 64
  opaqueBuffer := 0

theorem splitBuffer_aligned : AlignedButLast 64 (segments splitBuffer.sgTable.sgl) := by
  intro s hs
  obtain rfl := List.mem_singleton.mp hs
  exact ⟨2, rfl⟩

section Fits
variable {l : HailoVdmaDescriptorsList} {startingDesc : UInt32}
  {buffer : HailoVdmaMappedTransferBuffer}

theorem Fits.descCount_ne (h : Fits l startingDesc buffer) : l.descCount ≠ 0 := by
  have := h.start_lt
  exact toNat_pos_iff.mp (by omega)

theorem totalLen_boundSegments (buffer : HailoVdmaMappedTransferBuffer) :
    totalLen (boundSegments buffer) = min buffer.size.toNat
      (totalLen (segments buffer.sgTable.sgl) - buffer.offset.toNat) := totalLen_slice _ _ _

theorem Fits.totalLen_boundSegments (h : Fits l startingDesc buffer) :
    totalLen (boundSegments buffer) = buffer.size.toNat := by
  have hcovered := h.covered
  rw [BoundBuffers.totalLen_boundSegments]
  omega

theorem Fits.descsNeeded_le (h : Fits l startingDesc buffer) :
    descsNeeded l buffer ≤ l.descCount.toNat := by
  have hroom := h.room
  split at hroom
  · exact hroom
  · omega

theorem Fits.indicesAt (h : Fits l startingDesc buffer) (hwf : WellFormed l)
    (hlt : descsNeeded l buffer < 2 ^ 31) :
    IndicesAt l.descCountMask startingDesc l.descCount.toNat startingDesc.toNat
      (descsNeeded l buffer) := by
  have hstart := h.start_lt
  have hmax : l.descCount.toNat ≤ 2 ^ 31 := UInt32.le_iff_toNat_le.mp hwf.count_le
  have hroom := h.room
  apply indicesAt_of_wellFormed hwf h.descCount_ne (by omega)
  split at hroom
  · exact Or.inl ‹_›
  · exact Or.inr (by omega)

end Fits

section Bind
variable {vdmaHw : HailoVdmaHw} {l l' : HailoVdmaDescriptorsList} {startingDesc : UInt32}
  {buffer : HailoVdmaMappedTransferBuffer} {channelIndex : UInt8}
  {lastDescInterrupts : HailoVdmaInterruptsDomain} {isDebug : Bool} {stride : UInt32} {n : Int32}

/-- The strides that are taken: a multiple of the page size stands for the page size, and
another has to be smaller, with a buffer of whole pages. -/
def StrideTaken (descList : HailoVdmaDescriptorsList) (buffer : HailoVdmaMappedTransferBuffer)
    (stride : UInt32) : Prop :=
  descList.descPageSize.toNat ∣ stride.toNat ∨
    descList.descPageSize.toNat ∣ buffer.size.toNat ∧
      stride.toNat ≤ descList.descPageSize.toNat

theorem mod_pageSize_eq_zero_iff (l : HailoVdmaDescriptorsList) (x : UInt32) :
    x % l.descPageSize.toUInt32 = 0 ↔ l.descPageSize.toNat ∣ x.toNat := by
  rw [← UInt32.toNat_inj, UInt32.toNat_mod, UInt16.toNat_toUInt32, UInt32.toNat_zero,
    Nat.dvd_iff_mod_eq_zero]

theorem bind_turnedDown (hP : 0 < l.descPageSize.toNat)
    (h : ¬ (l.descPageSize.toNat ∣ buffer.offset.toNat ∧
      startingDesc.toNat < l.descCount.toNat ∧ StrideTaken l buffer stride)) :
    bindAndProgramDescriptorsList vdmaHw l startingDesc buffer channelIndex lastDescInterrupts
      isDebug stride = .ok (-einval, l) := by
  have hpage : l.descPageSize.toUInt32 ≠ 0 := toNat_pos_iff.mp (by simpa using hP)
  rw [StrideTaken] at h
  simp only [bindAndProgramDescriptorsList, umod_of_ne hpage, ok_bind, ne_eq,
    mod_pageSize_eq_zero_iff, ge_iff_le, UInt32.le_iff_toNat_le, gt_iff_lt,
    UInt32.lt_iff_toNat_lt, UInt16.toNat_toUInt32]
  by_cases hplace : ¬ l.descPageSize.toNat ∣ buffer.offset.toNat ∨
      l.descCount.toNat ≤ startingDesc.toNat
  · rw [if_pos hplace]
    rfl
  · rw [not_or, not_not, Nat.not_le] at hplace
    rw [if_neg (by rw [not_or, not_not, Nat.not_le]; exact hplace), if_neg (by tauto)]
    split
    · rfl
    · rw [if_pos (by rw [← Nat.not_le]; tauto)]
      rfl

theorem bind_taken (hP : 0 < l.descPageSize.toNat)
    (hoffset : l.descPageSize.toNat ∣ buffer.offset.toNat)
    (hstart : startingDesc.toNat < l.descCount.toNat) (h : StrideTaken l buffer stride) :
    bindAndProgramDescriptorsList vdmaHw l startingDesc buffer channelIndex lastDescInterrupts
        isDebug stride =
      bindFromStart vdmaHw l startingDesc buffer channelIndex lastDescInterrupts isDebug
        (if l.descPageSize.toNat ∣ stride.toNat then l.descPageSize.toUInt32 else stride) := by
  have hpage : l.descPageSize.toUInt32 ≠ 0 := toNat_pos_iff.mp (by simpa using hP)
  simp only [bindAndProgramDescriptorsList, umod_of_ne hpage, ok_bind, ne_eq,
    mod_pageSize_eq_zero_iff, ge_iff_le, UInt32.le_iff_toNat_le, gt_iff_lt,
    UInt32.lt_iff_toNat_lt, UInt16.toNat_toUInt32]
  rw [if_neg (by rw [not_or, not_not, Nat.not_le]; exact ⟨hoffset, hstart⟩)]
  split
  · rfl
  · next hstride =>
    obtain ⟨hsize, hle⟩ := h.resolve_left hstride
    rw [if_neg (not_not.mpr hsize), if_neg (Nat.not_lt.mpr hle)]

theorem bind_defaultStride (hP : 0 < l.descPageSize.toNat) :
    bindAndProgramDescriptorsList vdmaHw l startingDesc buffer channelIndex lastDescInterrupts
        isDebug defaultStride =
      if l.descPageSize.toNat ∣ buffer.offset.toNat ∧ startingDesc.toNat < l.descCount.toNat then
        bindFromStart vdmaHw l startingDesc buffer channelIndex lastDescInterrupts isDebug
          l.descPageSize.toUInt32
      else .ok (-einval, l) := by
  have hzero : l.descPageSize.toNat ∣ defaultStride.toNat := Nat.dvd_zero _
  split
  · next hok =>
    rw [bind_taken hP hok.1 hok.2 (Or.inl hzero), if_pos hzero]
  · next hnot => exact bind_turnedDown hP fun hok => hnot ⟨hok.1, hok.2.1⟩

theorem bindSgEntries_failed_neg {bufferOffset maxDescIndex : UInt32} {dataId : UInt8}
    {maskedChannelId : UInt64} {es : List ScatterEntry} {c : BindCursor} {err : Int32}
    (h : bindSgEntries bufferOffset maxDescIndex dataId stride maskedChannelId es c =
      .ok (.failed err l')) : err < 0 := by
  induction es generalizing c with
  | nil => cases h
  | cons e es ih =>
    rw [bindSgEntries] at h
    simp only at h
    split at h
    · exact ih h
    · split at h
      · exact ih h
      · split at h
        · cases h
        · obtain ⟨⟨ret, descList⟩, -, h⟩ := bind_ok h
          simp only at h
          split at h
          · next hneg =>
            cases h
            exact hneg
          · split at h
            · cases h
            · exact ih h

theorem bindFromStart_nonneg (hn : 0 ≤ n.toInt)
    (h : bindFromStart vdmaHw l startingDesc buffer channelIndex lastDescInterrupts isDebug
      stride = .ok (n, l')) :
    ∃ c, bindSgEntries buffer.offset (if l.isCircular then startingDesc + l.descCount - 1
          else l.descCount - 1) vdmaHw.ddrDataId stride
          (vdmaHw.getMaskedChannelId (getChannelId channelIndex)) buffer.sgTable.sgl
          ⟨0, startingDesc, buffer.size, 0, l⟩ = .ok (.walked c) ∧
      c.programSize = 0 ∧ n = c.descProgrammed ∧
      l' = orPageSizeDescControl c.descList ((c.startingDesc - 1) % l.descCount)
        (getInterruptsBitmask vdmaHw lastDescInterrupts isDebug) := by
  obtain ⟨exit, hexit, h⟩ := bind_ok h
  cases exit with
  | failed err descList =>
    have hneg := Int32.lt_iff_toInt_lt.mp (bindSgEntries_failed_neg hexit)
    cases h
    exact absurd hn (not_le.mpr hneg)
  | walked c =>
    simp only at h
    split at h
    · cases h
      exact absurd hn (by decide)
    · next hdone =>
      obtain ⟨last, hlast, h⟩ := bind_ok h
      cases h
      exact ⟨c, hexit, not_not.mp hdone, rfl, by rw [(umod_ok hlast).2]⟩

/-- One more than the largest index the walk may use. -/
theorem maxDescIndex_succ (hstart : startingDesc.toNat < l.descCount.toNat)
    (hwf : WellFormed l) :
    ((if l.isCircular then startingDesc + l.descCount - 1 else l.descCount - 1) + 1).toNat =
      if l.isCircular then startingDesc.toNat + l.descCount.toNat else l.descCount.toNat := by
  have hle : l.descCount.toNat ≤ 2 ^ 31 := UInt32.le_iff_toNat_le.mp hwf.count_le
  split
  · rw [UInt32.sub_add_cancel, toNat_add_of_lt (by omega)]
  · rw [UInt32.sub_add_cancel]

theorem room_iff {l : HailoVdmaDescriptorsList} {start k : Nat}
    (hstart : start < l.descCount.toNat) :
    (k ≤ if l.isCircular then l.descCount.toNat else l.descCount.toNat - start) ↔
      start + k ≤ if l.isCircular then start + l.descCount.toNat else l.descCount.toNat := by
  split
  · omega
  · omega

theorem descsNeeded_pos (hP : 0 < l.descPageSize.toNat) (hsize : 0 < buffer.size.toNat)
    (hcov : totalLen (boundSegments buffer) = buffer.size.toNat) : 0 < descsNeeded l buffer := by
  have hle := totalLen_le_mul_pageCount hP (boundSegments buffer)
  rw [hcov] at hle
  exact Nat.pos_of_mul_pos_left (hsize.trans_le hle)

theorem descsNeeded_le_size (hP : 0 < l.descPageSize.toNat)
    (hcov : totalLen (boundSegments buffer) = buffer.size.toNat) :
    descsNeeded l buffer ≤ buffer.size.toNat :=
  hcov ▸ pageCount_le_totalLen hP (boundSegments buffer)

/-- What programming from the first descriptor on leaves, for every stride. -/
theorem bindFromStart_fits (hwf : WellFormed l) (hP : 0 < l.descPageSize.toNat)
    (hdvd : l.descPageSize.toNat ∣ buffer.offset.toNat)
    (hstart : startingDesc.toNat < l.descCount.toNat) (hsize : 0 < buffer.size.toNat)
    (hfit : buffer.size.toNat + l.descPageSize.toNat ≤ 2 ^ 32) (hn : 0 ≤ n.toInt)
    (h : bindFromStart vdmaHw l startingDesc buffer channelIndex lastDescInterrupts isDebug
      stride = .ok (n, l')) :
    Fits l startingDesc buffer ∧ n.toInt = descsNeeded l buffer ∧
      l' = stridedList vdmaHw l startingDesc buffer channelIndex lastDescInterrupts isDebug
        stride := by
  obtain ⟨c, hwalk, hdone, rfl, rfl⟩ := bindFromStart_nonneg hn h
  have hpage : l.descPageSize.toUInt32.toNat = l.descPageSize.toNat := by simp
  have hwalked : Walked _ _ _ _ _ _ c (boundSegments buffer) :=
    bindSgEntries_walked rfl (hpage ▸ hP) (hpage ▸ hfit) hsize hwalk hdone
  have hcov : totalLen (boundSegments buffer) = buffer.size.toNat := hwalked.covered
  have hcount : pageCount l.descPageSize.toUInt32.toNat (boundSegments buffer) =
      descsNeeded l buffer := by rw [hpage]; rfl
  have hret := hwalked.descProgrammed
  have hroom := hwalked.inRange
  have hlist := hwalked.descList
  have hnext := hwalked.startingDesc
  rw [hcount] at hret hroom hlist hnext
  rw [Int32.zero_add] at hret
  dsimp only at hroom hlist hnext
  have hpos := descsNeeded_pos hP hsize hcov
  have hle := descsNeeded_le_size hP hcov
  have hofNat : (UInt32.ofNat (descsNeeded l buffer)).toNat = descsNeeded l buffer :=
    toNat_ofNat_of_lt (by omega)
  have hlt : descsNeeded l buffer < 2 ^ 31 := by
    rw [hret, toInt32_nonneg_iff, hofNat] at hn
    exact hn
  have hmax : l.descCount.toNat ≤ 2 ^ 31 := UInt32.le_iff_toNat_le.mp hwf.count_le
  have hwrap : startingDesc.toNat + descsNeeded l buffer < 2 ^ 32 := by omega
  refine ⟨⟨hdvd, hstart, ?_, ?_⟩, ?_, ?_⟩
  · rw [totalLen_boundSegments] at hcov
    omega
  · rw [room_iff hstart]
    exact (hroom hwrap).trans_eq (maxDescIndex_succ hstart hwf)
  · rw [hret, toInt_toInt32_of_lt (by omega), hofNat]
  · rw [hlist hwrap, hnext, stridedList]
    congr 1
    have hlast : (startingDesc + UInt32.ofNat (descsNeeded l buffer) - 1).toNat =
        startingDesc.toNat + descsNeeded l buffer - 1 := by
      rw [toNat_add_sub_one (by omega) (by omega), hofNat]
    have hmod : (startingDesc.toNat + descsNeeded l buffer - 1) % l.descCount.toNat < 2 ^ 32 :=
      (Nat.mod_lt _ (by omega)).trans (by omega)
    rw [← UInt32.toNat_inj, UInt32.toNat_mod, hlast, toNat_ofNat_of_lt hmod]

theorem bind_nonneg (hwf : WellFormed l) (hsize : 0 < buffer.size.toNat)
    (hfit : buffer.size.toNat + l.descPageSize.toNat < 2 ^ 32) (hn : 0 ≤ n.toInt)
    (h : bindAndProgramDescriptorsList vdmaHw l startingDesc buffer channelIndex
      lastDescInterrupts isDebug defaultStride = .ok (n, l')) :
    0 < l.descPageSize.toNat ∧ Fits l startingDesc buffer ∧ n.toInt = descsNeeded l buffer ∧
      l' = boundList vdmaHw l startingDesc buffer channelIndex lastDescInterrupts isDebug := by
  have hP : 0 < l.descPageSize.toNat := by
    obtain ⟨residue, hresidue, -⟩ := bind_ok h
    simpa using toNat_pos_iff.mpr (umod_ok hresidue).1
  rw [bind_defaultStride hP] at h
  split at h
  · next hcheck =>
    exact ⟨hP, bindFromStart_fits hwf hP hcheck.1 hcheck.2 hsize hfit.le hn h⟩
  · cases h
    exact absurd hn (by decide)

/-- A walk that takes the whole size is followed by the bits of the last descriptor. -/
theorem bindFromStart_walked {stride : UInt32} {c : BindCursor}
    (hwalk : bindSgEntries buffer.offset
      (if l.isCircular then startingDesc + l.descCount - 1 else l.descCount - 1) vdmaHw.ddrDataId
      stride (vdmaHw.getMaskedChannelId (getChannelId channelIndex)) buffer.sgTable.sgl
      ⟨0, startingDesc, buffer.size, 0, l⟩ = .ok (.walked c))
    (hdone : c.programSize = 0) (hcount : l.descCount ≠ 0) :
    bindFromStart vdmaHw l startingDesc buffer channelIndex lastDescInterrupts isDebug stride =
      .ok (c.descProgrammed, orPageSizeDescControl c.descList
        ((c.startingDesc - 1) % l.descCount)
        (getInterruptsBitmask vdmaHw lastDescInterrupts isDebug)) := by
  rw [bindFromStart, hwalk, ok_bind]
  simp only [hdone, ne_eq, not_true, if_false, umod_of_ne hcount, ok_bind]
  rfl

/-- A buffer that fits is bound. -/
theorem bind_of_fits (hwf : WellFormed l) (hP : 0 < l.descPageSize.toNat)
    (hsize : 0 < buffer.size.toNat) (hfit : buffer.size.toNat + l.descPageSize.toNat < 2 ^ 32)
    (hlt : descsNeeded l buffer < 2 ^ 31) (h : Fits l startingDesc buffer) :
    ∃ n l', bindAndProgramDescriptorsList vdmaHw l startingDesc buffer channelIndex
      lastDescInterrupts isDebug defaultStride = .ok (n, l') ∧ 0 ≤ n.toInt := by
  have hpage : l.descPageSize.toUInt32.toNat = l.descPageSize.toNat := by simp
  have hmax : l.descCount.toNat ≤ 2 ^ 31 := UInt32.le_iff_toNat_le.mp hwf.count_le
  have hstart := h.start_lt
  have hroom := h.room
  have hcov := h.totalLen_boundSegments
  rw [bind_defaultStride hP, if_pos ⟨h.offset_dvd, hstart⟩]
  have hcount : pageCount l.descPageSize.toUInt32.toNat (boundSegments buffer) =
      descsNeeded l buffer := by rw [hpage]; rfl
  have hend : startingDesc.toNat + descsNeeded l buffer ≤
      ((if l.isCircular then startingDesc + l.descCount - 1 else l.descCount - 1) + 1).toNat := by
    rw [maxDescIndex_succ hstart hwf]
    exact (room_iff hstart).mp hroom
  have hwrap : startingDesc.toNat + descsNeeded l buffer < 2 ^ 32 := by omega
  rw [← hcount] at hlt hend hwrap
  obtain ⟨c, hwalk, hdone⟩ : ∃ c, bindSgEntries buffer.offset _ vdmaHw.ddrDataId
      l.descPageSize.toUInt32 (vdmaHw.getMaskedChannelId (getChannelId channelIndex))
      buffer.sgTable.sgl ⟨0, startingDesc, buffer.size, 0, l⟩ = .ok (.walked c) ∧
      c.programSize = 0 := bindSgEntries_total
    rfl (hpage ▸ hP) (hpage ▸ hfit.le) (rfl : boundSegments buffer = _) hcov hlt hwrap hend
  have hwalked : Walked _ _ _ _ _ _ c (boundSegments buffer) :=
    bindSgEntries_walked rfl (hpage ▸ hP) (hpage ▸ hfit.le) hsize hwalk hdone
  refine ⟨_, _, bindFromStart_walked hwalk hdone h.descCount_ne, ?_⟩
  rw [hwalked.descProgrammed, Int32.zero_add, toInt32_nonneg_iff,
    toNat_ofNat_of_lt (hlt.trans (by decide))]
  exact hlt

end Bind

end HailortDrivers.BoundBuffers
