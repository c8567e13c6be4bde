import HailortDrivers.ProgrammedPages

/-!
How many descriptors a chunk takes. The rounded division, the last index and the check of the
range are computed in 32 bits, so they are exact as long as none of them wraps.
-/
namespace HailortDrivers.ChunkCounts
open KernelExec MachineWord VdmaTypes DescriptorProgramming ProgrammedPages

section Counts
variable (chunkAddr : UInt64) (chunkSize : UInt32) (l : HailoVdmaDescriptorsList)
  (descIndex maxDescIndex : UInt32) (dataId : UInt8) (stride : UInt32) (maskedChannelId : UInt64)

/-- The descriptors that a chunk needs, over the integers. -/
def descsOfChunk : Nat := chunkSize.toNat ⌈/⌉ l.descPageSize.toNat

/-- The list after `rounds` rounds of the loop and the last descriptor behind it. -/
def programmedChunk (rounds : Nat) : HailoVdmaDescriptorsList :=
  let c := programAllButLast l.descCountMask stride l.descPageSize.toUInt32.toUInt64 dataId rounds
    ⟨descIndex, chunkAddr ||| maskedChannelId, l.descList⟩
  (l.withDescs c.descList).store (c.descIndex &&& l.descCountMask)
    (hailoVdmaProgramDescriptor c.encodedAddr
      (lastChunkSize l.descPageSize.toUInt32 stride chunkSize).toUInt64 dataId)

/-- Whatever the list holds, a chunk that does not fit is turned down without a write, and one
that fits takes its descriptors, all but the last in the loop. -/
structure ExactCounts : Prop where
  outOfRange : ∀ descs, maxDescIndex.toNat + 1 - descIndex.toNat < descsOfChunk chunkSize l →
    hailoVdmaProgramDescriptorsInChunk chunkAddr chunkSize (l.withDescs descs) descIndex
      maxDescIndex dataId stride maskedChannelId = .ok (-erange, l.withDescs descs)
  inRange : ∀ descs, descsOfChunk chunkSize l ≤ maxDescIndex.toNat + 1 - descIndex.toNat →
    ∃ ret : Int32, ret.toInt = descsOfChunk chunkSize l ∧
      hailoVdmaProgramDescriptorsInChunk chunkAddr chunkSize (l.withDescs descs) descIndex
        maxDescIndex dataId stride maskedChannelId =
          .ok (ret, programmedChunk chunkAddr chunkSize (l.withDescs descs) descIndex dataId stride
            maskedChannelId (descsOfChunk chunkSize l - 1))

/-- No sum wraps, and a count that is returned is a positive `int`. -/
structure CountsFit : Prop where
  rounded : chunkSize.toNat + l.descPageSize.toNat ≤ 2 ^ 32
  range : descIndex.toNat + descsOfChunk chunkSize l < 2 ^ 32
  returned : descsOfChunk chunkSize l ≤ maxDescIndex.toNat + 1 - descIndex.toNat →
    descsOfChunk chunkSize l < 2 ^ 31

end Counts

section Chunk
variable {chunkAddr : UInt64} {chunkSize : UInt32} {l : HailoVdmaDescriptorsList}
  {descIndex maxDescIndex : UInt32} {dataId : UInt8} {stride : UInt32} {maskedChannelId : UInt64}

theorem inChunk_eq (hP : 0 < l.descPageSize.toNat) (chunkAddr : UInt64)
    (chunkSize descIndex maxDescIndex : UInt32) (dataId : UInt8) (stride : UInt32)
    (maskedChannelId : UInt64) (descs : Nat → HailoVdmaDescriptor) :
    hailoVdmaProgramDescriptorsInChunk chunkAddr chunkSize (l.withDescs descs) descIndex
        maxDescIndex dataId stride maskedChannelId =
      .ok (if descIndex + descsToProgram l.descPageSize.toUInt32 chunkSize > maxDescIndex + 1 then
          (-erange, l.withDescs descs)
        else ((descsToProgram l.descPageSize.toUInt32 chunkSize).toInt32,
          programmedChunk chunkAddr chunkSize (l.withDescs descs) descIndex dataId stride
            maskedChannelId ((descIndex + descsToProgram l.descPageSize.toUInt32 chunkSize -
              1).toNat - descIndex.toNat))) := by
  have hpage : (l.withDescs descs).descPageSize.toUInt32 ≠ 0 :=
    toNat_pos_iff.mp (by rw [UInt16.toNat_toUInt32]; exact hP)
  simp only [hailoVdmaProgramDescriptorsInChunk, umod_of_ne hpage, divRoundUp_of_ne hpage, ok_bind]
  split
  · next hrange =>
    have hrange' : descIndex + descsToProgram l.descPageSize.toUInt32 chunkSize >
        maxDescIndex + 1 := hrange
    rw [if_pos hrange']
    rfl
  · next hrange =>
    have hrange' : ¬ descIndex + descsToProgram l.descPageSize.toUInt32 chunkSize >
        maxDescIndex + 1 := hrange
    rw [if_neg hrange']
    rfl

/-- Whether rounding up stays within 32 bits decides what `descs_to_program` is. -/
theorem toNat_descs (hP : 0 < l.descPageSize.toNat) (hchunk : 0 < chunkSize.toNat) :
    (descsToProgram l.descPageSize.toUInt32 chunkSize).toNat =
      if chunkSize.toNat + l.descPageSize.toNat ≤ 2 ^ 32 then descsOfChunk chunkSize l else 0 := by
  have hP' : 0 < l.descPageSize.toUInt32.toNat := by
    rw [UInt16.toNat_toUInt32]
    exact hP
  have hcases := descsToProgram_cases hP' hchunk chunkSize.toNat_lt
  rw [UInt16.toNat_toUInt32, UInt32.ofNat_toNat] at hcases
  split
  · next hfit => rwa [if_pos hfit] at hcases
  · next hfit => rwa [if_neg hfit] at hcases

theorem toNat_add_one (hmax : maxDescIndex.toNat < 2 ^ 31) :
    (maxDescIndex + 1).toNat = maxDescIndex.toNat + 1 :=
  toNat_add_of_lt (by rw [UInt32.toNat_one]; omega)

/-- The last descriptor that was written has no status. -/
theorem last_of_programmedChunk {l' : HailoVdmaDescriptorsList} {rounds : Nat}
    (h : l' = programmedChunk chunkAddr chunkSize l descIndex dataId stride maskedChannelId
      rounds) : ∃ x, (l'.descList x).remainingPageSizeStatus = 0 := by
  let c := programAllButLast l.descCountMask stride l.descPageSize.toUInt32.toUInt64 dataId rounds
    ⟨descIndex, chunkAddr ||| maskedChannelId, l.descList⟩
  have hstore : l'.descList (c.descIndex &&& l.descCountMask).toNat =
      hailoVdmaProgramDescriptor c.encodedAddr
        (lastChunkSize l.descPageSize.toUInt32 stride chunkSize).toUInt64 dataId := by
    rw [h]
    exact Function.update_self _ _ _
  refine ⟨(c.descIndex &&& l.descCountMask).toNat, ?_⟩
  rw [hstore]
  rfl

/-- A chunk that passes the check writes, so it has to fit, and what is returned is its count. -/
theorem ExactCounts.accepted (h : ExactCounts chunkAddr chunkSize l descIndex maxDescIndex dataId
    stride maskedChannelId) (hP : 0 < l.descPageSize.toNat)
    (hpass : ¬ descIndex + descsToProgram l.descPageSize.toUInt32 chunkSize > maxDescIndex + 1) :
    descsOfChunk chunkSize l ≤ maxDescIndex.toNat + 1 - descIndex.toNat ∧
      (descsToProgram l.descPageSize.toUInt32 chunkSize).toInt32.toInt =
        descsOfChunk chunkSize l := by
  have hcall := inChunk_eq hP chunkAddr chunkSize descIndex maxDescIndex dataId stride
    maskedChannelId fun _ => ⟨0, 0, 0, 1⟩
  rw [if_neg hpass] at hcall
  have hfits : descsOfChunk chunkSize l ≤ maxDescIndex.toNat + 1 - descIndex.toNat := by
    by_contra hlarge
    have hturned := h.outOfRange (fun _ => ⟨0, 0, 0, 1⟩) (Nat.lt_of_not_le hlarge)
    obtain ⟨-, hlist⟩ := Prod.mk.inj (Except.ok.inj (hturned.symm.trans hcall))
    obtain ⟨x, hx⟩ := last_of_programmedChunk hlist
    cases hx
  obtain ⟨ret, hret, hin⟩ := h.inRange (fun _ => ⟨0, 0, 0, 1⟩) hfits
  obtain ⟨rfl, -⟩ := Prod.mk.inj (Except.ok.inj (hin.symm.trans hcall))
  exact ⟨hfits, hret⟩

/-- Rounding that wraps ends in no descriptors, and nothing checks for that. -/
theorem ExactCounts.rounded (h : ExactCounts chunkAddr chunkSize l descIndex maxDescIndex dataId
    stride maskedChannelId) (hP : 0 < l.descPageSize.toNat) (hchunk : 0 < chunkSize.toNat)
    (hindex : descIndex ≤ maxDescIndex) (hmax : maxDescIndex.toNat < 2 ^ 31) :
    chunkSize.toNat + l.descPageSize.toNat ≤ 2 ^ 32 := by
  by_contra hwrap
  have hdescs := toNat_descs hP hchunk
  rw [if_neg hwrap] at hdescs
  have hzero : descsToProgram l.descPageSize.toUInt32 chunkSize = 0 := UInt32.toNat_inj.mp hdescs
  have hpass : ¬ descIndex + descsToProgram l.descPageSize.toUInt32 chunkSize >
      maxDescIndex + 1 := by
    rw [hzero, UInt32.add_zero, gt_iff_lt, UInt32.lt_iff_toNat_lt, toNat_add_one hmax]
    have hle := UInt32.le_iff_toNat_le.mp hindex
    omega
  obtain ⟨-, hret⟩ := h.accepted hP hpass
  have hpos : 0 < descsOfChunk chunkSize l := ceilDiv_pos hP hchunk
  have hzero' : (0 : UInt32).toInt32.toInt = 0 := rfl
  rw [hzero, hzero'] at hret
  omega

theorem ExactCounts.countsFit (h : ExactCounts chunkAddr chunkSize l descIndex maxDescIndex dataId
    stride maskedChannelId) (hP : 0 < l.descPageSize.toNat) (hchunk : 0 < chunkSize.toNat)
    (hindex : descIndex ≤ maxDescIndex) (hmax : maxDescIndex.toNat < 2 ^ 31) :
    CountsFit chunkSize l descIndex maxDescIndex := by
  have hrounded := h.rounded hP hchunk hindex hmax
  have hdescs := toNat_descs hP hchunk
  rw [if_pos hrounded] at hdescs
  have hle := UInt32.le_iff_toNat_le.mp hindex
  have hrange : descIndex.toNat + descsOfChunk chunkSize l < 2 ^ 32 := by
    by_contra hwrap
    have hlt := (descsToProgram l.descPageSize.toUInt32 chunkSize).toNat_lt
    have hpass : ¬ descIndex + descsToProgram l.descPageSize.toUInt32 chunkSize >
        maxDescIndex + 1 := by
      rw [gt_iff_lt, UInt32.lt_iff_toNat_lt, toNat_add_one hmax, UInt32.toNat_add, hdescs]
      omega
    have hfits := (h.accepted hP hpass).1
    omega
  refine ⟨hrounded, hrange, fun hfits => ?_⟩
  have hpass : ¬ descIndex + descsToProgram l.descPageSize.toUInt32 chunkSize >
      maxDescIndex + 1 := by
    rw [gt_iff_lt, UInt32.lt_iff_toNat_lt, toNat_add_one hmax,
      toNat_add_of_lt (by rw [hdescs]; exact hrange), hdescs]
    omega
  have hret := (h.accepted hP hpass).2
  have hint := (descsToProgram l.descPageSize.toUInt32 chunkSize).toInt32.toInt_lt
  omega

/-- Without a wrap the check is that of the integers, and the loop stops one short of the count. -/
theorem CountsFit.exactCounts (h : CountsFit chunkSize l descIndex maxDescIndex)
    (hP : 0 < l.descPageSize.toNat) (hchunk : 0 < chunkSize.toNat)
    (hindex : descIndex ≤ maxDescIndex) (hmax : maxDescIndex.toNat < 2 ^ 31) :
    ExactCounts chunkAddr chunkSize l descIndex maxDescIndex dataId stride maskedChannelId := by
  have hdescs := toNat_descs hP hchunk
  rw [if_pos h.rounded] at hdescs
  have hle := UInt32.le_iff_toNat_le.mp hindex
  have hpos : 0 < descsOfChunk chunkSize l := ceilDiv_pos hP hchunk
  have hwrap : descIndex.toNat + (descsToProgram l.descPageSize.toUInt32 chunkSize).toNat <
      2 ^ 32 := by
    rw [hdescs]
    exact h.range
  have hcheck : descIndex + descsToProgram l.descPageSize.toUInt32 chunkSize > maxDescIndex + 1 ↔
      maxDescIndex.toNat + 1 - descIndex.toNat < descsOfChunk chunkSize l := by
    rw [gt_iff_lt, UInt32.lt_iff_toNat_lt, toNat_add_one hmax, toNat_add_of_lt hwrap, hdescs]
    omega
  refine ⟨fun descs hlarge => ?_, fun descs hfits => ?_⟩
  · rw [inChunk_eq hP, if_pos (hcheck.mpr hlarge)]
  · have hrounds : (descIndex + descsToProgram l.descPageSize.toUInt32 chunkSize - 1).toNat -
        descIndex.toNat = descsOfChunk chunkSize l - 1 := by
      rw [toNat_add_sub_one hwrap (by omega), hdescs]
      omega
    have hlt := h.returned hfits
    refine ⟨(descsToProgram l.descPageSize.toUInt32 chunkSize).toInt32, ?_, ?_⟩
    · rw [toInt_toInt32_of_lt (by rw [hdescs]; exact hlt), hdescs]
    · rw [inChunk_eq hP, if_neg (hcheck.not.mpr (Nat.not_lt.mpr hfits)), hrounds]

end Chunk

/-- A chunk is counted exactly if and only if neither the rounded size nor the last index leaves
32 bits, and a count of `2 ^ 31` descriptors is not accepted. -/
theorem inChunk_exact_iff (chunkAddr : UInt64) {chunkSize : UInt32} {l : HailoVdmaDescriptorsList}
    {descIndex maxDescIndex : UInt32} (dataId : UInt8) (stride : UInt32) (maskedChannelId : UInt64)
    (hpage : ∃ k ≤ 15, l.descPageSize.toNat = 2 ^ k) (hchunk : 0 < chunkSize)
    (hindex : descIndex ≤ maxDescIndex) (hmax : maxDescIndex.toNat < 2 ^ 31) :
    ExactCounts chunkAddr chunkSize l descIndex maxDescIndex dataId stride maskedChannelId ↔
      CountsFit chunkSize l descIndex maxDescIndex := by
  have hP : 0 < l.descPageSize.toNat := by
    obtain ⟨k, -, hk⟩ := hpage
    rw [hk]
    exact Nat.two_pow_pos k
  have hchunk' := UInt32.lt_iff_toNat_lt.mp hchunk
  exact ⟨fun h => h.countsFit hP hchunk' hindex hmax, fun h => h.exactCounts hP hchunk' hindex hmax⟩

/-- A list as the boot makes it. -/
def pageList : HailoVdmaDescriptorsList := ⟨fun _ => ⟨0, 0, 0, 0⟩, 65536, 65535, 512, false⟩

theorem inChunk_exact_iff_twoPages :
    ExactCounts 0x1000 1000 pageList 3 10 0 512 0 ↔ CountsFit 1000 pageList 3 10 :=
  inChunk_exact_iff 0x1000 0 512 0 ⟨9, by decide, rfl⟩ (by decide) (by decide) (by decide)

/-- A chunk of one byte less than 4 GiB counts as 0 descriptors of 512 bytes: it is not turned
down, and the loop goes all the way round the index. -/
theorem hugeChunk_miscounted :
    hailoVdmaProgramDescriptorsInChunk 0x1000 0xFFFFFFFF pageList 0 65535 0 512 0 =
        .ok (0, programmedChunk 0x1000 0xFFFFFFFF pageList 0 0 512 0 4294967295) ∧
      ¬ ExactCounts 0x1000 0xFFFFFFFF pageList 0 65535 0 512 0 := by
  have hcount : descsToProgram pageList.descPageSize.toUInt32 0xFFFFFFFF = 0 := by decide
  have hrounds : ((0 : UInt32) + 0 - 1).toNat - (0 : UInt32).toNat = 4294967295 := by decide
  have hP : 0 < pageList.descPageSize.toNat := by decide
  refine ⟨?_, fun h => ?_⟩
  · have hcall := inChunk_eq hP 0x1000 0xFFFFFFFF 0 65535 0 512 0 pageList.descList
    rw [hcount, hrounds, if_neg (by decide)] at hcall
    exact hcall
  · exact absurd (h.rounded hP (by decide) (by decide) (by decide)) (by decide)

end HailortDrivers.ChunkCounts
