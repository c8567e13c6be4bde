import HailortDrivers.BoundBuffers
import HailortDrivers.DivisorSafety

/-!
Which descriptors of a list the binding of a buffer writes. The walk over the scatter list is
traced: it also collects the positions that its chunks program, and the index of the word with
the interrupt bits. What is not traced keeps its descriptor.
-/
namespace HailortDrivers.BindIndices
open KernelExec MachineWord SegmentSlicing VdmaTypes DescriptorProgramming DescriptorsListCreation
open ProgrammedPages BoundBuffers DivisorSafety

section Trace

/-- The values of `desc_index` in the loop, and the one after it. -/
def positionsFrom : Nat → UInt32 → List UInt32
  | 0, q => [q]
  | n + 1, q => q :: positionsFrom n (q + 1)

def chunkPositions (chunkSize : UInt32) (descList : HailoVdmaDescriptorsList)
    (descIndex maxDescIndex : UInt32) : Exec (List UInt32) := do
  let descsToProgram ← divRoundUp chunkSize descList.descPageSize.toUInt32
  if descIndex + descsToProgram > maxDescIndex + 1 then
    return []
  return positionsFrom ((descIndex + descsToProgram - 1).toNat - descIndex.toNat) descIndex

/-- `bindSgEntries` with the positions it programs. -/
def tracedSgEntries (bufferOffset maxDescIndex : UInt32) (dataId : UInt8) (stride : UInt32)
    (maskedChannelId : UInt64) :
    List ScatterEntry → BindCursor → Exec (List UInt32 × BindExit)
  | [], c => .ok ([], .walked c)
  | e :: es, c =>
    let next := c.bufferCurrentOffset + e.dmaLen.toNat
    if next < bufferOffset.toNat then
      tracedSgEntries bufferOffset maxDescIndex dataId stride maskedChannelId es
        { c with bufferCurrentOffset := next }
    else
      let chunk := chunkOfEntry e c.bufferCurrentOffset bufferOffset.toNat
      if chunk.2 = 0 then
        tracedSgEntries bufferOffset maxDescIndex dataId stride maskedChannelId es
          { c with bufferCurrentOffset := next }
      else if c.programSize = 0 then .ok ([], .walked c)
      else do
        let chunkSize := min c.programSize chunk.2
        let positions ← chunkPositions chunkSize c.descList c.startingDesc maxDescIndex
        let (ret, descList) ← hailoVdmaProgramDescriptorsInChunk chunk.1 chunkSize c.descList
          c.startingDesc maxDescIndex dataId stride maskedChannelId
        if ret < 0 then
          return (positions, .failed ret descList)
        let c' := cursorAfter c e chunkSize ret descList
        if c'.programSize = 0 then
          return (positions, .walked c')
        let (rest, exit) ← tracedSgEntries bufferOffset maxDescIndex dataId stride
          maskedChannelId es c'
        return (positions ++ rest, exit)

/-- What a call writes: the programmed positions, before the mask, and the index of the word
that the interrupt bits are set in. -/
structure Writes where
  positions : List UInt32
  interruptWord : Option UInt32

/-- The indices of the array that were written. -/
def Writes.indices (w : Writes) (descCountMask : UInt32) : List Nat :=
  w.positions.map (fun q => (q &&& descCountMask).toNat) ++
    w.interruptWord.toList.map UInt32.toNat

def tracedFromStart (vdmaHw : HailoVdmaHw) (descList : HailoVdmaDescriptorsList)
    (startingDesc : UInt32) (buffer : HailoVdmaMappedTransferBuffer) (channelIndex : UInt8)
    (lastDescInterrupts : HailoVdmaInterruptsDomain) (isDebug : Bool) (stride : UInt32) :
    Exec (Writes × Int32 × HailoVdmaDescriptorsList) := do
  let maxDescIndex := if descList.isCircular then startingDesc + descList.descCount - 1
    else descList.descCount - 1
  let (positions, exit) ← tracedSgEntries buffer.offset maxDescIndex vdmaHw.ddrDataId stride
    (vdmaHw.getMaskedChannelId (getChannelId channelIndex)) buffer.sgTable.sgl
    ⟨0, startingDesc, buffer.size, 0, descList⟩
  match exit with
  | .failed err descList => return (⟨positions, none⟩, err, descList)
  | .walked c =>
    if c.programSize ≠ 0 then
      return (⟨positions, none⟩, -efault, c.descList)
    let last ← umod (c.startingDesc - 1) descList.descCount
    return (⟨positions, some last⟩, c.descProgrammed, orPageSizeDescControl c.descList last
      (getInterruptsBitmask vdmaHw lastDescInterrupts isDebug))

/-- `bindAndProgramDescriptorsList` with what it writes. -/
def tracedBind (vdmaHw : HailoVdmaHw) (descList : HailoVdmaDescriptorsList)
    (startingDesc : UInt32) (buffer : HailoVdmaMappedTransferBuffer) (channelIndex : UInt8)
    (lastDescInterrupts : HailoVdmaInterruptsDomain) (isDebug : Bool) (stride : UInt32) :
    Exec (Writes × Int32 × HailoVdmaDescriptorsList) := do
  let pageSize := descList.descPageSize.toUInt32
  let offsetResidue ← umod buffer.offset pageSize
  if offsetResidue ≠ 0 ∨ startingDesc ≥ descList.descCount then
    return (⟨[], none⟩, -einval, descList)
  let strideResidue ← umod stride pageSize
  if strideResidue = 0 then
    tracedFromStart vdmaHw descList startingDesc buffer channelIndex lastDescInterrupts isDebug
      pageSize
  else
    let sizeResidue ← umod buffer.size pageSize
    if sizeResidue ≠ 0 then
      return (⟨[], none⟩, -einval, descList)
    else if stride > pageSize then
      return (⟨[], none⟩, -einval, descList)
    else
      tracedFromStart vdmaHw descList startingDesc buffer channelIndex lastDescInterrupts isDebug
        stride

end Trace

theorem mem_positionsFrom {n : Nat} {q i : UInt32} (h : q ∈ positionsFrom n i) :
    ∃ j ≤ n, q = i + UInt32.ofNat j := by
  induction n generalizing i with
  | zero =>
    obtain rfl := List.mem_singleton.mp h
    exact ⟨0, Nat.le_refl 0, (UInt32.add_zero q).symm⟩
  | succ n ih =>
    rcases List.mem_cons.mp h with rfl | hrest
    · exact ⟨0, Nat.zero_le _, (UInt32.add_zero q).symm⟩
    · obtain ⟨j, hj, rfl⟩ := ih hrest
      refine ⟨j + 1, Nat.succ_le_succ hj, ?_⟩
      rw [UInt32.ofNat_add, UInt32.add_comm (UInt32.ofNat j), ← UInt32.add_assoc]
      rfl

theorem positionsFrom_mem {n j : Nat} (hj : j ≤ n) (i : UInt32) :
    i + UInt32.ofNat j ∈ positionsFrom n i := by
  induction n generalizing i j with
  | zero =>
    obtain rfl := Nat.le_zero.mp hj
    exact List.mem_singleton.mpr (UInt32.add_zero i)
  | succ n ih =>
    cases j with
    | zero => exact List.mem_cons.mpr (Or.inl (UInt32.add_zero i))
    | succ j =>
      have hnext : i + UInt32.ofNat (j + 1) = i + 1 + UInt32.ofNat j := by
        rw [UInt32.ofNat_add, UInt32.add_comm (UInt32.ofNat j), ← UInt32.add_assoc]
        rfl
      rw [hnext]
      exact List.mem_cons_of_mem i (ih (Nat.le_of_succ_le_succ hj) (i + 1))

section Chunk
variable {l l' : HailoVdmaDescriptorsList} {pageSize : UInt32} {chunkAddr maskedChannelId : UInt64}
  {chunkSize descIndex maxDescIndex stride : UInt32} {dataId : UInt8} {positions : List UInt32}
  {ret : Int32} {limit : Nat}

theorem chunkPositions_eq (hpage : l.descPageSize.toUInt32 = pageSize) (hP : pageSize ≠ 0)
    (chunkSize descIndex maxDescIndex : UInt32) :
    chunkPositions chunkSize l descIndex maxDescIndex =
      .ok (if descIndex + descsToProgram pageSize chunkSize > maxDescIndex + 1 then []
        else positionsFrom ((descIndex + descsToProgram pageSize chunkSize - 1).toNat -
          descIndex.toNat) descIndex) := by
  subst hpage
  rw [chunkPositions, divRoundUp_of_ne hP, ok_bind, ← descsToProgram]
  split <;> rfl

/-- What a chunk of at least one byte does to a list whose pages have at least 16 bytes. -/
structure ChunkWrites (l : HailoVdmaDescriptorsList) (descIndex : UInt32) (limit : Nat)
    (positions : List UInt32) (ret : Int32) (l' : HailoVdmaDescriptorsList) : Prop where
  bounded : ∀ q ∈ positions, q.toNat < limit
  advanced : ¬ ret < 0 → (descIndex + ret.toUInt32).toNat ≤ limit
  shape : SameShape l l'
  kept : ∀ x, (∀ q ∈ positions, (q &&& l.descCountMask).toNat ≠ x) →
    l'.descList x = l.descList x

theorem chunk_writes (hpage : 16 ≤ l.descPageSize.toNat) (hchunk : 0 < chunkSize.toNat)
    (hfit : chunkSize.toNat + l.descPageSize.toNat < 2 ^ 32)
    (hmax : (maxDescIndex + 1).toNat = limit) (hlimit : limit ≤ 2 ^ 29)
    (hindex : descIndex.toNat ≤ limit) (chunkAddr maskedChannelId : UInt64) (stride : UInt32)
    (dataId : UInt8) :
    ∃ positions ret l', chunkPositions chunkSize l descIndex maxDescIndex = .ok positions ∧
      hailoVdmaProgramDescriptorsInChunk chunkAddr chunkSize l descIndex maxDescIndex dataId
        stride maskedChannelId = .ok (ret, l') ∧
      ChunkWrites l descIndex limit positions ret l' := by
  generalize hpageSize : l.descPageSize.toUInt32 = pageSize
  have hnat : pageSize.toNat = l.descPageSize.toNat := by rw [← hpageSize, UInt16.toNat_toUInt32]
  have hP : pageSize ≠ 0 := toNat_pos_iff.mp (by omega)
  have hdescs : (descsToProgram pageSize chunkSize).toNat = chunkSize.toNat ⌈/⌉ pageSize.toNat :=
    toNat_descsToProgram (by omega) (by omega)
  have hpos : 0 < chunkSize.toNat ⌈/⌉ pageSize.toNat := ceilDiv_pos (by omega) hchunk
  -- Pages of 16 bytes leave at most `2 ^ 28` descriptors to a chunk, so no sum wraps.
  have hfew : chunkSize.toNat ⌈/⌉ pageSize.toNat ≤ 2 ^ 28 := by
    refine (ceilDiv_le_iff_le_mul (by omega)).mpr ?_
    have hmul : 16 * 2 ^ 28 ≤ pageSize.toNat * 2 ^ 28 := Nat.mul_le_mul_right _ (by omega)
    omega
  have hsum : (descIndex + descsToProgram pageSize chunkSize).toNat =
      descIndex.toNat + (descsToProgram pageSize chunkSize).toNat := toNat_add_of_lt (by omega)
  have hlast : (descIndex + descsToProgram pageSize chunkSize - 1).toNat =
      descIndex.toNat + (descsToProgram pageSize chunkSize).toNat - 1 :=
    toNat_add_sub_one (by omega) (by omega)
  have hpositions := chunkPositions_eq hpageSize hP chunkSize descIndex maxDescIndex
  have hcall := hailoVdmaProgramDescriptorsInChunk_eq hpageSize hP chunkAddr chunkSize descIndex
    maxDescIndex dataId stride maskedChannelId
  by_cases hrange : descIndex + descsToProgram pageSize chunkSize > maxDescIndex + 1
  · rw [if_pos hrange] at hpositions hcall
    refine ⟨_, _, _, hpositions, hcall, fun q hq => absurd hq List.not_mem_nil, fun hret => ?_,
      SameShape.refl l, fun x _ => rfl⟩
    exact absurd (by decide : -erange < (0 : Int32)) hret
  · rw [if_neg hrange] at hpositions hcall
    have hle : (descIndex + descsToProgram pageSize chunkSize).toNat ≤ limit := by
      rw [← hmax]
      exact UInt32.le_iff_toNat_le.mp (UInt32.not_lt.mp hrange)
    refine ⟨_, _, _, hpositions, hcall, fun q hq => ?_, fun _ => ?_, ⟨_, rfl⟩,
      fun x hx => writePages_of_ne fun j hj => ?_⟩
    · obtain ⟨j, hj, rfl⟩ := mem_positionsFrom hq
      have hofNat : (UInt32.ofNat j).toNat = j := toNat_ofNat_of_lt (by omega)
      rw [toNat_add_of_lt (by omega), hofNat]
      omega
    · rw [UInt32.toUInt32_toInt32]
      exact hle
    · rw [length_chunkPages] at hj
      exact hx _ (positionsFrom_mem (Nat.le_of_lt_succ hj) descIndex)

end Chunk

section Walk
variable {bufferOffset maxDescIndex stride : UInt32} {dataId : UInt8} {maskedChannelId : UInt64}
  {es : List ScatterEntry} {c : BindCursor} {positions : List UInt32} {exit : BindExit}
  {limit : Nat}

/-- The trace only watches. -/
theorem tracedSgEntries_erased
    (h : tracedSgEntries bufferOffset maxDescIndex dataId stride maskedChannelId es c =
      .ok (positions, exit)) :
    bindSgEntries bufferOffset maxDescIndex dataId stride maskedChannelId es c = .ok exit := by
  induction es generalizing c positions with
  | nil =>
    cases h
    rfl
  | cons e es ih =>
    rw [tracedSgEntries] at h
    rw [bindSgEntries]
    simp only at h ⊢
    split at h
    · next hskip =>
      rw [if_pos hskip]
      exact ih h
    · next hskip =>
      rw [if_neg hskip]
      split at h
      · next hempty =>
        rw [if_pos hempty]
        exact ih h
      · next hempty =>
        rw [if_neg hempty]
        split at h
        · next hsize =>
          cases h
          rw [if_pos hsize]
        · next hsize =>
          rw [if_neg hsize]
          obtain ⟨chunk, -, h⟩ := bind_ok h
          obtain ⟨⟨ret, descList⟩, hchunk, h⟩ := bind_ok h
          rw [hchunk, ok_bind]
          simp only at h ⊢
          split at h
          · next hret =>
            cases h
            rw [if_pos hret]
            rfl
          · next hret =>
            rw [if_neg hret]
            split at h
            · next hdone =>
              cases h
              exact if_pos hdone
            · next hdone =>
              obtain ⟨⟨rest, exit'⟩, hrest, h⟩ := bind_ok h
              cases h
              exact (if_neg hdone).trans (ih hrest)

/-- What a walk over entries with pages of at least 16 bytes writes. -/
structure WalkWrites (l : HailoVdmaDescriptorsList) (limit : Nat) (positions : List UInt32)
    (exit : BindExit) : Prop where
  bounded : ∀ q ∈ positions, q.toNat < limit
  kept : ∀ x, (∀ q ∈ positions, (q &&& l.descCountMask).toNat ≠ x) →
    exit.descList.descList x = l.descList x

theorem WalkWrites.none (c : BindCursor) (limit : Nat) :
    WalkWrites c.descList limit [] (.walked c) :=
  ⟨fun _ hq => absurd hq List.not_mem_nil, fun _ _ => rfl⟩

/-- A chunk in front of a walk. -/
theorem ChunkWrites.append {l l' : HailoVdmaDescriptorsList} {descIndex : UInt32} {ret : Int32}
    {rest : List UInt32} (h : ChunkWrites l descIndex limit positions ret l')
    (hrest : WalkWrites l' limit rest exit) : WalkWrites l limit (positions ++ rest) exit := by
  obtain ⟨descs, rfl⟩ := h.shape
  constructor
  · intro q hq
    exact (List.mem_append.mp hq).elim (h.bounded q) (hrest.bounded q)
  · intro x hx
    have hlater := hrest.kept x fun q hq => hx q (List.mem_append_right positions hq)
    exact hlater.trans (h.kept x fun q hq => hx q (List.mem_append_left rest hq))

/-- The walk never divides by zero, and each chunk leaves the index where the next may start. -/
theorem tracedSgEntries_writes (hpage : 16 ≤ c.descList.descPageSize.toNat)
    (htotal : totalLen (segments es) + c.descList.descPageSize.toNat < 2 ^ 32)
    (hmax : (maxDescIndex + 1).toNat = limit) (hlimit : limit ≤ 2 ^ 29)
    (hindex : c.startingDesc.toNat ≤ limit) :
    ∃ positions exit, tracedSgEntries bufferOffset maxDescIndex dataId stride maskedChannelId es c =
      .ok (positions, exit) ∧ WalkWrites c.descList limit positions exit := by
  induction es generalizing c with
  | nil => exact ⟨[], .walked c, rfl, .none c limit⟩
  | cons e es ih =>
    rw [segments, List.map_cons, totalLen_cons, ← segments, entrySegment] at htotal
    simp only at htotal
    have hlater : totalLen (segments es) + c.descList.descPageSize.toNat < 2 ^ 32 := by omega
    rw [tracedSgEntries]
    simp only
    split
    · exact ih (c := { c with
        bufferCurrentOffset := c.bufferCurrentOffset + e.dmaLen.toNat }) hpage hlater hindex
    · split
      · exact ih (c := { c with
          bufferCurrentOffset := c.bufferCurrentOffset + e.dmaLen.toNat }) hpage hlater hindex
      · next hempty =>
        split
        · exact ⟨[], .walked c, rfl, .none c limit⟩
        · next hsize =>
          have hle := chunkOfEntry_snd e c.bufferCurrentOffset bufferOffset.toNat
          have hchunkPos := toNat_pos_iff.mpr hempty
          have hsizePos := toNat_pos_iff.mpr hsize
          generalize (chunkOfEntry e c.bufferCurrentOffset bufferOffset.toNat).2 = len at *
          have hmin : (min c.programSize len).toNat = min c.programSize.toNat len.toNat :=
            UInt32.toNat_min _ _
          obtain ⟨positions, ret, l', hpositions, hcall, hwrites⟩ := @chunk_writes c.descList
            (min c.programSize len) c.startingDesc maxDescIndex limit hpage (by omega) (by omega)
            hmax hlimit hindex (chunkOfEntry e c.bufferCurrentOffset bufferOffset.toNat).1
            maskedChannelId stride dataId
          have hend : WalkWrites l' limit [] (.failed ret l') :=
            ⟨fun _ hq => absurd hq List.not_mem_nil, fun _ _ => rfl⟩
          rw [hpositions, ok_bind, hcall, ok_bind]
          simp only
          split
          · exact ⟨positions, _, rfl, List.append_nil positions ▸ hwrites.append hend⟩
          · next hret =>
            split
            · exact ⟨positions, _, rfl, List.append_nil positions ▸ hwrites.append
                (.none (cursorAfter c e (min c.programSize len) ret l') limit)⟩
            · obtain ⟨descs, rfl⟩ := hwrites.shape
              obtain ⟨rest, exit, hrest, hwalk⟩ := ih
                (c := cursorAfter c e (min c.programSize len) ret (c.descList.withDescs descs))
                hpage hlater (hwrites.advanced hret)
              rw [hrest, ok_bind]
              exact ⟨_, _, rfl, hwrites.append hwalk⟩

end Walk

section Bind
variable {vdmaHw : HailoVdmaHw} {l l' : HailoVdmaDescriptorsList} {startingDesc stride : UInt32}
  {buffer : HailoVdmaMappedTransferBuffer} {channelIndex : UInt8}
  {lastDescInterrupts : HailoVdmaInterruptsDomain} {isDebug : Bool} {ret : Int32} {w : Writes}

theorem tracedFromStart_erased
    (h : tracedFromStart vdmaHw l startingDesc buffer channelIndex lastDescInterrupts isDebug
      stride = .ok (w, ret, l')) :
    bindFromStart vdmaHw l startingDesc buffer channelIndex lastDescInterrupts isDebug stride =
      .ok (ret, l') := by
  obtain ⟨⟨positions, exit⟩, hwalk, h⟩ := bind_ok h
  rw [bindFromStart, tracedSgEntries_erased hwalk, ok_bind]
  cases exit with
  | failed err descList =>
    cases h
    rfl
  | walked c =>
    simp only at h ⊢
    split at h
    · next hmore =>
      cases h
      exact if_pos hmore
    · next hdone =>
      obtain ⟨last, hlast, h⟩ := bind_ok h
      cases h
      rw [if_neg hdone, hlast]
      rfl

theorem tracedBind_erased
    (h : tracedBind vdmaHw l startingDesc buffer channelIndex lastDescInterrupts isDebug stride =
      .ok (w, ret, l')) :
    bindAndProgramDescriptorsList vdmaHw l startingDesc buffer channelIndex lastDescInterrupts
      isDebug stride = .ok (ret, l') := by
  obtain ⟨offsetResidue, hoffset, h⟩ := bind_ok h
  rw [bindAndProgramDescriptorsList, hoffset, ok_bind]
  split at h
  · next hbad =>
    cases h
    exact if_pos hbad
  · next hgood =>
    obtain ⟨strideResidue, hstride, h⟩ := bind_ok h
    rw [if_neg hgood, hstride, ok_bind]
    split at h
    · next haligned =>
      rw [if_pos haligned]
      exact tracedFromStart_erased h
    · next hunaligned =>
      obtain ⟨sizeResidue, hsize, h⟩ := bind_ok h
      rw [if_neg hunaligned, hsize, ok_bind]
      split at h
      · next hbad =>
        cases h
        exact if_pos hbad
      · next hwhole =>
        rw [if_neg hwhole]
        split at h
        · next hlarge =>
          cases h
          exact if_pos hlarge
        · next hsmall =>
          rw [if_neg hsmall]
          exact tracedFromStart_erased h

/-- What a call writes stays in the array, and what it does not write stays as it was. -/
structure InBounds (l : HailoVdmaDescriptorsList) (w : Writes) (l' : HailoVdmaDescriptorsList) :
    Prop where
  masked : ∀ q ∈ w.positions, (q &&& l.descCountMask).toNat = q.toNat % l.descCount.toNat
  indices : ∀ x ∈ w.indices l.descCountMask, x < l.descCount.toNat
  kept : ∀ x, x ∉ w.indices l.descCountMask → l'.descList x = l.descList x

theorem InBounds.none (l : HailoVdmaDescriptorsList) : InBounds l ⟨[], .none⟩ l :=
  ⟨fun _ hq => absurd hq List.not_mem_nil, fun _ hx => absurd hx List.not_mem_nil, fun _ _ => rfl⟩

/-- The positions of a walk are in the array, as is the word of the interrupt bits. -/
theorem inBounds_of_positions {positions : List UInt32} {last : Option UInt32}
    (hcount : 0 < l.descCount.toNat)
    (hmasked : ∀ q ∈ positions, (q &&& l.descCountMask).toNat = q.toNat % l.descCount.toNat)
    (hlast : ∀ i ∈ last, i.toNat < l.descCount.toNat)
    (hkept : ∀ x, x ∉ Writes.indices ⟨positions, last⟩ l.descCountMask →
      l'.descList x = l.descList x) : InBounds l ⟨positions, last⟩ l' := by
  refine ⟨hmasked, fun x hx => ?_, hkept⟩
  rcases List.mem_append.mp hx with hx | hx
  · obtain ⟨q, hq, rfl⟩ := List.mem_map.mp hx
    rw [hmasked q hq]
    exact Nat.mod_lt _ hcount
  · obtain ⟨i, hi, rfl⟩ := List.mem_map.mp hx
    exact hlast i (Option.mem_toList.mp hi)

theorem tracedFromStart_inBounds (hwf : WellFormed l) (hcount : 0 < l.descCount.toNat)
    (hcountLe : l.descCount.toNat ≤ 2 ^ 28) (hpage : 16 ≤ l.descPageSize.toNat)
    (htotal : totalLen (segments buffer.sgTable.sgl) + l.descPageSize.toNat < 2 ^ 32)
    (hstart : startingDesc.toNat < l.descCount.toNat) :
    ∃ w ret l', tracedFromStart vdmaHw l startingDesc buffer channelIndex lastDescInterrupts isDebug
      stride = .ok (w, ret, l') ∧ InBounds l w l' := by
  have hcountNe : l.descCount ≠ 0 := toNat_pos_iff.mp hcount
  -- On a circular list positions run on for one turn, on the other kind they stop at the end.
  obtain ⟨limit, hlimit, hmax, hroom⟩ : ∃ limit ≤ 2 ^ 29,
      ((if l.isCircular then startingDesc + l.descCount - 1 else l.descCount - 1) + 1).toNat =
        limit ∧ (l.isCircular = true ∧ startingDesc.toNat ≤ limit ∨
          limit = l.descCount.toNat) := by
    cases hc : l.isCircular with
    | true =>
      refine ⟨startingDesc.toNat + l.descCount.toNat, by omega, ?_, Or.inl ⟨rfl, by omega⟩⟩
      rw [if_pos rfl, UInt32.sub_add_cancel, toNat_add_of_lt (by omega)]
    | false =>
      refine ⟨l.descCount.toNat, by omega, ?_, Or.inr rfl⟩
      rw [if_neg (by decide), UInt32.sub_add_cancel]
  have hindex : startingDesc.toNat ≤ limit := by
    rcases hroom with ⟨-, hle⟩ | rfl
    · exact hle
    · exact hstart.le
  obtain ⟨positions, exit, htraced, hwalk⟩ := @tracedSgEntries_writes buffer.offset _ stride
    vdmaHw.ddrDataId (vdmaHw.getMaskedChannelId (getChannelId channelIndex)) _
    ⟨0, startingDesc, buffer.size, 0, l⟩ limit hpage htotal hmax hlimit hindex
  have hmasked : ∀ q ∈ positions,
      (q &&& l.descCountMask).toNat = q.toNat % l.descCount.toNat := by
    intro q hq
    refine hwf.masked hcountNe ?_
    rcases hroom with ⟨hc, -⟩ | rfl
    · exact Or.inl hc
    · exact Or.inr (hwalk.bounded q hq)
  have hkept : ∀ x (last : Option UInt32),
      x ∉ Writes.indices ⟨positions, last⟩ l.descCountMask →
        exit.descList.descList x = l.descList x := by
    intro x last hx
    refine hwalk.kept x fun q hq hqx => hx ?_
    exact List.mem_append_left _ (List.mem_map.mpr ⟨q, hq, hqx⟩)
  rw [tracedFromStart, htraced, ok_bind]
  cases exit with
  | failed err descList =>
    exact ⟨_, _, _, rfl, inBounds_of_positions hcount hmasked (fun i hi => by cases hi)
      fun x hx => hkept x none hx⟩
  | walked c =>
    simp only
    split
    · exact ⟨_, _, _, rfl, inBounds_of_positions hcount hmasked (fun i hi => by cases hi)
        fun x hx => hkept x none hx⟩
    · rw [umod_of_ne hcountNe, ok_bind]
      refine ⟨_, _, _, rfl, inBounds_of_positions hcount hmasked (fun i hi => ?_) fun x hx => ?_⟩
      · obtain rfl := Option.mem_some.mp hi
        rw [UInt32.toNat_mod]
        exact Nat.mod_lt _ hcount
      · rw [← hkept x _ hx]
        refine Function.update_of_ne (fun hne => hx ?_) _ _
        exact List.mem_append_right _ (List.mem_map.mpr ⟨_, Option.mem_toList.mpr rfl, hne.symm⟩)

end Bind

theorem created_wellFormed {descCount : UInt32} {descPageSize : UInt16} {isCircular : Bool}
    {memory : Option (Nat → HailoVdmaDescriptor)} {l : HailoVdmaDescriptorsList}
    (hcount : 1 ≤ descCount.toNat) (hcircular : isCircular = true → descCount.toNat.isPowerOfTwo)
    (h : hailoDescListCreate descCount descPageSize isCircular memory = .ok l) : WellFormed l := by
  have hround : descCount.toUInt64.toUInt32 = descCount := UInt32.toUInt32_toUInt64 descCount
  have hne : descCount.toUInt64 ≠ 0 := by
    intro hzero
    rw [hzero] at hround
    rw [← hround] at hcount
    exact absurd hcount (by decide)
  have hcheck : isCircular = true → isPowerof2 descCount.toUInt64 = true := fun hc =>
    (isPowerof2_iff hne).mpr (by rw [UInt32.toNat_toUInt64]; exact hcircular hc)
  exact hailoDescListCreate_wellFormed hcheck (by rw [hround]; exact h)

/-- Binding to a list as it is created writes inside the list, and at every position it programs
the mask is the remainder by the length of the list. -/
theorem bind_indices {descCount : UInt32} {descPageSize : UInt16} {isCircular : Bool}
    {memory : Option (Nat → HailoVdmaDescriptor)} {l : HailoVdmaDescriptorsList}
    (hcreate : hailoDescListCreate descCount descPageSize isCircular memory = .ok l)
    (hcount : 1 ≤ descCount.toNat) (hcountLe : descCount.toNat ≤ 2 ^ 28)
    (hcircular : isCircular = true → descCount.toNat.isPowerOfTwo)
    (hpage : 16 ≤ descPageSize.toNat) {buffer : HailoVdmaMappedTransferBuffer}
    (htotal : totalLen (segments buffer.sgTable.sgl) + descPageSize.toNat < 2 ^ 32)
    (vdmaHw : HailoVdmaHw) (startingDesc : UInt32) (channelIndex : UInt8)
    (lastDescInterrupts : HailoVdmaInterruptsDomain) (isDebug : Bool) (stride : UInt32) :
    ∃ w ret l',
      tracedBind vdmaHw l startingDesc buffer channelIndex lastDescInterrupts isDebug stride =
        .ok (w, ret, l') ∧
      bindAndProgramDescriptorsList vdmaHw l startingDesc buffer channelIndex lastDescInterrupts
        isDebug stride = .ok (ret, l') ∧
      InBounds l w l' := by
  have hwf := created_wellFormed hcount hcircular hcreate
  obtain ⟨hl, hp⟩ := hailoDescListCreate_fields hcreate
  rw [← hl] at hcount hcountLe
  rw [← hp] at hpage htotal
  have htraced : ∃ w ret l',
      tracedBind vdmaHw l startingDesc buffer channelIndex lastDescInterrupts isDebug stride =
        .ok (w, ret, l') ∧ InBounds l w l' := by
    have hpageNe : l.descPageSize.toUInt32 ≠ 0 :=
      toNat_pos_iff.mp (by rw [UInt16.toNat_toUInt32]; omega)
    rw [tracedBind]
    simp only [umod_of_ne hpageNe, ok_bind]
    split
    · exact ⟨_, _, _, rfl, .none l⟩
    · next hgood =>
      have hstart : startingDesc.toNat < l.descCount.toNat :=
        UInt32.lt_iff_toNat_lt.mp (UInt32.not_le.mp fun hge => hgood (Or.inr hge))
      have hwalk := fun stride => @tracedFromStart_inBounds vdmaHw l startingDesc stride buffer
        channelIndex lastDescInterrupts isDebug hwf hcount hcountLe hpage htotal hstart
      split
      · exact hwalk _
      · split
        · exact ⟨_, _, _, rfl, .none l⟩
        · split
          · exact ⟨_, _, _, rfl, .none l⟩
          · exact hwalk _
  obtain ⟨w, ret, l', htraced, hbounds⟩ := htraced
  exact ⟨w, ret, l', htraced, tracedBind_erased htraced, hbounds⟩

/-- From the last descriptor of a ring of four on, round to its second. -/
theorem bind_indices_ring :
    ∃ w ret l', tracedBind hailoPcieVdmaHw ringOfFour 3 splitBuffer 0
        hailoVdmaInterruptsDomainNone false 64 = .ok (w, ret, l') ∧
      bindAndProgramDescriptorsList hailoPcieVdmaHw ringOfFour 3 splitBuffer 0
        hailoVdmaInterruptsDomainNone false 64 = .ok (ret, l') ∧
      InBounds ringOfFour w l' :=
  bind_indices ringOfFour_created (by decide) (by decide) (fun _ => ⟨2, rfl⟩) (by decide)
    (by decide) hailoPcieVdmaHw 3 0 hailoVdmaInterruptsDomainNone false 64

end HailortDrivers.BindIndices
