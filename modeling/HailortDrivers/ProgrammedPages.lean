import HailortDrivers.DescriptorProgramming
import HailortDrivers.MachineWord
import HailortDrivers.SegmentSlicing
import Mathlib.Algebra.Order.BigOperators.Group.List

/-! What binding writes, as a list of pages stored at consecutive masked
indices. A chunk contributes the pages it is cut into; the walk contributes the
pages of the slice of the scatter list that the buffer names. -/
namespace HailortDrivers.ProgrammedPages
open KernelExec MachineWord VdmaTypes DescriptorProgramming SegmentSlicing

instance : ByteAddress UInt64 where
  advance a n := a + UInt64.ofNat n
  advance_zero a := by simp
  advance_advance a m n := by simp [UInt64.add_assoc]

def entrySegment (e : ScatterEntry) : Segment UInt64 := ⟨e.dmaAddress, e.dmaLen.toNat⟩

def segments (sgl : List ScatterEntry) : List (Segment UInt64) := sgl.map entrySegment

structure PageEntry where
  addr : UInt64
  size : UInt32
deriving DecidableEq

def pageDescriptor (dataId : UInt8) (p : PageEntry) : HailoVdmaDescriptor :=
  hailoVdmaProgramDescriptor p.addr p.size.toUInt64 dataId

/-- Store the pages at the masked indices `i`, `i + 1` and so on. -/
def writePages (addrMask : UInt32) (dataId : UInt8) :
    UInt32 → List PageEntry → (Nat → HailoVdmaDescriptor) → Nat → HailoVdmaDescriptor
  | _, [], mem => mem
  | i, p :: ps, mem => writePages addrMask dataId (i + 1) ps
      (Function.update mem (i &&& addrMask).toNat (pageDescriptor dataId p))

theorem writePages_append (addrMask : UInt32) (dataId : UInt8) (i : UInt32)
    (ps qs : List PageEntry) (mem : Nat → HailoVdmaDescriptor) :
    writePages addrMask dataId i (ps ++ qs) mem =
      writePages addrMask dataId (i + UInt32.ofNat ps.length) qs
        (writePages addrMask dataId i ps mem) := by
  induction ps generalizing i mem with
  | nil => simp [writePages]
  | cons p ps ih =>
    rw [List.cons_append, writePages, writePages, ih]
    congr 1
    rw [List.length_cons, Nat.add_comm, UInt32.ofNat_add, UInt32.add_assoc]
    rfl

/-- The pages of a chunk: `n` of `stride` bytes, then the last. -/
def chunkPages (pageSize : UInt64) (stride lastSize : UInt32) : Nat → UInt64 → List PageEntry
  | 0, a => [⟨a, lastSize⟩]
  | n + 1, a => ⟨a, stride⟩ :: chunkPages pageSize stride lastSize n (a + pageSize)

@[simp] theorem length_chunkPages (pageSize : UInt64) (stride lastSize : UInt32) (n : Nat)
    (a : UInt64) : (chunkPages pageSize stride lastSize n a).length = n + 1 := by
  induction n generalizing a with
  | zero => rfl
  | succ n ih => simp [chunkPages, ih]

theorem programAllButLast_writePages (addrMask stride lastSize : UInt32) (pageSize : UInt64)
    (dataId : UInt8) (n : Nat) (c : ChunkCursor) :
    let c' := programAllButLast addrMask stride pageSize dataId n c
    Function.update c'.descList (c'.descIndex &&& addrMask).toNat
        (pageDescriptor dataId ⟨c'.encodedAddr, lastSize⟩) =
      writePages addrMask dataId c.descIndex
        (chunkPages pageSize stride lastSize n c.encodedAddr) c.descList := by
  induction n generalizing c with
  | zero => rfl
  | succ n ih => exact ih _

/-- `descs_to_program` -/
def descsToProgram (pageSize chunkSize : UInt32) : UInt32 := (chunkSize + pageSize - 1) / pageSize

/-- The size of a chunk's last descriptor. -/
def lastChunkSize (pageSize stride chunkSize : UInt32) : UInt32 :=
  if chunkSize % pageSize = 0 then stride else (chunkSize % pageSize).toUInt16.toUInt32

theorem hailoVdmaProgramDescriptorsInChunk_eq {descList : HailoVdmaDescriptorsList}
    {pageSize : UInt32} (hpage : descList.descPageSize.toUInt32 = pageSize) (hP : pageSize ≠ 0)
    (chunkAddr : UInt64) (chunkSize descIndex maxDescIndex : UInt32) (dataId : UInt8)
    (stride : UInt32) (maskedChannelId : UInt64) :
    hailoVdmaProgramDescriptorsInChunk chunkAddr chunkSize descList descIndex maxDescIndex dataId
        stride maskedChannelId =
      .ok (if descIndex + descsToProgram pageSize chunkSize > maxDescIndex + 1 then
          (-erange, descList)
        else ((descsToProgram pageSize chunkSize).toInt32, descList.withDescs
          (writePages descList.descCountMask dataId descIndex
            (chunkPages pageSize.toUInt64 stride (lastChunkSize pageSize stride chunkSize)
              ((descIndex + descsToProgram pageSize chunkSize - 1).toNat - descIndex.toNat)
              (chunkAddr ||| maskedChannelId)) descList.descList))) := by
  subst hpage
  simp only [hailoVdmaProgramDescriptorsInChunk, umod_of_ne hP, divRoundUp_of_ne hP, ok_bind]
  rw [← descsToProgram]
  split
  · rfl
  · have hpages := programAllButLast_writePages descList.descCountMask stride
      (lastChunkSize descList.descPageSize.toUInt32 stride chunkSize)
      descList.descPageSize.toUInt32.toUInt64 dataId
      ((descIndex + descsToProgram descList.descPageSize.toUInt32 chunkSize - 1).toNat -
        descIndex.toNat)
      ⟨descIndex, chunkAddr ||| maskedChannelId, descList.descList⟩
    simp only at hpages
    rw [← hpages]
    rfl

theorem toNat_descsToProgram {pageSize chunkSize : UInt32} (hP : 0 < pageSize.toNat)
    (h : chunkSize.toNat + pageSize.toNat < 2 ^ 32) :
    (descsToProgram pageSize chunkSize).toNat = chunkSize.toNat ⌈/⌉ pageSize.toNat := by
  rw [descsToProgram, toNat_ceilDiv hP h, Nat.ceilDiv_eq_add_pred_div]

theorem ceilDiv_pos {n P : Nat} (hP : 0 < P) (hn : 0 < n) : 0 < n ⌈/⌉ P := by
  by_contra h
  have hle := (ceilDiv_le_iff_le_mul hP).mp (Nat.le_zero.mpr (by omega) : n ⌈/⌉ P ≤ 0)
  omega

/-- Whether rounding up stays within 32 bits decides what `descs_to_program` is. -/
theorem descsToProgram_cases {pageSize : UInt32} (hP : 0 < pageSize.toNat) {n : Nat} (hn : 0 < n)
    (hlt : n < 2 ^ 32) :
    if n + pageSize.toNat ≤ 2 ^ 32 then
      (descsToProgram pageSize (UInt32.ofNat n)).toNat = n ⌈/⌉ pageSize.toNat
    else (descsToProgram pageSize (UInt32.ofNat n)).toNat = 0 := by
  have hpage := pageSize.toNat_lt
  have hone : (1 : UInt32).toNat = 1 := rfl
  rw [descsToProgram, UInt32.toNat_div, UInt32.toNat_sub, UInt32.toNat_add, hone,
    toNat_ofNat_of_lt hlt, Nat.ceilDiv_eq_add_pred_div]
  split
  · congr 1
    omega
  · rw [Nat.div_eq_of_lt]
    omega

theorem descsToProgram_pos_iff {pageSize : UInt32} (hP : 0 < pageSize.toNat) {n : Nat}
    (hn : 0 < n) (hlt : n < 2 ^ 32) :
    0 < (descsToProgram pageSize (UInt32.ofNat n)).toNat ↔ n + pageSize.toNat ≤ 2 ^ 32 := by
  have hcases := descsToProgram_cases hP hn hlt
  split at hcases
  · next hfit =>
    rw [hcases]
    exact iff_of_true (ceilDiv_pos hP hn) hfit
  · next hfit =>
    rw [hcases]
    exact iff_of_false (Nat.lt_irrefl 0) hfit

/-- What `descs_to_program` comes to over the parts of a buffer. -/
def partTotal (pageSize : UInt32) (ss : List (Segment UInt64)) : Nat :=
  (ss.map fun s => (descsToProgram pageSize (UInt32.ofNat s.len)).toNat).sum

@[simp] theorem partTotal_nil (pageSize : UInt32) : partTotal pageSize [] = 0 := rfl

@[simp] theorem partTotal_cons (pageSize : UInt32) (s : Segment UInt64)
    (ss : List (Segment UInt64)) :
    partTotal pageSize (s :: ss) =
      (descsToProgram pageSize (UInt32.ofNat s.len)).toNat + partTotal pageSize ss := rfl

/-- The pages that one contiguous part of the buffer is programmed with. -/
def segmentPages (pageSize stride : UInt32) (maskedChannelId : UInt64) (s : Segment UInt64) :
    List PageEntry :=
  chunkPages pageSize.toUInt64 stride (lastChunkSize pageSize stride (UInt32.ofNat s.len))
    (s.len ⌈/⌉ pageSize.toNat - 1) (s.base ||| maskedChannelId)

def slicePages (pageSize stride : UInt32) (maskedChannelId : UInt64)
    (ss : List (Segment UInt64)) : List PageEntry :=
  ss.flatMap (segmentPages pageSize stride maskedChannelId)

@[simp] theorem slicePages_nil (pageSize stride : UInt32) (maskedChannelId : UInt64) :
    slicePages pageSize stride maskedChannelId [] = [] := rfl

@[simp] theorem slicePages_cons (pageSize stride : UInt32) (maskedChannelId : UInt64)
    (s : Segment UInt64) (ss : List (Segment UInt64)) :
    slicePages pageSize stride maskedChannelId (s :: ss) =
      segmentPages pageSize stride maskedChannelId s ++
        slicePages pageSize stride maskedChannelId ss := rfl

theorem length_segmentPages {pageSize : UInt32} (stride : UInt32) (maskedChannelId : UInt64)
    {s : Segment UInt64} (hP : 0 < pageSize.toNat) (hs : 0 < s.len) :
    (segmentPages pageSize stride maskedChannelId s).length = s.len ⌈/⌉ pageSize.toNat := by
  have hpos := ceilDiv_pos hP hs
  rw [segmentPages, length_chunkPages]
  omega

theorem length_slicePages {pageSize : UInt32} (stride : UInt32) (maskedChannelId : UInt64)
    {ss : List (Segment UInt64)} (hP : 0 < pageSize.toNat) (hpos : ∀ s ∈ ss, 0 < s.len) :
    (slicePages pageSize stride maskedChannelId ss).length = pageCount pageSize.toNat ss := by
  induction ss with
  | nil => rfl
  | cons s ss ih =>
    rw [slicePages_cons, List.length_append, pageCount_cons,
      length_segmentPages stride maskedChannelId hP (hpos s List.mem_cons_self),
      ih fun t ht => hpos t (List.mem_cons_of_mem s ht)]

/-- The cursor after a chunk was programmed with `ret` descriptors. -/
@[simps] def cursorAfter (c : BindCursor) (e : ScatterEntry) (chunkSize : UInt32) (ret : Int32)
    (descList : HailoVdmaDescriptorsList) : BindCursor where
  descProgrammed := c.descProgrammed + ret
  startingDesc := c.startingDesc + ret.toUInt32
  programSize := c.programSize - chunkSize
  bufferCurrentOffset := c.bufferCurrentOffset + e.dmaLen.toNat
  descList := descList

theorem chunkOfEntry_snd (e : ScatterEntry) (cur offset : Nat) :
    (chunkOfEntry e cur offset).2.toNat = e.dmaLen.toNat - (offset - cur) := by
  have hlen := e.dmaLen.toNat_lt
  unfold chunkOfEntry
  split
  · exact toNat_ofNat_of_lt (by omega)
  · simp only
    omega

theorem chunkOfEntry_fst (e : ScatterEntry) (cur offset : Nat) :
    (chunkOfEntry e cur offset).1 = ByteAddress.advance e.dmaAddress (offset - cur) := by
  unfold chunkOfEntry
  split
  · rfl
  · rw [Nat.sub_eq_zero_of_le (by omega), ByteAddress.advance_zero]

section Walk
variable {bufferOffset maxDescIndex : UInt32} {dataId : UInt8} {stride : UInt32}
  {maskedChannelId : UInt64} {e : ScatterEntry} {es : List ScatterEntry} {c : BindCursor}

theorem bindSgEntries_skip (h : e.dmaLen.toNat ≤ bufferOffset.toNat - c.bufferCurrentOffset) :
    bindSgEntries bufferOffset maxDescIndex dataId stride maskedChannelId (e :: es) c =
      bindSgEntries bufferOffset maxDescIndex dataId stride maskedChannelId es
        { c with bufferCurrentOffset := c.bufferCurrentOffset + e.dmaLen.toNat } := by
  rw [bindSgEntries]
  split
  · rfl
  · rw [if_pos]
    rw [← UInt32.toNat_inj, chunkOfEntry_snd, UInt32.toNat_zero]
    omega

theorem bindSgEntries_chunk (h : bufferOffset.toNat - c.bufferCurrentOffset < e.dmaLen.toNat)
    (hsize : c.programSize ≠ 0) {chunkSize : UInt32}
    (hchunk : chunkSize.toNat = min c.programSize.toNat
      (e.dmaLen.toNat - (bufferOffset.toNat - c.bufferCurrentOffset))) :
    bindSgEntries bufferOffset maxDescIndex dataId stride maskedChannelId (e :: es) c = (do
      let (ret, descList) ← hailoVdmaProgramDescriptorsInChunk
        (ByteAddress.advance e.dmaAddress (bufferOffset.toNat - c.bufferCurrentOffset)) chunkSize
        c.descList c.startingDesc maxDescIndex dataId stride maskedChannelId
      if ret < 0 then
        return .failed ret descList
      if c.programSize - chunkSize = 0 then
        return .walked (cursorAfter c e chunkSize ret descList)
      bindSgEntries bufferOffset maxDescIndex dataId stride maskedChannelId es
        (cursorAfter c e chunkSize ret descList)) := by
  have hmin : min c.programSize (chunkOfEntry e c.bufferCurrentOffset bufferOffset.toNat).2 =
      chunkSize := by
    rw [← UInt32.toNat_inj, hchunk, ← chunkOfEntry_snd, UInt32.toNat_min]
  rw [bindSgEntries, if_neg (by omega), if_neg, if_neg hsize]
  · simp only [hmin, chunkOfEntry_fst]
    rfl
  · rw [← UInt32.toNat_inj, chunkOfEntry_snd, UInt32.toNat_zero]
    omega

/-- What a walk that ran to its end has done, `ss` being the part of the buffer
that was still to be programmed. -/
structure Walked (pageSize stride : UInt32) (maskedChannelId : UInt64) (dataId : UInt8)
    (maxDescIndex : UInt32) (c c' : BindCursor) (ss : List (Segment UInt64)) : Prop where
  covered : totalLen ss = c.programSize.toNat
  startingDesc : c'.startingDesc = c.startingDesc + UInt32.ofNat (pageCount pageSize.toNat ss)
  descProgrammed : c'.descProgrammed =
    c.descProgrammed + (UInt32.ofNat (pageCount pageSize.toNat ss)).toInt32
  inRange : c.startingDesc.toNat + pageCount pageSize.toNat ss < 2 ^ 32 →
    c.startingDesc.toNat + pageCount pageSize.toNat ss ≤ (maxDescIndex + 1).toNat
  descList : c.startingDesc.toNat + pageCount pageSize.toNat ss < 2 ^ 32 →
    c'.descList = c.descList.withDescs (writePages c.descList.descCountMask dataId
      c.startingDesc (slicePages pageSize stride maskedChannelId ss) c.descList.descList)

theorem bindSgEntries_done
    (h : bufferOffset.toNat - c.bufferCurrentOffset < e.dmaLen.toNat) (hsize : c.programSize = 0) :
    bindSgEntries bufferOffset maxDescIndex dataId stride maskedChannelId (e :: es) c =
      .ok (.walked c) := by
  rw [bindSgEntries, if_neg (by omega), if_neg, if_pos hsize]
  rw [← UInt32.toNat_inj, chunkOfEntry_snd, UInt32.toNat_zero]
  omega

/-- Store the parts of a buffer one after the other, from index `i` on. -/
def storeParts (addrMask pageSize stride : UInt32) (maskedChannelId : UInt64) (dataId : UInt8) :
    UInt32 → List (Segment UInt64) → (Nat → HailoVdmaDescriptor) → Nat → HailoVdmaDescriptor
  | _, [], mem => mem
  | i, s :: ss, mem =>
    let k := descsToProgram pageSize (UInt32.ofNat s.len)
    storeParts addrMask pageSize stride maskedChannelId dataId (i + k) ss
      (writePages addrMask dataId i (chunkPages pageSize.toUInt64 stride
        (lastChunkSize pageSize stride (UInt32.ofNat s.len)) ((i + k - 1).toNat - i.toNat)
        (s.base ||| maskedChannelId)) mem)

/-- What a walk that programmed all of `ss` has done, whatever rounds up past 32 bits. -/
structure Stores (pageSize stride : UInt32) (maskedChannelId : UInt64) (dataId : UInt8)
    (maxDescIndex : UInt32) (c c' : BindCursor) (ss : List (Segment UInt64)) : Prop where
  covered : totalLen ss = c.programSize.toNat
  startingDesc : c'.startingDesc = c.startingDesc + UInt32.ofNat (partTotal pageSize ss)
  descProgrammed : c'.descProgrammed =
    c.descProgrammed + (UInt32.ofNat (partTotal pageSize ss)).toInt32
  inRange : ss ≠ [] → c.startingDesc.toNat + partTotal pageSize ss < 2 ^ 32 →
    c.startingDesc.toNat + partTotal pageSize ss ≤ (maxDescIndex + 1).toNat
  descList : c'.descList = c.descList.withDescs (storeParts c.descList.descCountMask pageSize
    stride maskedChannelId dataId c.startingDesc ss c.descList.descList)

theorem Stores.done {pageSize : UInt32} {c : BindCursor} (hsize : c.programSize = 0) :
    Stores pageSize stride maskedChannelId dataId maxDescIndex c c [] where
  covered := by rw [hsize]; rfl
  startingDesc := by simp
  descProgrammed := by simp
  inRange hne := absurd rfl hne
  descList := rfl

/-- One chunk more in front of a walk. -/
theorem Stores.cons {pageSize chunkSize : UInt32} {c c' : BindCursor} {s : Segment UInt64}
    {ss : List (Segment UInt64)} (hs : UInt32.ofNat s.len = chunkSize)
    (hlen : s.len = chunkSize.toNat) (hle : chunkSize.toNat ≤ c.programSize.toNat)
    (hrange : (c.startingDesc + descsToProgram pageSize chunkSize).toNat ≤
      (maxDescIndex + 1).toNat)
    (h : Stores pageSize stride maskedChannelId dataId maxDescIndex
      (cursorAfter c e chunkSize (descsToProgram pageSize chunkSize).toInt32
        (c.descList.withDescs (writePages c.descList.descCountMask dataId c.startingDesc
          (chunkPages pageSize.toUInt64 stride (lastChunkSize pageSize stride chunkSize)
            ((c.startingDesc + descsToProgram pageSize chunkSize - 1).toNat -
              c.startingDesc.toNat)
            (s.base ||| maskedChannelId)) c.descList.descList))) c' ss) :
    Stores pageSize stride maskedChannelId dataId maxDescIndex c c' (s :: ss) := by
  have hofNat : UInt32.ofNat (partTotal pageSize (s :: ss)) =
      descsToProgram pageSize chunkSize + UInt32.ofNat (partTotal pageSize ss) := by
    rw [partTotal_cons, UInt32.ofNat_add, hs, UInt32.ofNat_toNat]
  refine ⟨?_, ?_, ?_, ?_, ?_⟩
  · have hcov := h.covered
    rw [cursorAfter_programSize,
      UInt32.toNat_sub_of_le _ _ (UInt32.le_iff_toNat_le.mpr hle)] at hcov
    rw [totalLen_cons, hcov, hlen]
    omega
  · rw [h.startingDesc, cursorAfter_startingDesc, UInt32.toUInt32_toInt32, hofNat,
      UInt32.add_assoc]
  · rw [h.descProgrammed, cursorAfter_descProgrammed, hofNat, UInt32.toInt32_add,
      Int32.add_assoc]
  · intro _ hlt
    rw [partTotal_cons, hs] at hlt ⊢
    have hnext := toNat_add_of_lt (a := c.startingDesc)
      (b := descsToProgram pageSize chunkSize) (by omega)
    rw [← Nat.add_assoc] at hlt ⊢
    have hroom := h.inRange
    rw [cursorAfter_startingDesc, UInt32.toUInt32_toInt32, hnext] at hroom
    rw [hnext] at hrange
    cases ss with
    | nil => exact hrange
    | cons t ts => exact hroom (List.cons_ne_nil t ts) hlt
  · rw [h.descList, cursorAfter_startingDesc, UInt32.toUInt32_toInt32, cursorAfter_descList,
      HailoVdmaDescriptorsList.withDescs_withDescs, storeParts, hs]
    rfl

theorem walk_stores {pageSize : UInt32} {c c' : BindCursor}
    (hpage : c.descList.descPageSize.toUInt32 = pageSize) (hP : 0 < pageSize.toNat)
    (h : bindSgEntries bufferOffset maxDescIndex dataId stride maskedChannelId es c =
      .ok (.walked c')) (hdone : c'.programSize = 0) :
    Stores pageSize stride maskedChannelId dataId maxDescIndex c c'
      (slice (segments es) (bufferOffset.toNat - c.bufferCurrentOffset) c.programSize.toNat) := by
  induction es generalizing c with
  | nil =>
    cases h
    exact .done hdone
  | cons e es ih =>
    rw [segments, List.map_cons]
    by_cases hskip : e.dmaLen.toNat ≤ bufferOffset.toNat - c.bufferCurrentOffset
    · rw [bindSgEntries_skip hskip] at h
      have hrest := ih (c := { c with
        bufferCurrentOffset := c.bufferCurrentOffset + e.dmaLen.toNat }) hpage h
      rw [slice_cons_skip hskip, entrySegment, Nat.sub_sub]
      exact ⟨hrest.1, hrest.2, hrest.3, hrest.4, hrest.5⟩
    · by_cases hsize : c.programSize = 0
      · rw [bindSgEntries_done (by omega) hsize] at h
        cases h
        rw [hsize, UInt32.toNat_zero, slice_zero]
        exact .done hsize
      · have hpos := toNat_pos_iff.mpr hsize
        generalize hn : min c.programSize.toNat
          (e.dmaLen.toNat - (bufferOffset.toNat - c.bufferCurrentOffset)) = n
        have hlt := c.programSize.toNat_lt
        have hchunk : (UInt32.ofNat n).toNat = n := toNat_ofNat_of_lt (by omega)
        have hle : (UInt32.ofNat n).toNat ≤ c.programSize.toNat := by omega
        have hrest : (c.programSize - UInt32.ofNat n).toNat = c.programSize.toNat - n := by
          rw [UInt32.toNat_sub_of_le _ _ (UInt32.le_iff_toNat_le.mpr hle), hchunk]
        rw [slice_cons_cut (by simpa [entrySegment] using hskip) hpos hn.symm]
        rw [bindSgEntries_chunk (by omega) hsize (hchunk.trans hn.symm),
          hailoVdmaProgramDescriptorsInChunk_eq hpage (toNat_pos_iff.mp hP), ok_bind] at h
        by_cases hrange : c.startingDesc + descsToProgram pageSize (UInt32.ofNat n) >
            maxDescIndex + 1
        · rw [if_pos hrange] at h
          simp only at h
          rw [if_pos (by decide)] at h
          cases h
        · rw [if_neg hrange] at h
          rw [gt_iff_lt, UInt32.lt_iff_toNat_lt, Nat.not_lt] at hrange
          simp only at h
          refine Stores.cons (e := e) rfl hchunk.symm hle hrange ?_
          split at h
          · cases h
          · rw [← hrest]
            split at h
            · next hzero =>
              cases h
              rw [hzero, UInt32.toNat_zero, slice_zero]
              exact .done hzero
            · have hwalk := ih (by exact hpage) h
              have hpast : bufferOffset.toNat - (c.bufferCurrentOffset + e.dmaLen.toNat) = 0 := by
                omega
              rw [cursorAfter_bufferCurrentOffset, hpast, cursorAfter_programSize] at hwalk
              exact hwalk

/-- A walk that the list has room for programs the whole buffer. -/
theorem walk_total {pageSize : UInt32} {c : BindCursor}
    (hpage : c.descList.descPageSize.toUInt32 = pageSize) (hP : 0 < pageSize.toNat)
    {ss : List (Segment UInt64)}
    (hss : ss = slice (segments es) (bufferOffset.toNat - c.bufferCurrentOffset)
      c.programSize.toNat)
    (hcov : totalLen ss = c.programSize.toNat) (hcount : partTotal pageSize ss < 2 ^ 31)
    (hwrap : c.startingDesc.toNat + partTotal pageSize ss < 2 ^ 32)
    (hroom : c.startingDesc.toNat + partTotal pageSize ss ≤ (maxDescIndex + 1).toNat) :
    ∃ c', bindSgEntries bufferOffset maxDescIndex dataId stride maskedChannelId es c =
      .ok (.walked c') ∧ c'.programSize = 0 := by
  induction es generalizing c ss with
  | nil =>
    subst hss
    exact ⟨c, rfl, UInt32.toNat_inj.mp hcov.symm⟩
  | cons e es ih =>
    rw [segments, List.map_cons] at hss
    by_cases hskip : e.dmaLen.toNat ≤ bufferOffset.toNat - c.bufferCurrentOffset
    · rw [bindSgEntries_skip hskip]
      rw [slice_cons_skip hskip, entrySegment, Nat.sub_sub] at hss
      exact ih hpage hss hcov hcount hwrap hroom
    · by_cases hsize : c.programSize = 0
      · exact ⟨c, bindSgEntries_done (by omega) hsize, hsize⟩
      · have hpos := toNat_pos_iff.mpr hsize
        generalize hn : min c.programSize.toNat
          (e.dmaLen.toNat - (bufferOffset.toNat - c.bufferCurrentOffset)) = n
        have hlt := c.programSize.toNat_lt
        have hchunk : (UInt32.ofNat n).toNat = n := toNat_ofNat_of_lt (by omega)
        rw [slice_cons_cut (by simpa [entrySegment] using hskip) hpos hn.symm] at hss
        subst hss
        simp only [Segment.sub, partTotal_cons, totalLen_cons] at hcov hcount hwrap hroom
        have hnext : (c.startingDesc + descsToProgram pageSize (UInt32.ofNat n)).toNat =
            c.startingDesc.toNat + (descsToProgram pageSize (UInt32.ofNat n)).toNat :=
          toNat_add_of_lt (by omega)
        have hrest : (c.programSize - UInt32.ofNat n).toNat = c.programSize.toNat - n := by
          rw [UInt32.toNat_sub_of_le _ _ (UInt32.le_iff_toNat_le.mpr (by omega)), hchunk]
        have hret : ¬ (descsToProgram pageSize (UInt32.ofNat n)).toInt32 < 0 := by
          rw [Int32.lt_iff_toInt_lt, toInt_toInt32_of_lt (by omega)]
          exact not_lt.mpr (Int.natCast_nonneg _)
        rw [bindSgEntries_chunk (by omega) hsize (hchunk.trans hn.symm),
          hailoVdmaProgramDescriptorsInChunk_eq hpage (toNat_pos_iff.mp hP), ok_bind,
          if_neg (by rw [gt_iff_lt, UInt32.lt_iff_toNat_lt, hnext]; omega)]
        simp only
        rw [if_neg hret]
        split
        · next hzero => exact ⟨_, rfl, hzero⟩
        · have hpast : bufferOffset.toNat - (c.bufferCurrentOffset + e.dmaLen.toNat) = 0 := by
            omega
          have hslice : slice (segments es) 0 (c.programSize.toNat - n) =
              slice (segments es) (bufferOffset.toNat - (c.bufferCurrentOffset + e.dmaLen.toNat))
                (c.programSize - UInt32.ofNat n).toNat := by rw [hpast, hrest]
          rw [← segments] at hcov hcount hwrap hroom
          refine ih (by exact hpage) hslice ?_ (by omega) ?_ ?_
          · rw [cursorAfter_programSize, hrest]
            omega
          · rw [cursorAfter_startingDesc, UInt32.toUInt32_toInt32, hnext]
            omega
          · rw [cursorAfter_startingDesc, UInt32.toUInt32_toInt32, hnext]
            omega

/-- Every part of the list rounds up within 32 bits. -/
def RoundsIn (pageSize : UInt32) (ss : List (Segment UInt64)) : Prop :=
  ∀ s ∈ ss, 0 < s.len ∧ s.len + pageSize.toNat ≤ 2 ^ 32

section RoundsIn
variable {pageSize : UInt32} {ss : List (Segment UInt64)}

theorem RoundsIn.descsToProgram_eq (h : RoundsIn pageSize ss) (hP : 0 < pageSize.toNat)
    {s : Segment UInt64} (hs : s ∈ ss) :
    (descsToProgram pageSize (UInt32.ofNat s.len)).toNat = s.len ⌈/⌉ pageSize.toNat := by
  obtain ⟨hpos, hfit⟩ := h s hs
  have hcases := descsToProgram_cases hP hpos (by omega)
  rwa [if_pos hfit] at hcases

theorem RoundsIn.partTotal_eq (h : RoundsIn pageSize ss) (hP : 0 < pageSize.toNat) :
    partTotal pageSize ss = pageCount pageSize.toNat ss :=
  congrArg List.sum (List.map_congr_left fun _ hs => h.descsToProgram_eq hP hs)

theorem roundsIn_of_totalLen {n : Nat} (hfit : n + pageSize.toNat ≤ 2 ^ 32)
    (hpos : ∀ s ∈ ss, 0 < s.len) (hcov : totalLen ss = n) : RoundsIn pageSize ss := by
  intro s hs
  have hle : s.len ≤ totalLen ss := List.single_le_sum (fun _ _ => Nat.zero_le _) _
    (List.mem_map_of_mem hs)
  exact ⟨hpos s hs, by omega⟩

/-- Where all rounds up, the parts are stored as the pages they are cut into. -/
theorem RoundsIn.storeParts_eq (h : RoundsIn pageSize ss) (hP : 0 < pageSize.toNat) {i : UInt32}
    (hwrap : i.toNat + pageCount pageSize.toNat ss < 2 ^ 32) (addrMask : UInt32)
    (mem : Nat → HailoVdmaDescriptor) :
    storeParts addrMask pageSize stride maskedChannelId dataId i ss mem =
      writePages addrMask dataId i (slicePages pageSize stride maskedChannelId ss) mem := by
  induction ss generalizing i mem with
  | nil => rfl
  | cons s ss ih =>
    have hK := h.descsToProgram_eq hP List.mem_cons_self
    obtain ⟨hpos, -⟩ := h s List.mem_cons_self
    have hKpos : 0 < s.len ⌈/⌉ pageSize.toNat := ceilDiv_pos hP hpos
    rw [pageCount_cons, ← hK] at hwrap
    rw [← hK] at hKpos
    have hnext := toNat_add_of_lt (a := i)
      (b := descsToProgram pageSize (UInt32.ofNat s.len)) (by omega)
    have hcount : (i + descsToProgram pageSize (UInt32.ofNat s.len) - 1).toNat - i.toNat =
        s.len ⌈/⌉ pageSize.toNat - 1 := by
      rw [toNat_add_sub_one (by omega) (by omega), hK]
      omega
    rw [storeParts, hcount, ← segmentPages,
      ih (fun t ht => h t (List.mem_cons_of_mem s ht)) (by omega), slicePages_cons,
      writePages_append, length_segmentPages stride maskedChannelId hP hpos, ← hK,
      UInt32.ofNat_toNat]

end RoundsIn

theorem bindSgEntries_walked {pageSize : UInt32} {c c' : BindCursor}
    (hpage : c.descList.descPageSize.toUInt32 = pageSize) (hP : 0 < pageSize.toNat)
    (hfit : c.programSize.toNat + pageSize.toNat ≤ 2 ^ 32) (hpos : 0 < c.programSize.toNat)
    (h : bindSgEntries bufferOffset maxDescIndex dataId stride maskedChannelId es c =
      .ok (.walked c')) (hdone : c'.programSize = 0) :
    Walked pageSize stride maskedChannelId dataId maxDescIndex c c'
      (slice (segments es) (bufferOffset.toNat - c.bufferCurrentOffset) c.programSize.toNat) := by
  obtain ⟨hcov, hstart, hcount, hrange, hlist⟩ :
      Stores pageSize stride maskedChannelId dataId maxDescIndex c c' _ :=
    walk_stores hpage hP h hdone
  have hrounds := roundsIn_of_totalLen hfit (fun _ => len_pos_of_mem_slice) hcov
  rw [hrounds.partTotal_eq hP] at hstart hcount hrange
  refine ⟨hcov, hstart, hcount, hrange fun hnil => ?_, fun hwrap => ?_⟩
  · rw [hnil, totalLen_nil] at hcov
    omega
  · rw [hlist, hrounds.storeParts_eq hP hwrap]

theorem bindSgEntries_total {pageSize : UInt32} {c : BindCursor}
    (hpage : c.descList.descPageSize.toUInt32 = pageSize) (hP : 0 < pageSize.toNat)
    (hfit : c.programSize.toNat + pageSize.toNat ≤ 2 ^ 32)
    {ss : List (Segment UInt64)}
    (hss : ss = slice (segments es) (bufferOffset.toNat - c.bufferCurrentOffset)
      c.programSize.toNat)
    (hcov : totalLen ss = c.programSize.toNat) (hcount : pageCount pageSize.toNat ss < 2 ^ 31)
    (hwrap : c.startingDesc.toNat + pageCount pageSize.toNat ss < 2 ^ 32)
    (hroom : c.startingDesc.toNat + pageCount pageSize.toNat ss ≤ (maxDescIndex + 1).toNat) :
    ∃ c', bindSgEntries bufferOffset maxDescIndex dataId stride maskedChannelId es c =
      .ok (.walked c') ∧ c'.programSize = 0 := by
  have hrounds : RoundsIn pageSize ss :=
    roundsIn_of_totalLen hfit (fun _ hs => len_pos_of_mem_slice (hss ▸ hs)) hcov
  rw [← hrounds.partTotal_eq hP] at hcount hwrap hroom
  exact walk_total hpage hP hss hcov hcount hwrap hroom

end Walk

end HailortDrivers.ProgrammedPages
