import HailortDrivers.BoundBuffers
import HailortDrivers.ProgramIoctl
import HailortDrivers.VdmaSystem

/-!
The byte ranges of a mapped buffer that requests name, and when an accepted one lies inside
the buffer: a lookup by address and a sync compare sums that may wrap, and programming a
list checks the size of the range alone, or leaves the range to the walk over the scatter
list after cutting its offset to 32 bits.
-/
namespace HailortDrivers.AcceptedRanges
open KernelExec MachineWord SegmentSlicing VdmaTypes DescriptorProgramming ProgrammedPages
open BoundBuffers VdmaMemory VdmaIoctl ProgramIoctl VdmaSystem

/-- As unbounded numbers, the `size` bytes from `start` on are among the `total` bytes
from `base` on. -/
def Within (start size base total : Nat) : Prop :=
  ∀ k, start ≤ k → k < start + size → base ≤ k ∧ k < base + total

theorem within_iff {start size base total : Nat} :
    Within start size base total ↔ size = 0 ∨ base ≤ start ∧ start + size ≤ base + total := by
  constructor
  · intro h
    by_cases hsize : size = 0
    · exact Or.inl hsize
    · have hfirst := h start (Nat.le_refl _) (by omega)
      have hlast := h (start + size - 1) (by omega) (by omega)
      exact Or.inr ⟨hfirst.1, by omega⟩
  · intro h k hstart hend
    omega

section Lookup
variable {n : Nat} {context : HailoVdmaFileContext n} {buffers : MappedBufferHeap}
  {direction : DmaDataDirection}

theorem loadMappedBuffer_ok {address : Nat} {b : HailoVdmaBuffer}
    (h : loadMappedBuffer buffers address = .ok b) : buffers address = some b := by
  rw [loadMappedBuffer] at h
  split at h
  · cases h
  · next hb =>
    cases h
    exact hb

theorem findMappedBuffer_found {p : HailoVdmaBuffer → Bool} {addresses : List Nat} {address : Nat}
    (h : findMappedBuffer buffers p addresses = .ok (some address)) :
    ∃ b, buffers address = some b ∧ p b = true := by
  induction addresses with
  | nil => cases h
  | cons first addresses ih =>
    obtain ⟨cur, hload, h⟩ := bind_ok h
    split at h
    · next hp =>
      cases h
      exact ⟨cur, loadMappedBuffer_ok hload, hp⟩
    · exact ih h

/-- The range of a transfer buffer is in the mapped buffer, and the offset is the one meant. -/
structure LookupKept (buffer : HailoVdmaTransferBuffer) (mapped : HailoVdmaMappedTransferBuffer)
    (b : HailoVdmaBuffer) : Prop where
  within : Within buffer.addrOrFd.toNat buffer.size.toNat b.addrOrFd.toNat b.size.toNat
  offset : b.addrOrFd.toNat + mapped.offset.toNat = buffer.addrOrFd.toNat

/-- The sum of the lookup does not wrap, unless the end of the mapped buffer does too. -/
def LookupUnwrapped (buffer : HailoVdmaTransferBuffer) (b : HailoVdmaBuffer) : Prop :=
  buffer.addrOrFd.toNat + buffer.size.toNat < 2 ^ 64 ∨
    2 ^ 64 ≤ b.addrOrFd.toNat + b.size.toNat

theorem lookupKept_iff {buffer : HailoVdmaTransferBuffer}
    {mapped : HailoVdmaMappedTransferBuffer} {b : HailoVdmaBuffer}
    (hlow : b.addrOrFd ≤ buffer.addrOrFd)
    (hhigh : b.addrOrFd + b.size.toUInt64 ≥ buffer.addrOrFd + buffer.size.toUInt64)
    (hoffset : mapped.offset = (buffer.addrOrFd - b.addrOrFd).toUInt32) :
    LookupKept buffer mapped b ↔ LookupUnwrapped buffer b := by
  have haddr := buffer.addrOrFd.toNat_lt
  have hsize := buffer.size.toNat_lt
  have htotal := b.size.toNat_lt
  have hnat : mapped.offset.toNat =
      (buffer.addrOrFd.toNat - b.addrOrFd.toNat) % 2 ^ 32 := by
    rw [hoffset, UInt64.toNat_toUInt32, UInt64.toNat_sub_of_le _ _ hlow]
  rw [UInt64.le_iff_toNat_le] at hlow
  rw [ge_iff_le, UInt64.le_iff_toNat_le, UInt64.toNat_add, UInt64.toNat_add,
    UInt32.toNat_toUInt64, UInt32.toNat_toUInt64] at hhigh
  constructor
  · intro h
    have hwithin := within_iff.mp h.within
    rw [LookupUnwrapped]
    omega
  · intro h
    rw [LookupUnwrapped] at h
    constructor
    · rw [within_iff]
      omega
    · omega

theorem mapTransferBuffers_kept_iff {requested : List HailoVdmaTransferBuffer}
    {mapped : List HailoVdmaMappedTransferBuffer}
    (h : mapTransferBuffers context buffers direction requested = .ok (.ok mapped)) :
    List.Forall₂ (fun buffer m => buffer.bufferType = .userPtrBuffer →
      ∃ b, buffers m.opaqueBuffer = some b ∧
        (LookupKept buffer m b ↔ LookupUnwrapped buffer b)) requested mapped := by
  induction requested generalizing mapped with
  | nil =>
    cases h
    exact .nil
  | cons buffer rest ih =>
    obtain ⟨found, hfound, h⟩ := bind_ok h
    cases found with
    | none => cases h
    | some address =>
      obtain ⟨mappedBuffer, hload, h⟩ := bind_ok h
      obtain ⟨rest', hrest, h⟩ := bind_ok h
      cases rest' with
      | error err => cases h
      | ok restMapped =>
        cases h
        refine .cons (fun htype => ?_) (ih hrest)
        rw [findTransferBuffer, htype] at hfound
        obtain ⟨b, hb, hp⟩ := findMappedBuffer_found hfound
        obtain rfl := Option.some.inj (hb.symm.trans (loadMappedBuffer_ok hload))
        obtain ⟨hlow, hhigh, -, -⟩ := of_decide_eq_true hp
        exact ⟨b, hb, lookupKept_iff hlow hhigh (if_pos htype)⟩

end Lookup

section Walk
variable {bufferOffset maxDescIndex stride : UInt32} {dataId : UInt8} {maskedChannelId : UInt64}
  {es : List ScatterEntry} {c c' : BindCursor}

/-- A walk that leaves nothing to program found all its bytes in the entries. -/
theorem bindSgEntries_bound
    (h : bindSgEntries bufferOffset maxDescIndex dataId stride maskedChannelId es c =
      .ok (.walked c')) (hdone : c'.programSize = 0) (hsize : c.programSize ≠ 0) :
    bufferOffset.toNat - c.bufferCurrentOffset + c.programSize.toNat ≤ totalLen (segments es) := by
  induction es generalizing c with
  | nil =>
    cases h
    exact absurd hdone hsize
  | cons e es ih =>
    have hlt := c.programSize.toNat_lt
    rw [segments, List.map_cons, totalLen_cons, ← segments, entrySegment]
    by_cases hskip : e.dmaLen.toNat ≤ bufferOffset.toNat - c.bufferCurrentOffset
    · rw [bindSgEntries_skip hskip] at h
      have hrest := ih (c := { c with
        bufferCurrentOffset := c.bufferCurrentOffset + e.dmaLen.toNat }) h hsize
      simp only at hrest ⊢
      omega
    · generalize hn : min c.programSize.toNat
        (e.dmaLen.toNat - (bufferOffset.toNat - c.bufferCurrentOffset)) = n
      have hchunk : (UInt32.ofNat n).toNat = n := toNat_ofNat_of_lt (by omega)
      have hrest : (c.programSize - UInt32.ofNat n).toNat = c.programSize.toNat - n := by
        rw [UInt32.toNat_sub_of_le _ _ (UInt32.le_iff_toNat_le.mpr (by omega)), hchunk]
      rw [bindSgEntries_chunk (by omega) hsize (hchunk.trans hn.symm)] at h
      obtain ⟨⟨ret, descList⟩, -, h⟩ := bind_ok h
      simp only at h ⊢
      split at h
      · cases h
      · split at h
        · next hzero =>
          rw [hzero, UInt32.toNat_zero] at hrest
          omega
        · next hmore =>
          have hbound := ih h (by exact hmore)
          rw [cursorAfter_programSize, cursorAfter_bufferCurrentOffset, hrest] at hbound
          omega

end Walk

section Program
variable {vdmaHw : HailoVdmaHw} {l l' : HailoVdmaDescriptorsList} {startingDesc stride : UInt32}
  {buffer : HailoVdmaMappedTransferBuffer} {channelIndex : UInt8}
  {lastDescInterrupts : HailoVdmaInterruptsDomain} {isDebug shouldBind : Bool} {ret : Int32}

theorem bind_bound (hret : 0 ≤ ret.toInt) (hsize : buffer.size ≠ 0)
    (h : bindAndProgramDescriptorsList vdmaHw l startingDesc buffer channelIndex
      lastDescInterrupts isDebug stride = .ok (ret, l')) :
    buffer.offset.toNat + buffer.size.toNat ≤ totalLen (segments buffer.sgTable.sgl) := by
  have hstart {pageSize : UInt32}
      (h : bindFromStart vdmaHw l startingDesc buffer channelIndex lastDescInterrupts isDebug
        pageSize = .ok (ret, l')) :
      buffer.offset.toNat + buffer.size.toNat ≤ totalLen (segments buffer.sgTable.sgl) := by
    obtain ⟨c, hwalk, hdone, -, -⟩ := bindFromStart_nonneg hret h
    exact bindSgEntries_bound hwalk hdone hsize
  obtain ⟨offsetResidue, -, h⟩ := bind_ok h
  split at h
  · cases h
    exact absurd hret (by decide)
  · obtain ⟨strideResidue, -, h⟩ := bind_ok h
    split at h
    · exact hstart h
    · obtain ⟨sizeResidue, -, h⟩ := bind_ok h
      split at h
      · cases h
        exact absurd hret (by decide)
      · split at h
        · cases h
          exact absurd hret (by decide)
        · exact hstart h

/-- A batch that is programmed starts with a transfer that is. -/
theorem programBatch_first {sgTable : SgTable} {transferSize : UInt32} {rounds : Nat}
    {c : BatchCursor} (hret : 0 ≤ ret.toInt)
    (h : programBatch vdmaHw sgTable transferSize shouldBind channelIndex lastDescInterrupts isDebug
      stride (rounds + 1) c = .ok (ret, l')) :
    ∃ ret₁ l₁ interrupts, 0 ≤ ret₁.toInt ∧
      hailoVdmaProgramDescriptorsList vdmaHw c.descList c.startingDesc
        ⟨sgTable, transferSize, c.offset, 0⟩ shouldBind channelIndex interrupts isDebug stride =
          .ok (ret₁, l₁) := by
  obtain ⟨⟨ret₁, l₁⟩, hfirst, h⟩ := bind_ok h
  refine ⟨ret₁, l₁, _, ?_, hfirst⟩
  by_contra hneg
  have hzero : (0 : Int32).toInt = 0 := rfl
  have hlt : ret₁ < 0 := Int32.lt_iff_toInt_lt.mpr (by omega)
  simp only at h
  rw [if_pos hlt] at h
  cases h
  exact hneg hret

end Program

section Ioctl
variable {n : Nat} {vdmaHw : HailoVdmaHw} {kernel kernel' : KernelState n}
  {context : HailoVdmaFileContext n}

theorem syncIoctl_within_iff {syncInfo : HailoVdmaBufferSyncParams} {synced : List ScatterEntry}
    (h : hailoVdmaBufferSyncIoctl kernel context syncInfo = .ok (0, synced)) :
    ∃ address b,
      hailoVdmaFindMappedBufferByHandle context kernel.buffers syncInfo.handle =
        .ok (some address) ∧ kernel.buffers address = some b ∧
      (Within syncInfo.offset.toNat syncInfo.count.toNat 0 b.size.toNat ↔
        syncInfo.offset.toNat + syncInfo.count.toNat < 2 ^ 64) := by
  obtain ⟨found, hfound, h⟩ := bind_ok h
  cases found with
  | none => cases congrArg Prod.fst (Except.ok.inj h)
  | some address =>
    obtain ⟨b, hload, h⟩ := bind_ok h
    refine ⟨address, b, hfound, loadMappedBuffer_ok hload, ?_⟩
    split at h
    · cases congrArg Prod.fst (Except.ok.inj h)
    · split at h
      · cases congrArg Prod.fst (Except.ok.inj h)
      · next hle =>
        have htotal := b.size.toNat_lt
        have hoffset := syncInfo.offset.toNat_lt
        rw [gt_iff_lt, UInt64.lt_iff_toNat_lt, UInt64.toNat_add, UInt32.toNat_toUInt64] at hle
        rw [within_iff]
        omega

/-- The range of a program request is in the buffer, and `offset` is the one meant. -/
structure ProgramKept (params : HailoDescListProgramParams) (offset : UInt32)
    (b : HailoVdmaBuffer) : Prop where
  within : Within params.bufferOffset.toNat params.bufferSize.toNat 0 b.size.toNat
  offset : offset.toNat = params.bufferOffset.toNat

/-- The scatter list is walked, and it holds no more bytes than the buffer. -/
def WalkBounds (params : HailoDescListProgramParams) (b : HailoVdmaBuffer) : Prop :=
  params.shouldBind = true ∧ params.batchSize ≠ 0 ∧ totalLen (segments b.sgTable) ≤ b.size.toNat

/-- The offset is one of 32 bits, and a range of some bytes is bounded by the walk or
leaves the room that the size needs. -/
def ProgramBounded (params : HailoDescListProgramParams) (b : HailoVdmaBuffer) : Prop :=
  params.bufferOffset.toNat < 2 ^ 32 ∧
    (params.bufferSize = 0 ∨ WalkBounds params b ∨
      params.bufferOffset.toNat ≤ b.size.toNat - params.bufferSize.toNat)

theorem programIoctl_kept_iff {params : HailoDescListProgramParams} {ret : Int32}
    (hret : 0 ≤ ret.toInt)
    (h : hailoDescListProgramIoctl vdmaHw kernel context params = .ok (ret, kernel')) :
    ∃ address b offset l l',
      hailoVdmaFindMappedBufferByHandle context kernel.buffers params.bufferHandle =
        .ok (some address) ∧ kernel.buffers address = some b ∧
      hailoVdmaProgramDescriptorsListBatch vdmaHw ⟨address, b.sgTable⟩
        params.bufferSize.toUInt32 params.shouldBind params.channelIndex
        params.lastInterruptsDomain params.isDebug params.stride l params.startingDesc offset
        params.batchSize = .ok (ret, l') ∧
      (ProgramKept params offset b ↔ ProgramBounded params b) := by
  obtain ⟨found, hfound, h⟩ := bind_ok h
  split at h
  · next address descriptors _ =>
    obtain ⟨b, hload, h⟩ := bind_ok h
    split at h
    · cases h
      exact absurd hret (by decide)
    · next hsize =>
      obtain ⟨l, -, h⟩ := bind_ok h
      obtain ⟨⟨ret', l'⟩, hbatch, h⟩ := bind_ok h
      cases h
      refine ⟨address, b, params.bufferOffset.toUInt32, l, l', hfound, loadMappedBuffer_ok hload,
        hbatch, ?_⟩
      have htotal := b.size.toNat_lt
      have hnat : params.bufferOffset.toUInt32.toNat = params.bufferOffset.toNat % 2 ^ 32 :=
        UInt64.toNat_toUInt32 _
      rw [gt_iff_lt, UInt64.lt_iff_toNat_lt, UInt32.toNat_toUInt64, Nat.not_lt] at hsize
      have hsize32 : params.bufferSize.toUInt32.toNat = params.bufferSize.toNat := by
        rw [UInt64.toNat_toUInt32, Nat.mod_eq_of_lt (by omega)]
      constructor
      · rintro ⟨hwithin, hoffset⟩
        rw [within_iff] at hwithin
        refine ⟨by omega, ?_⟩
        rcases hwithin with hzero | ⟨-, hle⟩
        · exact Or.inl (UInt64.toNat_inj.mp hzero)
        · exact Or.inr (Or.inr (by omega))
      · rintro ⟨hlt, hbound⟩
        have hoffset : params.bufferOffset.toUInt32.toNat = params.bufferOffset.toNat := by
          omega
        refine ⟨within_iff.mpr ?_, hoffset⟩
        rcases hbound with hzero | ⟨hbind, hbatchSize, hle⟩ | hroom
        · exact Or.inl (by rw [hzero]; rfl)
        · -- the first transfer of the batch is the range that was asked for
          by_cases hzero : params.bufferSize.toUInt32 = 0
          · exact Or.inl (by rw [← hsize32, hzero]; rfl)
          · have hrounds : params.batchSize.toNat = params.batchSize.toNat - 1 + 1 := by
              have := toNat_pos_iff.mpr hbatchSize
              omega
            rw [hailoVdmaProgramDescriptorsListBatch, hrounds] at hbatch
            obtain ⟨ret₁, l₁, interrupts, hret₁, hfirst⟩ := programBatch_first hret hbatch
            rw [hailoVdmaProgramDescriptorsList, if_pos hbind] at hfirst
            have hfits := bind_bound hret₁ hzero hfirst
            simp only at hfits
            omega
        · exact Or.inr (by omega)
  · cases h
    exact absurd hret (by decide)

/-- When exactly an accepted range is one of the mapped buffer's, for the three kinds of
request. -/
theorem acceptedRanges_iff (vdmaHw : HailoVdmaHw) (kernel : KernelState n)
    (context : HailoVdmaFileContext n) :
    (∀ direction requested mapped,
      mapTransferBuffers context kernel.buffers direction requested = .ok (.ok mapped) →
      List.Forall₂ (fun buffer m => buffer.bufferType = .userPtrBuffer →
        ∃ b, kernel.buffers m.opaqueBuffer = some b ∧
          (LookupKept buffer m b ↔ LookupUnwrapped buffer b)) requested mapped) ∧
    (∀ syncInfo synced,
      hailoVdmaBufferSyncIoctl kernel context syncInfo = .ok (0, synced) →
      ∃ address b,
        hailoVdmaFindMappedBufferByHandle context kernel.buffers syncInfo.handle =
          .ok (some address) ∧ kernel.buffers address = some b ∧
        (Within syncInfo.offset.toNat syncInfo.count.toNat 0 b.size.toNat ↔
          syncInfo.offset.toNat + syncInfo.count.toNat < 2 ^ 64)) ∧
    (∀ params ret kernel', 0 ≤ ret.toInt →
      hailoDescListProgramIoctl vdmaHw kernel context params = .ok (ret, kernel') →
      ∃ address b offset l l',
        hailoVdmaFindMappedBufferByHandle context kernel.buffers params.bufferHandle =
          .ok (some address) ∧ kernel.buffers address = some b ∧
        hailoVdmaProgramDescriptorsListBatch vdmaHw ⟨address, b.sgTable⟩
          params.bufferSize.toUInt32 params.shouldBind params.channelIndex
          params.lastInterruptsDomain params.isDebug params.stride l params.startingDesc offset
          params.batchSize = .ok (ret, l') ∧
        (ProgramKept params offset b ↔ ProgramBounded params b)) :=
  ⟨fun _ _ _ h => mapTransferBuffers_kept_iff h, fun _ _ h => syncIoctl_within_iff h,
    fun _ _ _ hret h => programIoctl_kept_iff hret h⟩

end Ioctl

/-- The last byte of the address space, of a buffer of 64 bytes. -/
def wrappingSync : HailoVdmaBufferSyncParams := ⟨1, .syncForCpu, 0xFFFFFFFFFFFFFFFF, 1⟩

/-- After one mapping of 64 bytes the sync is accepted, the sum of offset and count being 0. -/
theorem wrappingSync_accepted : ∃ (s : SystemState 1) (context : HailoVdmaFileContext 1)
    (b : HailoVdmaBuffer) (synced : List ScatterEntry),
    Relation.ReflTransGen (Steps hailoPcieVdmaHw fun _ _ => True) (initialState idleMemory) s ∧
      s.files 1 = some context ∧
      hailoVdmaFindMappedBufferByHandle context s.kernel.buffers wrappingSync.handle =
        .ok (some 5) ∧ s.kernel.buffers 5 = some b ∧ b.size = 64 ∧
      hailoVdmaBufferSyncIoctl s.kernel context wrappingSync = .ok (0, synced) ∧
      ¬ Within wrappingSync.offset.toNat wrappingSync.count.toNat 0 b.size.toNat := by
  refine ⟨_, _, _, _, .head ⟨.openFile 1, _, trivial, trivial, rfl⟩ <|
    .single ⟨mapRequest, _, rfl, trivial, rfl⟩, rfl, rfl, rfl, rfl, rfl, ?_⟩
  rw [within_iff]
  decide

/-- In the state with a transfer under way, a sync of its second half. -/
theorem acceptedRanges_iff_busyState : ∃ (context : HailoVdmaFileContext 1) (address : Nat)
    (b : HailoVdmaBuffer), busyState.files 1 = some context ∧
      busyState.kernel.buffers address = some b ∧ Within 32 32 0 b.size.toNat := by
  have hsync : hailoVdmaBufferSyncIoctl busyState.kernel ⟨1, [5], 1, [⟨4096, 7⟩], fun _ => 1⟩
      ⟨1, .syncForCpu, 32, 32⟩ = .ok (0, [⟨65536, 64⟩]) := rfl
  obtain ⟨-, hsyncs, -⟩ := acceptedRanges_iff hailoPcieVdmaHw busyState.kernel
    ⟨1, [5], 1, [⟨4096, 7⟩], fun _ => 1⟩
  obtain ⟨address, b, -, hb, hwithin⟩ := hsyncs _ _ hsync
  exact ⟨_, address, b, rfl, hb, hwithin.mpr (by decide)⟩

end HailortDrivers.AcceptedRanges
