import HailortDrivers.MappingLeaks

/-!
Which bytes a mapped user buffer holds for the device. The pages are pinned from the user's
address on, but the table starts at the beginning of the first page, and only the low 32
bits of the size reach it.
-/
namespace HailortDrivers.MappedUserBytes
open SegmentSlicing VdmaTypes ProgrammedPages ResourceLedger BufferMapping MappingLeaks
open VdmaMemory hiding hailoVdmaBufferMap

/-- The physical byte behind a virtual address. -/
def userByte (pageOf : Nat → Nat) (address : Nat) : Nat :=
  pageOf (address / pageSize) * pageSize + address % pageSize

/-- The pages behind `n` pages of virtual memory, from the one of `address` on. -/
def userPages (pageOf : Nat → Nat) (address n : Nat) : List Nat :=
  (List.range n).map fun i => pageOf (address / pageSize + i)

/-- What the driver relies on: pinning returns the pages from the one of the address on, a
table lays out the given pages from the given offset, and mapping it keeps the bytes in
order, `bus` being where the device's addresses lead. -/
structure UserMemory (k : KernelOps) (pageOf : Nat → Nat) (bus : UInt64 → Nat) : Prop where
  pinned : ∀ userAddress npages pages, k.getUserPages userAddress npages = .ok pages →
    pages <+: userPages pageOf userAddress.toNat npages
  laidOut : ∀ pages offset size table, k.sgAllocTableFromPages pages offset size = .ok table →
    allBytes table = ((allBytes (pages.map pageSegment)).drop offset).take size.toNat
  mapped : ∀ table direction, k.dmaMapSg table direction ≠ [] →
    (allBytes (segments (k.dmaMapSg table direction))).map bus = allBytes table

section Pages
variable {pages : List Nat} {i : Nat}

theorem getElem?_allBytes_pages (h : i < pages.length * pageSize) :
    (allBytes (pages.map pageSegment))[i]? =
      pages[i / pageSize]?.map fun page => page * pageSize + i % pageSize := by
  induction pages generalizing i with
  | nil =>
    rw [List.length_nil, Nat.zero_mul] at h
    exact absurd h (Nat.not_lt_zero i)
  | cons page pages ih =>
    have hlength : (pageSegment page).bytes.length = pageSize := Segment.length_bytes _
    rw [List.map_cons, allBytes_cons]
    by_cases hfirst : i < pageSize
    · rw [List.getElem?_append_left (by rw [hlength]; exact hfirst), Nat.div_eq_of_lt hfirst,
        Nat.mod_eq_of_lt hfirst, List.getElem?_cons_zero, Option.map_some, Segment.bytes,
        List.getElem?_map, List.getElem?_range (by exact hfirst)]
      rfl
    · rw [Nat.not_lt] at hfirst
      rw [List.length_cons, Nat.succ_mul] at h
      rw [List.getElem?_append_right (by rw [hlength]; exact hfirst), hlength,
        ih (by omega), Nat.mod_eq_sub_mod hfirst, Nat.div_eq_sub_div pageSize_pos hfirst,
        List.getElem?_cons_succ]

theorem getElem?_pagesBytes {bytes : Nat} (hroom : bytes ≤ pages.length * pageSize)
    (hi : i < bytes) :
    ((allBytes (pages.map pageSegment)).take bytes)[i]? =
      pages[i / pageSize]?.map fun page => page * pageSize + i % pageSize := by
  rw [List.getElem?_take_of_lt hi]
  exact getElem?_allBytes_pages (Nat.lt_of_lt_of_le hi hroom)

section User
variable {pageOf : Nat → Nat} {address : Nat}

/-- The byte of a user who starts on a page. -/
theorem userByte_add (haligned : address % pageSize = 0) (i : Nat) :
    userByte pageOf (address + i) =
      pageOf (address / pageSize + i / pageSize) * pageSize + i % pageSize := by
  obtain ⟨q, rfl⟩ := Nat.dvd_of_mod_eq_zero haligned
  rw [userByte, Nat.mul_add_div pageSize_pos, Nat.mul_add_mod,
    Nat.mul_div_cancel_left _ pageSize_pos]

theorem aligned_of_pageStart {page : Nat} (h : page * pageSize + 0 % pageSize =
    userByte pageOf address) : address % pageSize = 0 := by
  have hmod := congrArg (· % pageSize) h
  simpa [userByte, Nat.mul_add_mod_self_right] using hmod.symm

theorem length_userPages (pageOf : Nat → Nat) (address n : Nat) :
    (userPages pageOf address n).length = n := by
  rw [userPages, List.length_map, List.length_range]

theorem getElem?_userPages {n j : Nat} (hj : j < n) :
    (userPages pageOf address n)[j]? = some (pageOf (address / pageSize + j)) := by
  rw [userPages, List.getElem?_map, List.getElem?_range hj, Option.map_some]

/-- Where the first byte of every page is the user's, the pages are. -/
theorem eq_userPages (haligned : address % pageSize = 0)
    (h : ∀ j < pages.length, pages[j]?.map (fun page => page * pageSize) =
      some (userByte pageOf (address + j * pageSize))) :
    pages = userPages pageOf address pages.length := by
  refine List.ext_getElem? fun j => ?_
  by_cases hj : j < pages.length
  · have hpage := h j hj
    rw [userByte_add haligned, Nat.mul_div_cancel _ pageSize_pos, Nat.mul_mod_left, Nat.add_zero,
      List.getElem?_eq_getElem hj, Option.map_some, Option.some.injEq] at hpage
    rw [getElem?_userPages hj, List.getElem?_eq_getElem hj,
      Nat.eq_of_mul_eq_mul_right pageSize_pos hpage]
  · rw [Nat.not_lt] at hj
    rw [List.getElem?_eq_none hj, List.getElem?_eq_none]
    rw [length_userPages]
    exact hj

/-- A table of `bytes` bytes from the start of the pages on is the user's `size` bytes exactly
if these start on a page, fit in the table and the pages are theirs. -/
theorem pagesBytes_iff {size bytes : Nat} (hle : bytes ≤ size)
    (hpages : pages.length = (bytes + pageSize - 1) / pageSize) :
    (∀ i < size, ((allBytes (pages.map pageSegment)).take bytes)[i]? =
        some (userByte pageOf (address + i))) ↔
      size = 0 ∨ (address % pageSize = 0 ∧ bytes = size ∧
        pages = userPages pageOf address pages.length) := by
  have hpageSize : pageSize = 4096 := rfl
  have hroom : bytes ≤ pages.length * pageSize := by
    rw [hpages, hpageSize]
    omega
  constructor
  · intro hbytes
    rcases Nat.eq_zero_or_pos size with hzero | hpos
    · exact Or.inl hzero
    have hcover : bytes = size := by
      by_contra hne
      have hmissing := hbytes (size - 1) (by omega)
      rw [List.getElem?_eq_none (by rw [List.length_take]; omega)] at hmissing
      cases hmissing
    subst hcover
    have haligned : address % pageSize = 0 := by
      have hfirst := hbytes 0 hpos
      rw [getElem?_pagesBytes hroom hpos, Option.map_eq_some_iff] at hfirst
      obtain ⟨page, -, hpage⟩ := hfirst
      exact aligned_of_pageStart hpage
    refine Or.inr ⟨haligned, rfl, eq_userPages haligned fun j hj => ?_⟩
    have hstart : j * pageSize < bytes := by
      rw [hpages, hpageSize] at hj
      rw [hpageSize]
      omega
    rw [← hbytes _ hstart, getElem?_pagesBytes hroom hstart, Nat.mul_div_cancel _ pageSize_pos,
      Nat.mul_mod_left]
    simp only [Nat.add_zero]
  · rintro (hzero | ⟨haligned, rfl, huser⟩) i hi
    · omega
    · have hpage : i / pageSize < pages.length := by
        rw [Nat.div_lt_iff_lt_mul pageSize_pos]
        omega
      rw [getElem?_pagesBytes hroom hi, huser, getElem?_userPages hpage, userByte_add haligned,
        Option.map_some]

end User

end Pages

variable {k : KernelOps} {pageOf : Nat → Nat} {bus : UInt64 → Nat}

/-- The pages that the table of a request is made of. -/
def RequestPages (k : KernelOps) (userAddress : UInt64) (npages : Nat)
    (lowMemDriverAllocatedBuffer : Option HailoVdmaLowMemoryBuffer) (pages : List Nat) : Prop :=
  pages.length = npages ∧
    match lowMemDriverAllocatedBuffer with
    | none => k.getUserPages userAddress npages = .ok pages
    | some lowMemory => pages = lowMemory.pagesAddress.map k.virtToPage

theorem sgTableFromPages_value {pages : List Nat} {pinned : Nat} {size : UInt32}
    {table : PageTable} (h : (sgTableFromPages k pages pinned size).value = .ok table) :
    k.sgAllocTableFromPages pages 0 size = .ok table := by
  rw [sgTableFromPages] at h
  cases hsgt : k.sgAllocTableFromPages pages 0 size with
  | error err =>
    rw [hsgt] at h
    cases h
  | ok table' =>
    simp only [hsgt, value_bind, value_pure] at h
    rw [Except.ok.inj h]

theorem prepareSgTable_value {userAddress : UInt64} {size : UInt32} {table : PageTable}
    {lowMemDriverAllocatedBuffer : Option HailoVdmaLowMemoryBuffer}
    (h : (prepareSgTable k userAddress size lowMemDriverAllocatedBuffer).value = .ok table) :
    ∃ pages, RequestPages k userAddress (pagesOfSize size) lowMemDriverAllocatedBuffer pages ∧
      k.sgAllocTableFromPages pages 0 size = .ok table := by
  unfold prepareSgTable at h
  simp only at h
  split at h
  · cases h
  · cases lowMemDriverAllocatedBuffer with
    | none =>
      cases hpin : k.getUserPages userAddress (pagesOfSize size) with
      | error err =>
        simp only [hpin, value_bind] at h
        cases h
      | ok pages =>
        simp only [hpin, value_bind] at h
        split at h
        · cases h
        · next hlength => exact ⟨pages, ⟨not_not.mp hlength, hpin⟩, sgTableFromPages_value h⟩
    | some lowMemory =>
      simp only [value_bind] at h
      split at h
      · cases h
      · next hlength =>
        refine ⟨_, ⟨?_, rfl⟩, sgTableFromPages_value h⟩
        rw [List.length_map]
        exact (not_not.mp hlength).symm

section Map
variable {size : UInt64} {direction : DmaDataDirection} {supportMmioDmaMapping : Bool}
  {lowMemDriverAllocatedBuffer : Option HailoVdmaLowMemoryBuffer} {addrOrFd : UInt64}
  {bufferType : HailoDmaBufferType} {buffer : HailoVdmaBuffer}

/-- A pointer to memory made of pages: neither a dmabuf's nor device memory. -/
structure OrdinaryPointer (k : KernelOps) (supportMmioDmaMapping : Bool) (addrOrFd : UInt64)
    (bufferType : HailoDmaBufferType) : Prop where
  pointer : bufferType ≠ .dmabufBuffer
  noDmabuf : isDmabufVma (k.findVma addrOrFd) = false
  noMmio : LookedUp.mmioVma ⟨k.findVma addrOrFd, bufferType, addrOrFd, 0⟩
    supportMmioDmaMapping = none

theorem hailoVdmaBufferMap_value
    (hordinary : OrdinaryPointer k supportMmioDmaMapping addrOrFd bufferType)
    (h : (hailoVdmaBufferMap k size direction lowMemDriverAllocatedBuffer supportMmioDmaMapping
      addrOrFd bufferType).value = .ok buffer) :
    (mapPages k size direction lowMemDriverAllocatedBuffer
      ⟨k.findVma addrOrFd, bufferType, addrOrFd, 0⟩).value = .ok buffer := by
  rw [hailoVdmaBufferMap] at h
  split at h
  · cases h
  · rw [value_bind, value_bind] at h
    by_cases hvma : (supportMmioDmaMapping && (k.findVma addrOrFd).isNone) = true
    · rw [lookUpVma_failed hordinary.pointer hvma] at h
      cases h
    · rw [lookUpVma_ordinary hordinary.pointer hvma (Bool.eq_false_iff.mp hordinary.noDmabuf)] at h
      simp only [value_pure, hordinary.noMmio, hordinary.pointer, if_false] at h
      exact h

/-- The table of a mapped pointer holds the user's bytes exactly if they start on a page and
their number fits in 32 bits; of a low memory buffer the pages must be the user's too. -/
theorem mappedBytes_iff (hk : UserMemory k pageOf bus)
    (hordinary : OrdinaryPointer k supportMmioDmaMapping addrOrFd bufferType)
    (hmap : (hailoVdmaBufferMap k size direction lowMemDriverAllocatedBuffer
      supportMmioDmaMapping addrOrFd bufferType).value = .ok buffer) :
    (∀ i < size.toNat, ((allBytes (segments buffer.sgTable))[i]?).map bus =
        some (userByte pageOf (addrOrFd.toNat + i))) ↔
      size = 0 ∨ (addrOrFd.toNat % pageSize = 0 ∧ size.toNat < 2 ^ 32 ∧
        ∀ lowMemory, lowMemDriverAllocatedBuffer = some lowMemory →
          lowMemory.pagesAddress.map k.virtToPage =
            userPages pageOf addrOrFd.toNat lowMemory.pagesAddress.length) := by
  obtain ⟨table, hprepare, hmapped, rfl⟩ :=
    mapPages_value (hailoVdmaBufferMap_value hordinary hmap)
  obtain ⟨pages, ⟨hlength, hpages⟩, htable⟩ := prepareSgTable_value hprepare
  have hbytes (i : Nat) : ((allBytes (segments (k.dmaMapSg table direction)))[i]?).map bus =
      ((allBytes (pages.map pageSegment)).take size.toUInt32.toNat)[i]? := by
    rw [← List.getElem?_map, hk.mapped table direction hmapped,
      hk.laidOut pages 0 _ table htable, List.drop_zero]
  have hsize : size.toUInt32.toNat = size.toNat % 2 ^ 32 := UInt64.toNat_toUInt32 size
  simp only [hbytes]
  rw [pagesBytes_iff (by rw [hsize]; exact Nat.mod_le _ _) hlength, ← UInt64.toNat_inj]
  refine or_congr Iff.rfl (and_congr Iff.rfl (and_congr ?_ ?_))
  · rw [hsize]
    constructor
    · intro hfits
      rw [← hfits]
      exact Nat.mod_lt _ (by decide)
    · exact Nat.mod_eq_of_lt
  · cases lowMemDriverAllocatedBuffer with
    | none =>
      have hpinned := hk.pinned _ _ _ hpages
      have huser : pages = userPages pageOf addrOrFd.toNat pages.length := by
        rw [hlength]
        exact hpinned.eq_of_length (hlength.trans (length_userPages _ _ _).symm)
      simp [← huser]
    | some lowMemory =>
      simp only at hpages
      subst hpages
      simp

end Map

theorem directEntries_bytes {table : PageTable} (h : directEntries table ≠ []) :
    (allBytes (segments (directEntries table))).map UInt64.toNat = allBytes table := by
  have hlow : ∀ s ∈ table, s.base + s.len < 2 ^ 32 := by
    by_contra hnot
    rw [directEntries, if_neg hnot] at h
    exact h rfl
  rw [directEntries, if_pos hlow]
  clear h
  induction table with
  | nil => rfl
  | cons s table ih =>
    have hs := hlow s List.mem_cons_self
    have hlen : (UInt32.ofNat s.len).toNat = s.len := by
      rw [UInt32.toNat_ofNat']
      omega
    have hbytes : (Segment.bytes (entrySegment ⟨UInt64.ofNat s.base, UInt32.ofNat s.len⟩)).map
        UInt64.toNat = s.bytes := by
      simp only [Segment.bytes, entrySegment, List.map_map, hlen]
      refine List.map_congr_left fun i hi => ?_
      rw [List.mem_range] at hi
      simp only [Function.comp_apply, ByteAddress.advance]
      rw [UInt64.toNat_add, UInt64.toNat_ofNat', UInt64.toNat_ofNat']
      omega
    have hrest := ih fun t ht => hlow t (List.mem_cons_of_mem s ht)
    rw [List.map_cons, segments, List.map_cons, ← segments, allBytes_cons, List.map_append, hbytes,
      hrest, ← allBytes_cons]

theorem plainKernel_userMemory (pageOf : Nat → Nat) :
    UserMemory (plainKernel pageOf) pageOf UInt64.toNat where
  pinned := by
    intro userAddress npages pages hpin
    cases hpin
    exact List.prefix_refl _
  laidOut := by
    intro pages offset size table htable
    cases htable
    exact allBytes_slice _ _ _
  mapped := by
    intro table direction hmapped
    exact directEntries_bytes hmapped

theorem plainKernel_ordinaryPointer (pageOf : Nat → Nat) (addrOrFd : UInt64) :
    OrdinaryPointer (plainKernel pageOf) false addrOrFd .userPtrBuffer where
  pointer := by decide
  noDmabuf := rfl
  noMmio := rfl

/-- A hundred bytes at the start of page one are mapped byte for byte. -/
theorem mappedBytes_iff_startOfPage :
    ∃ buffer, (hailoVdmaBufferMap (plainKernel id) 100 .toDevice none false 4096
        .userPtrBuffer).value = .ok buffer ∧
      ∀ i < (100 : UInt64).toNat, ((allBytes (segments buffer.sgTable))[i]?).map UInt64.toNat =
        some (userByte id ((4096 : UInt64).toNat + i)) := by
  have hmap : (hailoVdmaBufferMap (plainKernel id) 100 .toDevice none false 4096
      .userPtrBuffer).value = .ok _ := rfl
  refine ⟨_, hmap, (mappedBytes_iff (plainKernel_userMemory id)
    (plainKernel_ordinaryPointer id 4096) hmap).mpr (Or.inr ⟨by decide, by decide, ?_⟩)⟩
  intro lowMemory hnone
  cases hnone

/-- Eight bytes at address 4100 are mapped, but the table's first byte is the one at 4096. -/
theorem unalignedPointer_otherBytes :
    UserMemory (plainKernel id) id UInt64.toNat ∧
      OrdinaryPointer (plainKernel id) false 4100 .userPtrBuffer ∧
      ∃ buffer, (hailoVdmaBufferMap (plainKernel id) 8 .toDevice none false 4100
          .userPtrBuffer).value = .ok buffer ∧
        ((allBytes (segments buffer.sgTable))[0]?).map UInt64.toNat = some 4096 ∧
        userByte id (4100 + 0) = 4100 := by
  refine ⟨plainKernel_userMemory id, plainKernel_ordinaryPointer id 4100, _, rfl, ?_, rfl⟩
  decide

end HailortDrivers.MappedUserBytes
