import HailortDrivers.ProgrammedPages
import HailortDrivers.ResourceLedger
import HailortDrivers.VdmaMemory

/-!
`hailo_vdma_buffer_map` (`memory.c`) with the resources that it takes and gives back: user
pages or a low memory buffer's, device memory of a vma, or a dmabuf. What each kernel call
answers is given, so every combination of outcomes is covered. A `goto` is written out as
what the label does.
-/
namespace HailortDrivers.BufferMapping
open SegmentSlicing VdmaTypes VdmaMemory ResourceLedger

def enxio : Int32 := 6
def pageSize : Nat := 4096

theorem pageSize_pos : 0 < pageSize := Nat.zero_lt_succ 4095

def mmioAndNoPagesVmaMask : UInt64 := 0x4000 ||| 0x400
def vmaVmFileDmabufName : String := "dmabuf"

/-- What a kernel call answers when it fails. -/
structure Errno where
  value : Int32
  negative : value < 0

/-- `vmFile` is the name of the file behind the area, if there is one. -/
structure VmAreaStruct where
  vmStart : UInt64
  vmEnd : UInt64
  vmFlags : UInt64
  vmFile : Option String

/-- `pages_count` is the length of the array. -/
structure HailoVdmaLowMemoryBuffer where
  pagesAddress : List UInt64

/-- Physical bytes, by number. -/
instance : ByteAddress ℕ where
  advance a n := a + n
  advance_zero := Nat.add_zero
  advance_advance := Nat.add_assoc

/-- A scatter table over pages, before it is mapped for the device. -/
abbrev PageTable := List (Segment ℕ)

/-- The answers of the kernel. Pages are given by their number, a dmabuf and an attachment
to one by an address. `dmaMapSg` maps no entry when it fails. -/
structure KernelOps where
  kzalloc : Bool
  findVma : UInt64 → Option VmAreaStruct
  getUnusedFdFlags : Except Errno UInt32
  dmaBufGet : Int32 → Except Errno Nat
  dmaBufAttach : Nat → Except Errno Nat
  dmaBufMapAttachment : Nat → DmaDataDirection → Except Errno (List ScatterEntry)
  followPfn : UInt64 → Except Errno UInt64
  sgAllocTable : Except Errno Unit
  kvmallocArray : Nat → Bool
  getUserPages : UInt64 → Nat → Except Errno (List Nat)
  virtToPage : UInt64 → Nat
  sgAllocTableFromPages : List Nat → Nat → UInt32 → Except Errno PageTable
  dmaMapSg : PageTable → DmaDataDirection → List ScatterEntry

inductive MapResource
  | bufferStruct
  | vmFile
  | fd (fd : UInt32)
  | dmabuf (dmabuf : Nat)
  | dmabufAttachment (attachment : Nat)
  | dmabufMapping
  | pagesArray
  | page (page : Nat)
  | sgTable
  | dmaMapping
deriving DecidableEq

abbrev Mapping := Ledgered MapResource

variable (k : KernelOps)

def isDmabufVma : Option VmAreaStruct → Bool
  | none => false
  | some vma => vma.vmFile == some vmaVmFileDmabufName

/-- The installed descriptor keeps the reference on the file. -/
def createFdFromVma (vma : Option VmAreaStruct) : Mapping (Except Int32 UInt32) :=
  if (vma.bind VmAreaStruct.vmFile).isNone then return .error (-einval)
  else do
    acquire .vmFile
    match k.getUnusedFdFlags with
    | .error err =>
      release .vmFile
      return .error err.value
    | .ok fd =>
      acquire (.fd fd)
      return .ok fd

def closeFd (fd : UInt32) : Mapping Unit := do
  release (.fd fd)
  release .vmFile

/-- All failures are reported as the same error. -/
def hailoMapDmabuf (dmabufFd : Int32) (direction : DmaDataDirection) :
    Mapping (Except Int32 (List ScatterEntry)) :=
  match k.dmaBufGet dmabufFd with
  | .error _ => return .error (-einval)
  | .ok dmabuf => do
    acquire (.dmabuf dmabuf)
    match k.dmaBufAttach dmabuf with
    | .error _ =>
      release (.dmabuf dmabuf)
      return .error (-einval)
    | .ok attachment =>
      acquire (.dmabufAttachment attachment)
      match k.dmaBufMapAttachment attachment direction with
      | .error _ =>
        release (.dmabufAttachment attachment)
        release (.dmabuf dmabuf)
        return .error (-einval)
      | .ok sgt =>
        acquire .dmabufMapping
        return .ok sgt

/-- The loop of `map_mmio_address`: the pages `i` after the one at `pfn` follow it. -/
def checkContiguous (virtAddr : UInt64) : List Nat → UInt64 → Except Int32 Unit
  | [], _ => .ok ()
  | i :: is, pfn =>
    match k.followPfn (virtAddr + (UInt64.ofNat i <<< pageShift)) with
    | .error err => .error err.value
    | .ok nextPfn =>
      if nextPfn ≠ pfn + 1 then .error (-efault) else checkContiguous virtAddr is nextPfn

def mapMmioAddress (userAddress : UInt64) (size : UInt32) (vma : VmAreaStruct) :
    Mapping (Except Int32 (List ScatterEntry)) :=
  let vmaSize := (vma.vmEnd - vma.vmStart + 1).toUInt32
  let numPages := ((userAddress + size.toUInt64 + 4095) >>> pageShift) -
    (userAddress >>> pageShift)
  if vmaSize < size then return .error (-einval)
  else
    match k.followPfn userAddress with
    | .error err => return .error err.value
    | .ok pfn =>
      match checkContiguous k userAddress ((List.range numPages.toNat).drop 1) pfn with
      | .error err => return .error err
      | .ok _ =>
        match k.sgAllocTable with
        | .error err => return .error err.value
        | .ok _ => do
          acquire .sgTable
          return .ok [⟨(pfn <<< pageShift) + (userAddress &&& 0xFFF), size⟩]

/-- The rest of `prepare_sg_table` once the array is filled. Only the first `pinned` of the
pages are put when the table cannot be allocated. -/
def sgTableFromPages (pages : List Nat) (pinned : Nat) (size : UInt32) :
    Mapping (Except Int32 PageTable) :=
  match k.sgAllocTableFromPages pages 0 size with
  | .error err => do
    releaseAll ((pages.take pinned).map .page)
    release .pagesArray
    return .error err.value
  | .ok table => do
    acquire .sgTable
    release .pagesArray
    return .ok table

/-- How many pages `size` bytes take. -/
def pagesOfSize (size : UInt32) : Nat := (size.toNat + pageSize - 1) / pageSize

/-- The pages of a low memory buffer are referenced, but not counted as pinned. -/
def prepareSgTable (userAddress : UInt64) (size : UInt32)
    (lowMemDriverAllocatedBuffer : Option HailoVdmaLowMemoryBuffer) :
    Mapping (Except Int32 PageTable) :=
  let npages := pagesOfSize size
  if !k.kvmallocArray npages then return .error (-enomem)
  else do
    acquire .pagesArray
    match lowMemDriverAllocatedBuffer with
    | none =>
      match k.getUserPages userAddress npages with
      | .error err =>
        release .pagesArray
        return .error err.value
      | .ok pages =>
        acquireAll (pages.map .page)
        if pages.length ≠ npages then
          releaseAll (pages.map .page)
          release .pagesArray
          return .error (-einval)
        else sgTableFromPages k pages pages.length size
    | some lowMemory =>
      if npages ≠ lowMemory.pagesAddress.length then
        release .pagesArray
        return .error (-einval)
      else
        acquireAll ((lowMemory.pagesAddress.map k.virtToPage).map .page)
        sgTableFromPages k (lowMemory.pagesAddress.map k.virtToPage) 0 size

/-- The pages that an entry lies on. -/
def entryPages (entry : Segment ℕ) : List Nat :=
  (List.range ((entry.base % pageSize + entry.len + pageSize - 1) / pageSize)).map
    (entry.base / pageSize + ·)

/-- `for_each_sg_page` -/
def sgPages (table : PageTable) : List Nat := table.flatMap entryPages

def clearSgTable (table : PageTable) : Mapping Unit := do
  releaseAll ((sgPages table).map .page)
  release .sgTable

/-- What `hailo_vdma_buffer_map` knows of the request once it has looked at the vma. -/
structure LookedUp where
  vma : Option VmAreaStruct
  bufferType : HailoDmaBufferType
  addrOrFd : UInt64
  dmabufFromPointerAddr : UInt64

/-- The part of `hailo_vdma_buffer_map` that looks up the vma: the memory of a dmabuf gets
a descriptor of its own, to be mapped by. -/
def lookUpVma (supportMmioDmaMapping : Bool) (addrOrFd : UInt64)
    (bufferType : HailoDmaBufferType) : Mapping (Except Int32 LookedUp) :=
  if bufferType = .dmabufBuffer then return .ok ⟨none, bufferType, addrOrFd, 0⟩
  else
    let vma := k.findVma addrOrFd
    if supportMmioDmaMapping && vma.isNone then return .error (-efault)
    else if isDmabufVma vma then do
      match ← createFdFromVma k vma with
      | .error err => return .error err
      | .ok fd => return .ok ⟨vma, .dmabufBuffer, fd.toUInt64, addrOrFd⟩
    else return .ok ⟨vma, bufferType, addrOrFd, 0⟩

/-- The vma of a request for device memory. -/
def LookedUp.mmioVma (l : LookedUp) (supportMmioDmaMapping : Bool) : Option VmAreaStruct :=
  if supportMmioDmaMapping ∧ l.bufferType ≠ .dmabufBuffer then
    l.vma.filter fun vma => mmioAndNoPagesVmaMask == vma.vmFlags &&& mmioAndNoPagesVmaMask
  else none

section
variable (size : UInt64) (direction : DmaDataDirection)
  (lowMemDriverAllocatedBuffer : Option HailoVdmaLowMemoryBuffer)

def mapMmio (l : LookedUp) (vma : VmAreaStruct) : Mapping (Except Int32 HailoVdmaBuffer) :=
  if lowMemDriverAllocatedBuffer.isSome then do
    release .bufferStruct
    return .error (-einval)
  else do
    match ← mapMmioAddress k l.addrOrFd size.toUInt32 vma with
    | .error err =>
      release .bufferStruct
      return .error err
    | .ok sgt =>
      return .ok ⟨0, 1, l.bufferType, size.toUInt32, l.addrOrFd, direction, sgt, true, false⟩

/-- A failure leaves by `cleanup`. The descriptor made for a pointer is closed. -/
def mapDmabuf (l : LookedUp) : Mapping (Except Int32 HailoVdmaBuffer) := do
  match ← hailoMapDmabuf k l.addrOrFd.toUInt32.toInt32 direction with
  | .error err => return .error err
  | .ok sgt =>
    if l.dmabufFromPointerAddr ≠ 0 then
      closeFd l.addrOrFd.toUInt32
      return .ok ⟨0, 1, .userPtrBuffer, size.toUInt32, l.dmabufFromPointerAddr, direction, sgt,
        false, true⟩
    else
      return .ok ⟨0, 1, l.bufferType, size.toUInt32, l.addrOrFd, direction, sgt, false, true⟩

def mapPages (l : LookedUp) : Mapping (Except Int32 HailoVdmaBuffer) := do
  match ← prepareSgTable k l.addrOrFd size.toUInt32 lowMemDriverAllocatedBuffer with
  | .error err =>
    release .bufferStruct
    return .error err
  | .ok table =>
    if (k.dmaMapSg table direction).isEmpty then
      clearSgTable table
      release .bufferStruct
      return .error (-enxio)
    else
      acquire .dmaMapping
      return .ok ⟨0, 1, l.bufferType, size.toUInt32, l.addrOrFd, direction,
        k.dmaMapSg table direction, false, false⟩

def hailoVdmaBufferMap (supportMmioDmaMapping : Bool) (addrOrFd : UInt64)
    (bufferType : HailoDmaBufferType) : Mapping (Except Int32 HailoVdmaBuffer) :=
  if !k.kzalloc then return .error (-enomem)
  else do
    acquire .bufferStruct
    match ← lookUpVma k supportMmioDmaMapping addrOrFd bufferType with
    | .error err => return .error err
    | .ok l =>
      match l.mmioVma supportMmioDmaMapping with
      | some vma => mapMmio k size direction lowMemDriverAllocatedBuffer l vma
      | none =>
        if l.bufferType = .dmabufBuffer then mapDmabuf k size direction l
        else mapPages k size direction lowMemDriverAllocatedBuffer l

end

section Value
variable {k : KernelOps} {size : UInt64} {direction : DmaDataDirection}
  {lowMemDriverAllocatedBuffer : Option HailoVdmaLowMemoryBuffer} {supportMmioDmaMapping : Bool}
  {addrOrFd : UInt64} {bufferType : HailoDmaBufferType} {l : LookedUp} {buffer : HailoVdmaBuffer}

theorem lookUpVma_ordinary (htype : bufferType ≠ .dmabufBuffer)
    (hvma : ¬ (supportMmioDmaMapping && (k.findVma addrOrFd).isNone) = true)
    (hdmabuf : ¬ isDmabufVma (k.findVma addrOrFd) = true) :
    lookUpVma k supportMmioDmaMapping addrOrFd bufferType =
      pure (.ok ⟨k.findVma addrOrFd, bufferType, addrOrFd, 0⟩) := by
  rw [lookUpVma, if_neg htype]
  exact (if_neg hvma).trans (if_neg hdmabuf)

theorem lookUpVma_failed (htype : bufferType ≠ .dmabufBuffer)
    (hvma : (supportMmioDmaMapping && (k.findVma addrOrFd).isNone) = true) :
    lookUpVma k supportMmioDmaMapping addrOrFd bufferType = pure (.error (-efault)) := by
  rw [lookUpVma, if_neg htype]
  exact if_pos hvma

/-- Looking up the vma changes the request only for a pointer to a dmabuf's memory. -/
theorem lookUpVma_value
    (h : (lookUpVma k supportMmioDmaMapping addrOrFd bufferType).value = .ok l) :
    (l.bufferType = bufferType ∧ l.addrOrFd = addrOrFd ∧ l.dmabufFromPointerAddr = 0) ∨
    (l.bufferType = .dmabufBuffer ∧ l.dmabufFromPointerAddr = addrOrFd ∧
      bufferType ≠ .dmabufBuffer ∧ isDmabufVma (k.findVma addrOrFd) = true) := by
  by_cases htype : bufferType = .dmabufBuffer
  · rw [lookUpVma, if_pos htype] at h
    cases h
    exact Or.inl ⟨rfl, rfl, rfl⟩
  · by_cases hvma : (supportMmioDmaMapping && (k.findVma addrOrFd).isNone) = true
    · rw [lookUpVma_failed htype hvma] at h
      cases h
    · by_cases hdmabuf : isDmabufVma (k.findVma addrOrFd) = true
      · rw [lookUpVma, if_neg htype] at h
        simp only at h
        rw [if_neg hvma, if_pos hdmabuf, value_bind] at h
        split at h
        · cases h
        · cases h
          exact Or.inr ⟨rfl, rfl, htype, hdmabuf⟩
      · rw [lookUpVma_ordinary htype hvma hdmabuf] at h
        cases h
        exact Or.inl ⟨rfl, rfl, rfl⟩

theorem mapMmio_value {vma : VmAreaStruct}
    (h : (mapMmio k size direction lowMemDriverAllocatedBuffer l vma).value = .ok buffer) :
    ∃ sgt, buffer =
      ⟨0, 1, l.bufferType, size.toUInt32, l.addrOrFd, direction, sgt, true, false⟩ := by
  rw [mapMmio] at h
  split at h
  · cases h
  · rw [value_bind] at h
    split at h
    · cases h
    · next sgt _ =>
      cases h
      exact ⟨sgt, rfl⟩

theorem mapDmabuf_value (h : (mapDmabuf k size direction l).value = .ok buffer) :
    ∃ sgt, buffer =
      if l.dmabufFromPointerAddr ≠ 0 then
        ⟨0, 1, .userPtrBuffer, size.toUInt32, l.dmabufFromPointerAddr, direction, sgt, false, true⟩
      else ⟨0, 1, l.bufferType, size.toUInt32, l.addrOrFd, direction, sgt, false, true⟩ := by
  rw [mapDmabuf, value_bind] at h
  split at h
  · cases h
  · next sgt _ =>
    refine ⟨sgt, ?_⟩
    split at h
    · next hpointer =>
      cases h
      rw [if_pos hpointer]
    · next hpointer =>
      cases h
      rw [if_neg hpointer]

theorem mapPages_value
    (h : (mapPages k size direction lowMemDriverAllocatedBuffer l).value = .ok buffer) :
    ∃ table, (prepareSgTable k l.addrOrFd size.toUInt32 lowMemDriverAllocatedBuffer).value =
        .ok table ∧
      k.dmaMapSg table direction ≠ [] ∧
      buffer = ⟨0, 1, l.bufferType, size.toUInt32, l.addrOrFd, direction,
        k.dmaMapSg table direction, false, false⟩ := by
  rw [mapPages, value_bind] at h
  cases hprepare : (prepareSgTable k l.addrOrFd size.toUInt32
    lowMemDriverAllocatedBuffer).value with
  | error err =>
    rw [hprepare] at h
    cases h
  | ok table =>
    rw [hprepare] at h
    simp only at h
    split at h
    · cases h
    · next hmapped =>
      rw [List.isEmpty_iff] at hmapped
      cases h
      exact ⟨table, rfl, hmapped, rfl⟩

theorem mmioVma_dmabuf (h : l.bufferType = .dmabufBuffer) :
    l.mmioVma supportMmioDmaMapping = none := by
  rw [LookedUp.mmioVma, if_neg]
  exact fun hmmio => hmmio.2 h

theorem not_dmabuf_of_mmioVma {vma : VmAreaStruct}
    (h : l.mmioVma supportMmioDmaMapping = some vma) : l.bufferType ≠ .dmabufBuffer := by
  intro hdmabuf
  rw [mmioVma_dmabuf hdmabuf] at h
  cases h

/-- What comes out is the buffer of a mapped memory. Left out is the memory of a dmabuf at
address 0, which counts as not given by a pointer. -/
theorem hailoVdmaBufferMap_mappedMemory
    (hpointer : addrOrFd = 0 → bufferType ≠ .dmabufBuffer →
      isDmabufVma (k.findVma addrOrFd) = false)
    (h : (hailoVdmaBufferMap k size direction lowMemDriverAllocatedBuffer supportMmioDmaMapping
      addrOrFd bufferType).value = .ok buffer) :
    ∃ memory, buffer = VdmaMemory.hailoVdmaBufferMap addrOrFd size direction bufferType memory := by
  have hother (htype : bufferType ≠ .dmabufBuffer) : (bufferType == .dmabufBuffer) = false :=
    beq_false_of_ne htype
  rw [hailoVdmaBufferMap] at h
  split at h
  · cases h
  · rw [value_bind, value_bind] at h
    split at h
    · cases h
    · next l hl =>
      rcases lookUpVma_value hl with ⟨htype, haddr, hnone⟩ | ⟨hdmabuf, haddr, htype, hvma⟩
      · split at h
        · next vma hmmio =>
          have hnot := not_dmabuf_of_mmioVma hmmio
          obtain ⟨sgt, rfl⟩ := mapMmio_value h
          rw [htype] at hnot
          exact ⟨⟨0, sgt, true, false⟩, by
            simp [VdmaMemory.hailoVdmaBufferMap, htype, haddr, hother hnot]⟩
        · split at h
          · next hdmabuf =>
            obtain ⟨sgt, rfl⟩ := mapDmabuf_value h
            rw [htype] at hdmabuf
            exact ⟨⟨0, sgt, false, false⟩, by
              simp [VdmaMemory.hailoVdmaBufferMap, hnone, htype, haddr, hdmabuf]⟩
          · next hnot =>
            obtain ⟨table, -, -, rfl⟩ := mapPages_value h
            rw [htype] at hnot
            exact ⟨⟨0, k.dmaMapSg table direction, false, false⟩, by
              simp [VdmaMemory.hailoVdmaBufferMap, htype, haddr, hother hnot]⟩
      · have hnonzero : addrOrFd ≠ 0 := by
          intro hzero
          rw [hpointer hzero htype] at hvma
          cases hvma
        split at h
        · next vma hmmio => exact absurd hdmabuf (not_dmabuf_of_mmioVma hmmio)
        · rw [if_pos hdmabuf] at h
          obtain ⟨sgt, rfl⟩ := mapDmabuf_value h
          rw [haddr, if_pos hnonzero]
          exact ⟨⟨0, sgt, false, true⟩, rfl⟩

end Value

/-- A page's bytes. -/
def pageSegment (page : Nat) : Segment ℕ := ⟨page * pageSize, pageSize⟩

/-- The table that gives every page an entry of its own. -/
def onePerPage (pages : List Nat) (offset size : Nat) : PageTable :=
  slice (pages.map pageSegment) offset size

/-- The device sees the memory where it is, as far as 32 bits reach. -/
def directEntries (table : PageTable) : List ScatterEntry :=
  if ∀ s ∈ table, s.base + s.len < 2 ^ 32 then
    table.map fun s => ⟨UInt64.ofNat s.base, UInt32.ofNat s.len⟩
  else []

/-- A kernel over plain memory, where the virtual pages lie as `pageOf` says. It has no
dmabufs, and everything else succeeds. -/
def plainKernel (pageOf : Nat → Nat) : KernelOps where
  kzalloc := true
  findVma _ := none
  getUnusedFdFlags := .ok 3
  dmaBufGet _ := .error ⟨-9, by decide⟩
  dmaBufAttach _ := .error ⟨-22, by decide⟩
  dmaBufMapAttachment _ _ := .error ⟨-22, by decide⟩
  followPfn _ := .error ⟨-22, by decide⟩
  sgAllocTable := .ok ()
  kvmallocArray _ := true
  getUserPages userAddress npages :=
    .ok ((List.range npages).map fun i => pageOf (userAddress.toNat / pageSize + i))
  virtToPage address := address.toNat / pageSize
  sgAllocTableFromPages pages offset size := .ok (onePerPage pages offset size.toNat)
  dmaMapSg table _ := directEntries table

theorem entryPages_page {page n : Nat} (hpos : 0 < n) (hle : n ≤ pageSize) :
    entryPages ((pageSegment page).sub 0 n) = [page] := by
  have hpageSize : pageSize = 4096 := rfl
  have hbase : ((pageSegment page).sub 0 n).base = page * pageSize :=
    ByteAddress.advance_zero (pageSegment page).base
  have hlen : ((pageSegment page).sub 0 n).len = n := rfl
  have hone : (0 + n + pageSize - 1) / pageSize = 1 := by
    rw [hpageSize] at hle ⊢
    omega
  rw [entryPages, hbase, hlen, Nat.mul_mod_left, Nat.mul_div_cancel _ pageSize_pos, hone]
  rfl

theorem sgPages_onePerPage {pages : List Nat} {size : Nat}
    (h : pages.length = (size + pageSize - 1) / pageSize) :
    sgPages (onePerPage pages 0 size) = pages := by
  have hpageSize : pageSize = 4096 := rfl
  induction pages generalizing size with
  | nil => rfl
  | cons page pages ih =>
    rw [List.length_cons, hpageSize] at h
    have hcut : onePerPage (page :: pages) 0 size =
        (pageSegment page).sub 0 (min size pageSize) ::
          onePerPage pages 0 (size - min size pageSize) :=
      slice_cons_cut (s := pageSegment page) pageSize_pos (by omega) rfl _
    have hrest : pages.length = (size - min size pageSize + pageSize - 1) / pageSize := by
      rw [hpageSize]
      omega
    rw [hcut, sgPages, List.flatMap_cons, ← sgPages, ih hrest,
      entryPages_page (by rw [hpageSize]; omega) (Nat.min_le_right _ _)]
    rfl

end HailortDrivers.BufferMapping
