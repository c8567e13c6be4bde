import HailortDrivers.VdmaIoctl
import Mathlib.Data.Nat.Find

/-!
Mapping the buffers of the driver into a process (`vdma.c`). A page of a low-memory buffer is
mapped with a call of its own, for which the loop moves the bounds of the area. The calls of the
kernel are given by their outcomes: `remap_pfn_range` by the index of the page it is called for.
-/
namespace HailortDrivers.VdmaMmap
open KernelExec VdmaTypes VdmaMemory VdmaIoctl

def pageSize : UInt64 := 4096

/-- `pages_count` is the length of the array. It is a number of bytes shifted by `pageShift`. -/
structure HailoVdmaLowMemoryBuffer where
  handle : UInt64
  pagesAddress : List UInt64
  count_lt : pagesAddress.length < 2 ^ 52

structure HailoVdmaContinuousBuffer where
  handle : UInt64
  kernelAddress : UInt64
  dmaAddress : UInt64
  size : UInt64

@[ext] structure VmAreaStruct where
  vmStart : UInt64
  vmEnd : UInt64
  vmPgoff : UInt64
deriving DecidableEq

/-- A page of the process and the page frame behind it. -/
structure PageMapping where
  address : UInt64
  pageFn : UInt64
deriving DecidableEq

/-- What a call has put into the page tables of the process. -/
inductive Mapped
  | pages (mappings : List PageMapping)
  | coherent (kernelAddress dmaAddress size : UInt64)

section Mmap
variable (virtToPhys : UInt64 → UInt64) (remapPfnRange : Nat → Int32)

/-- The loop over the pages, from page `i` on. -/
def remapPages : Nat → List UInt64 → VmAreaStruct → List PageMapping →
    Int32 × VmAreaStruct × List PageMapping
  | _, [], vma, mapped => (0, vma, mapped)
  | i, page :: pages, vma, mapped =>
    let vmStart := if i > 0 then vma.vmEnd else vma.vmStart
    let vma := { vma with vmStart := vmStart, vmEnd := vmStart + pageSize }
    let pageFn := virtToPhys page >>> pageShift
    let err := remapPfnRange i
    if err ≠ 0 then (err, vma, mapped)
    else remapPages (i + 1) pages vma (mapped ++ [⟨vma.vmStart, pageFn⟩])

def lowMemoryBufferMmap (vdmaBuffer : HailoVdmaLowMemoryBuffer) (vma : VmAreaStruct) :
    Int32 × VmAreaStruct × List PageMapping :=
  let vsize := vma.vmEnd - vma.vmStart
  if vsize ≠ UInt64.ofNat vdmaBuffer.pagesAddress.length * pageSize then (-einval, vma, [])
  else
    let (err, moved, mapped) :=
      remapPages virtToPhys remapPfnRange 0 vdmaBuffer.pagesAddress vma []
    if err ≠ 0 then (err, moved, mapped)
    else (0, { moved with vmStart := vma.vmStart, vmEnd := vma.vmEnd }, mapped)

/-- `dmaMmapCoherent` is what the kernel returns. -/
def continuousBufferMmap (dmaMmapCoherent : Int32) (buffer : HailoVdmaContinuousBuffer)
    (vma : VmAreaStruct) : Int32 × VmAreaStruct × List Mapped :=
  let vsize := vma.vmEnd - vma.vmStart
  if vsize > buffer.size then (-einval, vma, [])
  else if dmaMmapCoherent < 0 then (dmaMmapCoherent, vma, [])
  else (0, vma, [.coherent buffer.kernelAddress buffer.dmaAddress vsize])

end Mmap

/-- The two more lists of a file, beside those of `HailoVdmaFileContext`. -/
structure FileBuffers (n : Nat) where
  vdmaContext : HailoVdmaFileContext n
  vdmaLowMemoryBufferList : List HailoVdmaLowMemoryBuffer
  continuousBufferList : List HailoVdmaContinuousBuffer

section Dispatch
variable {n : Nat} (context : FileBuffers n)

def hailoVdmaFindLowMemoryBuffer (bufHandle : UInt64) : Option HailoVdmaLowMemoryBuffer :=
  context.vdmaLowMemoryBufferList.find? fun cur => cur.handle = bufHandle

def hailoVdmaFindContinuousBuffer (bufHandle : UInt64) : Option HailoVdmaContinuousBuffer :=
  context.continuousBufferList.find? fun cur => cur.handle = bufHandle

/-- The buffer that `hailo_vdma_mmap` goes on with. -/
inductive MmapTarget
  | lowMemory (buffer : HailoVdmaLowMemoryBuffer)
  | continuous (buffer : HailoVdmaContinuousBuffer)
  | notExisting

def mmapTarget (vdmaHandle : UInt64) : MmapTarget :=
  match hailoVdmaFindLowMemoryBuffer context vdmaHandle with
  | some buffer => .lowMemory buffer
  | none =>
    match hailoVdmaFindContinuousBuffer context vdmaHandle with
    | some buffer => .continuous buffer
    | none => .notExisting

def hailoVdmaMmap (virtToPhys : UInt64 → UInt64) (remapPfnRange : Nat → Int32)
    (dmaMmapCoherent : Int32) (vma : VmAreaStruct) (vdmaHandle : UInt64) :
    Int32 × VmAreaStruct × List Mapped :=
  match mmapTarget context vdmaHandle with
  | .lowMemory buffer =>
    let (err, vma, mapped) := lowMemoryBufferMmap virtToPhys remapPfnRange buffer vma
    (err, vma, [.pages mapped])
  | .continuous buffer => continuousBufferMmap dmaMmapCoherent buffer vma
  | .notExisting => (-einval, vma, [])

/-- `hailo_pcie_fops_mmap` for a valid file, under the mutex. -/
def hailoPcieFopsMmap (virtToPhys : UInt64 → UInt64) (remapPfnRange : Nat → Int32)
    (dmaMmapCoherent : Int32) (vma : VmAreaStruct) : Int32 × VmAreaStruct × List Mapped :=
  let vdmaHandle := vma.vmPgoff <<< pageShift
  hailoVdmaMmap context virtToPhys remapPfnRange dmaMmapCoherent { vma with vmPgoff := 0 }
    vdmaHandle

end Dispatch

/-- The pages in their order, from `start` on. -/
def pageMappings (virtToPhys : UInt64 → UInt64) : UInt64 → List UInt64 → List PageMapping
  | _, [] => []
  | start, page :: pages =>
    ⟨start, virtToPhys page >>> pageShift⟩ :: pageMappings virtToPhys (start + pageSize) pages

theorem ofNat_zero_mul (start : UInt64) : start + UInt64.ofNat 0 * pageSize = start := by
  have hzero : UInt64.ofNat 0 = 0 := rfl
  rw [hzero, UInt64.zero_mul, UInt64.add_zero]

theorem ofNat_succ_mul (start : UInt64) (i : Nat) :
    start + UInt64.ofNat (i + 1) * pageSize = start + pageSize + UInt64.ofNat i * pageSize := by
  have hone : UInt64.ofNat 1 = 1 := rfl
  rw [UInt64.ofNat_add, UInt64.add_mul, hone, UInt64.one_mul, UInt64.add_comm _ pageSize,
    UInt64.add_assoc]

theorem getElem?_pageMappings (virtToPhys : UInt64 → UInt64) (start : UInt64)
    (pages : List UInt64) (i : Nat) :
    (pageMappings virtToPhys start pages)[i]? = pages[i]?.map fun page =>
      ⟨start + UInt64.ofNat i * pageSize, virtToPhys page >>> pageShift⟩ := by
  induction pages generalizing start i with
  | nil => rfl
  | cons page pages ih =>
    cases i with
    | zero =>
      rw [ofNat_zero_mul]
      rfl
    | succ i =>
      rw [ofNat_succ_mul, pageMappings, List.getElem?_cons_succ, List.getElem?_cons_succ]
      exact ih (start + pageSize) i

section Loop
variable {virtToPhys : UInt64 → UInt64} {remapPfnRange : Nat → Int32} {pages : List UInt64}
  {vma : VmAreaStruct} {mapped : List PageMapping} {start : UInt64} {i k : Nat}

theorem remapPages_success (hstart : (if i > 0 then vma.vmEnd else vma.vmStart) = start)
    (hok : ∀ j < pages.length, remapPfnRange (i + j) = 0) :
    ∃ vma', vma'.vmPgoff = vma.vmPgoff ∧
      remapPages virtToPhys remapPfnRange i pages vma mapped =
        (0, vma', mapped ++ pageMappings virtToPhys start pages) := by
  induction pages generalizing i vma mapped start with
  | nil =>
    refine ⟨vma, rfl, ?_⟩
    rw [pageMappings, List.append_nil]
    rfl
  | cons page pages ih =>
    have hfirst : remapPfnRange i = 0 := hok 0 (Nat.succ_pos _)
    have hrest : ∀ j < pages.length, remapPfnRange (i + 1 + j) = 0 := by
      intro j hj
      rw [Nat.add_assoc, Nat.add_comm 1 j]
      exact hok (j + 1) (Nat.succ_lt_succ hj)
    obtain ⟨vma', hpgoff, hloop⟩ := @ih { vma with vmStart := start, vmEnd := start + pageSize }
      (mapped ++ [⟨start, virtToPhys page >>> pageShift⟩]) (start + pageSize) (i + 1)
      (if_pos (Nat.succ_pos i)) hrest
    refine ⟨vma', hpgoff, ?_⟩
    rw [remapPages]
    simp only [hstart, hfirst, ne_eq, not_true_eq_false, if_false]
    rw [hloop, pageMappings, List.append_assoc]
    rfl

/-- The first call that fails leaves the bounds at its page. -/
theorem remapPages_failure (hstart : (if i > 0 then vma.vmEnd else vma.vmStart) = start)
    (hk : k < pages.length) (hok : ∀ j < k, remapPfnRange (i + j) = 0)
    (hfail : remapPfnRange (i + k) ≠ 0) :
    remapPages virtToPhys remapPfnRange i pages vma mapped = (remapPfnRange (i + k),
      { vma with
        vmStart := start + UInt64.ofNat k * pageSize
        vmEnd := start + UInt64.ofNat k * pageSize + pageSize },
      mapped ++ pageMappings virtToPhys start (pages.take k)) := by
  induction k generalizing i pages vma mapped start with
  | zero =>
    cases pages with
    | nil => exact absurd hk (Nat.lt_irrefl 0)
    | cons page pages =>
      rw [Nat.add_zero] at hfail
      rw [remapPages, List.take_zero, pageMappings, List.append_nil, ofNat_zero_mul, Nat.add_zero]
      simp only [hstart]
      exact if_pos hfail
  | succ k ih =>
    cases pages with
    | nil => exact absurd hk (Nat.not_lt_zero _)
    | cons page pages =>
      have hfirst : remapPfnRange i = 0 := hok 0 (Nat.succ_pos _)
      have hindex : ∀ j, i + (j + 1) = i + 1 + j := by
        intro j
        omega
      rw [hindex] at hfail ⊢
      rw [ofNat_succ_mul, List.take_succ_cons, pageMappings, remapPages]
      simp only [hstart, hfirst, ne_eq, not_true_eq_false, if_false]
      have hrest : ∀ j < k, remapPfnRange (i + 1 + j) = 0 := fun j hj =>
        hindex j ▸ hok (j + 1) (Nat.succ_lt_succ hj)
      have hloop := @ih pages { vma with vmStart := start, vmEnd := start + pageSize }
        (mapped ++ [⟨start, virtToPhys page >>> pageShift⟩]) (start + pageSize) (i + 1)
        (if_pos (Nat.succ_pos i)) (Nat.lt_of_succ_lt_succ hk) hrest hfail
      rw [List.append_assoc] at hloop
      exact hloop

end Loop

/-- Every page is mapped in its place if the call succeeds, and the bounds are as given. -/
structure MapsAllOrNothing (virtToPhys : UInt64 → UInt64) (vdmaBuffer : HailoVdmaLowMemoryBuffer)
    (vma : VmAreaStruct) (result : Int32 × VmAreaStruct × List PageMapping) : Prop where
  mapped : result.1 = 0 → ∀ i page, vdmaBuffer.pagesAddress[i]? = some page →
    result.2.2[i]? = some
      (PageMapping.mk (vma.vmStart + UInt64.ofNat i * pageSize) (virtToPhys page >>> pageShift))
  vmStart : result.2.1.vmStart = vma.vmStart
  vmEnd : result.2.1.vmEnd = vma.vmEnd

section Bounds
variable {virtToPhys : UInt64 → UInt64} {remapPfnRange : Nat → Int32}
  {vdmaBuffer : HailoVdmaLowMemoryBuffer} {vma : VmAreaStruct} {k : Nat}

theorem lowMemoryBufferMmap_success
    (hsize : vma.vmEnd - vma.vmStart = UInt64.ofNat vdmaBuffer.pagesAddress.length * pageSize)
    (hok : ∀ i < vdmaBuffer.pagesAddress.length, remapPfnRange i = 0) :
    lowMemoryBufferMmap virtToPhys remapPfnRange vdmaBuffer vma =
      (0, vma, pageMappings virtToPhys vma.vmStart vdmaBuffer.pagesAddress) := by
  obtain ⟨vma', hpgoff, hloop⟩ := @remapPages_success virtToPhys remapPfnRange
    vdmaBuffer.pagesAddress vma [] vma.vmStart 0 rfl
    (fun j hj => (Nat.zero_add j).symm ▸ hok j hj)
  rw [lowMemoryBufferMmap, if_neg (not_not.mpr hsize), hloop]
  simp only [ne_eq, not_true_eq_false, if_false, List.nil_append, hpgoff]

theorem lowMemoryBufferMmap_failure
    (hsize : vma.vmEnd - vma.vmStart = UInt64.ofNat vdmaBuffer.pagesAddress.length * pageSize)
    (hk : k < vdmaBuffer.pagesAddress.length) (hok : ∀ i < k, remapPfnRange i = 0)
    (hfail : remapPfnRange k ≠ 0) :
    lowMemoryBufferMmap virtToPhys remapPfnRange vdmaBuffer vma = (remapPfnRange k,
      { vma with
        vmStart := vma.vmStart + UInt64.ofNat k * pageSize
        vmEnd := vma.vmStart + UInt64.ofNat k * pageSize + pageSize },
      pageMappings virtToPhys vma.vmStart (vdmaBuffer.pagesAddress.take k)) := by
  have hloop := @remapPages_failure virtToPhys remapPfnRange vdmaBuffer.pagesAddress vma []
    vma.vmStart 0 k rfl hk (fun j hj => (Nat.zero_add j).symm ▸ hok j hj)
    ((Nat.zero_add k).symm ▸ hfail)
  rw [Nat.zero_add, List.nil_append] at hloop
  rw [lowMemoryBufferMmap, if_neg (not_not.mpr hsize), hloop]
  exact if_pos hfail

/-- Fewer than `2 ^ 52` pages have a size that does not wrap. -/
theorem toNat_pages (hk : k < 2 ^ 52) : (UInt64.ofNat k * pageSize).toNat = k * 4096 := by
  have hofNat : (UInt64.ofNat k).toNat = k := by
    rw [UInt64.toNat_ofNat', Nat.mod_eq_of_lt (by omega)]
  have hpage : pageSize.toNat = 4096 := rfl
  rw [UInt64.toNat_mul, hofNat, hpage, Nat.mod_eq_of_lt (by omega)]

theorem add_eq_self_iff {a b : UInt64} : a + b = a ↔ b = 0 := by
  constructor
  · intro h
    rw [← UInt64.add_sub_cancel b a, UInt64.add_comm b a, h, UInt64.sub_self]
  · rintro rfl
    exact UInt64.add_zero a

end Bounds

/-- The bounds are put back on success alone: a failed call leaves them at the page it was for,
so they are as given exactly if no call fails, there is one page, or the size is refused. -/
theorem lowMemoryBufferMmap_iff (virtToPhys : UInt64 → UInt64) (remapPfnRange : Nat → Int32)
    (vdmaBuffer : HailoVdmaLowMemoryBuffer) (vma : VmAreaStruct) :
    MapsAllOrNothing virtToPhys vdmaBuffer vma
        (lowMemoryBufferMmap virtToPhys remapPfnRange vdmaBuffer vma) ↔
      vma.vmEnd - vma.vmStart ≠ UInt64.ofNat vdmaBuffer.pagesAddress.length * pageSize ∨
        (∀ i < vdmaBuffer.pagesAddress.length, remapPfnRange i = 0) ∨
        vdmaBuffer.pagesAddress.length = 1 := by
  have hcount := vdmaBuffer.count_lt
  by_cases hsize : vma.vmEnd - vma.vmStart =
      UInt64.ofNat vdmaBuffer.pagesAddress.length * pageSize
  · by_cases hok : ∀ i < vdmaBuffer.pagesAddress.length, remapPfnRange i = 0
    · refine iff_of_true ?_ (Or.inr (Or.inl hok))
      rw [lowMemoryBufferMmap_success hsize hok]
      refine ⟨fun _ i page hpage => ?_, rfl, rfl⟩
      rw [getElem?_pageMappings, hpage]
      rfl
    · -- the first call that fails decides where the bounds stay
      have hexists : ∃ k, k < vdmaBuffer.pagesAddress.length ∧ remapPfnRange k ≠ 0 := by
        by_contra hnone
        exact hok fun i hi => not_not.mp fun hne => hnone ⟨i, hi, hne⟩
      obtain ⟨hk, hfail⟩ := Nat.find_spec hexists
      have hleast : ∀ i < Nat.find hexists, remapPfnRange i = 0 := fun i hi =>
        not_not.mp fun hne => Nat.find_min hexists hi ⟨Nat.lt_trans hi hk, hne⟩
      rw [lowMemoryBufferMmap_failure hsize hk hleast hfail]
      constructor
      · rintro ⟨-, hstart, hend⟩
        have hzero := add_eq_self_iff.mp hstart
        simp only [hzero, UInt64.add_zero] at hend
        have hone : UInt64.ofNat vdmaBuffer.pagesAddress.length * pageSize = pageSize := by
          rw [← hsize, ← hend, UInt64.add_comm, UInt64.add_sub_cancel]
        have hnat := toNat_pages hcount
        have hpage : pageSize.toNat = 4096 := rfl
        rw [hone, hpage] at hnat
        exact Or.inr (Or.inr (by omega))
      · rintro (hne | hall | hone)
        · exact absurd hsize hne
        · exact absurd hall hok
        · have hfirst : Nat.find hexists = 0 := by omega
          have hend : vma.vmStart + pageSize = vma.vmEnd := by
            have hofNat : UInt64.ofNat 1 = 1 := rfl
            rw [hone, hofNat, UInt64.one_mul] at hsize
            rw [← hsize, UInt64.add_comm, UInt64.sub_add_cancel]
          refine ⟨fun hret => absurd hret hfail, ?_, ?_⟩
          · rw [hfirst, ofNat_zero_mul]
          · rw [hfirst, ofNat_zero_mul]
            exact hend
  · refine iff_of_true ?_ (Or.inl hsize)
    rw [lowMemoryBufferMmap, if_pos hsize]
    exact ⟨fun hret => absurd hret (by decide : -einval ≠ 0), rfl, rfl⟩

/-- Three pages, of which the second is not mapped: the area keeps the bounds of that page. -/
theorem secondPage_moves :
    lowMemoryBufferMmap id (fun i => if i = 1 then -12 else 0)
        ⟨0x1000, [0x100000, 0x200000, 0x300000], by decide⟩ ⟨0x7000, 0xA000, 0⟩ =
      (-12, ⟨0x8000, 0x9000, 0⟩, [⟨0x7000, 0x100⟩]) ∧
    ¬ MapsAllOrNothing id ⟨0x1000, [0x100000, 0x200000, 0x300000], by decide⟩ ⟨0x7000, 0xA000, 0⟩
        (lowMemoryBufferMmap id (fun i => if i = 1 then -12 else 0)
          ⟨0x1000, [0x100000, 0x200000, 0x300000], by decide⟩ ⟨0x7000, 0xA000, 0⟩) := by
  refine ⟨by decide, fun h => ?_⟩
  exact absurd h.vmStart (by decide)

end HailortDrivers.VdmaMmap
