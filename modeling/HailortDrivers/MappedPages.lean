import HailortDrivers.EventRuns
import HailortDrivers.FileMemory
import HailortDrivers.VdmaMmap

/-!
The pages of the driver's buffers that processes have mapped, over the requests of any number of
files. Mapping them takes no reference: what holds a page is the buffer that it was allocated
for, or a mapping for the device.
-/
namespace HailortDrivers.MappedPages
open EventRuns ResourceLedger LedgerFrames FileMemory
open VdmaMemory (pageShift)
open BufferMapping (KernelOps)
open VdmaMmap (VmAreaStruct PageMapping Mapped)

/-- The frames behind the kernel's addresses, and behind the pages of a coherent area. -/
structure PageFrames where
  virtToPhys : UInt64 → UInt64
  coherentPage : UInt64 → UInt64 → Nat → Nat

section Frames
variable (m : PageFrames)

def frameOf (page : UInt64) : Nat := (m.virtToPhys page >>> pageShift).toNat

def coherentFrames (kernelAddress dmaAddress size : UInt64) : List Nat :=
  (List.range ((size.toNat + 4095) / 4096)).map (m.coherentPage kernelAddress dmaAddress)

/-- The frames that a resource keeps from being used for anything else. -/
def FileResource.frames : FileResource → List Nat
  | .freePage page => [frameOf m page]
  | .mapped _ (.page page) => [page]
  | .coherent kernelAddress dmaAddress size => coherentFrames m kernelAddress dmaAddress size
  | _ => []

def Holds (held : Multiset FileResource) (frame : Nat) : Prop :=
  ∃ resource ∈ held, frame ∈ FileResource.frames m resource

def mappedFrames : Mapped → List Nat
  | .pages mappings => mappings.map fun mapping => mapping.pageFn.toNat
  | .coherent kernelAddress dmaAddress size => coherentFrames m kernelAddress dmaAddress size

end Frames

section Steps
variable {F A : Type} (m : PageFrames)

/-- The buffers that can be mapped. The number of pages of a buffer has 52 bits. -/
def mappableBuffers (context : HailoVdmaFileContext) : VdmaMmap.FileBuffers 0 where
  vdmaContext := VdmaMemory.hailoVdmaFileContextInit 0
  vdmaLowMemoryBufferList := context.vdmaLowMemoryBufferList.filterMap fun buffer =>
    if hcount : buffer.pagesAddress.length < 2 ^ 52 then
      some ⟨buffer.handle, buffer.pagesAddress, hcount⟩
    else none
  continuousBufferList := context.continuousBufferList.map fun buffer =>
    ⟨buffer.handle, buffer.kernelAddress, buffer.dmaAddress, buffer.size⟩

/-- An area of a process, which keeps the file open that it was mapped from. -/
structure UserArea (F : Type) where
  file : F
  frames : List Nat

/-- `held` is what the kernel has given to the requests of each file. -/
structure MemoryState (F A : Type) where
  files : F → Option HailoVdmaFileContext
  held : F → Multiset FileResource
  areas : A → Option (UserArea F)

/-- A part of an area is left over by unmapping the rest, or copied to another process. -/
inductive MemoryAction (F A : Type)
  | openFile (filp : F)
  | request (filp : F) (request : MemoryRequest)
  | mmap (filp : F) (area : A) (remapPfnRange : Nat → Int32) (dmaMmapCoherent : Int32)
      (vma : VmAreaStruct)
  | munmap (area : A)
  | copyPart (area copy : A) (kept : Nat → Bool)
  | close (filp : F)

variable [DecidableEq F] [DecidableEq A]

/-- What `hailo_pcie_fops_mmap` comes to: on an error the kernel drops the area. -/
def mmapStep (s : MemoryState F A) (filp : F) (area : A) (remapPfnRange : Nat → Int32)
    (dmaMmapCoherent : Int32) (vma : VmAreaStruct) : Option (MemoryState F A) :=
  match s.files filp with
  | none => none
  | some context =>
    let (ret, _, mapped) := VdmaMmap.hailoPcieFopsMmap (mappableBuffers context) m.virtToPhys
      remapPfnRange dmaMmapCoherent vma
    if ret = 0 then
      some { s with
        areas := Function.update s.areas area
          (some ⟨filp, mapped.flatMap (mappedFrames m)⟩) }
    else some s

def memoryStep (s : MemoryState F A) : MemoryAction F A → Option (MemoryState F A)
  | .openFile filp =>
    match s.files filp with
    | some _ => none
    | none => some { s with files := Function.update s.files filp (some hailoVdmaFileContextInit) }
  | .request filp request =>
    match s.files filp with
    | none => none
    | some context =>
      let served := handleRequest context request
      (heldAfter (s.held filp) served.moves).map fun held => { s with
        files := Function.update s.files filp (some served.value.2)
        held := Function.update s.held filp held }
  | .mmap filp area remapPfnRange dmaMmapCoherent vma =>
    mmapStep m s filp area remapPfnRange dmaMmapCoherent vma
  | .munmap area => some { s with areas := Function.update s.areas area none }
  | .copyPart area copy kept =>
    match s.areas area with
    | none => none
    | some shown => some { s with
        areas := Function.update s.areas copy
          (some { shown with frames := shown.frames.filter kept }) }
  | .close filp =>
    match s.files filp with
    | none => none
    | some context =>
      (heldAfter (s.held filp) (hailoVdmaFileContextFinalize context).moves).map fun held =>
        { s with
          files := Function.update s.files filp none
          held := Function.update s.held filp held }

/-- A file is released with its last area, and new areas are made where there are none. -/
def KernelAllows (s : MemoryState F A) : MemoryAction F A → Prop
  | .request _ request => request.Regular
  | .mmap _ area _ _ _ => s.areas area = none
  | .copyPart _ copy _ => s.areas copy = none
  | .close filp => ∀ area shown, s.areas area = some shown → shown.file ≠ filp
  | _ => True

def MemorySteps (Admitted : MemoryState F A → MemoryAction F A → Prop)
    (s s' : MemoryState F A) : Prop :=
  ∃ action, KernelAllows s action ∧ Admitted s action ∧ memoryStep m s action = some s'

omit [DecidableEq F] [DecidableEq A] in
def noFiles : MemoryState F A := ⟨fun _ => none, fun _ => 0, fun _ => none⟩

/-- Every page that a process has mapped is held by the file that it was mapped from. -/
def AllHeld (s : MemoryState F A) : Prop :=
  ∀ area shown, s.areas area = some shown → ∀ frame ∈ shown.frames,
    Holds m (s.held shown.file) frame

end Steps

section Buffers
variable {context : HailoVdmaFileContext}

/-- The context after a request. -/
abbrev answered (x : FileLedger (Int32 × HailoVdmaFileContext)) : HailoVdmaFileContext :=
  x.value.2

/-- No buffer is allocated or freed. -/
structure SameBuffers (context context' : HailoVdmaFileContext) : Prop where
  lowMemory : context'.vdmaLowMemoryBufferList = context.vdmaLowMemoryBufferList
  continuous : context'.continuousBufferList = context.continuousBufferList

theorem SameBuffers.rfl : SameBuffers context context := ⟨Eq.refl _, Eq.refl _⟩

theorem bufferMap_sameBuffers (k : KernelOps) (address : Nat) (supportMmioDmaMapping : Bool)
    (params : VdmaIoctl.HailoVdmaBufferMapParams) (allocatedBufferHandle : UInt64)
    (copied : Bool) :
    SameBuffers context (answered (hailoVdmaBufferMapIoctl context k address
      supportMmioDmaMapping params allocatedBufferHandle copied)) := by
  unfold hailoVdmaBufferMapIoctl
  simp only
  split
  · exact .rfl
  · rw [answered, value_bind]
    split
    · exact .rfl
    · cases copied with
      | true => exact ⟨rfl, rfl⟩
      | false => exact ⟨rfl, rfl⟩

theorem bufferUnmap_sameBuffers (mappedHandle : UInt64) :
    SameBuffers context (answered (hailoVdmaBufferUnmapIoctl context mappedHandle)) := by
  unfold hailoVdmaBufferUnmapIoctl
  split
  · exact .rfl
  · exact ⟨rfl, rfl⟩

theorem descListCreate_sameBuffers (params : VdmaIoctl.HailoDescListCreateParams)
    (kzalloc : Option Nat) (dmaAllocCoherent : Option (UInt64 × UInt64)) (copied : Bool) :
    SameBuffers context (answered (hailoDescListCreateIoctl context params kzalloc
      dmaAllocCoherent copied)) := by
  unfold hailoDescListCreateIoctl
  split
  · exact .rfl
  · split
    · exact .rfl
    · cases kzalloc with
      | none => exact .rfl
      | some address =>
        simp only [answered, value_bind]
        split
        · exact ⟨rfl, rfl⟩
        · cases copied with
          | true => exact ⟨rfl, rfl⟩
          | false => exact ⟨rfl, rfl⟩

theorem descListRelease_sameBuffers (descHandle : UInt64) :
    SameBuffers context (answered (hailoDescListReleaseIoctl context descHandle)) := by
  unfold hailoDescListReleaseIoctl
  split
  · exact .rfl
  · exact ⟨rfl, rfl⟩

theorem lowMemoryBufferAlloc_buffers (bufferSize : UInt64) (kzalloc kcalloc : Option Nat)
    (getFreePage : Nat → Option UInt64) (copied : Bool) {context' : HailoVdmaFileContext}
    (h : answered (hailoVdmaLowMemoryBufferAllocIoctl context bufferSize kzalloc kcalloc
      getFreePage copied) = context') :
    context'.continuousBufferList = context.continuousBufferList ∧
      ∀ buffer ∈ context.vdmaLowMemoryBufferList, buffer ∈ context'.vdmaLowMemoryBufferList := by
  subst h
  unfold hailoVdmaLowMemoryBufferAllocIoctl
  cases kzalloc with
  | none => exact ⟨rfl, fun _ hmem => hmem⟩
  | some address =>
    simp only [answered, value_bind]
    split
    · exact ⟨rfl, fun _ hmem => hmem⟩
    · cases copied with
      | true => exact ⟨rfl, fun _ hmem => List.mem_cons_of_mem _ hmem⟩
      | false => exact ⟨rfl, fun _ hmem => hmem⟩

theorem continuousBufferAlloc_buffers (bufferSize : UInt64) (kzalloc : Option Nat)
    (dmaAllocCoherent : Option (UInt64 × UInt64)) (copied : Bool)
    {context' : HailoVdmaFileContext}
    (h : answered (hailoVdmaContinuousBufferAllocIoctl context bufferSize kzalloc
      dmaAllocCoherent copied) = context') :
    context'.vdmaLowMemoryBufferList = context.vdmaLowMemoryBufferList ∧
      ∀ buffer ∈ context.continuousBufferList, buffer ∈ context'.continuousBufferList := by
  subst h
  unfold hailoVdmaContinuousBufferAllocIoctl
  cases kzalloc with
  | none => exact ⟨rfl, fun _ hmem => hmem⟩
  | some address =>
    cases dmaAllocCoherent with
    | none => exact ⟨rfl, fun _ hmem => hmem⟩
    | some addresses =>
      cases copied with
      | true => exact ⟨rfl, fun _ hmem => List.mem_cons_of_mem _ hmem⟩
      | false => exact ⟨rfl, fun _ hmem => hmem⟩

end Buffers

section Owned
variable (m : PageFrames) {context context' : HailoVdmaFileContext} {frame : Nat}

/-- The frame is one of a buffer that the file has not freed. -/
inductive Owned (context : HailoVdmaFileContext) (frame : Nat) : Prop
  | lowMemory (buffer : HailoVdmaLowMemoryBuffer)
      (hbuffer : buffer ∈ context.vdmaLowMemoryBufferList) (hholds : Holds m buffer.held frame)
  | continuous (buffer : HailoVdmaContinuousBuffer)
      (hbuffer : buffer ∈ context.continuousBufferList) (hholds : Holds m buffer.held frame)

/-- What a request gives back of the buffers that can be mapped. -/
def freed (context : HailoVdmaFileContext) : MemoryRequest → Multiset FileResource
  | .lowMemoryBufferFree bufferHandle =>
    ((hailoVdmaFindLowMemoryBuffer context bufferHandle).map
      HailoVdmaLowMemoryBuffer.held).getD 0
  | .continuousBufferFree bufferHandle =>
    ((context.continuousBufferList.find? fun cur => cur.handle = bufferHandle).map
      HailoVdmaContinuousBuffer.held).getD 0
  | _ => 0

variable {m}

theorem not_holds_zero : ¬ Holds m 0 frame := by
  rintro ⟨resource, hmem, -⟩
  exact Multiset.notMem_zero resource hmem

theorem Holds.mono {held held' : Multiset FileResource} (h : Holds m held frame)
    (hle : held ≤ held') : Holds m held' frame := by
  obtain ⟨resource, hmem, hframe⟩ := h
  exact ⟨resource, Multiset.mem_of_le hle hmem, hframe⟩

theorem held_le_heldBy {R β : Type} {holds : β → Multiset R} {owners : List β} {owner : β}
    (h : owner ∈ owners) : holds owner ≤ heldBy holds owners := by
  induction h with
  | head owners =>
    rw [heldBy_cons]
    exact Multiset.le_add_right _ _
  | tail first _ ih =>
    rw [heldBy_cons]
    exact ih.trans (Multiset.le_add_left _ _)

theorem Owned.holds (h : Owned m context frame) : Holds m context.held frame := by
  cases h with
  | lowMemory buffer hbuffer hholds =>
    refine hholds.mono ((held_le_heldBy hbuffer).trans ?_)
    rw [HailoVdmaFileContext.held, ← add_assoc]
    exact (Multiset.le_add_right _ _).trans (Multiset.le_add_left _ _)
  | continuous buffer hbuffer hholds =>
    refine hholds.mono ((held_le_heldBy hbuffer).trans ?_)
    rw [HailoVdmaFileContext.held, ← add_assoc, ← add_assoc]
    exact Multiset.le_add_left _ _

theorem Owned.keep (h : Owned m context frame)
    (hlow : ∀ buffer ∈ context.vdmaLowMemoryBufferList, buffer ∈ context'.vdmaLowMemoryBufferList)
    (hcontinuous : ∀ buffer ∈ context.continuousBufferList,
      buffer ∈ context'.continuousBufferList) : Owned m context' frame := by
  cases h with
  | lowMemory buffer hbuffer hholds => exact .lowMemory buffer (hlow buffer hbuffer) hholds
  | continuous buffer hbuffer hholds =>
    exact .continuous buffer (hcontinuous buffer hbuffer) hholds

theorem Owned.same (h : Owned m context frame) (hsame : SameBuffers context context') :
    Owned m context' frame :=
  h.keep (fun _ hmem => hsame.lowMemory ▸ hmem) fun _ hmem => hsame.continuous ▸ hmem

/-- Only the first with the handle is taken out. -/
theorem mem_eraseP_of_ne {β : Type} {p : β → Bool} {owners : List β} {found owner : β}
    (hfound : owners.find? p = some found) (hmem : owner ∈ owners) (hne : owner ≠ found) :
    owner ∈ owners.eraseP p := by
  induction owners with
  | nil => cases hmem
  | cons first owners ih =>
    by_cases hp : p first = true
    · rw [List.find?_cons_of_pos hp, Option.some.injEq] at hfound
      subst hfound
      rw [List.eraseP_cons_of_pos hp]
      exact (List.mem_cons.mp hmem).resolve_left hne
    · rw [List.find?_cons_of_neg hp] at hfound
      rw [List.eraseP_cons_of_neg hp]
      cases List.mem_cons.mp hmem with
      | inl hfirst => exact hfirst ▸ List.mem_cons_self
      | inr hrest => exact List.mem_cons_of_mem first (ih hfound hrest)

/-- Whatever a request comes to, it frees the buffer of its handle and no other. -/
theorem Owned.request (h : Owned m context frame) {request : MemoryRequest}
    (hfreed : ¬ Holds m (freed context request) frame) :
    Owned m (answered (handleRequest context request)) frame := by
  cases request with
  | copyFromUserFailed => exact h
  | bufferMap k address supportMmioDmaMapping params allocatedBufferHandle copied =>
    exact h.same (bufferMap_sameBuffers k address supportMmioDmaMapping params
      allocatedBufferHandle copied)
  | bufferUnmap mappedHandle => exact h.same (bufferUnmap_sameBuffers mappedHandle)
  | descListCreate params kzalloc dmaAllocCoherent copied =>
    exact h.same (descListCreate_sameBuffers params kzalloc dmaAllocCoherent copied)
  | descListRelease descHandle => exact h.same (descListRelease_sameBuffers descHandle)
  | lowMemoryBufferAlloc bufferSize kzalloc kcalloc getFreePage copied =>
    obtain ⟨hcontinuous, hlow⟩ := @lowMemoryBufferAlloc_buffers context bufferSize kzalloc
      kcalloc getFreePage copied _ rfl
    exact h.keep hlow fun _ hmem => hcontinuous ▸ hmem
  | continuousBufferAlloc bufferSize kzalloc dmaAllocCoherent copied =>
    obtain ⟨hlow, hcontinuous⟩ := @continuousBufferAlloc_buffers context bufferSize kzalloc
      dmaAllocCoherent copied _ rfl
    exact h.keep (fun _ hmem => hlow ▸ hmem) hcontinuous
  | lowMemoryBufferFree bufferHandle =>
    rw [handleRequest, hailoVdmaLowMemoryBufferFreeIoctl]
    cases hfind : hailoVdmaFindLowMemoryBuffer context bufferHandle with
    | none => exact h
    | some found =>
      rw [freed, hfind] at hfreed
      cases h with
      | lowMemory buffer hbuffer hholds =>
        refine .lowMemory buffer (mem_eraseP_of_ne hfind hbuffer ?_) hholds
        rintro rfl
        exact hfreed hholds
      | continuous buffer hbuffer hholds => exact .continuous buffer hbuffer hholds
  | continuousBufferFree bufferHandle =>
    rw [handleRequest, hailoVdmaContinuousBufferFreeIoctl]
    cases hfind : context.continuousBufferList.find? fun cur => cur.handle = bufferHandle with
    | none => exact h
    | some found =>
      rw [freed, hfind] at hfreed
      cases h with
      | lowMemory buffer hbuffer hholds => exact .lowMemory buffer hbuffer hholds
      | continuous buffer hbuffer hholds =>
        refine .continuous buffer (mem_eraseP_of_ne hfind hbuffer ?_) hholds
        rintro rfl
        exact hfreed hholds

end Owned

section Mmap
variable {m : PageFrames} {context : HailoVdmaFileContext} {frame : Nat}

theorem remapPages_frames {virtToPhys : UInt64 → UInt64} {remapPfnRange : Nat → Int32} {i : Nat}
    {pages : List UInt64} {vma : VmAreaStruct} {mapped : List PageMapping}
    {mapping : PageMapping}
    (h : mapping ∈ (VdmaMmap.remapPages virtToPhys remapPfnRange i pages vma mapped).2.2) :
    mapping ∈ mapped ∨ ∃ page ∈ pages, mapping.pageFn = virtToPhys page >>> pageShift := by
  induction pages generalizing i vma mapped with
  | nil => exact Or.inl h
  | cons page pages ih =>
    rw [VdmaMmap.remapPages] at h
    simp only at h
    split at h
    · exact Or.inl h
    · cases ih h with
      | inl hmapped =>
        cases List.mem_append.mp hmapped with
        | inl hbefore => exact Or.inl hbefore
        | inr hlast =>
          rw [List.mem_singleton] at hlast
          subst hlast
          exact Or.inr ⟨page, List.mem_cons_self, rfl⟩
      | inr hpage =>
        obtain ⟨other, hmem, hframe⟩ := hpage
        exact Or.inr ⟨other, List.mem_cons_of_mem page hmem, hframe⟩

theorem lowMemoryBufferMmap_frames {virtToPhys : UInt64 → UInt64} {remapPfnRange : Nat → Int32}
    {buffer : VdmaMmap.HailoVdmaLowMemoryBuffer} {vma : VmAreaStruct} {mapping : PageMapping}
    (h : mapping ∈ (VdmaMmap.lowMemoryBufferMmap virtToPhys remapPfnRange buffer vma).2.2) :
    ∃ page ∈ buffer.pagesAddress, mapping.pageFn = virtToPhys page >>> pageShift := by
  unfold VdmaMmap.lowMemoryBufferMmap at h
  simp only at h
  split at h
  · cases h
  · split at h
    · exact (remapPages_frames h).resolve_left List.not_mem_nil
    · exact (remapPages_frames h).resolve_left List.not_mem_nil

theorem mem_mappable_lowMemory {buffer : VdmaMmap.HailoVdmaLowMemoryBuffer}
    (h : buffer ∈ (mappableBuffers context).vdmaLowMemoryBufferList) :
    ∃ own ∈ context.vdmaLowMemoryBufferList, own.pagesAddress = buffer.pagesAddress := by
  obtain ⟨own, hown, hsome⟩ := List.mem_filterMap.mp h
  split at hsome
  · cases hsome
    exact ⟨own, hown, rfl⟩
  · cases hsome

theorem coherentFrames_mono {kernelAddress dmaAddress size size' : UInt64} (hle : size ≤ size')
    (h : frame ∈ coherentFrames m kernelAddress dmaAddress size) :
    frame ∈ coherentFrames m kernelAddress dmaAddress size' := by
  obtain ⟨i, hi, rfl⟩ := List.mem_map.mp h
  have hsize : size.toNat ≤ size'.toNat := UInt64.le_iff_toNat_le.mp hle
  refine List.mem_map.mpr ⟨i, List.mem_range.mpr ?_, rfl⟩
  exact Nat.lt_of_lt_of_le (List.mem_range.mp hi) (by omega)

/-- Whatever comes of it, mmap shows pages of the file's buffers. -/
theorem hailoPcieFopsMmap_owned {remapPfnRange : Nat → Int32} {dmaMmapCoherent : Int32}
    {vma : VmAreaStruct} {mapped : Mapped}
    (hmapped : mapped ∈ (VdmaMmap.hailoPcieFopsMmap (mappableBuffers context) m.virtToPhys
      remapPfnRange dmaMmapCoherent vma).2.2)
    (hframe : frame ∈ mappedFrames m mapped) : Owned m context frame := by
  unfold VdmaMmap.hailoPcieFopsMmap VdmaMmap.hailoVdmaMmap at hmapped
  simp only at hmapped
  split at hmapped
  · next buffer htarget =>
    have hbuffer : buffer ∈ (mappableBuffers context).vdmaLowMemoryBufferList := by
      unfold VdmaMmap.mmapTarget at htarget
      split at htarget
      · next hfind =>
        cases htarget
        exact List.mem_of_find?_eq_some hfind
      · split at htarget <;> cases htarget
    obtain ⟨own, hown, hpages⟩ := mem_mappable_lowMemory hbuffer
    rw [List.mem_singleton] at hmapped
    subst hmapped
    obtain ⟨mapping, hmapping, rfl⟩ := List.mem_map.mp hframe
    obtain ⟨page, hpage, hpageFn⟩ := lowMemoryBufferMmap_frames hmapping
    refine .lowMemory own hown ⟨.freePage page, ?_, ?_⟩
    · refine Multiset.mem_add.mpr (Or.inl (Multiset.mem_coe.mpr ?_))
      exact List.mem_map_of_mem (hpages ▸ hpage)
    · rw [hpageFn]
      exact List.mem_singleton_self _
  · next buffer htarget =>
    have hbuffer : buffer ∈ (mappableBuffers context).continuousBufferList := by
      unfold VdmaMmap.mmapTarget at htarget
      split at htarget
      · cases htarget
      · split at htarget
        · next hfind =>
          cases htarget
          exact List.mem_of_find?_eq_some hfind
        · cases htarget
    obtain ⟨own, hown, rfl⟩ := List.mem_map.mp hbuffer
    unfold VdmaMmap.continuousBufferMmap at hmapped
    simp only at hmapped
    split at hmapped
    · cases hmapped
    · next hsize =>
      split at hmapped
      · cases hmapped
      · rw [List.mem_singleton] at hmapped
        subst hmapped
        refine .continuous own hown ⟨_, Multiset.mem_cons_self _ _, ?_⟩
        exact coherentFrames_mono (UInt64.not_lt.mp hsize) hframe
  · cases hmapped

end Mmap

section Runs
variable {F A : Type} [DecidableEq F] [DecidableEq A] {m : PageFrames} {s s' : MemoryState F A}

/-- The file of an area is open, and what the area shows is of buffers that are not freed. -/
structure Kept (m : PageFrames) (s : MemoryState F A) : Prop where
  serving : ∀ filp context, s.files filp = some context →
    context.Counted ∧ ∃ left, s.held filp = left + context.held
  owned : ∀ area shown, s.areas area = some shown →
    ∃ context, s.files shown.file = some context ∧ ∀ frame ∈ shown.frames, Owned m context frame

omit [DecidableEq F] [DecidableEq A] in
theorem Kept.allHeld (h : Kept m s) : AllHeld m s := by
  intro area shown hshown frame hframe
  obtain ⟨context, hcontext, howned⟩ := h.owned area shown hshown
  obtain ⟨-, left, hheld⟩ := h.serving _ context hcontext
  rw [hheld]
  exact (howned frame hframe).holds.mono (Multiset.le_add_left _ _)

/-- The areas of the file show none of the pages that the request gives back. -/
def FreesUnmapped (m : PageFrames) (s : MemoryState F A) : MemoryAction F A → Prop
  | .request filp request => ∀ context, s.files filp = some context →
      ∀ area shown, s.areas area = some shown → shown.file = filp →
        ∀ frame ∈ shown.frames, ¬ Holds m (freed context request) frame
  | _ => True

/-- What the areas of the file show of the pages that the request gives back has another
reference. -/
def KeepsMapped (m : PageFrames) (s : MemoryState F A) : MemoryAction F A → Prop
  | .request filp request => ∀ context, s.files filp = some context →
      ∀ area shown, s.areas area = some shown → shown.file = filp →
        ∀ frame ∈ shown.frames, Holds m (freed context request) frame →
          Holds m (s.held filp - freed context request) frame
  | _ => True

/-- A request ends with what its file then holds, beside what was left held before. -/
theorem request_held {context : HailoVdmaFileContext} {left : Multiset FileResource}
    (hcounted : context.Counted) {request : MemoryRequest} (hregular : request.Regular) :
    ∃ left', heldAfter (left + context.held) (handleRequest context request).moves =
        some (left' + (answered (handleRequest context request)).held) ∧
      (answered (handleRequest context request)).Counted := by
  obtain ⟨new, ⟨ret, context', hruns, hcounted'⟩, -⟩ := handleRequest_serves hcounted hregular
  have hvalue : answered (handleRequest context request) = context' := by
    rw [answered, hruns.value]
  have htakes := heldAfter_frame hruns.takes left
  rw [hvalue]
  refine ⟨left + new, ?_, hcounted'⟩
  rw [add_comm left context.held, htakes, add_comm _ left, add_assoc]

omit [DecidableEq A] in
theorem Kept.request (h : Kept m s) {filp : F} {context : HailoVdmaFileContext}
    {request : MemoryRequest} (hcontext : s.files filp = some context)
    (hregular : request.Regular) {held : Multiset FileResource}
    (hheld : heldAfter (s.held filp) (handleRequest context request).moves = some held)
    (hfrees : FreesUnmapped m s (.request filp request)) :
    Kept m { s with
      files := Function.update s.files filp (some (answered (handleRequest context request)))
      held := Function.update s.held filp held } where
  serving := by
    intro f c hc
    by_cases hf : f = filp
    · subst hf
      simp only [Function.update_self, Option.some.injEq] at hc ⊢
      subst hc
      obtain ⟨hcounted, left, hleft⟩ := h.serving f context hcontext
      obtain ⟨left', hafter, hcounted'⟩ := @request_held context left hcounted request hregular
      rw [hleft, hafter] at hheld
      cases hheld
      exact ⟨hcounted', left', rfl⟩
    · simp only [Function.update_of_ne hf] at hc ⊢
      exact h.serving f c hc
  owned := by
    intro area shown hshown
    obtain ⟨c, hc, howned⟩ := h.owned area shown hshown
    by_cases hf : shown.file = filp
    · rw [hf, hcontext] at hc
      cases hc
      refine ⟨answered (handleRequest context request), ?_, fun frame hframe => ?_⟩
      · rw [hf]
        exact Function.update_self _ _ _
      · exact (howned frame hframe).request
          (hfrees context hcontext area shown hshown hf frame hframe)
    · refine ⟨c, ?_, howned⟩
      exact (Function.update_of_ne hf _ _).trans hc

omit [DecidableEq F] in
/-- Showing what is owned, in an area that was not there. -/
theorem Kept.area (h : Kept m s) {area : A} {shown : UserArea F} {context : HailoVdmaFileContext}
    (hcontext : s.files shown.file = some context)
    (howned : ∀ frame ∈ shown.frames, Owned m context frame) :
    Kept m { s with areas := Function.update s.areas area (some shown) } where
  serving := h.serving
  owned := by
    intro other shown' hshown'
    by_cases hother : other = area
    · subst hother
      simp only [Function.update_self, Option.some.injEq] at hshown'
      subst hshown'
      exact ⟨context, hcontext, howned⟩
    · simp only [Function.update_of_ne hother] at hshown'
      exact h.owned other shown' hshown'

theorem Kept.step (h : Kept m s) {action : MemoryAction F A} (hallows : KernelAllows s action)
    (hfrees : FreesUnmapped m s action) (hstep : memoryStep m s action = some s') :
    Kept m s' := by
  cases action with
  | openFile filp =>
    rw [memoryStep] at hstep
    split at hstep
    · cases hstep
    · next hclosed =>
      cases hstep
      refine ⟨fun f c hc => ?_, fun area shown hshown => ?_⟩
      · by_cases hf : f = filp
        · subst hf
          simp only [Function.update_self, Option.some.injEq] at hc
          subst hc
          refine ⟨fun mapped hmem => ?_, s.held f, (add_zero _).symm⟩
          cases hmem
        · simp only [Function.update_of_ne hf] at hc
          exact h.serving f c hc
      · obtain ⟨c, hc, howned⟩ := h.owned area shown hshown
        refine ⟨c, ?_, howned⟩
        have hne : shown.file ≠ filp := by
          rintro rfl
          rw [hclosed] at hc
          cases hc
        exact (Function.update_of_ne hne _ _).trans hc
  | request filp request =>
    rw [memoryStep] at hstep
    split at hstep
    · cases hstep
    · next context hcontext =>
      obtain ⟨held, hheld, rfl⟩ := Option.map_eq_some_iff.mp hstep
      exact h.request hcontext hallows hheld hfrees
  | mmap filp area remapPfnRange dmaMmapCoherent vma =>
    rw [memoryStep, mmapStep] at hstep
    split at hstep
    · cases hstep
    · next context hcontext =>
      simp only at hstep
      split at hstep
      · cases hstep
        refine h.area hcontext fun frame hframe => ?_
        obtain ⟨mapped, hmapped, hframe⟩ := List.mem_flatMap.mp hframe
        exact hailoPcieFopsMmap_owned hmapped hframe
      · cases hstep
        exact h
  | munmap area =>
    cases hstep
    refine ⟨h.serving, fun other shown hshown => ?_⟩
    by_cases hother : other = area
    · subst hother
      simp only [Function.update_self] at hshown
      cases hshown
    · simp only [Function.update_of_ne hother] at hshown
      exact h.owned other shown hshown
  | copyPart area copy kept =>
    rw [memoryStep] at hstep
    split at hstep
    · cases hstep
    · next shown hshown =>
      cases hstep
      obtain ⟨c, hc, howned⟩ := h.owned area shown hshown
      exact h.area hc fun frame hframe => howned frame (List.mem_of_mem_filter hframe)
  | close filp =>
    rw [memoryStep] at hstep
    split at hstep
    · cases hstep
    · next context hcontext =>
      obtain ⟨held, hheld, rfl⟩ := Option.map_eq_some_iff.mp hstep
      refine ⟨fun f c hc => ?_, fun area shown hshown => ?_⟩
      · by_cases hf : f = filp
        · subst hf
          simp only [Function.update_self] at hc
          cases hc
        · simp only [Function.update_of_ne hf] at hc ⊢
          exact h.serving f c hc
      · obtain ⟨c, hc, howned⟩ := h.owned area shown hshown
        exact ⟨c, (Function.update_of_ne (hallows area shown hshown) _ _).trans hc, howned⟩

/-- A request that frees a buffer leaves the rest as it is. -/
theorem request_freed {context : HailoVdmaFileContext} (hcounted : context.Counted)
    {request : MemoryRequest} {frame : Nat} (hfreed : Holds m (freed context request) frame)
    (left : Multiset FileResource) :
    heldAfter (left + context.held) (handleRequest context request).moves =
      some (left + context.held - freed context request) := by
  have hserved {x : FileLedger (Int32 × HailoVdmaFileContext)} (h : Serves context x 0)
      {owned : Multiset FileResource} (howned : context.held = owned + (answered x).held) :
      heldAfter (left + context.held) x.moves = some (left + context.held - owned) := by
    obtain ⟨ret, context', hruns, -⟩ := h
    have hrest : left + context.held - owned = left + context'.held := by
      rw [howned, add_left_comm, add_tsub_cancel_left, answered, hruns.value]
    have htakes := heldAfter_frame hruns.takes left
    rw [zero_add] at htakes
    rw [hrest, add_comm left, add_comm left]
    exact htakes
  cases request with
  | lowMemoryBufferFree bufferHandle =>
    rw [freed] at hfreed ⊢
    cases hfind : hailoVdmaFindLowMemoryBuffer context bufferHandle with
    | none =>
      rw [hfind] at hfreed
      exact absurd hfreed not_holds_zero
    | some found =>
      refine hserved (lowMemoryBufferFree_serves hcounted bufferHandle) ?_
      simp only [hailoVdmaLowMemoryBufferFreeIoctl, hfind, HailoVdmaFileContext.held]
      rw [heldBy_eraseP _ hfind]
      simp only [answered, value_bind, value_pure, Option.map_some, Option.getD_some]
      rw [add_assoc, add_left_comm _ found.held, add_left_comm _ found.held]
  | continuousBufferFree bufferHandle =>
    rw [freed] at hfreed ⊢
    cases hfind : context.continuousBufferList.find? fun cur => cur.handle = bufferHandle with
    | none =>
      rw [hfind] at hfreed
      exact absurd hfreed not_holds_zero
    | some found =>
      refine hserved (continuousBufferFree_serves hcounted bufferHandle) ?_
      simp only [hailoVdmaContinuousBufferFreeIoctl, hfind, HailoVdmaFileContext.held]
      rw [heldBy_eraseP _ hfind]
      simp only [answered, value_bind, value_pure, Option.map_some, Option.getD_some]
      rw [add_left_comm _ found.held, add_left_comm _ found.held, add_left_comm _ found.held]
  | _ => exact absurd hfreed not_holds_zero

theorem Kept.step_iff (h : Kept m s) {action : MemoryAction F A} (hallows : KernelAllows s action)
    (hstep : memoryStep m s action = some s') : AllHeld m s' ↔ KeepsMapped m s action := by
  cases action with
  | request filp request =>
    rw [memoryStep] at hstep
    split at hstep
    · cases hstep
    · next context hcontext =>
      obtain ⟨held, hheld, rfl⟩ := Option.map_eq_some_iff.mp hstep
      obtain ⟨hcounted, left, hleft⟩ := h.serving filp context hcontext
      obtain ⟨left', hafter, -⟩ := @request_held context left hcounted request hallows
      have hfreed {frame : Nat} (hholds : Holds m (freed context request) frame) :
          held = s.held filp - freed context request := by
        have hsame := request_freed hcounted hholds left
        rw [← hleft, hheld] at hsame
        exact Option.some.inj hsame
      constructor
      · intro hall c hc area shown hshown hfile frame hframe hholds
        rw [hcontext] at hc
        cases hc
        have hkept := hall area shown hshown frame hframe
        simp only [hfile, Function.update_self] at hkept
        rw [← hfreed hholds]
        exact hkept
      · intro hkeeps area shown hshown frame hframe
        by_cases hfile : shown.file = filp
        · simp only [hfile, Function.update_self]
          by_cases hholds : Holds m (freed context request) frame
          · rw [hfreed hholds]
            exact hkeeps context hcontext area shown hshown hfile frame hframe hholds
          · obtain ⟨c, hc, howned⟩ := h.owned area shown hshown
            rw [hfile, hcontext] at hc
            cases hc
            rw [hleft, hafter] at hheld
            cases hheld
            exact ((howned frame hframe).request hholds).holds.mono (Multiset.le_add_left _ _)
        · simp only [Function.update_of_ne hfile]
          exact h.allHeld area shown hshown frame hframe
  | _ => exact iff_of_true (h.step hallows trivial hstep).allHeld trivial

omit [DecidableEq F] [DecidableEq A] in
theorem kept_noFiles : Kept m (noFiles : MemoryState F A) where
  serving := by
    intro filp context hcontext
    cases hcontext
  owned := by
    intro area shown hshown
    cases hshown

/-- As long as no buffer is freed whose pages an area of its file shows, a page that a process
has mapped is held, whatever is unmapped or closed; and the next step keeps this exactly if the
shown pages of a buffer that it frees are held by a mapping for the device. -/
theorem mappedPages_held_iff {action : MemoryAction F A}
    (hrun : Relation.ReflTransGen (MemorySteps m (FreesUnmapped m)) noFiles s)
    (hallows : KernelAllows s action) (hstep : memoryStep m s action = some s') :
    AllHeld m s ∧ (AllHeld m s' ↔ KeepsMapped m s action) := by
  have hkept : Kept m s := by
    refine inv_of_run ?_ hrun kept_noFiles
    rintro s₁ s₂ h ⟨next, hnext, hfrees, hnextStep⟩
    exact h.step hnext hfrees hnextStep
  exact ⟨hkept.allHeld, hkept.step_iff hallows hstep⟩

/-- The only page of a buffer is mapped by a process, and not for the device, when the buffer is
freed. -/
theorem mappedPages_held_iff_freedWhileMapped : ∃ s s' : MemoryState Nat Nat,
    memoryStep ⟨id, fun _ _ i => i⟩ s (.request 0 (.lowMemoryBufferFree 0x1000)) = some s' ∧
      AllHeld ⟨id, fun _ _ i => i⟩ s ∧ ¬ AllHeld ⟨id, fun _ _ i => i⟩ s' := by
  let frames : PageFrames := ⟨id, fun _ _ i => i⟩
  let buffer : HailoVdmaLowMemoryBuffer := ⟨1, 0x1000, 2, [0x5000]⟩
  let context : HailoVdmaFileContext := { hailoVdmaFileContextInit with
    lastVdmaHandle := 1, vdmaLowMemoryBufferList := [buffer] }
  obtain ⟨s₁, hallocated, hcontext, hheld, hareas⟩ : ∃ s₁ : MemoryState Nat Nat,
      Relation.ReflTransGen (MemorySteps frames (FreesUnmapped frames)) noFiles s₁ ∧
        s₁.files 0 = some context ∧ s₁.held 0 = buffer.held ∧ s₁.areas = fun _ => none :=
    ⟨_, .head ⟨.openFile 0, trivial, trivial, rfl⟩ <|
      .single ⟨.request 0 (.lowMemoryBufferAlloc 100 (some 1) (some 2) (fun _ => some 0x5000) true),
        trivial, fun _ _ _ _ _ _ _ _ => not_holds_zero, rfl⟩, rfl, rfl, rfl⟩
  have hmmap : VdmaMmap.hailoPcieFopsMmap (mappableBuffers context) id (fun _ => 0) 0
      ⟨0x7000, 0x8000, 1⟩ =
        (0, ⟨0x7000, 0x8000, 0⟩, [.pages (VdmaMmap.pageMappings id 0x7000 [0x5000])]) := by
    have htarget : VdmaMmap.mmapTarget (mappableBuffers context) (1 <<< pageShift) =
        .lowMemory ⟨0x1000, [0x5000], by decide⟩ := by
      rw [mappableBuffers, List.filterMap_cons_some (dif_pos (by decide))]
      rfl
    simp only [VdmaMmap.hailoPcieFopsMmap, VdmaMmap.hailoVdmaMmap, htarget]
    rw [VdmaMmap.lowMemoryBufferMmap_success (by decide) fun _ _ => rfl]
  obtain ⟨s, hrun, hcontext, hheld, harea⟩ : ∃ s : MemoryState Nat Nat,
      Relation.ReflTransGen (MemorySteps frames (FreesUnmapped frames)) noFiles s ∧
        s.files 0 = some context ∧ s.held 0 = buffer.held ∧ s.areas 0 = some ⟨0, [5]⟩ := by
    refine ⟨{ s₁ with areas := Function.update s₁.areas 0 (some ⟨0, [5]⟩) }, hallocated.tail
      ⟨.mmap 0 0 (fun _ => 0) 0 ⟨0x7000, 0x8000, 1⟩, ?_, trivial, ?_⟩, hcontext, hheld, rfl⟩
    · rw [KernelAllows, hareas]
    · rw [memoryStep, mmapStep, hcontext]
      simp only [frames, hmmap]
      rfl
  obtain ⟨s', hstep⟩ : ∃ s', memoryStep frames s (.request 0 (.lowMemoryBufferFree 0x1000)) =
      some s' := by
    rw [memoryStep, hcontext]
    simp only [hheld]
    exact ⟨_, rfl⟩
  have hallows : KernelAllows s (.request 0 (.lowMemoryBufferFree 0x1000)) := trivial
  obtain ⟨hall, hiff⟩ := mappedPages_held_iff hrun hallows hstep
  refine ⟨s, s', hstep, hall, fun h => ?_⟩
  have hkept := hiff.mp h context hcontext 0 ⟨0, [5]⟩ harea rfl 5 (List.mem_singleton_self 5)
    ⟨.freePage 0x5000, by decide, by decide⟩
  have hnothing : buffer.held - freed context (.lowMemoryBufferFree 0x1000) = 0 := by decide
  rw [hheld, hnothing] at hkept
  exact not_holds_zero hkept

end Runs

end HailortDrivers.MappedPages
