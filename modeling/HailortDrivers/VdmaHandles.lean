import HailortDrivers.VdmaMmap
import HailortDrivers.DivisorSafety
import Mathlib.Data.List.Nodup

/-!
The handles of a file. One counter serves its descriptors lists, low-memory buffers and continuous
buffers; a handle is a value of the counter, sign extended and shifted by the page size, so that
it survives as the page offset of `mmap`. A run of a file carries along every object it created.
-/
namespace HailortDrivers.VdmaHandles
open KernelExec MachineWord VdmaTypes VdmaMemory VdmaIoctl DescriptorsListCreation VdmaMmap

/-- The conversion of `atomic_inc_return` to `uintptr_t`, and the shift. -/
def handleOf (counter : Int32) : UInt64 := counter.toInt64.toUInt64 <<< pageShift

theorem toNat_handleOf (counter : Int32) :
    ((handleOf counter).toNat : Int) = counter.toInt * 4096 % 2 ^ 64 := by
  have hshift : pageShift.toNat % 64 = 12 := rfl
  have hlt := counter.toInt64.toUInt64.toNat_lt
  have hextended : (counter.toInt64.toUInt64.toNat : Int) = counter.toInt % 2 ^ 64 := by
    rw [← Int32.toInt_toInt64, Int64.toInt, BitVec.toInt_eq_toNat_bmod, Int64.toNat_toBitVec]
    have hmod := @Int.bmod_emod counter.toInt64.toUInt64.toNat (2 ^ 64)
    omega
  rw [handleOf, UInt64.toNat_shiftLeft, hshift, Nat.shiftLeft_eq]
  push_cast
  omega

theorem handleOf_injective {a b : Int32} (h : handleOf a = handleOf b) : a = b := by
  have ha := toNat_handleOf a
  have hb := toNat_handleOf b
  have hlow := a.le_toInt
  have hhigh := a.toInt_lt
  have hlow' := b.le_toInt
  have hhigh' := b.toInt_lt
  rw [h] at ha
  apply Int32.toInt_inj.mp
  omega

theorem counter_injective {a b : Nat} (ha : a < 2 ^ 32) (hb : b < 2 ^ 32)
    (h : Int32.ofNat a = Int32.ofNat b) : a = b := by
  have hword := congrArg (fun x => x.toUInt32.toNat) h
  simp only [Int32.toUInt32_ofNat', UInt32.toNat_ofNat'] at hword
  omega

theorem counter_moves (counter : Int32) : counter + 1 ≠ counter := by
  intro h
  have hone : (1 : Int32) = 0 := by
    rw [← Int32.add_sub_cancel 1 counter, Int32.add_comm, h, Int32.sub_self]
  exact absurd hone (by decide)

section Ioctls
variable {n : Nat}

def hailoGetNextVdmaHandle (context : HailoVdmaFileContext n) : UInt64 × HailoVdmaFileContext n :=
  let lastHandle := context.lastVdmaHandle + 1
  (handleOf lastHandle, { context with lastVdmaHandle := lastHandle })

/-- The loop over `__get_free_page`, for the first `count` pages. -/
def allocatePages (getFreePage : Nat → Option UInt64) : Nat → Option (List UInt64)
  | 0 => some []
  | count + 1 => do
    let pages ← allocatePages getFreePage count
    let page ← getFreePage count
    return pages ++ [page]

theorem length_allocatePages {getFreePage : Nat → Option UInt64} {count : Nat}
    {pages : List UInt64} (h : allocatePages getFreePage count = some pages) :
    pages.length = count := by
  induction count generalizing pages with
  | zero =>
    obtain rfl := Option.some.inj h
    rfl
  | succ count ih =>
    obtain ⟨first, hfirst, h⟩ := Option.bind_eq_some_iff.mp h
    obtain ⟨page, -, h⟩ := Option.bind_eq_some_iff.mp h
    obtain rfl := Option.some.inj h
    rw [List.length_append, ih hfirst]
    rfl

def pagesCount (size : UInt64) : UInt64 := (size + pageSize - 1) >>> pageShift

theorem pagesCount_lt (size : UInt64) : (pagesCount size).toNat < 2 ^ 52 := by
  have hlt := (size + pageSize - 1).toNat_lt
  have hshift : pageShift.toNat % 64 = 12 := rfl
  rw [pagesCount, UInt64.toNat_shiftRight, hshift, Nat.shiftRight_eq_div_pow]
  omega

/-- `kcalloc`: whether the array of page addresses could be had. -/
def hailoVdmaLowMemoryBufferAlloc (size : UInt64) (kcalloc : Bool)
    (getFreePage : Nat → Option UInt64) :
    Except Int32 { pages : List UInt64 // pages.length < 2 ^ 52 } :=
  if !kcalloc then .error (-enomem)
  else
    match h : allocatePages getFreePage (pagesCount size).toNat with
    | none => .error (-enomem)
    | some pages => .ok ⟨pages, length_allocatePages h ▸ pagesCount_lt size⟩

/-- `kzalloc`: whether the structure of the buffer could be had. -/
def hailoVdmaLowMemoryBufferAllocIoctl (context : FileBuffers n) (bufferSize : UInt64)
    (kzalloc kcalloc : Bool) (getFreePage : Nat → Option UInt64) (copied : Bool) :
    Int32 × FileBuffers n :=
  if !kzalloc then (-enomem, context)
  else
    match hailoVdmaLowMemoryBufferAlloc bufferSize kcalloc getFreePage with
    | .error err => (err, context)
    | .ok pages =>
      let (handle, vdmaContext) := hailoGetNextVdmaHandle context.vdmaContext
      let context := { context with vdmaContext := vdmaContext }
      if !copied then (-efault, context)
      else
        (0, { context with
          vdmaLowMemoryBufferList :=
            ⟨handle, pages.1, pages.2⟩ :: context.vdmaLowMemoryBufferList })

def hailoVdmaLowMemoryBufferFreeIoctl (context : FileBuffers n) (bufferHandle : UInt64) :
    Int32 × FileBuffers n :=
  match hailoVdmaFindLowMemoryBuffer context bufferHandle with
  | none => (-einval, context)
  | some _ =>
    (0, { context with
      vdmaLowMemoryBufferList :=
        context.vdmaLowMemoryBufferList.eraseP fun cur => cur.handle = bufferHandle })

/-- `PAGE_ALIGN` -/
def pageAlign (size : UInt64) : UInt64 := (size + (pageSize - 1)) &&& ~~~(pageSize - 1)

/-- `dmaAllocCoherent`: the kernel and the DMA address of the memory. -/
def hailoVdmaContinuousBufferAllocIoctl (context : FileBuffers n) (bufferSize : UInt64)
    (kzalloc : Bool) (dmaAllocCoherent : Option (UInt64 × UInt64)) (copied : Bool) :
    Int32 × FileBuffers n :=
  if !kzalloc then (-enomem, context)
  else
    match dmaAllocCoherent with
    | none => (-enobufs, context)
    | some (kernelAddress, dmaAddress) =>
      let (handle, vdmaContext) := hailoGetNextVdmaHandle context.vdmaContext
      let context := { context with vdmaContext := vdmaContext }
      if !copied then (-efault, context)
      else
        (0, { context with
          continuousBufferList :=
            ⟨handle, kernelAddress, dmaAddress, pageAlign bufferSize⟩ ::
              context.continuousBufferList })

def hailoVdmaContinuousBufferFreeIoctl (context : FileBuffers n) (bufferHandle : UInt64) :
    Int32 × FileBuffers n :=
  match hailoVdmaFindContinuousBuffer context bufferHandle with
  | none => (-einval, context)
  | some _ =>
    (0, { context with
      continuousBufferList :=
        context.continuousBufferList.eraseP fun cur => cur.handle = bufferHandle })

/-- A request on the objects of a file, with what the kernel answers on its way. -/
inductive ObjectRequest
  | copyFromUserFailed
  | descListCreate (params : HailoDescListCreateParams) (address : Option Nat)
      (memory : Option (Nat → HailoVdmaDescriptor)) (copied : Bool)
  | descListRelease (descHandle : UInt64)
  | lowMemoryBufferAlloc (bufferSize : UInt64) (kzalloc kcalloc : Bool)
      (getFreePage : Nat → Option UInt64) (copied : Bool)
  | lowMemoryBufferFree (bufferHandle : UInt64)
  | continuousBufferAlloc (bufferSize : UInt64) (kzalloc : Bool)
      (dmaAllocCoherent : Option (UInt64 × UInt64)) (copied : Bool)
  | continuousBufferFree (bufferHandle : UInt64)
  | bufferMap (params : HailoVdmaBufferMapParams) (mapped : Except Int32 MappedMemory)
      (copied : Bool)
  | bufferUnmap (mappedHandle : UInt64)

def handleRequest (kernel : KernelState n) (context : FileBuffers n) :
    ObjectRequest → Exec (Int32 × KernelState n × FileBuffers n)
  | .copyFromUserFailed => .ok (-efault, kernel, context)
  | .descListCreate params address memory copied =>
    let (ret, kernel, vdmaContext) :=
      hailoDescListCreateIoctl kernel context.vdmaContext params address memory copied
    .ok (ret, kernel, { context with vdmaContext := vdmaContext })
  | .descListRelease descHandle =>
    let (ret, kernel, vdmaContext) :=
      hailoDescListReleaseIoctl kernel context.vdmaContext descHandle
    .ok (ret, kernel, { context with vdmaContext := vdmaContext })
  | .lowMemoryBufferAlloc bufferSize kzalloc kcalloc getFreePage copied =>
    let (ret, context) := hailoVdmaLowMemoryBufferAllocIoctl context bufferSize kzalloc kcalloc
      getFreePage copied
    .ok (ret, kernel, context)
  | .lowMemoryBufferFree bufferHandle =>
    let (ret, context) := hailoVdmaLowMemoryBufferFreeIoctl context bufferHandle
    .ok (ret, kernel, context)
  | .continuousBufferAlloc bufferSize kzalloc dmaAllocCoherent copied =>
    let (ret, context) := hailoVdmaContinuousBufferAllocIoctl context bufferSize kzalloc
      dmaAllocCoherent copied
    .ok (ret, kernel, context)
  | .continuousBufferFree bufferHandle =>
    let (ret, context) := hailoVdmaContinuousBufferFreeIoctl context bufferHandle
    .ok (ret, kernel, context)
  | .bufferMap params mapped copied => do
    let (ret, kernel, vdmaContext) ←
      hailoVdmaBufferMapIoctl kernel context.vdmaContext params mapped copied
    return (ret, kernel, { context with vdmaContext := vdmaContext })
  | .bufferUnmap mappedHandle => do
    let (ret, kernel, vdmaContext) ←
      hailoVdmaBufferUnmapIoctl kernel context.vdmaContext mappedHandle
    return (ret, kernel, { context with vdmaContext := vdmaContext })

end Ioctls

inductive FileObject
  | descriptors (list : HailoDescriptorsListBuffer)
  | lowMemory (buffer : HailoVdmaLowMemoryBuffer)
  | continuous (buffer : HailoVdmaContinuousBuffer)

namespace FileObject

def handle : FileObject → UInt64
  | descriptors list => list.handle
  | lowMemory buffer => buffer.handle
  | continuous buffer => buffer.handle

def descriptors? : FileObject → Option HailoDescriptorsListBuffer
  | descriptors list => some list
  | _ => none

def lowMemory? : FileObject → Option HailoVdmaLowMemoryBuffer
  | lowMemory buffer => some buffer
  | _ => none

def continuous? : FileObject → Option HailoVdmaContinuousBuffer
  | continuous buffer => some buffer
  | _ => none

/-- What `mmap` goes on with for the handle of an object that is live. -/
def mmapTarget : FileObject → MmapTarget
  | descriptors _ => .notExisting
  | lowMemory buffer => .lowMemory buffer
  | continuous buffer => .continuous buffer

end FileObject

section Runs
variable {n : Nat}

def FileObject.Live (context : FileBuffers n) : FileObject → Prop
  | descriptors list => list ∈ context.vdmaContext.descriptorsBufferList
  | lowMemory buffer => buffer ∈ context.vdmaLowMemoryBufferList
  | continuous buffer => buffer ∈ context.continuousBufferList

/-- The object that a successful creation put first in its list. -/
def createdBy (request : ObjectRequest) (ret : Int32) (context : FileBuffers n) :
    List FileObject :=
  if ret = 0 then
    match request with
    | .descListCreate .. =>
      (context.vdmaContext.descriptorsBufferList.head?.map .descriptors).toList
    | .lowMemoryBufferAlloc .. => (context.vdmaLowMemoryBufferList.head?.map .lowMemory).toList
    | .continuousBufferAlloc .. => (context.continuousBufferList.head?.map .continuous).toList
    | _ => []
  else []

/-- A handle was drawn if the counter moved. -/
def handlesDrawn (context context' : FileBuffers n) : Nat :=
  if context'.vdmaContext.lastVdmaHandle = context.vdmaContext.lastVdmaHandle then 0 else 1

/-- The requests of an open file, with the handles drawn and the objects created so far. Between
them other files may change what the files share. -/
inductive FileRun (n : Nat) : Nat → List FileObject → FileBuffers n → Prop
  | opened : FileRun n 0 [] ⟨hailoVdmaFileContextInit n, [], []⟩
  | request {drawn : Nat} {created : List FileObject} {context context' : FileBuffers n}
      {kernel kernel' : KernelState n} {request : ObjectRequest} {ret : Int32}
      (hrun : FileRun n drawn created context)
      (h : handleRequest kernel context request = .ok (ret, kernel', context')) :
      FileRun n (drawn + handlesDrawn context context') (createdBy request ret context' ++ created)
        context'

/-- All that a request does to the objects of a file. -/
inductive RequestEffect (context context' : FileBuffers n) : List FileObject → Prop
  | kept
      (hcounter : context'.vdmaContext.lastVdmaHandle = context.vdmaContext.lastVdmaHandle ∨
        context'.vdmaContext.lastVdmaHandle = context.vdmaContext.lastVdmaHandle + 1)
      (hdescriptors : context'.vdmaContext.descriptorsBufferList.Sublist
        context.vdmaContext.descriptorsBufferList)
      (hlowMemory : context'.vdmaLowMemoryBufferList.Sublist context.vdmaLowMemoryBufferList)
      (hcontinuous : context'.continuousBufferList.Sublist context.continuousBufferList) :
      RequestEffect context context' []
  | made {o : FileObject}
      (hcounter : context'.vdmaContext.lastVdmaHandle = context.vdmaContext.lastVdmaHandle + 1)
      (hhandle : o.handle = handleOf (context.vdmaContext.lastVdmaHandle + 1))
      (hdescriptors : context'.vdmaContext.descriptorsBufferList =
        o.descriptors?.toList ++ context.vdmaContext.descriptorsBufferList)
      (hlowMemory : context'.vdmaLowMemoryBufferList =
        o.lowMemory?.toList ++ context.vdmaLowMemoryBufferList)
      (hcontinuous : context'.continuousBufferList =
        o.continuous?.toList ++ context.continuousBufferList) :
      RequestEffect context context' [o]

section Effects
variable {kernel kernel' : KernelState n} {context context' : FileBuffers n} {ret : Int32}

theorem effect_refused (context : FileBuffers n) : RequestEffect context context [] :=
  .kept (Or.inl rfl) (List.Sublist.refl _) (List.Sublist.refl _) (List.Sublist.refl _)

/-- The handle was drawn for an object that did not come to be. -/
theorem effect_drawn (context : FileBuffers n) :
    RequestEffect context { context with
      vdmaContext := { context.vdmaContext with
        lastVdmaHandle := context.vdmaContext.lastVdmaHandle + 1 } } [] :=
  .kept (Or.inr rfl) (List.Sublist.refl _) (List.Sublist.refl _) (List.Sublist.refl _)

theorem descListCreate_effect {params : HailoDescListCreateParams} {address : Option Nat}
    {memory : Option (Nat → HailoVdmaDescriptor)} {copied : Bool}
    {vdmaContext : HailoVdmaFileContext n}
    (h : hailoDescListCreateIoctl kernel context.vdmaContext params address memory copied =
      (ret, kernel', vdmaContext)) :
    RequestEffect context { context with vdmaContext := vdmaContext }
      (createdBy (.descListCreate params address memory copied) ret
        { context with vdmaContext := vdmaContext }) := by
  unfold hailoDescListCreateIoctl at h
  split at h
  · cases h
    exact effect_refused context
  · split at h
    · cases h
      exact effect_refused context
    · split at h
      · cases h
        exact effect_refused context
      · simp only at h
        split at h
        · next herr =>
          cases h
          rw [createdBy, if_neg (DivisorSafety.hailoDescListCreate_error herr)]
          exact effect_drawn context
        · split at h
          · cases h
            exact effect_drawn context
          · cases h
            exact .made rfl rfl rfl rfl rfl

theorem lowMemoryBufferAlloc_error {size : UInt64} {kcalloc : Bool}
    {getFreePage : Nat → Option UInt64} {err : Int32}
    (h : hailoVdmaLowMemoryBufferAlloc size kcalloc getFreePage = .error err) : err ≠ 0 := by
  unfold hailoVdmaLowMemoryBufferAlloc at h
  split at h
  · cases h
    decide
  · split at h
    · cases h
      decide
    · cases h

theorem lowMemoryBufferAlloc_effect {bufferSize : UInt64} {kzalloc kcalloc : Bool}
    {getFreePage : Nat → Option UInt64} {copied : Bool}
    (h : hailoVdmaLowMemoryBufferAllocIoctl context bufferSize kzalloc kcalloc getFreePage copied =
      (ret, context')) :
    RequestEffect context context' (createdBy
      (.lowMemoryBufferAlloc bufferSize kzalloc kcalloc getFreePage copied) ret context') := by
  unfold hailoVdmaLowMemoryBufferAllocIoctl at h
  split at h
  · cases h
    exact effect_refused context
  · split at h
    · next herr =>
      cases h
      rw [createdBy, if_neg (lowMemoryBufferAlloc_error herr)]
      exact effect_refused context
    · simp only at h
      split at h
      · cases h
        exact effect_drawn context
      · cases h
        exact .made rfl rfl rfl rfl rfl

theorem continuousBufferAlloc_effect {bufferSize : UInt64} {kzalloc : Bool}
    {dmaAllocCoherent : Option (UInt64 × UInt64)} {copied : Bool}
    (h : hailoVdmaContinuousBufferAllocIoctl context bufferSize kzalloc dmaAllocCoherent copied =
      (ret, context')) :
    RequestEffect context context' (createdBy
      (.continuousBufferAlloc bufferSize kzalloc dmaAllocCoherent copied) ret context') := by
  unfold hailoVdmaContinuousBufferAllocIoctl at h
  split at h
  · cases h
    exact effect_refused context
  · split at h
    · cases h
      exact effect_refused context
    · simp only at h
      split at h
      · cases h
        exact effect_drawn context
      · cases h
        exact .made rfl rfl rfl rfl rfl

theorem descListRelease_effect {descHandle : UInt64} {vdmaContext : HailoVdmaFileContext n}
    (h : hailoDescListReleaseIoctl kernel context.vdmaContext descHandle =
      (ret, kernel', vdmaContext)) :
    RequestEffect context { context with vdmaContext := vdmaContext } [] := by
  unfold hailoDescListReleaseIoctl at h
  split at h
  · cases h
    exact effect_refused context
  · cases h
    exact .kept (Or.inl rfl) List.erase_sublist (List.Sublist.refl _) (List.Sublist.refl _)

theorem lowMemoryBufferFree_effect {bufferHandle : UInt64}
    (h : hailoVdmaLowMemoryBufferFreeIoctl context bufferHandle = (ret, context')) :
    RequestEffect context context' [] := by
  unfold hailoVdmaLowMemoryBufferFreeIoctl at h
  split at h
  · cases h
    exact effect_refused context
  · cases h
    exact .kept (Or.inl rfl) (List.Sublist.refl _) List.eraseP_sublist (List.Sublist.refl _)

theorem continuousBufferFree_effect {bufferHandle : UInt64}
    (h : hailoVdmaContinuousBufferFreeIoctl context bufferHandle = (ret, context')) :
    RequestEffect context context' [] := by
  unfold hailoVdmaContinuousBufferFreeIoctl at h
  split at h
  · cases h
    exact effect_refused context
  · cases h
    exact .kept (Or.inl rfl) (List.Sublist.refl _) (List.Sublist.refl _) List.eraseP_sublist

/-- Mapping and unmapping draw from a counter of their own. -/
theorem bufferMap_effect {params : HailoVdmaBufferMapParams}
    {mapped : Except Int32 MappedMemory} {copied : Bool}
    (h : handleRequest kernel context (.bufferMap params mapped copied) =
      .ok (ret, kernel', context')) : RequestEffect context context' [] := by
  obtain ⟨⟨ret', kernel₁, vdmaContext⟩, hmap, h⟩ := bind_ok h
  cases h
  have hcontext : vdmaContext.lastVdmaHandle = context.vdmaContext.lastVdmaHandle ∧
      vdmaContext.descriptorsBufferList = context.vdmaContext.descriptorsBufferList := by
    unfold hailoVdmaBufferMapIoctl at hmap
    simp only at hmap
    split at hmap
    · cases hmap
      exact ⟨rfl, rfl⟩
    · split at hmap
      · cases hmap
        exact ⟨rfl, rfl⟩
      · split at hmap
        · obtain ⟨buffers, -, hmap⟩ := bind_ok hmap
          cases hmap
          exact ⟨rfl, rfl⟩
        · cases hmap
          exact ⟨rfl, rfl⟩
  obtain ⟨hcounter, hlists⟩ := hcontext
  exact .kept (Or.inl hcounter) (hlists ▸ List.Sublist.refl _) (List.Sublist.refl _)
    (List.Sublist.refl _)

theorem bufferUnmap_effect {mappedHandle : UInt64}
    (h : handleRequest kernel context (.bufferUnmap mappedHandle) =
      .ok (ret, kernel', context')) : RequestEffect context context' [] := by
  obtain ⟨⟨ret', kernel₁, vdmaContext⟩, hunmap, h⟩ := bind_ok h
  cases h
  obtain ⟨found, -, hunmap⟩ := bind_ok hunmap
  cases found with
  | none =>
    cases hunmap
    exact effect_refused context
  | some address =>
    obtain ⟨buffers, -, hunmap⟩ := bind_ok hunmap
    cases hunmap
    exact .kept (Or.inl rfl) (List.Sublist.refl _) (List.Sublist.refl _) (List.Sublist.refl _)

theorem handleRequest_effect {request : ObjectRequest}
    (h : handleRequest kernel context request = .ok (ret, kernel', context')) :
    RequestEffect context context' (createdBy request ret context') := by
  have hnone : ∀ {request : ObjectRequest},
      createdBy request ret context' = (if ret = 0 then [] else []) →
        createdBy request ret context' = [] := fun hcreated => hcreated.trans (ite_self [])
  cases request with
  | copyFromUserFailed =>
    cases h
    exact effect_refused context
  | descListCreate params address memory copied =>
    rw [handleRequest] at h
    generalize hcall : hailoDescListCreateIoctl kernel context.vdmaContext params address memory
      copied = result at h
    cases h
    exact descListCreate_effect hcall
  | descListRelease descHandle =>
    rw [hnone rfl]
    rw [handleRequest] at h
    generalize hcall : hailoDescListReleaseIoctl kernel context.vdmaContext descHandle = result at h
    cases h
    exact descListRelease_effect hcall
  | lowMemoryBufferAlloc bufferSize kzalloc kcalloc getFreePage copied =>
    rw [handleRequest] at h
    generalize hcall : hailoVdmaLowMemoryBufferAllocIoctl context bufferSize kzalloc kcalloc
      getFreePage copied = result at h
    cases h
    exact lowMemoryBufferAlloc_effect hcall
  | lowMemoryBufferFree bufferHandle =>
    rw [hnone rfl]
    rw [handleRequest] at h
    generalize hcall : hailoVdmaLowMemoryBufferFreeIoctl context bufferHandle = result at h
    cases h
    exact lowMemoryBufferFree_effect hcall
  | continuousBufferAlloc bufferSize kzalloc dmaAllocCoherent copied =>
    rw [handleRequest] at h
    generalize hcall : hailoVdmaContinuousBufferAllocIoctl context bufferSize kzalloc
      dmaAllocCoherent copied = result at h
    cases h
    exact continuousBufferAlloc_effect hcall
  | continuousBufferFree bufferHandle =>
    rw [hnone rfl]
    rw [handleRequest] at h
    generalize hcall : hailoVdmaContinuousBufferFreeIoctl context bufferHandle = result at h
    cases h
    exact continuousBufferFree_effect hcall
  | bufferMap params mapped copied =>
    rw [hnone rfl]
    exact bufferMap_effect h
  | bufferUnmap mappedHandle =>
    rw [hnone rfl]
    exact bufferUnmap_effect h

end Effects

/-- Every object still has the handle it was created with, from a draw of its own. -/
structure HandleInv (drawn : Nat) (created : List FileObject) (context : FileBuffers n) :
    Prop where
  counter : context.vdmaContext.lastVdmaHandle = Int32.ofNat drawn
  numbered : ∀ o ∈ created, ∃ k ≤ drawn, o.handle = handleOf (Int32.ofNat k)
  distinct : (created.map FileObject.handle).Nodup
  descriptors : context.vdmaContext.descriptorsBufferList.Sublist
    (created.filterMap FileObject.descriptors?)
  lowMemory : context.vdmaLowMemoryBufferList.Sublist (created.filterMap FileObject.lowMemory?)
  continuous : context.continuousBufferList.Sublist (created.filterMap FileObject.continuous?)

section Invariant
variable {drawn : Nat} {created made : List FileObject} {context context' : FileBuffers n}

theorem filterMap_cons_toList {α β : Type} (f : α → Option β) (a : α) (l : List α) :
    (a :: l).filterMap f = (f a).toList ++ l.filterMap f := by
  rw [List.filterMap_cons]
  cases f a <;> rfl

theorem HandleInv.step (hinv : HandleInv drawn created context)
    (heffect : RequestEffect context context' made)
    (hdrawn : drawn + handlesDrawn context context' < 2 ^ 32) :
    HandleInv (drawn + handlesDrawn context context') (made ++ created) context' := by
  have hnext : Int32.ofNat (drawn + 1) = context.vdmaContext.lastVdmaHandle + 1 := by
    rw [hinv.counter, Int32.ofNat_add]
    rfl
  have hmoved : context'.vdmaContext.lastVdmaHandle = context.vdmaContext.lastVdmaHandle + 1 →
      handlesDrawn context context' = 1 := by
    intro hcounter
    exact if_neg (hcounter ▸ counter_moves _)
  cases heffect with
  | kept hcounter hdescriptors hlowMemory hcontinuous =>
    have hcount : context'.vdmaContext.lastVdmaHandle =
        Int32.ofNat (drawn + handlesDrawn context context') := by
      rcases hcounter with hsame | hmove
      · have hzero : handlesDrawn context context' = 0 := if_pos hsame
        rw [hsame, hzero, hinv.counter]
        rfl
      · rw [hmoved hmove, hnext, hmove]
    refine ⟨hcount, fun o ho => ?_, hinv.distinct, hdescriptors.trans hinv.descriptors,
      hlowMemory.trans hinv.lowMemory, hcontinuous.trans hinv.continuous⟩
    obtain ⟨k, hk, hhandle⟩ := hinv.numbered o ho
    exact ⟨k, Nat.le_add_right_of_le hk, hhandle⟩
  | @made o hcounter hhandle hdescriptors hlowMemory hcontinuous =>
    rw [hmoved hcounter] at hdrawn ⊢
    rw [← hnext] at hhandle
    refine ⟨hcounter.trans hnext.symm, fun o' ho' => ?_, ?_, ?_, ?_, ?_⟩
    · rcases List.mem_cons.mp ho' with rfl | hold
      · exact ⟨drawn + 1, Nat.le_refl _, hhandle⟩
      · obtain ⟨k, hk, hold⟩ := hinv.numbered o' hold
        exact ⟨k, Nat.le_succ_of_le hk, hold⟩
    · -- the counter has not come round, so no earlier draw gave this handle
      refine List.nodup_cons.mpr ⟨fun hmem => ?_, hinv.distinct⟩
      obtain ⟨o', ho', hsame⟩ := List.mem_map.mp hmem
      obtain ⟨k, hk, hold⟩ := hinv.numbered o' ho'
      have hcount := counter_injective (by omega) (by omega)
        (handleOf_injective (hold.symm.trans (hsame.trans hhandle)))
      omega
    · rw [hdescriptors, List.singleton_append, filterMap_cons_toList]
      exact hinv.descriptors.append_left _
    · rw [hlowMemory, List.singleton_append, filterMap_cons_toList]
      exact hinv.lowMemory.append_left _
    · rw [hcontinuous, List.singleton_append, filterMap_cons_toList]
      exact hinv.continuous.append_left _

theorem FileRun.inv (h : FileRun n drawn created context) (hdrawn : drawn < 2 ^ 32) :
    HandleInv drawn created context := by
  induction h with
  | opened =>
    exact ⟨rfl, fun o ho => absurd ho List.not_mem_nil, List.nodup_nil, List.Sublist.refl _,
      List.Sublist.refl _, List.Sublist.refl _⟩
  | request hrun h ih =>
    exact (ih (Nat.lt_of_le_of_lt (Nat.le_add_right _ _) hdrawn)).step (handleRequest_effect h)
      hdrawn

end Invariant

/-- A scan by a key that differs from element to element. -/
theorem find_key_iff {α : Type} {key : α → UInt64} {l : List α} (hnodup : (l.map key).Nodup)
    {k : UInt64} {a : α} : l.find? (fun cur => key cur = k) = some a ↔ a ∈ l ∧ key a = k := by
  induction l with
  | nil => exact iff_of_false (by rintro ⟨⟩) (fun h => absurd h.1 List.not_mem_nil)
  | cons head l ih =>
    obtain ⟨hhead, hrest⟩ := List.nodup_cons.mp hnodup
    by_cases hkey : key head = k
    · have hfind : (head :: l).find? (fun cur => key cur = k) = some head :=
        List.find?_cons_of_pos (by exact decide_eq_true hkey)
      rw [hfind]
      constructor
      · intro h
        obtain rfl := Option.some.inj h
        exact ⟨List.mem_cons_self, hkey⟩
      · rintro ⟨hmem, hk⟩
        rcases List.mem_cons.mp hmem with rfl | hmem
        · rfl
        · exact absurd (List.mem_map.mpr ⟨a, hmem, hk.trans hkey.symm⟩) hhead
    · have hfind : (head :: l).find? (fun cur => key cur = k) =
          l.find? (fun cur => key cur = k) :=
        List.find?_cons_of_neg fun h => hkey (of_decide_eq_true h)
      rw [hfind, ih hrest]
      constructor
      · exact fun ⟨hmem, hk⟩ => ⟨List.mem_cons_of_mem head hmem, hk⟩
      · rintro ⟨hmem, hk⟩
        rcases List.mem_cons.mp hmem with rfl | hmem
        · exact absurd hk hkey
        · exact ⟨hmem, hk⟩

theorem filterMap_keys_sublist {α β : Type} {f : α → Option β} {key : α → UInt64}
    {key' : β → UInt64} (hkey : ∀ a b, f a = some b → key' b = key a) (l : List α) :
    ((l.filterMap f).map key').Sublist (l.map key) := by
  induction l with
  | nil => exact List.Sublist.refl []
  | cons a l ih =>
    cases hf : f a with
    | none =>
      rw [List.filterMap_cons_none hf, List.map_cons]
      exact ih.cons _
    | some b =>
      rw [List.filterMap_cons_some hf, List.map_cons, List.map_cons, hkey a b hf]
      exact ih.cons_cons _

/-- The object was created with the handle, and it is live. -/
structure Found (created : List FileObject) (context : FileBuffers n) (handle : UInt64)
    (o : FileObject) : Prop where
  created : o ∈ created
  handle : o.handle = handle
  live : o.Live context

section Identify
variable {drawn : Nat} {created : List FileObject} {context : FileBuffers n} {o o' : FileObject}

theorem HandleInv.mem_created (h : HandleInv drawn created context) (hlive : o.Live context) :
    o ∈ created := by
  cases o with
  | descriptors list =>
    obtain ⟨o, ho, hlist⟩ := List.mem_filterMap.mp (h.descriptors.subset hlive)
    cases o <;> cases hlist
    exact ho
  | lowMemory buffer =>
    obtain ⟨o, ho, hbuffer⟩ := List.mem_filterMap.mp (h.lowMemory.subset hlive)
    cases o <;> cases hbuffer
    exact ho
  | continuous buffer =>
    obtain ⟨o, ho, hbuffer⟩ := List.mem_filterMap.mp (h.continuous.subset hlive)
    cases o <;> cases hbuffer
    exact ho

theorem HandleInv.createdOnce (h : HandleInv drawn created context) (ho : o ∈ created)
    (ho' : o' ∈ created) (hhandle : o.handle = o'.handle) : o = o' :=
  List.inj_on_of_nodup_map h.distinct ho ho' hhandle

theorem HandleInv.lowMemory_nodup (h : HandleInv drawn created context) :
    (context.vdmaLowMemoryBufferList.map (·.handle)).Nodup := by
  refine ((h.lowMemory.map _).trans (filterMap_keys_sublist ?_ created)).nodup h.distinct
  intro o buffer ho
  cases o <;> cases ho
  rfl

theorem HandleInv.continuous_nodup (h : HandleInv drawn created context) :
    (context.continuousBufferList.map (·.handle)).Nodup := by
  refine ((h.continuous.map _).trans (filterMap_keys_sublist ?_ created)).nodup h.distinct
  intro o buffer ho
  cases o <;> cases ho
  rfl

theorem HandleInv.findLowMemory (h : HandleInv drawn created context) (handle : UInt64)
    (buffer : HailoVdmaLowMemoryBuffer) :
    hailoVdmaFindLowMemoryBuffer context handle = some buffer ↔
      Found created context handle (.lowMemory buffer) := by
  refine (find_key_iff h.lowMemory_nodup).trans ?_
  exact ⟨fun ⟨hlive, hhandle⟩ => ⟨h.mem_created hlive, hhandle, hlive⟩,
    fun hfound => ⟨hfound.live, hfound.handle⟩⟩

theorem HandleInv.findContinuous (h : HandleInv drawn created context) (handle : UInt64)
    (buffer : HailoVdmaContinuousBuffer) :
    hailoVdmaFindContinuousBuffer context handle = some buffer ↔
      Found created context handle (.continuous buffer) := by
  refine (find_key_iff h.continuous_nodup).trans ?_
  exact ⟨fun ⟨hlive, hhandle⟩ => ⟨h.mem_created hlive, hhandle, hlive⟩,
    fun hfound => ⟨hfound.live, hfound.handle⟩⟩

/-- A lookup by the handle of an object finds that object or nothing. -/
theorem HandleInv.mmapTarget (h : HandleInv drawn created context) (ho : o ∈ created) :
    (o.Live context → mmapTarget context o.handle = o.mmapTarget) ∧
      (¬ o.Live context → mmapTarget context o.handle = .notExisting) := by
  unfold VdmaMmap.mmapTarget
  cases hlow : hailoVdmaFindLowMemoryBuffer context o.handle with
  | some buffer =>
    have hfound := (h.findLowMemory _ _).mp hlow
    obtain rfl := h.createdOnce ho hfound.created hfound.handle.symm
    exact ⟨fun _ => rfl, fun hgone => absurd hfound.live hgone⟩
  | none =>
    cases hcontinuous : hailoVdmaFindContinuousBuffer context o.handle with
    | some buffer =>
      have hfound := (h.findContinuous _ _).mp hcontinuous
      obtain rfl := h.createdOnce ho hfound.created hfound.handle.symm
      exact ⟨fun _ => rfl, fun hgone => absurd hfound.live hgone⟩
    | none =>
      refine ⟨fun hlive => ?_, fun _ => rfl⟩
      cases o with
      | descriptors list => rfl
      | lowMemory buffer =>
        rw [(h.findLowMemory _ _).mpr ⟨ho, rfl, hlive⟩] at hlow
        cases hlow
      | continuous buffer =>
        rw [(h.findContinuous _ _).mpr ⟨ho, rfl, hlive⟩] at hcontinuous
        cases hcontinuous

end Identify

end Runs

end HailortDrivers.VdmaHandles
