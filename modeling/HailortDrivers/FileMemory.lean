import HailortDrivers.BufferUnmapping
import HailortDrivers.VdmaHandles

/-!
The memory behind the objects of an open file (`ioctl.c`, `memory.c`, `vdma.c`): every
structure, page and coherent area that its requests take from the kernel, and what closing it
gives back. The addresses that the kernel returns are given, so it may fail at every place.
-/
namespace HailortDrivers.FileMemory
open ResourceLedger LedgerFrames BufferUnmapping VdmaTypes DescriptorsListCreation
open VdmaMemory (enomem HailoDmaBufferType DmaDataDirection getDmaDirection)
open VdmaIoctl (HailoVdmaBufferMapParams HailoDescListCreateParams)
open VdmaHandles (handleOf pagesCount pageAlign)
open BufferMapping (KernelOps MapResource)

/-- `mapped` is what mapping took for the buffer whose structure is at an address. An area is
known by its two addresses and its size. -/
inductive FileResource
  | mapped (buffer : Nat) (resource : MapResource)
  | kzalloc (address : Nat)
  | kcalloc (address : Nat)
  | freePage (page : UInt64)
  | coherent (kernelAddress dmaAddress size : UInt64)
deriving DecidableEq

abbrev FileLedger := Ledgered FileResource

/-- An element of `mapped_user_buffer_list`. -/
structure MappedUserBuffer where
  address : Nat
  buf : MappedBuffer

structure HailoDescriptorsListBuffer where
  address : Nat
  handle : UInt64
  kernelAddress : UInt64
  dmaAddress : UInt64
  bufferSize : UInt32

/-- `pages` is where the array of the addresses is; `pages_count` is its length. -/
structure HailoVdmaLowMemoryBuffer where
  address : Nat
  handle : UInt64
  pages : Nat
  pagesAddress : List UInt64

structure HailoVdmaContinuousBuffer where
  address : Nat
  handle : UInt64
  kernelAddress : UInt64
  dmaAddress : UInt64
  size : UInt64

structure HailoVdmaFileContext where
  lastVdmaUserBufferHandle : Int32
  mappedUserBufferList : List MappedUserBuffer
  lastVdmaHandle : Int32
  descriptorsBufferList : List HailoDescriptorsListBuffer
  vdmaLowMemoryBufferList : List HailoVdmaLowMemoryBuffer
  continuousBufferList : List HailoVdmaContinuousBuffer

/-- `hailo_vdma_file_context_init` -/
def hailoVdmaFileContextInit : HailoVdmaFileContext := ⟨0, [], 0, [], [], []⟩

def hailoGetNextVdmaHandle (context : HailoVdmaFileContext) : UInt64 × HailoVdmaFileContext :=
  let lastHandle := context.lastVdmaHandle + 1
  (handleOf lastHandle, { context with lastVdmaHandle := lastHandle })

section Mapped
variable (context : HailoVdmaFileContext)

/-- Nothing else refers to the structure, so a reference that is left is nobody's. -/
def hailoVdmaBufferPut (mapped : MappedUserBuffer) : FileLedger Unit :=
  if mapped.buf.buffer.kref ≤ 1 then rename (.mapped mapped.address) (unmapBuffer mapped.buf)
  else return ()

def hailoVdmaFindLowMemoryBuffer (bufHandle : UInt64) : Option HailoVdmaLowMemoryBuffer :=
  context.vdmaLowMemoryBufferList.find? fun cur => cur.handle = bufHandle

/-- `address` is where the structure of the buffer will be. -/
def hailoVdmaBufferMapIoctl (k : KernelOps) (address : Nat) (supportMmioDmaMapping : Bool)
    (params : HailoVdmaBufferMapParams) (allocatedBufferHandle : UInt64) (copied : Bool) :
    FileLedger (Int32 × HailoVdmaFileContext) :=
  let direction := getDmaDirection params.dataDirection
  if direction = .none then return (-einval, context)
  else do
    let lowMemoryBuffer := hailoVdmaFindLowMemoryBuffer context allocatedBufferHandle
    match ← rename (.mapped address) (mapBuffer k params.size direction
      (lowMemoryBuffer.map fun buffer => ⟨buffer.pagesAddress⟩) supportMmioDmaMapping
      params.userAddress params.bufferType) with
    | .error err => return (err, context)
    | .ok buf =>
      let lastHandle := context.lastVdmaUserBufferHandle + 1
      let buffer := { buf.buffer with handle := lastHandle.toInt64.toUInt64 }
      let mapped : MappedUserBuffer := ⟨address, { buf with buffer := buffer }⟩
      let context := { context with lastVdmaUserBufferHandle := lastHandle }
      if !copied then
        hailoVdmaBufferPut mapped
        return (-efault, context)
      else
        return (0, { context with
          mappedUserBufferList := mapped :: context.mappedUserBufferList })

def hailoVdmaBufferUnmapIoctl (mappedHandle : UInt64) :
    FileLedger (Int32 × HailoVdmaFileContext) :=
  match context.mappedUserBufferList.find? fun cur => cur.buf.buffer.handle = mappedHandle with
  | none => return (-einval, context)
  | some mapped => do
    hailoVdmaBufferPut mapped
    return (0, { context with
      mappedUserBufferList :=
        context.mappedUserBufferList.eraseP fun cur => cur.buf.buffer.handle = mappedHandle })

end Mapped

section Descriptors
variable (context : HailoVdmaFileContext)

/-- `buffer_size` in `hailo_desc_list_create`: whole pieces of `VDMA_DESCRIPTOR_LIST_ALIGN`. -/
def descListSize (descriptorsCount : UInt32) : UInt64 :=
  (descriptorsCount.toUInt64 * 16 + 0xFFFF) &&& ~~~0xFFFF

/-- The addresses and the size as they are kept, in 32 bits. -/
def hailoDescListCreate (descriptorsCount : UInt32)
    (dmaAllocCoherent : Option (UInt64 × UInt64)) :
    FileLedger (Except Int32 (UInt64 × UInt64 × UInt32)) :=
  if maxPowerOf2Value < descriptorsCount then return .error (-einval)
  else
    match dmaAllocCoherent with
    | none => return .error (-enobufs)
    | some (kernelAddress, dmaAddress) => do
      acquire (.coherent kernelAddress dmaAddress (descListSize descriptorsCount))
      return .ok (kernelAddress, dmaAddress, (descListSize descriptorsCount).toUInt32)

def hailoDescListRelease (descriptors : HailoDescriptorsListBuffer) : FileLedger Unit :=
  release (.coherent descriptors.kernelAddress descriptors.dmaAddress
    descriptors.bufferSize.toUInt64)

def freeDescriptorsBuffer (descriptors : HailoDescriptorsListBuffer) : FileLedger Unit := do
  hailoDescListRelease descriptors
  release (.kzalloc descriptors.address)

def hailoDescListCreateIoctl (params : HailoDescListCreateParams) (kzalloc : Option Nat)
    (dmaAllocCoherent : Option (UInt64 × UInt64)) (copied : Bool) :
    FileLedger (Int32 × HailoVdmaFileContext) :=
  if params.isCircular && !isPowerof2 params.descCount then return (-einval, context)
  else if !isPowerof2 params.descPageSize.toUInt64 then return (-einval, context)
  else
    match kzalloc with
    | none => return (-enomem, context)
    | some address => do
      acquire (.kzalloc address)
      let (handle, context) := hailoGetNextVdmaHandle context
      match ← hailoDescListCreate params.descCount.toUInt32 dmaAllocCoherent with
      | .error err =>
        release (.kzalloc address)
        return (err, context)
      | .ok (kernelAddress, dmaAddress, bufferSize) =>
        let descriptors : HailoDescriptorsListBuffer :=
          ⟨address, handle, kernelAddress, dmaAddress, bufferSize⟩
        if !copied then
          freeDescriptorsBuffer descriptors
          return (-efault, context)
        else
          return (0, { context with
            descriptorsBufferList := descriptors :: context.descriptorsBufferList })

def hailoDescListReleaseIoctl (descHandle : UInt64) :
    FileLedger (Int32 × HailoVdmaFileContext) :=
  match context.descriptorsBufferList.find? fun cur => cur.handle = descHandle with
  | none => return (-einval, context)
  | some descriptors => do
    freeDescriptorsBuffer descriptors
    return (0, { context with
      descriptorsBufferList :=
        context.descriptorsBufferList.eraseP fun cur => cur.handle = descHandle })

end Descriptors

section LowMemory
variable (context : HailoVdmaFileContext)

/-- The loop over `__get_free_page`, with `count` pages to go: whether it came to its end, and
the pages that it has got. -/
def allocatePages (getFreePage : Nat → Option UInt64) :
    Nat → List UInt64 → FileLedger (Bool × List UInt64)
  | 0, pages => return (true, pages)
  | count + 1, pages =>
    match getFreePage pages.length with
    | none => return (false, pages)
    | some page => do
      acquire (.freePage page)
      allocatePages getFreePage count (pages ++ [page])

def hailoVdmaLowMemoryBufferAlloc (size : UInt64) (kcalloc : Option Nat)
    (getFreePage : Nat → Option UInt64) : FileLedger (Except Int32 (Nat × List UInt64)) :=
  match kcalloc with
  | none => return .error (-enomem)
  | some pages => do
    acquire (.kcalloc pages)
    match ← allocatePages getFreePage (pagesCount size).toNat [] with
    | (true, pagesAddress) => return .ok (pages, pagesAddress)
    | (false, pagesAddress) =>
      releaseAll (pagesAddress.map .freePage)
      release (.kcalloc pages)
      return .error (-enomem)

def hailoVdmaLowMemoryBufferFree (buffer : HailoVdmaLowMemoryBuffer) : FileLedger Unit := do
  releaseAll (buffer.pagesAddress.map .freePage)
  release (.kcalloc buffer.pages)

def freeLowMemoryBuffer (buffer : HailoVdmaLowMemoryBuffer) : FileLedger Unit := do
  hailoVdmaLowMemoryBufferFree buffer
  release (.kzalloc buffer.address)

def hailoVdmaLowMemoryBufferAllocIoctl (bufferSize : UInt64) (kzalloc kcalloc : Option Nat)
    (getFreePage : Nat → Option UInt64) (copied : Bool) :
    FileLedger (Int32 × HailoVdmaFileContext) :=
  match kzalloc with
  | none => return (-enomem, context)
  | some address => do
    acquire (.kzalloc address)
    match ← hailoVdmaLowMemoryBufferAlloc bufferSize kcalloc getFreePage with
    | .error err =>
      release (.kzalloc address)
      return (err, context)
    | .ok (pages, pagesAddress) =>
      let (handle, context) := hailoGetNextVdmaHandle context
      let buffer : HailoVdmaLowMemoryBuffer := ⟨address, handle, pages, pagesAddress⟩
      if !copied then
        freeLowMemoryBuffer buffer
        return (-efault, context)
      else
        return (0, { context with
          vdmaLowMemoryBufferList := buffer :: context.vdmaLowMemoryBufferList })

def hailoVdmaLowMemoryBufferFreeIoctl (bufferHandle : UInt64) :
    FileLedger (Int32 × HailoVdmaFileContext) :=
  match hailoVdmaFindLowMemoryBuffer context bufferHandle with
  | none => return (-einval, context)
  | some buffer => do
    freeLowMemoryBuffer buffer
    return (0, { context with
      vdmaLowMemoryBufferList :=
        context.vdmaLowMemoryBufferList.eraseP fun cur => cur.handle = bufferHandle })

end LowMemory

section Continuous
variable (context : HailoVdmaFileContext)

def hailoVdmaContinuousBufferFree (buffer : HailoVdmaContinuousBuffer) : FileLedger Unit :=
  release (.coherent buffer.kernelAddress buffer.dmaAddress buffer.size)

def freeContinuousBuffer (buffer : HailoVdmaContinuousBuffer) : FileLedger Unit := do
  hailoVdmaContinuousBufferFree buffer
  release (.kzalloc buffer.address)

def hailoVdmaContinuousBufferAllocIoctl (bufferSize : UInt64) (kzalloc : Option Nat)
    (dmaAllocCoherent : Option (UInt64 × UInt64)) (copied : Bool) :
    FileLedger (Int32 × HailoVdmaFileContext) :=
  match kzalloc with
  | none => return (-enomem, context)
  | some address => do
    acquire (.kzalloc address)
    match dmaAllocCoherent with
    | none =>
      release (.kzalloc address)
      return (-enobufs, context)
    | some (kernelAddress, dmaAddress) =>
      acquire (.coherent kernelAddress dmaAddress (pageAlign bufferSize))
      let (handle, context) := hailoGetNextVdmaHandle context
      let buffer : HailoVdmaContinuousBuffer :=
        ⟨address, handle, kernelAddress, dmaAddress, pageAlign bufferSize⟩
      if !copied then
        freeContinuousBuffer buffer
        return (-efault, context)
      else
        return (0, { context with
          continuousBufferList := buffer :: context.continuousBufferList })

def hailoVdmaContinuousBufferFreeIoctl (bufferHandle : UInt64) :
    FileLedger (Int32 × HailoVdmaFileContext) :=
  match context.continuousBufferList.find? fun cur => cur.handle = bufferHandle with
  | none => return (-einval, context)
  | some buffer => do
    freeContinuousBuffer buffer
    return (0, { context with
      continuousBufferList :=
        context.continuousBufferList.eraseP fun cur => cur.handle = bufferHandle })

end Continuous

/-- The lists are cleared in the order of `hailo_vdma_file_context_finalize`. -/
def hailoVdmaFileContextFinalize (context : HailoVdmaFileContext) : FileLedger Unit := do
  freeAll hailoVdmaBufferPut context.mappedUserBufferList
  freeAll freeDescriptorsBuffer context.descriptorsBufferList
  freeAll freeLowMemoryBuffer context.vdmaLowMemoryBufferList
  freeAll freeContinuousBuffer context.continuousBufferList

/-- A request that takes or gives back memory, with what the kernel answers on its way. A
failed `copy_from_user` takes nothing. -/
inductive MemoryRequest
  | copyFromUserFailed
  | bufferMap (k : KernelOps) (address : Nat) (supportMmioDmaMapping : Bool)
      (params : HailoVdmaBufferMapParams) (allocatedBufferHandle : UInt64) (copied : Bool)
  | bufferUnmap (mappedHandle : UInt64)
  | descListCreate (params : HailoDescListCreateParams) (kzalloc : Option Nat)
      (dmaAllocCoherent : Option (UInt64 × UInt64)) (copied : Bool)
  | descListRelease (descHandle : UInt64)
  | lowMemoryBufferAlloc (bufferSize : UInt64) (kzalloc kcalloc : Option Nat)
      (getFreePage : Nat → Option UInt64) (copied : Bool)
  | lowMemoryBufferFree (bufferHandle : UInt64)
  | continuousBufferAlloc (bufferSize : UInt64) (kzalloc : Option Nat)
      (dmaAllocCoherent : Option (UInt64 × UInt64)) (copied : Bool)
  | continuousBufferFree (bufferHandle : UInt64)

def handleRequest (context : HailoVdmaFileContext) :
    MemoryRequest → FileLedger (Int32 × HailoVdmaFileContext)
  | .copyFromUserFailed => return (-efault, context)
  | .bufferMap k address supportMmioDmaMapping params allocatedBufferHandle copied =>
    hailoVdmaBufferMapIoctl context k address supportMmioDmaMapping params allocatedBufferHandle
      copied
  | .bufferUnmap mappedHandle => hailoVdmaBufferUnmapIoctl context mappedHandle
  | .descListCreate params kzalloc dmaAllocCoherent copied =>
    hailoDescListCreateIoctl context params kzalloc dmaAllocCoherent copied
  | .descListRelease descHandle => hailoDescListReleaseIoctl context descHandle
  | .lowMemoryBufferAlloc bufferSize kzalloc kcalloc getFreePage copied =>
    hailoVdmaLowMemoryBufferAllocIoctl context bufferSize kzalloc kcalloc getFreePage copied
  | .lowMemoryBufferFree bufferHandle => hailoVdmaLowMemoryBufferFreeIoctl context bufferHandle
  | .continuousBufferAlloc bufferSize kzalloc dmaAllocCoherent copied =>
    hailoVdmaContinuousBufferAllocIoctl context bufferSize kzalloc dmaAllocCoherent copied
  | .continuousBufferFree bufferHandle => hailoVdmaContinuousBufferFreeIoctl context bufferHandle

/-- The requests of a file, one after the other. -/
def serve (context : HailoVdmaFileContext) : List MemoryRequest → FileLedger HailoVdmaFileContext
  | [] => return context
  | request :: requests => do
    let (_, context) ← handleRequest context request
    serve context requests

/-- A file from its opening to its end. -/
def fileLife (requests : List MemoryRequest) : FileLedger Unit := do
  let context ← serve hailoVdmaFileContextInit requests
  hailoVdmaFileContextFinalize context

section Held

def MappedUserBuffer.held (mapped : MappedUserBuffer) : Multiset FileResource :=
  mapped.buf.held.map (FileResource.mapped mapped.address)

def HailoDescriptorsListBuffer.held (descriptors : HailoDescriptorsListBuffer) :
    Multiset FileResource :=
  .coherent descriptors.kernelAddress descriptors.dmaAddress descriptors.bufferSize.toUInt64 ::ₘ
    {.kzalloc descriptors.address}

def HailoVdmaLowMemoryBuffer.held (buffer : HailoVdmaLowMemoryBuffer) : Multiset FileResource :=
  (buffer.pagesAddress.map FileResource.freePage : Multiset FileResource) +
    (.kcalloc buffer.pages ::ₘ {.kzalloc buffer.address})

def HailoVdmaContinuousBuffer.held (buffer : HailoVdmaContinuousBuffer) :
    Multiset FileResource :=
  .coherent buffer.kernelAddress buffer.dmaAddress buffer.size ::ₘ {.kzalloc buffer.address}

/-- What the objects of a file hold. -/
def HailoVdmaFileContext.held (context : HailoVdmaFileContext) : Multiset FileResource :=
  heldBy MappedUserBuffer.held context.mappedUserBufferList +
    (heldBy HailoDescriptorsListBuffer.held context.descriptorsBufferList +
      (heldBy HailoVdmaLowMemoryBuffer.held context.vdmaLowMemoryBufferList +
        heldBy HailoVdmaContinuousBuffer.held context.continuousBufferList))

section Listed
variable (context : HailoVdmaFileContext)

theorem held_mapped (mapped : MappedUserBuffer) :
    { context with mappedUserBufferList := mapped :: context.mappedUserBufferList }.held =
      mapped.held + context.held := by
  simp only [HailoVdmaFileContext.held, heldBy_cons, add_assoc]

theorem held_descriptors (descriptors : HailoDescriptorsListBuffer) :
    { context with
      descriptorsBufferList := descriptors :: context.descriptorsBufferList }.held =
      descriptors.held + context.held := by
  simp only [HailoVdmaFileContext.held, heldBy_cons, add_assoc,
    add_left_comm _ descriptors.held]

theorem held_lowMemory (buffer : HailoVdmaLowMemoryBuffer) :
    { context with
      vdmaLowMemoryBufferList := buffer :: context.vdmaLowMemoryBufferList }.held =
      buffer.held + context.held := by
  simp only [HailoVdmaFileContext.held, heldBy_cons, add_assoc, add_left_comm _ buffer.held]

theorem held_continuous (buffer : HailoVdmaContinuousBuffer) :
    { context with continuousBufferList := buffer :: context.continuousBufferList }.held =
      buffer.held + context.held := by
  simp only [HailoVdmaFileContext.held, heldBy_cons, add_left_comm _ buffer.held]

end Listed

/-- Every mapped buffer of the file has the one reference that the file has. -/
def HailoVdmaFileContext.Counted (context : HailoVdmaFileContext) : Prop :=
  ∀ mapped ∈ context.mappedUserBufferList, mapped.buf.buffer.kref = 1

theorem mapped_injective (address : Nat) : Function.Injective (FileResource.mapped address) := by
  intro r r' h
  cases h
  rfl

theorem hailoVdmaBufferPut_runs {mapped : MappedUserBuffer}
    (hkref : mapped.buf.buffer.kref = 1) :
    (hailoVdmaBufferPut mapped).Runs mapped.held () 0 := by
  rw [hailoVdmaBufferPut, if_pos (by rw [hkref])]
  exact Runs.rename (mapped_injective mapped.address) (unmapBuffer_runs mapped.buf)

theorem freeDescriptorsBuffer_runs (descriptors : HailoDescriptorsListBuffer) :
    (freeDescriptorsBuffer descriptors).Runs descriptors.held () 0 :=
  (runs_release _ _).bind (runs_release _ _)

theorem freeLowMemoryBuffer_runs (buffer : HailoVdmaLowMemoryBuffer) :
    (freeLowMemoryBuffer buffer).Runs buffer.held () 0 := by
  have hpages : (hailoVdmaLowMemoryBufferFree buffer).Runs buffer.held ()
      {.kzalloc buffer.address} := (runs_releaseAll _ _).bind (runs_release _ _)
  exact hpages.bind (runs_release _ _)

theorem freeContinuousBuffer_runs (buffer : HailoVdmaContinuousBuffer) :
    (freeContinuousBuffer buffer).Runs buffer.held () 0 := by
  have harea : (hailoVdmaContinuousBufferFree buffer).Runs buffer.held ()
      {.kzalloc buffer.address} := runs_release _ _
  exact harea.bind (runs_release _ _)

/-- Closing a file gives back what its objects hold. -/
theorem hailoVdmaFileContextFinalize_runs {context : HailoVdmaFileContext}
    (hcounted : context.Counted) (rest : Multiset FileResource) :
    (hailoVdmaFileContextFinalize context).Runs (context.held + rest) () rest := by
  rw [HailoVdmaFileContext.held, add_assoc, add_assoc, add_assoc]
  refine (freeAll_runs (fun mapped hmem => hailoVdmaBufferPut_runs (hcounted mapped hmem)) _).bind
    ?_
  refine (freeAll_runs (fun descriptors _ => freeDescriptorsBuffer_runs descriptors) _).bind ?_
  refine (freeAll_runs (fun buffer _ => freeLowMemoryBuffer_runs buffer) _).bind ?_
  exact freeAll_runs (fun buffer _ => freeContinuousBuffer_runs buffer) rest

end Held

section Requests
variable {context context' : HailoVdmaFileContext} {ret : Int32}

/-- A request ends with what the file then holds, and what it leaves to nobody. -/
def Serves (context : HailoVdmaFileContext) (x : FileLedger (Int32 × HailoVdmaFileContext))
    (left : Multiset FileResource) : Prop :=
  ∃ ret context', x.Runs context.held (ret, context') (left + context'.held) ∧ context'.Counted

/-- The lists are as they were. -/
theorem serves_kept (ret : Int32) (context' : HailoVdmaFileContext)
    {x : FileLedger (Int32 × HailoVdmaFileContext)} (hcounted : context'.Counted)
    (h : x.Runs context.held (ret, context') context'.held) : Serves context x 0 := by
  refine ⟨ret, context', ?_, hcounted⟩
  rw [zero_add]
  exact h

theorem serves_refused (hcounted : context.Counted) (ret : Int32) :
    Serves context (pure (ret, context)) 0 := serves_kept ret context hcounted (.pure _ _)

/-- An object is taken out of its list and freed. -/
theorem serves_freed {owned : Multiset FileResource} {free : FileLedger Unit}
    (hcounted : context'.Counted) (hfree : free.Runs owned () 0)
    (hheld : context.held = owned + context'.held) (ret : Int32) :
    Serves context (do free; return (ret, context')) 0 := by
  have hfreed := Runs.frame hfree context'.held
  rw [zero_add, ← hheld] at hfreed
  exact serves_kept ret context' hcounted (hfreed.bind (.pure _ _))

theorem bufferUnmap_serves (hcounted : context.Counted) (mappedHandle : UInt64) :
    Serves context (hailoVdmaBufferUnmapIoctl context mappedHandle) 0 := by
  unfold hailoVdmaBufferUnmapIoctl
  split
  · exact serves_refused hcounted _
  · next mapped hfound =>
    refine serves_freed ?_
      (hailoVdmaBufferPut_runs (hcounted mapped (List.mem_of_find?_eq_some hfound))) ?_ 0
    · exact fun other hother => hcounted other (List.mem_of_mem_eraseP hother)
    · simp only [HailoVdmaFileContext.held]
      rw [heldBy_eraseP _ hfound, add_assoc]

theorem descListRelease_serves (hcounted : context.Counted) (descHandle : UInt64) :
    Serves context (hailoDescListReleaseIoctl context descHandle) 0 := by
  unfold hailoDescListReleaseIoctl
  split
  · exact serves_refused hcounted _
  · next descriptors hfound =>
    refine serves_freed ?_ (freeDescriptorsBuffer_runs descriptors) ?_ 0
    · exact hcounted
    · simp only [HailoVdmaFileContext.held]
      rw [heldBy_eraseP _ hfound, add_assoc, add_left_comm]

theorem lowMemoryBufferFree_serves (hcounted : context.Counted) (bufferHandle : UInt64) :
    Serves context (hailoVdmaLowMemoryBufferFreeIoctl context bufferHandle) 0 := by
  unfold hailoVdmaLowMemoryBufferFreeIoctl
  split
  · exact serves_refused hcounted _
  · next buffer hfound =>
    refine serves_freed ?_ (freeLowMemoryBuffer_runs buffer) ?_ 0
    · exact hcounted
    · simp only [HailoVdmaFileContext.held]
      rw [heldBy_eraseP _ hfound, add_assoc, add_left_comm _ buffer.held,
        add_left_comm _ buffer.held]

theorem continuousBufferFree_serves (hcounted : context.Counted) (bufferHandle : UInt64) :
    Serves context (hailoVdmaContinuousBufferFreeIoctl context bufferHandle) 0 := by
  unfold hailoVdmaContinuousBufferFreeIoctl
  split
  · exact serves_refused hcounted _
  · next buffer hfound =>
    refine serves_freed ?_ (freeContinuousBuffer_runs buffer) ?_ 0
    · exact hcounted
    · simp only [HailoVdmaFileContext.held]
      rw [heldBy_eraseP _ hfound, add_left_comm _ buffer.held, add_left_comm _ buffer.held,
        add_left_comm _ buffer.held]

theorem allocatePages_runs (getFreePage : Nat → Option UInt64) (count : Nat)
    (pages : List UInt64) (held : Multiset FileResource) :
    ∃ done more, (allocatePages getFreePage count pages).Runs held (done, pages ++ more)
      ((more.map FileResource.freePage : Multiset FileResource) + held) := by
  induction count generalizing pages held with
  | zero =>
    refine ⟨true, [], ?_⟩
    rw [List.append_nil, List.map_nil, Multiset.coe_nil, zero_add]
    exact .pure _ _
  | succ count ih =>
    rw [allocatePages]
    cases hpage : getFreePage pages.length with
    | none =>
      refine ⟨false, [], ?_⟩
      rw [List.append_nil, List.map_nil, Multiset.coe_nil, zero_add]
      exact .pure _ _
    | some page =>
      obtain ⟨done, more, hruns⟩ := ih (pages ++ [page]) (.freePage page ::ₘ held)
      refine ⟨done, page :: more, ?_⟩
      rw [List.map_cons, ← Multiset.cons_coe, Multiset.cons_add, ← Multiset.add_cons]
      rw [List.append_assoc, List.singleton_append] at hruns
      exact (runs_acquire _ _).bind hruns

theorem hailoVdmaLowMemoryBufferAlloc_runs (size : UInt64) (kcalloc : Option Nat)
    (getFreePage : Nat → Option UInt64) (held : Multiset FileResource) :
    (∃ err, (hailoVdmaLowMemoryBufferAlloc size kcalloc getFreePage).Runs held (.error err)
      held) ∨
    (∃ pages pagesAddress, (hailoVdmaLowMemoryBufferAlloc size kcalloc getFreePage).Runs held
      (.ok (pages, pagesAddress))
      ((pagesAddress.map FileResource.freePage : Multiset FileResource) +
        (.kcalloc pages ::ₘ held))) := by
  unfold hailoVdmaLowMemoryBufferAlloc
  split
  · exact Or.inl ⟨_, .pure _ _⟩
  · next pages =>
    obtain ⟨done, more, hruns⟩ := allocatePages_runs getFreePage (pagesCount size).toNat []
      (.kcalloc pages ::ₘ held)
    rw [List.nil_append] at hruns
    cases done with
    | true => exact Or.inr ⟨pages, more, (runs_acquire _ _).bind (hruns.bind (.pure _ _))⟩
    | false =>
      refine Or.inl ⟨-enomem, (runs_acquire _ _).bind (hruns.bind ?_)⟩
      exact (runs_releaseAll _ _).bind ((runs_release _ _).bind (.pure _ _))

/-- The object that was made stays on its list, or is freed when it cannot be told of. -/
theorem offered_runs {owned : Multiset FileResource} {free : FileLedger Unit}
    (kept made : HailoVdmaFileContext) (hkept : kept.Counted) (hmade : made.Counted)
    (hfree : free.Runs owned () 0) (hheld : made.held = owned + kept.held) (copied : Bool) :
    ∃ ret context', context'.Counted ∧
      (if !copied then do
          free
          return (-efault, kept)
        else return (0, made) : FileLedger (Int32 × HailoVdmaFileContext)).Runs
        (owned + kept.held) (ret, context') context'.held := by
  cases copied with
  | false =>
    refine ⟨-efault, kept, hkept, ?_⟩
    have hfreed := Runs.frame hfree kept.held
    rw [zero_add] at hfreed
    exact hfreed.bind (.pure _ _)
  | true =>
    refine ⟨0, made, hmade, ?_⟩
    rw [← hheld]
    exact .pure _ _

theorem lowMemoryBufferAlloc_serves (hcounted : context.Counted) (bufferSize : UInt64)
    (kzalloc kcalloc : Option Nat) (getFreePage : Nat → Option UInt64) (copied : Bool) :
    Serves context
      (hailoVdmaLowMemoryBufferAllocIoctl context bufferSize kzalloc kcalloc getFreePage copied)
      0 := by
  unfold hailoVdmaLowMemoryBufferAllocIoctl
  split
  · exact serves_refused hcounted _
  · next address =>
    rcases hailoVdmaLowMemoryBufferAlloc_runs bufferSize kcalloc getFreePage
      (.kzalloc address ::ₘ context.held) with ⟨err, hruns⟩ | ⟨pages, pagesAddress, hruns⟩
    · refine serves_kept err context hcounted ?_
      exact (runs_acquire _ _).bind (hruns.bind ((runs_release _ _).bind (.pure _ _)))
    · let kept := (hailoGetNextVdmaHandle context).2
      let buffer : HailoVdmaLowMemoryBuffer :=
        ⟨address, (hailoGetNextVdmaHandle context).1, pages, pagesAddress⟩
      let made := { kept with
        vdmaLowMemoryBufferList := buffer :: kept.vdmaLowMemoryBufferList }
      obtain ⟨ret, context', hcounted', hoffered⟩ := offered_runs kept made hcounted hcounted
        (freeLowMemoryBuffer_runs buffer) (held_lowMemory kept buffer) copied
      have howned : buffer.held + kept.held = (pagesAddress.map FileResource.freePage :
          Multiset FileResource) + (.kcalloc pages ::ₘ .kzalloc address ::ₘ context.held) := by
        rw [HailoVdmaLowMemoryBuffer.held, add_assoc, Multiset.cons_add, Multiset.singleton_add]
        rfl
      rw [howned] at hoffered
      exact serves_kept ret context' hcounted' ((runs_acquire _ _).bind (hruns.bind hoffered))

theorem continuousBufferAlloc_serves (hcounted : context.Counted) (bufferSize : UInt64)
    (kzalloc : Option Nat) (dmaAllocCoherent : Option (UInt64 × UInt64)) (copied : Bool) :
    Serves context
      (hailoVdmaContinuousBufferAllocIoctl context bufferSize kzalloc dmaAllocCoherent copied)
      0 := by
  unfold hailoVdmaContinuousBufferAllocIoctl
  split
  · exact serves_refused hcounted _
  · next address =>
    cases dmaAllocCoherent with
    | none =>
      refine serves_kept (-enobufs) context hcounted ?_
      exact (runs_acquire _ _).bind ((runs_release _ _).bind (.pure _ _))
    | some addresses =>
      obtain ⟨kernelAddress, dmaAddress⟩ := addresses
      let kept := (hailoGetNextVdmaHandle context).2
      let buffer : HailoVdmaContinuousBuffer :=
        ⟨address, (hailoGetNextVdmaHandle context).1, kernelAddress, dmaAddress,
          pageAlign bufferSize⟩
      let made := { kept with continuousBufferList := buffer :: kept.continuousBufferList }
      obtain ⟨ret, context', hcounted', hoffered⟩ := offered_runs kept made hcounted hcounted
        (freeContinuousBuffer_runs buffer) (held_continuous kept buffer) copied
      have howned : buffer.held + kept.held = .coherent kernelAddress dmaAddress
          (pageAlign bufferSize) ::ₘ .kzalloc address ::ₘ context.held := by
        rw [HailoVdmaContinuousBuffer.held, Multiset.cons_add, Multiset.singleton_add]
        rfl
      rw [howned] at hoffered
      refine serves_kept ret context' hcounted' ?_
      exact (runs_acquire _ _).bind ((runs_acquire _ _).bind hoffered)

/-- The size of the descriptors is kept in 32 bits. -/
def SizeKept (descriptorsCount : UInt32) : Prop :=
  (descListSize descriptorsCount).toUInt32.toUInt64 = descListSize descriptorsCount

theorem toNat_and_align (v : UInt64) : (v &&& ~~~0xFFFF).toNat = v.toNat / 2 ^ 16 * 2 ^ 16 := by
  have hmask : (~~~(0xFFFF : UInt64)).toNat = (2 ^ 48 - 1) <<< 16 := by decide
  have hv : v.toNat < 2 ^ 64 := v.toNat_lt
  rw [UInt64.toNat_and, hmask, ← Nat.shiftRight_eq_div_pow, ← Nat.shiftLeft_eq]
  apply Nat.eq_of_testBit_eq
  intro i
  rw [Nat.testBit_and, Nat.testBit_shiftLeft, Nat.testBit_shiftLeft, Nat.testBit_shiftRight,
    Nat.testBit_two_pow_sub_one]
  by_cases hi : 16 ≤ i
  · rw [Nat.add_sub_cancel' hi]
    by_cases hhigh : i < 64
    · have : i - 16 < 48 := by omega
      simp [hi, this]
    · have hzero : v.toNat.testBit i = false :=
        Nat.testBit_lt_two_pow (Nat.lt_of_lt_of_le hv (Nat.pow_le_pow_right (by decide) (by omega)))
      simp [hzero]
  · simp [hi]

theorem sizeKept_iff (descriptorsCount : UInt32) :
    SizeKept descriptorsCount ↔ descriptorsCount.toNat ≤ 2 ^ 28 - 2 ^ 12 := by
  have hlt := descriptorsCount.toNat_lt
  have hsize : (descListSize descriptorsCount).toNat =
      (descriptorsCount.toNat * 16 + 0xFFFF) / 2 ^ 16 * 2 ^ 16 := by
    have hbytes : (descriptorsCount.toUInt64 * 16 + 0xFFFF).toNat =
        descriptorsCount.toNat * 16 + 0xFFFF := by
      have h16 : (16 : UInt64).toNat = 16 := rfl
      have hround : (0xFFFF : UInt64).toNat = 0xFFFF := rfl
      rw [UInt64.toNat_add, UInt64.toNat_mul, UInt32.toNat_toUInt64, h16, hround]
      omega
    rw [descListSize, toNat_and_align, hbytes]
  rw [SizeKept, ← UInt64.toNat_inj, UInt32.toNat_toUInt64, UInt64.toNat_toUInt32, hsize]
  omega
theorem hailoDescListCreate_runs (descriptorsCount : UInt32)
    (dmaAllocCoherent : Option (UInt64 × UInt64)) (held : Multiset FileResource) :
    (∃ err, (hailoDescListCreate descriptorsCount dmaAllocCoherent).Runs held (.error err) held) ∨
    (∃ kernelAddress dmaAddress,
      (hailoDescListCreate descriptorsCount dmaAllocCoherent).Runs held
        (.ok (kernelAddress, dmaAddress, (descListSize descriptorsCount).toUInt32))
        (.coherent kernelAddress dmaAddress (descListSize descriptorsCount) ::ₘ held)) := by
  unfold hailoDescListCreate
  split
  · exact Or.inl ⟨_, .pure _ _⟩
  · split
    · exact Or.inl ⟨_, .pure _ _⟩
    · next kernelAddress dmaAddress =>
      exact Or.inr ⟨kernelAddress, dmaAddress, (runs_acquire _ _).bind (.pure _ _)⟩

theorem descListCreate_serves (hcounted : context.Counted) {params : HailoDescListCreateParams}
    (hsize : SizeKept params.descCount.toUInt32) (kzalloc : Option Nat)
    (dmaAllocCoherent : Option (UInt64 × UInt64)) (copied : Bool) :
    Serves context (hailoDescListCreateIoctl context params kzalloc dmaAllocCoherent copied) 0 := by
  unfold hailoDescListCreateIoctl
  split
  · exact serves_refused hcounted _
  · split
    · exact serves_refused hcounted _
    · split
      · exact serves_refused hcounted _
      · next address =>
        let kept := (hailoGetNextVdmaHandle context).2
        rcases hailoDescListCreate_runs params.descCount.toUInt32 dmaAllocCoherent
          (.kzalloc address ::ₘ context.held) with
          ⟨err, hruns⟩ | ⟨kernelAddress, dmaAddress, hruns⟩
        · refine serves_kept err kept hcounted ?_
          exact (runs_acquire _ _).bind (hruns.bind ((runs_release _ _).bind (.pure _ _)))
        · let descriptors : HailoDescriptorsListBuffer :=
            ⟨address, (hailoGetNextVdmaHandle context).1, kernelAddress, dmaAddress,
              (descListSize params.descCount.toUInt32).toUInt32⟩
          let made := { kept with
            descriptorsBufferList := descriptors :: kept.descriptorsBufferList }
          obtain ⟨ret, context', hcounted', hoffered⟩ := offered_runs kept made hcounted hcounted
            (freeDescriptorsBuffer_runs descriptors) (held_descriptors kept descriptors) copied
          have howned : descriptors.held + kept.held = .coherent kernelAddress dmaAddress
              (descListSize params.descCount.toUInt32) ::ₘ .kzalloc address ::ₘ context.held := by
            rw [HailoDescriptorsListBuffer.held, hsize, Multiset.cons_add, Multiset.singleton_add]
            rfl
          rw [howned] at hoffered
          exact serves_kept ret context' hcounted' ((runs_acquire _ _).bind (hruns.bind hoffered))

end Requests

section BufferMap
variable {context : HailoVdmaFileContext} {k : KernelOps} {address : Nat}
  {supportMmioDmaMapping : Bool} {params : HailoVdmaBufferMapParams}
  {allocatedBufferHandle : UInt64}

/-- The low-memory buffer of a request, as mapping sees it. -/
def lowMemoryOf (context : HailoVdmaFileContext) (allocatedBufferHandle : UInt64) :
    Option BufferMapping.HailoVdmaLowMemoryBuffer :=
  (hailoVdmaFindLowMemoryBuffer context allocatedBufferHandle).map fun buffer =>
    ⟨buffer.pagesAddress⟩

/-- The ioctl, once it is known what the mapping comes to. -/
theorem bufferMap_of_failed (hcounted : context.Counted) {err : Int32} {kept : Multiset MapResource}
    (hdirection : getDmaDirection params.dataDirection ≠ .none) (copied : Bool)
    (hruns : (mapBuffer k params.size (getDmaDirection params.dataDirection)
      (lowMemoryOf context allocatedBufferHandle) supportMmioDmaMapping params.userAddress
      params.bufferType).Runs 0 (.error err) kept) :
    Serves context (hailoVdmaBufferMapIoctl context k address supportMmioDmaMapping params
      allocatedBufferHandle copied) (kept.map (FileResource.mapped address)) := by
  have hmap := Runs.frame (Runs.rename (mapped_injective address) hruns) context.held
  rw [Multiset.map_zero, zero_add] at hmap
  refine ⟨err, context, ?_, hcounted⟩
  rw [hailoVdmaBufferMapIoctl]
  simp only
  rw [if_neg hdirection]
  exact hmap.bind (.pure _ _)

theorem bufferMap_of_mapped (hcounted : context.Counted) {buf : MappedBuffer}
    {kept : Multiset MapResource}
    (hdirection : getDmaDirection params.dataDirection ≠ .none) (copied : Bool)
    (hkref : buf.buffer.kref = 1)
    (hruns : (mapBuffer k params.size (getDmaDirection params.dataDirection)
      (lowMemoryOf context allocatedBufferHandle) supportMmioDmaMapping params.userAddress
      params.bufferType).Runs 0 (.ok buf) (kept + buf.held)) :
    Serves context (hailoVdmaBufferMapIoctl context k address supportMmioDmaMapping params
      allocatedBufferHandle copied) (kept.map (FileResource.mapped address)) := by
  have hmap := Runs.frame (Runs.rename (mapped_injective address) hruns) context.held
  rw [Multiset.map_zero, zero_add, Multiset.map_add, add_assoc] at hmap
  let lastHandle := context.lastVdmaUserBufferHandle + 1
  let buffer := { buf.buffer with handle := lastHandle.toInt64.toUInt64 }
  let mapped : MappedUserBuffer := ⟨address, { buf with buffer := buffer }⟩
  let counting := { context with lastVdmaUserBufferHandle := lastHandle }
  let made := { counting with mappedUserBufferList := mapped :: counting.mappedUserBufferList }
  have hput : (hailoVdmaBufferPut mapped).Runs mapped.held () 0 := hailoVdmaBufferPut_runs hkref
  have hmade : made.Counted := by
    intro other hother
    rcases List.mem_cons.mp hother with rfl | hmem
    · exact hkref
    · exact hcounted other hmem
  obtain ⟨ret, context', hcounted', hoffered⟩ :=
    offered_runs counting made hcounted hmade hput (held_mapped counting mapped) copied
  have hrest := Runs.frame hoffered (kept.map (FileResource.mapped address))
  rw [add_comm, add_comm context'.held] at hrest
  refine ⟨ret, context', ?_, hcounted'⟩
  rw [hailoVdmaBufferMapIoctl]
  simp only
  rw [if_neg hdirection]
  exact hmap.bind hrest

end BufferMap

/-- The request leaves something held that closing the file does not give back. -/
def MemoryRequest.LeavesHeld (context : HailoVdmaFileContext) : MemoryRequest → Prop
  | .bufferMap k _ supportMmioDmaMapping params allocatedBufferHandle _ =>
    getDmaDirection params.dataDirection ≠ .none ∧
      BufferUnmapping.LeavesHeld k params.size (getDmaDirection params.dataDirection)
        (lowMemoryOf context allocatedBufferHandle) supportMmioDmaMapping params.userAddress
        params.bufferType
  | _ => False

/-- What the kernel guarantees of its scatter tables, and descriptors whose size 32 bits keep. -/
def MemoryRequest.Regular : MemoryRequest → Prop
  | .bufferMap k .. => MappingLeaks.ListsPages k
  | .descListCreate params .. => params.descCount.toUInt32.toNat ≤ 2 ^ 28 - 2 ^ 12
  | _ => True

theorem bufferMap_serves {context : HailoVdmaFileContext} (hcounted : context.Counted)
    {k : KernelOps} (hk : MappingLeaks.ListsPages k) (address : Nat)
    (supportMmioDmaMapping : Bool) (params : HailoVdmaBufferMapParams)
    (allocatedBufferHandle : UInt64) (copied : Bool) :
    ∃ left, Serves context (hailoVdmaBufferMapIoctl context k address supportMmioDmaMapping params
        allocatedBufferHandle copied) left ∧
      (left = 0 ↔ ¬ (MemoryRequest.bufferMap k address supportMmioDmaMapping params
        allocatedBufferHandle copied).LeavesHeld context) := by
  by_cases hdirection : getDmaDirection params.dataDirection = .none
  · refine ⟨0, ?_, iff_of_true rfl fun hleaves => hleaves.1 hdirection⟩
    rw [hailoVdmaBufferMapIoctl]
    simp only
    rw [if_pos hdirection]
    exact serves_refused hcounted _
  · obtain ⟨result, held, houtcome, hruns⟩ := mapBuffer_outcome hk params.size
      (getDmaDirection params.dataDirection) (lowMemoryOf context allocatedBufferHandle)
      supportMmioDmaMapping params.userAddress params.bufferType
    cases houtcome with
    | @mapped buf hkref hexit hpointer =>
      rw [← zero_add buf.held] at hruns
      refine ⟨_, bufferMap_of_mapped hcounted hdirection copied hkref hruns,
        iff_of_true rfl ?_⟩
      rintro ⟨-, hleaky | ⟨hkeeps, -⟩⟩
      · exact hexit hleaky
      · exact hpointer hkeeps
    | @mappedOpen buf fd hkref hpointer =>
      have hvalue := hruns.value
      rw [← Multiset.singleton_add, ← Multiset.singleton_add, ← add_assoc] at hruns
      refine ⟨_, bufferMap_of_mapped hcounted hdirection copied hkref hruns,
        iff_of_false ?_ (not_not.mpr ⟨hdirection, Or.inr ⟨hpointer, buf, hvalue⟩⟩)⟩
      rw [Multiset.map_eq_zero, Multiset.singleton_add]
      exact Multiset.cons_ne_zero
    | @failed err hexit =>
      have hvalue := hruns.value
      refine ⟨_, bufferMap_of_failed hcounted hdirection copied hruns, iff_of_true rfl ?_⟩
      rintro ⟨-, hleaky | ⟨-, buf, hok⟩⟩
      · exact hexit hleaky
      · rw [hvalue] at hok
        cases hok
    | leaky hexit hkept =>
      refine ⟨_, bufferMap_of_failed hcounted hdirection copied hruns,
        iff_of_false ?_ (not_not.mpr ⟨hdirection, Or.inl hexit⟩)⟩
      rw [Multiset.map_eq_zero]
      exact hkept

/-- Every request ends with what the file then holds, and leaves nothing but by a mapping. -/
theorem handleRequest_serves {context : HailoVdmaFileContext} (hcounted : context.Counted)
    {request : MemoryRequest} (hregular : request.Regular) :
    ∃ left, Serves context (handleRequest context request) left ∧
      (left = 0 ↔ ¬ request.LeavesHeld context) := by
  cases request with
  | copyFromUserFailed => exact ⟨0, serves_refused hcounted _, iff_of_true rfl id⟩
  | bufferMap k address supportMmioDmaMapping params allocatedBufferHandle copied =>
    exact bufferMap_serves hcounted hregular address supportMmioDmaMapping params
      allocatedBufferHandle copied
  | bufferUnmap mappedHandle =>
    exact ⟨0, bufferUnmap_serves hcounted mappedHandle, iff_of_true rfl id⟩
  | descListCreate params kzalloc dmaAllocCoherent copied =>
    exact ⟨0, descListCreate_serves hcounted ((sizeKept_iff _).mpr hregular) kzalloc
      dmaAllocCoherent copied, iff_of_true rfl id⟩
  | descListRelease descHandle =>
    exact ⟨0, descListRelease_serves hcounted descHandle, iff_of_true rfl id⟩
  | lowMemoryBufferAlloc bufferSize kzalloc kcalloc getFreePage copied =>
    exact ⟨0, lowMemoryBufferAlloc_serves hcounted bufferSize kzalloc kcalloc getFreePage copied,
      iff_of_true rfl id⟩
  | lowMemoryBufferFree bufferHandle =>
    exact ⟨0, lowMemoryBufferFree_serves hcounted bufferHandle, iff_of_true rfl id⟩
  | continuousBufferAlloc bufferSize kzalloc dmaAllocCoherent copied =>
    exact ⟨0, continuousBufferAlloc_serves hcounted bufferSize kzalloc dmaAllocCoherent copied,
      iff_of_true rfl id⟩
  | continuousBufferFree bufferHandle =>
    exact ⟨0, continuousBufferFree_serves hcounted bufferHandle, iff_of_true rfl id⟩

/-- One of the requests leaves something held, in the state that it finds. -/
def LeavesHeld (context : HailoVdmaFileContext) : List MemoryRequest → Prop
  | [] => False
  | request :: requests =>
    request.LeavesHeld context ∨ LeavesHeld (handleRequest context request).value.2 requests

theorem serve_runs {requests : List MemoryRequest}
    (hregular : ∀ request ∈ requests, request.Regular) {context : HailoVdmaFileContext}
    (hcounted : context.Counted) :
    ∃ context' left, context'.Counted ∧
      (serve context requests).Runs context.held context' (left + context'.held) ∧
      (left = 0 ↔ ¬ LeavesHeld context requests) := by
  induction requests generalizing context with
  | nil =>
    refine ⟨context, 0, hcounted, ?_, iff_of_true rfl id⟩
    rw [zero_add]
    exact .pure _ _
  | cons request requests ih =>
    obtain ⟨left, ⟨ret, next, hfirst, hnext⟩, hleft⟩ :=
      handleRequest_serves hcounted (hregular request List.mem_cons_self)
    obtain ⟨context', left', hcounted', hrest, hleft'⟩ :=
      ih (fun other hother => hregular other (List.mem_cons_of_mem request hother)) hnext
    refine ⟨context', left' + left, hcounted', ?_, ?_⟩
    · have hframed := Runs.frame hrest left
      rw [add_comm next.held, add_assoc, add_comm context'.held, ← add_assoc] at hframed
      exact hfirst.bind hframed
    · have hsum : left' + left = 0 ↔ left' = 0 ∧ left = 0 := by
        rw [← Multiset.card_eq_zero, Multiset.card_add, Nat.add_eq_zero_iff,
          Multiset.card_eq_zero, Multiset.card_eq_zero]
      rw [LeavesHeld, hfirst.value, not_or, ← hleft, ← hleft', hsum, and_comm]

/-- Whatever the requests of a file and wherever the kernel fails them, what they took is
given back by the time the file is closed, each piece once, exactly unless a mapping left by
one of its leaky ways. -/
theorem fileLife_givesBack_iff {requests : List MemoryRequest}
    (hregular : ∀ request ∈ requests, request.Regular) :
    (fileLife requests).Takes 0 0 ↔ ¬ LeavesHeld hailoVdmaFileContextInit requests := by
  have hcounted : hailoVdmaFileContextInit.Counted := by
    intro mapped hmem
    cases hmem
  obtain ⟨context, left, hcounted', hserved, hleft⟩ := serve_runs hregular hcounted
  have hclosed := hailoVdmaFileContextFinalize_runs hcounted' left
  rw [add_comm] at hclosed
  have hlife : (fileLife requests).Runs 0 () left := hserved.bind hclosed
  rw [← hleft]
  constructor
  · intro htakes
    exact hlife.takes.unique htakes
  · rintro rfl
    exact hlife.takes

/-- A low-memory buffer of one page is mapped and freed while it is mapped. -/
theorem fileLife_givesBack_iff_freedWhileMapped :
    (fileLife [
      .lowMemoryBufferAlloc 100 (some 1) (some 2) (fun _ => some 0x5000) true,
      .bufferMap (BufferMapping.plainKernel id) 3 false ⟨0x7000, 100, .toDevice, .userPtrBuffer⟩
        0x1000 true,
      .lowMemoryBufferFree 0x1000,
      .descListCreate ⟨16, 64, true⟩ (some 4) (some (0x9000, 0x10000)) false]).Takes 0 0 := by
  refine (fileLife_givesBack_iff ?_).mpr ?_
  · intro request hmem
    simp only [List.mem_cons, List.not_mem_nil, or_false] at hmem
    rcases hmem with rfl | rfl | rfl | rfl
    · exact trivial
    · exact MappingLeaks.plainKernel_listsPages id
    · exact trivial
    · exact (by decide : 16 ≤ 2 ^ 28 - 2 ^ 12)
  · rintro (hleaves | ⟨-, hleaves⟩ | hleaves | hleaves | hleaves)
    · exact hleaves
    · rcases hleaves with ⟨-, -, low, err, -, -, -, -, hfails⟩ | ⟨⟨hzero, -⟩, -⟩
      · cases hfails
      · cases hzero
    · exact hleaves
    · exact hleaves
    · exact hleaves

end HailortDrivers.FileMemory
