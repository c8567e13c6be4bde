import HailortDrivers.ProgramIoctl
import HailortDrivers.VdmaSystem

/-!
Which descriptors lists can be programmed without dividing by zero: those with a page size
and a count that are not zero. The create request lets both be zero, since zero passes as a
power of two.
-/
namespace HailortDrivers.DivisorSafety
open KernelExec VdmaTypes DescriptorProgramming DescriptorsListCreation ChannelTransfers VdmaMemory
open VdmaIoctl ProgramIoctl VdmaSystem

/-- The run does not divide by zero. -/
def NoDivideError {α : Type} (x : Exec α) : Prop := x ≠ .error .divideError

section Rules
variable {α β : Type} {x : Exec α} {f : α → Exec β} {a b : UInt32}

theorem NoDivideError.ok (a : α) : NoDivideError (.ok a : Exec α) := fun h => nomatch h

theorem NoDivideError.bind (hx : NoDivideError x) (hf : ∀ a, x = .ok a → NoDivideError (f a)) :
    NoDivideError (x >>= f) := by
  cases x with
  | error fault =>
    intro h
    cases h
    exact hx rfl
  | ok a => exact hf a rfl

theorem NoDivideError.umod (hb : b ≠ 0) : NoDivideError (umod a b) := by
  rw [umod_of_ne hb]
  exact .ok _

theorem NoDivideError.divRoundUp (hb : b ≠ 0) : NoDivideError (divRoundUp a b) := by
  rw [divRoundUp_of_ne hb]
  exact .ok _

end Rules

/-- Nothing that programming divides by is zero. -/
structure Divisible (l : HailoVdmaDescriptorsList) : Prop where
  pageSize : l.descPageSize ≠ 0
  count : l.descCount ≠ 0

theorem Divisible.sameShape {l l' : HailoVdmaDescriptorsList} (h : Divisible l)
    (hshape : SameShape l l') : Divisible l' := by
  obtain ⟨descs, rfl⟩ := hshape
  exact ⟨h.pageSize, h.count⟩

theorem Divisible.pageSize32 {l : HailoVdmaDescriptorsList} (h : Divisible l) :
    l.descPageSize.toUInt32 ≠ 0 := by
  intro hzero
  apply h.pageSize
  rw [← UInt32.toNat_inj, UInt16.toNat_toUInt32] at hzero
  exact UInt16.toNat_inj.mp hzero

section Program
variable {vdmaHw : HailoVdmaHw} {l : HailoVdmaDescriptorsList} {startingDesc stride : UInt32}
  {buffer : HailoVdmaMappedTransferBuffer} {channelIndex : UInt8}
  {lastDescInterrupts : HailoVdmaInterruptsDomain} {isDebug shouldBind : Bool}

theorem hailoVdmaProgramDescriptorsInChunk_noDivideError (h : Divisible l)
    (chunkAddr maskedChannelId : UInt64) (chunkSize descIndex maxDescIndex : UInt32)
    (dataId : UInt8) :
    NoDivideError (hailoVdmaProgramDescriptorsInChunk chunkAddr chunkSize l descIndex maxDescIndex
      dataId stride maskedChannelId) := by
  refine .bind (.umod h.pageSize32) fun residueSize _ => ?_
  refine .bind (.divRoundUp h.pageSize32) fun descsToProgram _ => ?_
  simp only
  split
  · exact .ok _
  · exact .ok _

theorem bindSgEntries_noDivideError {bufferOffset maxDescIndex : UInt32} {dataId : UInt8}
    {maskedChannelId : UInt64} {sgl : List ScatterEntry} {c : BindCursor}
    (h : Divisible c.descList) :
    NoDivideError
      (bindSgEntries bufferOffset maxDescIndex dataId stride maskedChannelId sgl c) := by
  induction sgl generalizing c with
  | nil => exact .ok _
  | cons e es ih =>
    rw [bindSgEntries]
    simp only
    split
    · exact ih (c := { c with bufferCurrentOffset := _ }) h
    · split
      · exact ih (c := { c with bufferCurrentOffset := _ }) h
      · split
        · exact .ok _
        · refine .bind (hailoVdmaProgramDescriptorsInChunk_noDivideError h _ _ _ _ _ _) ?_
          rintro ⟨ret, descList⟩ hchunk
          have hshape := hailoVdmaProgramDescriptorsInChunk_sameShape hchunk
          simp only
          split
          · exact .ok _
          · split
            · exact .ok _
            · exact ih (h.sameShape hshape)

theorem bindFromStart_noDivideError (h : Divisible l) :
    NoDivideError (bindFromStart vdmaHw l startingDesc buffer channelIndex lastDescInterrupts
      isDebug stride) := by
  refine .bind (bindSgEntries_noDivideError h) fun exit hwalk => ?_
  have hshape := bindSgEntries_sameShape hwalk
  cases exit with
  | failed err descList => exact .ok _
  | walked c =>
    simp only
    split
    · exact .ok _
    · exact .bind (.umod h.count) fun _ _ => .ok _

theorem bindAndProgramDescriptorsList_noDivideError (h : Divisible l) :
    NoDivideError (bindAndProgramDescriptorsList vdmaHw l startingDesc buffer channelIndex
      lastDescInterrupts isDebug stride) := by
  refine .bind (.umod h.pageSize32) fun offsetResidue _ => ?_
  split
  · exact .ok _
  · refine .bind (.umod h.pageSize32) fun strideResidue _ => ?_
    split
    · exact bindFromStart_noDivideError h
    · refine .bind (.umod h.pageSize32) fun sizeResidue _ => ?_
      split
      · exact .ok _
      · split
        · exact .ok _
        · exact bindFromStart_noDivideError h

theorem programLastDesc_noDivideError (h : Divisible l) :
    NoDivideError (programLastDesc vdmaHw l startingDesc buffer lastDescInterrupts isDebug) :=
  .bind (.divRoundUp h.pageSize32) fun _ _ => .bind (.umod h.count) fun _ _ => .ok _

theorem hailoVdmaProgramDescriptorsList_noDivideError (h : Divisible l) :
    NoDivideError (hailoVdmaProgramDescriptorsList vdmaHw l startingDesc buffer shouldBind
      channelIndex lastDescInterrupts isDebug stride) := by
  cases shouldBind with
  | true => exact bindAndProgramDescriptorsList_noDivideError h
  | false => exact programLastDesc_noDivideError h

theorem programBatch_noDivideError {sgTable : SgTable} {transferSize : UInt32} {rounds : Nat}
    {c : BatchCursor} (h : Divisible c.descList) :
    NoDivideError (programBatch vdmaHw sgTable transferSize shouldBind channelIndex
      lastDescInterrupts isDebug stride rounds c) := by
  induction rounds generalizing c with
  | zero => exact .ok _
  | succ rounds ih =>
    refine .bind (hailoVdmaProgramDescriptorsList_noDivideError h) ?_
    rintro ⟨ret, descList⟩ hprogram
    have hlist := h.sameShape (hailoVdmaProgramDescriptorsList_sameShape hprogram)
    simp only
    split
    · exact .ok _
    · refine .bind ?_ fun startingDesc _ => ih hlist
      rw [nextStartingDesc]
      split
      · exact .umod hlist.count
      · exact .ok _

end Program

section Launch
variable {vdmaHw : HailoVdmaHw} {channelIndex : UInt8}
  {firstInterruptsDomain lastDescInterrupts : HailoVdmaInterruptsDomain}
  {isDebug shouldBind : Bool}

theorem launchBuffers_noDivideError {buffers : List HailoVdmaMappedTransferBuffer}
    {c : LaunchCursor} (h : Divisible c.descList) :
    NoDivideError (launchBuffers vdmaHw shouldBind channelIndex lastDescInterrupts isDebug
      buffers c) := by
  induction buffers generalizing c with
  | nil => exact .ok _
  | cons buffer buffers ih =>
    rw [launchBuffers]
    refine .bind (hailoVdmaProgramDescriptorsList_noDivideError h) ?_
    rintro ⟨ret, descList⟩ hprogram
    have hlist := h.sameShape (hailoVdmaProgramDescriptorsList_sameShape hprogram)
    refine .bind ?_ fun c' hround => ih ?_
    · exact .bind (.umod hlist.count) fun _ _ => .bind (.umod hlist.count) fun _ _ => .ok _
    · obtain ⟨lastDesc, -, hround⟩ := bind_ok hround
      obtain ⟨startingDesc, -, hround⟩ := bind_ok hround
      cases hround
      exact hlist

theorem launchBuffers_divisible {buffers : List HailoVdmaMappedTransferBuffer}
    {c c' : LaunchCursor} (h : Divisible c.descList)
    (hrun : launchBuffers vdmaHw shouldBind channelIndex lastDescInterrupts isDebug buffers c =
      .ok c') : Divisible c'.descList := by
  induction buffers generalizing c with
  | nil =>
    cases hrun
    exact h
  | cons buffer buffers ih =>
    obtain ⟨⟨ret, descList⟩, hprogram, hrun⟩ := bind_ok hrun
    have hlist := h.sameShape (hailoVdmaProgramDescriptorsList_sameShape hprogram)
    obtain ⟨c₁, hround, hrun⟩ := bind_ok hrun
    obtain ⟨lastDesc, -, hround⟩ := bind_ok hround
    obtain ⟨startingDesc, -, hround⟩ := bind_ok hround
    cases hround
    exact ih hlist hrun

theorem publishTransfer_noDivideError {channel : HailoVdmaChannel} {regs : ChannelRegs}
    {buffers : List HailoVdmaMappedTransferBuffer} {c : LaunchCursor}
    (h : Divisible c.descList) :
    NoDivideError (publishTransfer channel regs buffers isDebug c) := by
  rw [publishTransfer]
  simp only
  split
  · exact .ok _
  · exact .bind (.umod h.count) fun _ _ => .ok _

theorem hailoVdmaLaunchTransfer_noDivideError {channel : HailoVdmaChannel} {address : Nat}
    {l : HailoVdmaDescriptorsList} {regs : ChannelRegs} {startingDesc : UInt32}
    {buffers : List HailoVdmaMappedTransferBuffer} (h : Divisible l) :
    NoDivideError (hailoVdmaLaunchTransfer vdmaHw channel address l regs startingDesc buffers
      shouldBind firstInterruptsDomain lastDescInterrupts isDebug) := by
  rw [hailoVdmaLaunchTransfer]
  simp only
  split
  · exact .ok _
  · split
    · exact .ok _
    · split
      · exact .ok _
      · split
        · exact .ok _
        · refine .bind (launchBuffers_noDivideError h) fun c hrun => ?_
          have hlist := launchBuffers_divisible h hrun
          exact publishTransfer_noDivideError
            (hlist.sameShape (orPageSizeDescControl_sameShape _ _))

end Launch

section Ioctl
variable {n : Nat} {vdmaHw : HailoVdmaHw} {kernel : KernelState n}
  {context : HailoVdmaFileContext n} {buffers : MappedBufferHeap}

theorem loadMappedBuffer_noDivideError (address : Nat) :
    NoDivideError (loadMappedBuffer buffers address) := by
  rw [loadMappedBuffer]
  split
  · intro h
    cases h
  · exact .ok _

theorem findMappedBuffer_noDivideError (p : HailoVdmaBuffer → Bool) (addresses : List Nat) :
    NoDivideError (findMappedBuffer buffers p addresses) := by
  induction addresses with
  | nil => exact .ok _
  | cons address addresses ih =>
    refine .bind (loadMappedBuffer_noDivideError address) fun cur _ => ?_
    split
    · exact .ok _
    · exact ih

theorem findTransferBuffer_noDivideError (direction : DmaDataDirection)
    (buffer : HailoVdmaTransferBuffer) :
    NoDivideError (findTransferBuffer context buffers direction buffer) := by
  rw [findTransferBuffer]
  split
  · exact findMappedBuffer_noDivideError _ _
  · exact findMappedBuffer_noDivideError _ _
  · exact .ok _

theorem mapTransferBuffers_noDivideError (direction : DmaDataDirection)
    (requested : List HailoVdmaTransferBuffer) :
    NoDivideError (mapTransferBuffers context buffers direction requested) := by
  induction requested with
  | nil => exact .ok _
  | cons buffer rest ih =>
    refine .bind (findTransferBuffer_noDivideError direction buffer) fun found _ => ?_
    split
    · exact .ok _
    · refine .bind (loadMappedBuffer_noDivideError _) fun mappedBuffer _ => ?_
      refine .bind ih fun mapped _ => ?_
      split
      · exact .ok _
      · exact .ok _

theorem loadDescList_noDivideError (heap : DescListHeap) (pointer : Option Nat) :
    NoDivideError (loadDescList heap pointer) := by
  cases pointer with
  | none =>
    intro h
    cases h
  | some address =>
    rw [loadDescList]
    split
    · intro h
      cases h
    · exact .ok _

theorem hailoDescListProgramIoctl_noDivideError {params : HailoDescListProgramParams}
    (h : ∀ descriptors l, hailoVdmaFindDescriptorsBuffer context params.descHandle =
      some descriptors → kernel.descLists descriptors.descListAddress = some l → Divisible l) :
    NoDivideError (hailoDescListProgramIoctl vdmaHw kernel context params) := by
  refine .bind (findMappedBuffer_noDivideError _ _) fun found _ => ?_
  split
  · next address descriptors hfind _ =>
    refine .bind (loadMappedBuffer_noDivideError _) fun mappedBuffer _ => ?_
    split
    · exact .ok _
    · refine .bind (loadDescList_noDivideError _ _) fun l hload => ?_
      obtain ⟨_, ⟨⟩, hl⟩ := loadDescList_ok hload
      exact .bind (programBatch_noDivideError (h descriptors l hfind hl)) fun _ _ => .ok _
  · exact .ok _

theorem hailoVdmaLaunchTransferIoctl_noDivideError {params : HailoVdmaLaunchTransferParams}
    {regs : ChannelRegs}
    (h : ∀ descriptors l, hailoVdmaFindDescriptorsBuffer context params.descHandle =
      some descriptors → kernel.descLists descriptors.descListAddress = some l → Divisible l) :
    NoDivideError (hailoVdmaLaunchTransferIoctl vdmaHw kernel context params regs) := by
  rw [hailoVdmaLaunchTransferIoctl]
  split
  · split
    · simp only
      split
      · exact .ok _
      · split
        · exact .ok _
        · next descriptors hfind =>
          refine .bind (mapTransferBuffers_noDivideError _ _) fun mapped _ => ?_
          split
          · exact .ok _
          · refine .bind (loadDescList_noDivideError _ _) fun l hload => ?_
            obtain ⟨_, ⟨⟩, hl⟩ := loadDescList_ok hload
            exact .bind (hailoVdmaLaunchTransfer_noDivideError (h descriptors l hfind hl))
              fun _ _ => .ok _
    · exact .ok _
  · exact .ok _

end Ioctl

section Create
variable {n : Nat} {vdmaHw : HailoVdmaHw} {kernel kernel' : KernelState n}
  {context context' : HailoVdmaFileContext n} {params : HailoDescListCreateParams}
  {address : Option Nat} {memory : Option (Nat → HailoVdmaDescriptor)} {copied : Bool}

/-- No request on a list divides by zero, in any state that has the list at that handle,
whatever was programmed into it. -/
def RequestsSafe (n : Nat) (vdmaHw : HailoVdmaHw) (descriptors : HailoDescriptorsListBuffer)
    (l : HailoVdmaDescriptorsList) : Prop :=
  ∀ (kernel : KernelState n) (context : HailoVdmaFileContext n) (l' : HailoVdmaDescriptorsList),
    SameShape l l' → kernel.descLists descriptors.descListAddress = some l' →
    hailoVdmaFindDescriptorsBuffer context descriptors.handle = some descriptors →
    (∀ params : HailoDescListProgramParams, params.descHandle = descriptors.handle →
      NoDivideError (hailoDescListProgramIoctl vdmaHw kernel context params)) ∧
    (∀ (params : HailoVdmaLaunchTransferParams) (regs : ChannelRegs),
      params.descHandle = descriptors.handle →
      NoDivideError (hailoVdmaLaunchTransferIoctl vdmaHw kernel context params regs))

theorem requestsSafe_of_divisible {descriptors : HailoDescriptorsListBuffer}
    {l : HailoVdmaDescriptorsList} (h : Divisible l) : RequestsSafe n vdmaHw descriptors l := by
  intro kernel context l' hshape hlist hfind
  have hdivisible : ∀ d l'', hailoVdmaFindDescriptorsBuffer context descriptors.handle = some d →
      kernel.descLists d.descListAddress = some l'' → Divisible l'' := by
    intro d l'' hd hl''
    obtain rfl := Option.some.inj (hfind.symm.trans hd)
    obtain rfl := Option.some.inj (hlist.symm.trans hl'')
    exact h.sameShape hshape
  constructor
  · intro params hhandle
    exact hailoDescListProgramIoctl_noDivideError (hhandle ▸ hdivisible)
  · intro params regs hhandle
    exact hailoVdmaLaunchTransferIoctl_noDivideError (hhandle ▸ hdivisible)

/-- Reprogramming the last descriptor divides by the page size and by the count. -/
theorem programLastDesc_divideError {l : HailoVdmaDescriptorsList} {startingDesc : UInt32}
    {buffer : HailoVdmaMappedTransferBuffer} {lastDescInterrupts : HailoVdmaInterruptsDomain}
    {isDebug : Bool} (h : ¬ Divisible l) :
    programLastDesc vdmaHw l startingDesc buffer lastDescInterrupts isDebug =
      .error .divideError := by
  by_cases hsize : l.descPageSize = 0
  · simp only [programLastDesc, hsize]
    rfl
  · have hcount : l.descCount = 0 := by
      by_contra hne
      exact h ⟨hsize, hne⟩
    have hsize32 : l.descPageSize.toUInt32 ≠ 0 := by
      intro hzero
      apply hsize
      rw [← UInt32.toNat_inj, UInt16.toNat_toUInt32] at hzero
      exact UInt16.toNat_inj.mp hzero
    simp only [programLastDesc, divRoundUp_of_ne hsize32, hcount, ok_bind]
    rfl

/-- An empty buffer mapped at address 1, for a request to name. -/
def emptyBuffer : HailoVdmaBuffer := ⟨1, 1, .userPtrBuffer, 0, 0, .bidirectional, [], false, false⟩

/-- Only the last descriptor of the list of `descHandle` is to be programmed. -/
def unboundRequest (descHandle : UInt64) : HailoDescListProgramParams :=
  ⟨1, 0, 0, 1, descHandle, 0, 0, false, hailoVdmaInterruptsDomainNone, false, 0⟩

theorem divisible_of_requestsSafe {descriptors : HailoDescriptorsListBuffer}
    {l : HailoVdmaDescriptorsList} (h : RequestsSafe n vdmaHw descriptors l) : Divisible l := by
  by_contra hzero
  let kernel : KernelState n :=
    ⟨fun _ => idleMemory 0, fun _ => some l, fun _ => some emptyBuffer⟩
  let context : HailoVdmaFileContext n := ⟨0, [1], 0, [descriptors], fun _ => 0⟩
  have hfind : hailoVdmaFindDescriptorsBuffer context descriptors.handle = some descriptors := by
    rw [hailoVdmaFindDescriptorsBuffer, List.find?_cons_of_pos (by simp)]
  obtain ⟨hprogram, -⟩ := h kernel context l (.refl l) rfl hfind
  apply hprogram (unboundRequest descriptors.handle) rfl
  have hbuffer : hailoVdmaFindMappedBufferByHandle context kernel.buffers
      (unboundRequest descriptors.handle).bufferHandle = .ok (some 1) := rfl
  have hlast : programLastDesc vdmaHw l 0 ⟨⟨1, []⟩, 0, 0, 0⟩ hailoVdmaInterruptsDomainNone false =
      .error .divideError := programLastDesc_divideError hzero
  have hbatch : hailoVdmaProgramDescriptorsListBatch vdmaHw ⟨1, []⟩ 0 false 0
      hailoVdmaInterruptsDomainNone false 0 l 0 0 1 = .error .divideError := by
    change (programLastDesc vdmaHw l 0 ⟨⟨1, []⟩, 0, 0, 0⟩ hailoVdmaInterruptsDomainNone false >>=
      _) = _
    rw [hlast]
    rfl
  rw [hailoDescListProgramIoctl, hbuffer, unboundRequest]
  simp only [hfind, ok_bind]
  change (hailoVdmaProgramDescriptorsListBatch vdmaHw ⟨1, []⟩ 0 false 0
      hailoVdmaInterruptsDomainNone false 0 l 0 0 1 >>= _) = _
  rw [hbatch]
  rfl

theorem hailoDescListCreate_error {descCount : UInt32} {pageSize : UInt16} {isCircular : Bool}
    {err : Int32} (h : hailoDescListCreate descCount pageSize isCircular memory = .error err) :
    err ≠ 0 := by
  unfold hailoDescListCreate at h
  split at h
  · cases h
    decide
  · split at h
    · cases h
      decide
    · cases h

theorem hailoDescListCreate_fields {descCount : UInt32} {pageSize : UInt16} {isCircular : Bool}
    {l : HailoVdmaDescriptorsList}
    (h : hailoDescListCreate descCount pageSize isCircular memory = .ok l) :
    l.descCount = descCount ∧ l.descPageSize = pageSize := by
  unfold hailoDescListCreate at h
  split at h
  · cases h
  · split at h
    · cases h
    · cases h
      exact ⟨rfl, rfl⟩

theorem hailoDescListCreateIoctl_ok
    (h : hailoDescListCreateIoctl kernel context params address memory copied =
      (0, kernel', context')) :
    ∃ descriptors l, context'.descriptorsBufferList =
        descriptors :: context.descriptorsBufferList ∧
      kernel'.descLists descriptors.descListAddress = some l ∧
      l.descCount = params.descCount.toUInt32 ∧ l.descPageSize = params.descPageSize := by
  unfold hailoDescListCreateIoctl at h
  split at h
  · cases congrArg Prod.fst h
  · split at h
    · cases congrArg Prod.fst h
    · cases address with
      | none => cases congrArg Prod.fst h
      | some address =>
        simp only at h
        split at h
        · next err herr =>
          obtain rfl := congrArg Prod.fst h
          exact absurd rfl (hailoDescListCreate_error herr)
        · next l hl =>
          split at h
          · cases congrArg Prod.fst h
          · cases h
            obtain ⟨hcount, hsize⟩ := hailoDescListCreate_fields hl
            exact ⟨_, l, rfl, Function.update_self _ _ _, hcount, hsize⟩

/-- A list can be created that cannot be used: only its page size and its count decide. -/
theorem requestsSafe_iff (vdmaHw : HailoVdmaHw)
    (hcreate : hailoDescListCreateIoctl kernel context params address memory copied =
      (0, kernel', context')) :
    ∃ descriptors l, context'.descriptorsBufferList =
        descriptors :: context.descriptorsBufferList ∧
      kernel'.descLists descriptors.descListAddress = some l ∧
      (RequestsSafe n vdmaHw descriptors l ↔
        params.descPageSize ≠ 0 ∧ params.descCount.toUInt32 ≠ 0) := by
  obtain ⟨descriptors, l, hlist, hl, hcount, hsize⟩ := hailoDescListCreateIoctl_ok hcreate
  refine ⟨descriptors, l, hlist, hl, ?_⟩
  rw [← hcount, ← hsize]
  constructor
  · intro h
    exact ⟨(divisible_of_requestsSafe h).pageSize, (divisible_of_requestsSafe h).count⟩
  · intro h
    exact requestsSafe_of_divisible ⟨h.1, h.2⟩

end Create

/-- A list of 16 descriptors over pages of no bytes, as file 1 may ask for. -/
def zeroPagesRequest : Request 1 :=
  .descListCreate 1 ⟨16, 0, true⟩ (some 7) (some fun _ => ⟨0, 0, 0, 0⟩) true

/-- The list is created, and programming the mapped buffer into it divides by zero. -/
theorem zeroPages_divideError : ∃ (s : SystemState 1) (context : HailoVdmaFileContext 1),
    Relation.ReflTransGen (Steps hailoPcieVdmaHw fun _ _ => True) (initialState idleMemory) s ∧
      s.files 1 = some context ∧
      hailoDescListProgramIoctl hailoPcieVdmaHw s.kernel context
        ⟨1, 64, 0, 1, 4096, 0, 0, true, hailoVdmaInterruptsDomainNone, false, 0⟩ =
          .error .divideError :=
  ⟨_, _, .head ⟨.openFile 1, _, trivial, trivial, rfl⟩ <|
    .head ⟨mapRequest, _, rfl, trivial, rfl⟩ <|
    .single ⟨zeroPagesRequest, 0, rfl, trivial, rfl⟩, rfl, rfl⟩

/-- On a list that the request `listRequest` creates. -/
theorem requestsSafe_iff_ringOfFour : ∃ (kernel' : KernelState 1)
    (context' : HailoVdmaFileContext 1) (descriptors : HailoDescriptorsListBuffer)
    (l : HailoVdmaDescriptorsList), context'.descriptorsBufferList = [descriptors] ∧
      kernel'.descLists descriptors.descListAddress = some l ∧
      RequestsSafe 1 hailoPcieVdmaHw descriptors l := by
  have hcreate : hailoDescListCreateIoctl (initialState idleMemory).kernel
      (hailoVdmaFileContextInit 1) ⟨4, 64, true⟩ (some 7) (some fun _ => ⟨0, 0, 0, 0⟩) true =
        (0, _, _) := rfl
  obtain ⟨descriptors, l, hlist, hl, hsafe⟩ := requestsSafe_iff hailoPcieVdmaHw hcreate
  exact ⟨_, _, descriptors, l, hlist, hl, hsafe.mpr ⟨by decide, by decide⟩⟩

end HailortDrivers.DivisorSafety
