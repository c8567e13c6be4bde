import HailortDrivers.SystemSteps

/-! Every way through `handle`: what a request does to the kernel objects, to the
references into them and to the files. -/
namespace HailortDrivers.RequestEffects
open KernelExec VdmaTypes DescriptorsListCreation VdmaEngine VdmaMemory VdmaIoctl VdmaSystem
  SystemSteps

variable {n : Nat}

/-- Objects of the file, none when it is not open. -/
def ofFile (files : Nat → Option (HailoVdmaFileContext n))
    (objects : HailoVdmaFileContext n → List Nat) (filp : Nat) : List Nat :=
  (files filp).elim [] objects

/-- The channels that the file has enabled, none when it is not open. -/
def channelsOf (files : Nat → Option (HailoVdmaFileContext n)) (filp : Nat) : Fin n → UInt32 :=
  (files filp).elim (fun _ => 0) HailoVdmaFileContext.enabledChannelsBitmap

section Files
variable {files : Nat → Option (HailoVdmaFileContext n)} {filp : Nat}
  {context : HailoVdmaFileContext n} {objects : HailoVdmaFileContext n → List Nat}

theorem ofFile_open (objects : HailoVdmaFileContext n → List Nat)
    (h : files filp = some context) : ofFile files objects filp = objects context := by
  rw [ofFile, h, Option.elim]

theorem channelsOf_open (h : files filp = some context) :
    channelsOf files filp = context.enabledChannelsBitmap := by
  rw [channelsOf, h, Option.elim]

theorem mem_ofFile {address : Nat} (h : address ∈ ofFile files objects filp) :
    ∃ context, files filp = some context ∧ address ∈ objects context := by
  cases hfile : files filp with
  | none =>
    rw [ofFile, hfile] at h
    cases h
  | some context =>
    rw [ofFile_open _ hfile] at h
    exact ⟨context, rfl, h⟩

theorem ofFile_update (entry : Option (HailoVdmaFileContext n)) :
    ofFile (Function.update files filp entry) objects =
      Function.update (ofFile files objects) filp (entry.elim [] objects) :=
  Function.comp_update (fun entry => Option.elim entry [] objects) files filp entry

theorem channelsOf_update (entry : Option (HailoVdmaFileContext n)) :
    channelsOf (Function.update files filp entry) =
      Function.update (channelsOf files) filp
        (entry.elim (fun _ => 0) HailoVdmaFileContext.enabledChannelsBitmap) :=
  Function.comp_update
    (fun entry => Option.elim entry (fun _ => 0) HailoVdmaFileContext.enabledChannelsBitmap)
    files filp entry

/-- The files have the same objects and the same channels. -/
structure SameFiles (files files' : Nat → Option (HailoVdmaFileContext n)) : Prop where
  lists : ofFile files' listAddresses = ofFile files listAddresses
  buffers : ofFile files' HailoVdmaFileContext.mappedUserBufferList =
    ofFile files HailoVdmaFileContext.mappedUserBufferList
  channels : channelsOf files' = channelsOf files

theorem SameFiles.refl (files : Nat → Option (HailoVdmaFileContext n)) : SameFiles files files :=
  ⟨rfl, rfl, rfl⟩

/-- A file keeps its objects. -/
theorem ofFile_context {context' : HailoVdmaFileContext n} (hopen : files filp = some context)
    (hsame : objects context' = objects context) :
    ofFile (Function.update files filp (some context')) objects = ofFile files objects := by
  rw [ofFile_update, Option.elim_some, hsame, ← ofFile_open objects hopen,
    Function.update_eq_self]

theorem channelsOf_context {context' : HailoVdmaFileContext n} (hopen : files filp = some context)
    (hsame : context'.enabledChannelsBitmap = context.enabledChannelsBitmap) :
    channelsOf (Function.update files filp (some context')) = channelsOf files := by
  rw [channelsOf_update, Option.elim_some, hsame, ← channelsOf_open hopen,
    Function.update_eq_self]

/-- A file that was just opened has nothing yet. -/
theorem sameFiles_open (h : files filp = none) :
    SameFiles files (Function.update files filp (some (hailoVdmaFileContextInit n))) := by
  have hempty : ∀ objects : HailoVdmaFileContext n → List Nat,
      objects (hailoVdmaFileContextInit n) = [] →
      ofFile (Function.update files filp (some (hailoVdmaFileContextInit n))) objects =
        ofFile files objects := by
    intro objects hnil
    have hnone : ofFile files objects filp = [] := by rw [ofFile, h, Option.elim_none]
    rw [ofFile_update, Option.elim_some, hnil, ← hnone, Function.update_eq_self]
  refine ⟨hempty _ rfl, hempty _ rfl, ?_⟩
  have hnone : channelsOf files filp = (hailoVdmaFileContextInit n).enabledChannelsBitmap := by
    rw [channelsOf, h, Option.elim_none]
    rfl
  rw [channelsOf_update, Option.elim_some, ← hnone, Function.update_eq_self]

/-- Only the handle counters of a file changed. -/
theorem sameFiles_counters (h : files filp = some context) (userBufferHandle vdmaHandle : Int32) :
    SameFiles files (Function.update files filp (some { context with
      lastVdmaUserBufferHandle := userBufferHandle
      lastVdmaHandle := vdmaHandle })) where
  lists := ofFile_context h rfl
  buffers := ofFile_context h rfl
  channels := channelsOf_context h rfl

end Files

/-- What a request that ran to its end did. -/
inductive Effect (s : SystemState n) : Request n → SystemState n → Prop
  | kept {request : Request n} {s' : SystemState n}
      (hrefers : RefersOnly [] [] s.kernel s'.kernel)
      (henabled : SameEnabled s.kernel s'.kernel) (hfiles : SameFiles s.files s'.files) :
      Effect s request s'
  | enabled {filp : Nat} {bitmaps : Fin n → UInt32} {measure : Bool}
      {context : HailoVdmaFileContext n} (hopen : s.files filp = some context)
      (hfree : ∀ e, bitmaps e &&& (s.kernel.engines e).enabledChannels = 0) :
      Effect s (.enableChannels filp bitmaps measure)
        ⟨{ s.kernel with
            engines := fun e =>
              hailoVdmaEngineEnableChannels (s.kernel.engines e) (bitmaps e) measure },
          Function.update s.files filp (some { context with
            enabledChannelsBitmap := fun e => context.enabledChannelsBitmap e ||| bitmaps e })⟩
  | disabled {filp : Nat} {bitmaps : Fin n → UInt32} {context : HailoVdmaFileContext n}
      {kernel' : KernelState n} (hopen : s.files filp = some context)
      (hdisables : Disables bitmaps (List.finRange n) s.kernel kernel') :
      Effect s (.disableChannels filp bitmaps)
        ⟨kernel', Function.update s.files filp (some { context with
          enabledChannelsBitmap := fun e => context.enabledChannelsBitmap e &&& ~~~(bitmaps e) })⟩
  | launched {filp : Nat} {params : HailoVdmaLaunchTransferParams} {regs : ChannelRegs}
      {context : HailoVdmaFileContext n} {kernel' : KernelState n}
      (hopen : s.files filp = some context)
      (hrefers : RefersOnly (listAddresses context) context.mappedUserBufferList s.kernel kernel')
      (henabled : SameEnabled s.kernel kernel') :
      Effect s (.launchTransfer filp params regs) ⟨kernel', s.files⟩
  | mapped {filp : Nat} {params : HailoVdmaBufferMapParams} {memory : MappedMemory}
      {copied : Bool} {context : HailoVdmaFileContext n} (hopen : s.files filp = some context)
      (hfresh : s.kernel.buffers memory.address = none) (handle : Int32)
      (buffer : HailoVdmaBuffer) (hkref : buffer.kref = 1) :
      Effect s (.bufferMap filp params (.ok memory) copied)
        ⟨{ s.kernel with
            buffers := Function.update s.kernel.buffers memory.address (some buffer) },
          Function.update s.files filp (some { context with
            lastVdmaUserBufferHandle := handle
            mappedUserBufferList := memory.address :: context.mappedUserBufferList })⟩
  | unmapped {filp : Nat} {mappedHandle : UInt64} {context : HailoVdmaFileContext n}
      {address : Nat} {buffers' : MappedBufferHeap} (hopen : s.files filp = some context)
      (hfound : hailoVdmaFindMappedBufferByHandle context s.kernel.buffers mappedHandle =
        .ok (some address))
      (hput : hailoVdmaBufferPut s.kernel.buffers address = .ok buffers') :
      Effect s (.bufferUnmap filp mappedHandle)
        ⟨{ s.kernel with buffers := buffers' },
          Function.update s.files filp (some { context with
            mappedUserBufferList := context.mappedUserBufferList.erase address })⟩
  | created {filp : Nat} {params : HailoDescListCreateParams} {address : Nat}
      {memory : Option (Nat → HailoVdmaDescriptor)} {copied : Bool}
      {context : HailoVdmaFileContext n} (hopen : s.files filp = some context)
      (hfresh : s.kernel.descLists address = none) (handle : Int32) (listHandle : UInt64)
      (descList : HailoVdmaDescriptorsList) :
      Effect s (.descListCreate filp params (some address) memory copied)
        ⟨{ s.kernel with
            descLists := Function.update s.kernel.descLists address (some descList) },
          Function.update s.files filp (some { context with
            lastVdmaHandle := handle
            descriptorsBufferList := ⟨listHandle, address⟩ :: context.descriptorsBufferList })⟩
  | released {filp : Nat} {descHandle : UInt64} {context : HailoVdmaFileContext n}
      {descriptors : HailoDescriptorsListBuffer} (hopen : s.files filp = some context)
      (hfind : hailoVdmaFindDescriptorsBuffer context descHandle = some descriptors) :
      Effect s (.descListRelease filp descHandle)
        ⟨{ s.kernel with descLists := hailoDescListRelease s.kernel.descLists descriptors },
          Function.update s.files filp (some { context with
            descriptorsBufferList := context.descriptorsBufferList.erase descriptors })⟩
  | closed {filp : Nat} {context : HailoVdmaFileContext n} {kernel' : KernelState n}
      {buffers' : MappedBufferHeap} (hopen : s.files filp = some context)
      (hdisables : Disables context.enabledChannelsBitmap
        (enabledEngines context.enabledChannelsBitmap) s.kernel kernel')
      (hput : hailoVdmaClearMappedUserBufferList context.mappedUserBufferList kernel'.buffers =
        .ok buffers') :
      Effect s (.closeFile filp)
        ⟨{ kernel' with
            buffers := buffers'
            descLists := hailoVdmaClearDescriptorsBufferList context.descriptorsBufferList
              kernel'.descLists },
          Function.update s.files filp none⟩

section Handle
variable {vdmaHw : HailoVdmaHw} {s s' : SystemState n} {request : Request n} {ret : Int32}

theorem effect_refused (s : SystemState n) (request : Request n) : Effect s request s :=
  .kept (.refl _) (fun _ => rfl) (.refl _)

theorem effect_counters {filp : Nat} {context : HailoVdmaFileContext n}
    (hopen : s.files filp = some context) (userBufferHandle vdmaHandle : Int32) :
    Effect s request
      ⟨s.kernel, Function.update s.files filp (some { context with
        lastVdmaUserBufferHandle := userBufferHandle
        lastVdmaHandle := vdmaHandle })⟩ :=
  .kept (.refl _) (fun _ => rfl) (sameFiles_counters hopen _ _)

section Open
variable {filp : Nat} {context context' : HailoVdmaFileContext n} {kernel' : KernelState n}

theorem enableChannels_effect {bitmaps : Fin n → UInt32} {measure : Bool}
    (hopen : s.files filp = some context)
    (h : hailoVdmaEnableChannelsIoctl s.kernel context bitmaps measure =
      (ret, kernel', context')) :
    Effect s (.enableChannels filp bitmaps measure)
      ⟨kernel', Function.update s.files filp (some context')⟩ := by
  rw [hailoVdmaEnableChannelsIoctl] at h
  split at h
  · cases h
    exact effect_counters hopen _ _
  · next hfree =>
    cases h
    exact .enabled hopen (not_exists_not.mp hfree)

theorem interruptsWait_effect {bitmaps : Nat → UInt32}
    {regs : Fin n → ChannelIndex → ChannelRegs} {c' : WaitCursor n}
    (hopen : s.files filp = some context)
    (h : hailoVdmaInterruptsWaitIoctl s.kernel bitmaps regs = .ok (ret, c')) :
    Effect s (.interruptsWait filp bitmaps regs)
      ⟨c'.kernel, Function.update s.files filp (some context)⟩ := by
  have hfiles := sameFiles_counters hopen context.lastVdmaUserBufferHandle context.lastVdmaHandle
  rw [hailoVdmaInterruptsWaitIoctl] at h
  split at h
  · cases h
    exact .kept (.refl _) (fun _ => rfl) hfiles
  · obtain ⟨hrefers, henabled⟩ := waitEngines_ok h
    exact .kept hrefers henabled hfiles

theorem bufferMap_effect {params : HailoVdmaBufferMapParams} {mapped : Except Int32 MappedMemory}
    {copied : Bool} (hopen : s.files filp = some context)
    (hfresh : AllocatesFresh s (.bufferMap filp params mapped copied))
    (h : hailoVdmaBufferMapIoctl s.kernel context params mapped copied =
      .ok (ret, kernel', context')) :
    Effect s (.bufferMap filp params mapped copied)
      ⟨kernel', Function.update s.files filp (some context')⟩ := by
  unfold hailoVdmaBufferMapIoctl at h
  simp only at h
  split at h
  · cases h
    exact effect_counters hopen _ _
  · cases mapped with
    | error err =>
      cases h
      exact effect_counters hopen _ _
    | ok memory =>
      simp only at h
      split at h
      · -- the buffer of a failed copy is put, and its address is free again
        rw [hailoVdmaBufferPut_last (Function.update_self _ _ _) rfl, ok_bind] at h
        cases h
        have hfree : Function.update s.kernel.buffers memory.address none = s.kernel.buffers := by
          rw [← hfresh, Function.update_eq_self]
        rw [Function.update_idem, hfree]
        exact effect_counters hopen _ _
      · cases h
        exact .mapped hopen hfresh _ _ rfl

theorem bufferUnmap_effect {mappedHandle : UInt64} (hopen : s.files filp = some context)
    (h : hailoVdmaBufferUnmapIoctl s.kernel context mappedHandle = .ok (ret, kernel', context')) :
    Effect s (.bufferUnmap filp mappedHandle)
      ⟨kernel', Function.update s.files filp (some context')⟩ := by
  obtain ⟨found, hfound, h⟩ := bind_ok h
  cases found with
  | none =>
    cases h
    exact effect_counters hopen _ _
  | some address =>
    obtain ⟨buffers', hput, h⟩ := bind_ok h
    cases h
    exact .unmapped hopen hfound hput

theorem descListCreate_effect {params : HailoDescListCreateParams} {address : Option Nat}
    {memory : Option (Nat → HailoVdmaDescriptor)} {copied : Bool}
    (hopen : s.files filp = some context)
    (hfresh : AllocatesFresh s (.descListCreate filp params address memory copied))
    (h : hailoDescListCreateIoctl s.kernel context params address memory copied =
      (ret, kernel', context')) :
    Effect s (.descListCreate filp params address memory copied)
      ⟨kernel', Function.update s.files filp (some context')⟩ := by
  unfold hailoDescListCreateIoctl at h
  split at h
  · cases h
    exact effect_counters hopen _ _
  · split at h
    · cases h
      exact effect_counters hopen _ _
    · cases address with
      | none =>
        cases h
        exact effect_counters hopen _ _
      | some address =>
        simp only at h
        split at h
        · cases h
          exact effect_counters hopen _ _
        · split at h
          · cases h
            exact effect_counters hopen _ _
          · cases h
            exact .created hopen hfresh _ _ _

theorem descListRelease_effect {descHandle : UInt64} (hopen : s.files filp = some context)
    (h : hailoDescListReleaseIoctl s.kernel context descHandle = (ret, kernel', context')) :
    Effect s (.descListRelease filp descHandle)
      ⟨kernel', Function.update s.files filp (some context')⟩ := by
  unfold hailoDescListReleaseIoctl at h
  split at h
  · cases h
    exact effect_counters hopen _ _
  · next hfind =>
    cases h
    exact .released hopen hfind

end Open

theorem closeFile_ok {filp : Nat} (h : handle vdmaHw s (.closeFile filp) = .ok (ret, s')) :
    s.files filp = none ∧ s' = s ∨
    ∃ context kernel' buffers', s.files filp = some context ∧
      Disables context.enabledChannelsBitmap
        (enabledEngines context.enabledChannelsBitmap) s.kernel kernel' ∧
      hailoVdmaClearMappedUserBufferList context.mappedUserBufferList kernel'.buffers =
        .ok buffers' ∧
      s' = ⟨{ kernel' with
          buffers := buffers'
          descLists := hailoVdmaClearDescriptorsBufferList context.descriptorsBufferList
            kernel'.descLists },
        Function.update s.files filp none⟩ := by
  rw [handle] at h
  split at h
  · next hclosed =>
    cases h
    exact Or.inl ⟨hclosed, rfl⟩
  · next context hopen =>
    obtain ⟨kernel, hfinalize, h⟩ := bind_ok h
    obtain ⟨kernel', hdisable, hfinalize⟩ := bind_ok hfinalize
    obtain ⟨buffers', hput, hfinalize⟩ := bind_ok hfinalize
    cases h
    cases hfinalize
    exact Or.inr ⟨context, kernel', buffers', hopen,
      disableEngines_disables ((List.nodup_finRange n).filter _) hdisable, hput, rfl⟩

theorem handle_effect (hfresh : AllocatesFresh s request)
    (h : handle vdmaHw s request = .ok (ret, s')) : Effect s request s' := by
  cases request with
  | openFile filp =>
    rw [handle] at h
    split at h
    · cases h
      exact effect_refused _ _
    · next hclosed =>
      cases h
      exact .kept (.refl _) (fun _ => rfl) (sameFiles_open hclosed)
  | closeFile filp =>
    rcases closeFile_ok h with ⟨-, rfl⟩ | ⟨context, kernel', buffers', hopen, hdisables, hput, rfl⟩
    · exact effect_refused _ _
    · exact .closed hopen hdisables hput
  | interrupt e channelsBitmap =>
    cases h
    refine .kept ?_ ?_ (.refl _)
    · exact refersOnly_setEngine ⟨fun _ _ ha => ha, fun _ _ ht => ht, fun _ => rfl⟩
    · intro e'
      by_cases he : e' = e
      · simp only [he, Function.update_self, hailoVdmaEngineSetChannelInterrupts]
      · simp only [Function.update_of_ne he]
  | enableChannels filp bitmaps measure =>
    rcases withFile_ok h with ⟨-, rfl⟩ | ⟨context, kernel', context', hopen, hrun, rfl⟩
    · exact effect_refused _ _
    · exact enableChannels_effect hopen (Except.ok.inj hrun)
  | disableChannels filp bitmaps =>
    rcases withFile_ok h with ⟨-, rfl⟩ | ⟨context, kernel', context', hopen, hrun, rfl⟩
    · exact effect_refused _ _
    · obtain ⟨kernel, hdisable, hrun⟩ := bind_ok hrun
      cases hrun
      exact .disabled hopen (disableEngines_disables (List.nodup_finRange n) hdisable)
  | interruptsWait filp bitmaps regs =>
    rcases withFile_ok h with ⟨-, rfl⟩ | ⟨context, kernel', context', hopen, hrun, rfl⟩
    · exact effect_refused _ _
    · obtain ⟨⟨ret', c'⟩, hwait, hrun⟩ := bind_ok hrun
      cases hrun
      exact interruptsWait_effect hopen hwait
  | launchTransfer filp params regs =>
    rcases withFile_ok h with ⟨-, rfl⟩ | ⟨context, kernel', context', hopen, hrun, rfl⟩
    · exact effect_refused _ _
    · obtain ⟨⟨ret', kernel⟩, hlaunch, hrun⟩ := bind_ok hrun
      cases hrun
      obtain ⟨hrefers, henabled⟩ := launchIoctl_refers hlaunch
      rw [← hopen, Function.update_eq_self]
      exact .launched hopen hrefers henabled
  | bufferMap filp params mapped copied =>
    rcases withFile_ok h with ⟨-, rfl⟩ | ⟨context, kernel', context', hopen, hrun, rfl⟩
    · exact effect_refused _ _
    · exact bufferMap_effect hopen hfresh hrun
  | bufferUnmap filp mappedHandle =>
    rcases withFile_ok h with ⟨-, rfl⟩ | ⟨context, kernel', context', hopen, hrun, rfl⟩
    · exact effect_refused _ _
    · exact bufferUnmap_effect hopen hrun
  | descListCreate filp params address memory copied =>
    rcases withFile_ok h with ⟨-, rfl⟩ | ⟨context, kernel', context', hopen, hrun, rfl⟩
    · exact effect_refused _ _
    · exact descListCreate_effect hopen hfresh (Except.ok.inj hrun)
  | descListRelease filp descHandle =>
    rcases withFile_ok h with ⟨-, rfl⟩ | ⟨context, kernel', context', hopen, hrun, rfl⟩
    · exact effect_refused _ _
    · exact descListRelease_effect hopen (Except.ok.inj hrun)

end Handle

end HailortDrivers.RequestEffects
