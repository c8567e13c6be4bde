import HailortDrivers.OwnedObjects
import HailortDrivers.RequestEffects

/-! How long a descriptors list lives. A launch attaches a list to a channel and only
disabling the channel detaches it, while a list is freed by a release and by closing its
file, whoever uses it. Attached lists are alive as long as those two are left to lists
that are not attached, or whose channels the closing disables. -/
namespace HailortDrivers.ListLifetime
open KernelExec VdmaTypes DescriptorsListCreation ChannelTransfers LaunchSteps VdmaEngine
  EngineSteps EventRuns VdmaMemory VdmaIoctl VdmaSystem SystemSteps RequestEffects OwnedObjects

variable {n : Nat}

/-- The list at the address is allocated and belongs to an open file, so that following
the pointer to it is no use after free. -/
structure ListAlive (s : SystemState n) (address : Nat) : Prop where
  allocated : ∃ descList, s.kernel.descLists address = some descList
  listed : ∃ filp context, s.files filp = some context ∧ address ∈ listAddresses context
  clears : ∀ t fault,
    clearDirtyDescs (some address) t s.kernel.descLists = .error fault → fault = .bugOn
  validates : ∀ t, ∃ valid,
    validateLastDescStatus (some address) t s.kernel.descLists = .ok valid

/-- Every attached list is alive. -/
def AttachedAlive (s : SystemState n) : Prop :=
  ∀ c address, Attached s.kernel c address → ListAlive s address

/-- Releasing takes a list that no channel has attached, and closing a file frees lists
that only channels of the file have attached. -/
def FreesDetached (s : SystemState n) : Request n → Prop
  | .descListRelease filp descHandle => ∀ context descriptors, s.files filp = some context →
      hailoVdmaFindDescriptorsBuffer context descHandle = some descriptors →
      ∀ c, ¬ Attached s.kernel c descriptors.descListAddress
  | .closeFile filp => ∀ context, s.files filp = some context →
      ∀ c, ∀ address ∈ listAddresses context, Attached s.kernel c address →
        hailoTestBit c.2 (context.enabledChannelsBitmap c.1) = true
  | _ => True

/-- The lists of the open files are allocated and belong to one file each, and channels
are attached to such lists only. -/
structure ListsOwned (kernel : KernelState n) (lists : Nat → List Nat) : Prop where
  owned : Owned (fun _ => True) kernel.descLists lists
  attached : Referenced lists (Attached kernel)

theorem loadDescList_some {heap : DescListHeap} {address : Nat}
    {descList : HailoVdmaDescriptorsList} (h : heap address = some descList) :
    loadDescList heap (some address) = .ok descList := by
  simp only [loadDescList, h]

theorem clearDirtyDescs_bugOn {heap : DescListHeap} {address : Nat}
    {descList : HailoVdmaDescriptorsList} (h : heap address = some descList)
    {t : HailoOngoingTransfer} {fault : Fault}
    (hfault : clearDirtyDescs (some address) t heap = .error fault) : fault = .bugOn := by
  unfold clearDirtyDescs at hfault
  split at hfault
  · cases hfault
    rfl
  · split at hfault
    · cases hfault
    · rw [loadDescList_some h, ok_bind] at hfault
      cases hfault

theorem ListsOwned.alive {s : SystemState n}
    (h : ListsOwned s.kernel (ofFile s.files listAddresses)) : AttachedAlive s := by
  intro c address hattached
  obtain ⟨descList, hlist, -⟩ := h.attached.present h.owned hattached
  obtain ⟨filp, hmem⟩ := h.attached c address hattached
  obtain ⟨context, hopen, hmem⟩ := mem_ofFile hmem
  refine ⟨⟨descList, hlist⟩, ⟨filp, context, hopen, hmem⟩, ?_, ?_⟩
  · intro t fault hfault
    exact clearDirtyDescs_bugOn hlist hfault
  · intro t
    rw [validateLastDescStatus, loadDescList_some hlist]
    exact ⟨_, rfl⟩

theorem listsOwned_initialState (memory : Fin n → HailoVdmaEngine) :
    ListsOwned (initialState memory).kernel
      (ofFile (initialState memory).files listAddresses) := by
  refine ⟨owned_nothing, ?_⟩
  intro c address hattached
  cases hattached

section Steps
variable {kernel kernel' : KernelState n} {lists : Nat → List Nat}

theorem ListsOwned.attach (h : ListsOwned kernel lists) {filp : Nat} {buffers : List Nat}
    (hrefers : RefersOnly (lists filp) buffers kernel kernel') : ListsOwned kernel' lists where
  owned := by
    refine h.owned.modify fun address descList hlist _ => ?_
    have hsome : (kernel'.descLists address).isSome := by
      rw [hrefers.descLists address, hlist, Option.isSome_some]
    obtain ⟨descList', hlist'⟩ := Option.isSome_iff_exists.mp hsome
    exact ⟨descList', hlist', trivial⟩
  attached := h.attached.attach filp fun c address => hrefers.attached c address

theorem ListsOwned.keep (h : ListsOwned kernel lists) (hrefers : RefersOnly [] [] kernel kernel') :
    ListsOwned kernel' lists := by
  have hweak : RefersOnly (lists 0) [] kernel kernel' := hrefers.weaken
  exact h.attach hweak

theorem clearDescriptors_of_notMem (descriptors : List HailoDescriptorsListBuffer)
    (heap : DescListHeap) {address : Nat}
    (h : address ∉ descriptors.map HailoDescriptorsListBuffer.descListAddress) :
    hailoVdmaClearDescriptorsBufferList descriptors heap address = heap address := by
  rw [hailoVdmaClearDescriptorsBufferList]
  induction descriptors generalizing heap with
  | nil => rfl
  | cons d ds ih =>
    rw [List.map_cons, List.mem_cons, not_or] at h
    rw [List.foldl_cons, ih _ h.2, hailoDescListRelease, Function.update_of_ne h.1]

/-- With a list its address leaves the file, and no other address does. -/
theorem mem_erase_descriptors {descriptors : List HailoDescriptorsListBuffer}
    (hnodup : (descriptors.map HailoDescriptorsListBuffer.descListAddress).Nodup)
    {d : HailoDescriptorsListBuffer} (hd : d ∈ descriptors) (address : Nat) :
    address ∈ (descriptors.erase d).map HailoDescriptorsListBuffer.descListAddress ↔
      address ≠ d.descListAddress ∧
        address ∈ descriptors.map HailoDescriptorsListBuffer.descListAddress := by
  constructor
  · intro h
    obtain ⟨d', hd', rfl⟩ := List.mem_map.mp h
    have hmem := List.mem_of_mem_erase hd'
    refine ⟨fun hsame => ?_, List.mem_map_of_mem hmem⟩
    rw [List.inj_on_of_nodup_map hnodup hmem hd hsame] at hd'
    exact (hnodup.of_map _).not_mem_erase hd'
  · rintro ⟨hne, h⟩
    obtain ⟨d', hd', rfl⟩ := List.mem_map.mp h
    have hother : d' ≠ d := by
      rintro rfl
      exact hne rfl
    exact List.mem_map_of_mem ((List.mem_erase_of_ne hother).mpr hd')

section Files
variable {s : SystemState n} {filp : Nat} {context : HailoVdmaFileContext n}

theorem listsOwned_created (h : ListsOwned s.kernel (ofFile s.files listAddresses))
    (hopen : s.files filp = some context) {address : Nat}
    (hfresh : s.kernel.descLists address = none) (descList : HailoVdmaDescriptorsList) :
    ListsOwned
      { s.kernel with descLists := Function.update s.kernel.descLists address (some descList) }
      (Function.update (ofFile s.files listAddresses) filp
        (address :: listAddresses context)) where
  owned := by
    rw [← ofFile_open listAddresses hopen]
    exact h.owned.alloc hfresh filp trivial
  attached := by
    rw [← ofFile_open listAddresses hopen]
    exact h.attached.update (fun _ _ ha => ha) fun _ _ ha _ => List.mem_cons_of_mem _ ha

theorem listsOwned_released (h : ListsOwned s.kernel (ofFile s.files listAddresses))
    (hopen : s.files filp = some context) {descriptors : HailoDescriptorsListBuffer}
    (hmem : descriptors ∈ context.descriptorsBufferList)
    (hdetached : ∀ c, ¬ Attached s.kernel c descriptors.descListAddress) :
    ListsOwned { s.kernel with
        descLists := hailoDescListRelease s.kernel.descLists descriptors }
      (Function.update (ofFile s.files listAddresses) filp
        ((context.descriptorsBufferList.erase descriptors).map
          HailoDescriptorsListBuffer.descListAddress)) := by
  have hown : ofFile s.files listAddresses filp = listAddresses context := ofFile_open _ hopen
  have hnodup : (listAddresses context).Nodup := hown ▸ h.owned.nodup filp
  have herase := mem_erase_descriptors hnodup hmem
  constructor
  · refine h.owned.free ?_ ?_ fun hgone => ((herase _).mp hgone).1 rfl
    · rw [hown]
      exact List.mem_map_of_mem hmem
    · rw [hown]
      exact List.erase_sublist.map _
  · refine h.attached.update (fun _ _ ha => ha) fun c address ha hattached => ?_
    rw [hown] at ha
    refine (herase address).mpr ⟨?_, ha⟩
    rintro rfl
    exact hdetached c hattached

theorem listsOwned_closed {kernel' : KernelState n}
    (h : ListsOwned kernel' (ofFile s.files listAddresses))
    (hopen : s.files filp = some context) {buffers' : MappedBufferHeap}
    (hdetached : ∀ c, ∀ address ∈ listAddresses context, ¬ Attached kernel' c address) :
    ListsOwned { kernel' with
        buffers := buffers'
        descLists := hailoVdmaClearDescriptorsBufferList context.descriptorsBufferList
          kernel'.descLists }
      (Function.update (ofFile s.files listAddresses) filp []) where
  owned := by
    refine h.owned.freeAll fun address hmem => ?_
    rw [ofFile_open _ hopen] at hmem
    exact clearDescriptors_of_notMem _ _ hmem
  attached := by
    refine h.attached.update (fun _ _ ha => ha) fun c address ha hattached => ?_
    rw [ofFile_open _ hopen] at ha
    exact absurd hattached (hdetached c address ha)

theorem ListsOwned.sameLists {files files' : Nat → Option (HailoVdmaFileContext n)}
    (h : ListsOwned kernel (ofFile files listAddresses))
    (hsame : ofFile files' listAddresses = ofFile files listAddresses) :
    ListsOwned kernel (ofFile files' listAddresses) := hsame ▸ h

theorem listsOwned_step {s' : SystemState n} {request : Request n}
    (h : ListsOwned s.kernel (ofFile s.files listAddresses)) (hfrees : FreesDetached s request)
    (heffect : Effect s request s') :
    ListsOwned s'.kernel (ofFile s'.files listAddresses) := by
  cases heffect with
  | kept hrefers henabled hfiles => exact (h.keep hrefers).sameLists hfiles.lists
  | enabled hopen hfree =>
    exact (h.keep (refersOnly_enable _ _)).sameLists (ofFile_context hopen rfl)
  | disabled hopen hdisables =>
    exact (h.keep hdisables.refers).sameLists (ofFile_context hopen rfl)
  | @launched filp params regs context kernel' hopen hrefers henabled =>
    rw [← ofFile_open listAddresses hopen] at hrefers
    exact h.attach hrefers
  | mapped hopen hfresh handle buffer hkref =>
    exact ListsOwned.sameLists ⟨h.owned, h.attached⟩ (ofFile_context hopen rfl)
  | unmapped hopen hfound hput =>
    exact ListsOwned.sameLists ⟨h.owned, h.attached⟩ (ofFile_context hopen rfl)
  | created hopen hfresh handle listHandle descList =>
    rw [ofFile_update]
    exact listsOwned_created h hopen hfresh descList
  | released hopen hfind =>
    rw [ofFile_update]
    exact listsOwned_released h hopen (findDescriptorsBuffer_mem hfind) (hfrees _ _ hopen hfind)
  | closed hopen hdisables hput =>
    rw [ofFile_update]
    refine listsOwned_closed (h.keep hdisables.refers) hopen fun c address hmem hattached => ?_
    have hbefore := (hdisables.refers.attached c address hattached).resolve_right List.not_mem_nil
    have hdisabled := hdisables.disabled_of_bit (hfrees _ hopen c address hmem hbefore)
    rw [Attached, hdisabled.lastDescList] at hattached
    cases hattached

end Files

end Steps

theorem clearDescriptors_of_mem (descriptors : List HailoDescriptorsListBuffer)
    (heap : DescListHeap) {address : Nat}
    (h : address ∈ descriptors.map HailoDescriptorsListBuffer.descListAddress) :
    hailoVdmaClearDescriptorsBufferList descriptors heap address = none := by
  induction descriptors generalizing heap with
  | nil => cases h
  | cons d ds ih =>
    by_cases hrest : address ∈ ds.map HailoDescriptorsListBuffer.descListAddress
    · exact ih _ hrest
    · have hhead := (List.mem_cons.mp h).resolve_right hrest
      have hkept := clearDescriptors_of_notMem ds (hailoDescListRelease heap d) hrest
      refine hkept.trans ?_
      rw [hailoDescListRelease, hhead, Function.update_self]

section Runs
variable {vdmaHw : HailoVdmaHw} {memory : Fin n → HailoVdmaEngine} {s s' : SystemState n}
  {request : Request n} {ret : Int32}

/-- A request that frees an attached list leaves a channel with a dangling pointer. -/
theorem freesDetached_of_alive (hhandle : handle vdmaHw s request = .ok (ret, s'))
    (halive : AttachedAlive s') : FreesDetached s request := by
  cases request with
  | descListRelease filp descHandle =>
    intro context descriptors hopen hfind c hattached
    rcases withFile_ok hhandle with ⟨hclosed, -⟩ | ⟨context', kernel', _, hopen', hrun, rfl⟩
    · rw [hclosed] at hopen
      cases hopen
    · obtain rfl : context' = context := Option.some.inj (hopen'.symm.trans hopen)
      have hrelease := Except.ok.inj hrun
      simp only [hailoDescListReleaseIoctl, hfind] at hrelease
      cases hrelease
      obtain ⟨descList, hlist⟩ := (halive c descriptors.descListAddress hattached).allocated
      simp [hailoDescListRelease] at hlist
  | closeFile filp =>
    intro context hopen c address hmem hattached
    rcases closeFile_ok hhandle with
      ⟨hclosed, -⟩ | ⟨context', kernel', buffers', hopen', hdisables, -, rfl⟩
    · rw [hclosed] at hopen
      cases hopen
    · obtain rfl : context' = context := Option.some.inj (hopen'.symm.trans hopen)
      by_contra hbit
      have huntouched := hdisables.untouched c fun _ => Bool.not_eq_true _ ▸ hbit
      have hstill : Attached kernel' c address := by
        rw [Attached, huntouched]
        exact hattached
      obtain ⟨descList, hlist⟩ := (halive c address hstill).allocated
      have hfreed := clearDescriptors_of_mem context'.descriptorsBufferList kernel'.descLists hmem
      cases hfreed.symm.trans hlist
  | openFile => trivial
  | enableChannels => trivial
  | disableChannels => trivial
  | interruptsWait => trivial
  | launchTransfer => trivial
  | bufferMap => trivial
  | bufferUnmap => trivial
  | descListCreate => trivial
  | interrupt => trivial

/-- In every run in which lists are freed only while detached, every attached list is
alive; and the next request keeps it so exactly when it frees only detached lists. -/
theorem attachedAlive_of_run
    (hrun : Relation.ReflTransGen (Steps vdmaHw FreesDetached) (initialState memory) s) :
    AttachedAlive s ∧ ∀ request ret s', AllocatesFresh s request →
      handle vdmaHw s request = .ok (ret, s') → (AttachedAlive s' ↔ FreesDetached s request) := by
  have hstep : ∀ s s' : SystemState n, ListsOwned s.kernel (ofFile s.files listAddresses) →
      Steps vdmaHw FreesDetached s s' →
      ListsOwned s'.kernel (ofFile s'.files listAddresses) := by
    rintro s s' h ⟨request, ret, hfresh, hfrees, hhandle⟩
    exact listsOwned_step h hfrees (handle_effect hfresh hhandle)
  have howned := inv_of_run hstep hrun (listsOwned_initialState memory)
  refine ⟨howned.alive, fun request ret s' hfresh hhandle => ⟨?_, ?_⟩⟩
  · exact freesDetached_of_alive hhandle
  · intro hfrees
    exact (listsOwned_step howned hfrees (handle_effect hfresh hhandle)).alive

end Runs

/-- The attached list of a transfer under way. -/
theorem attachedAlive_of_run_busyState : ListAlive busyState 7 := by
  refine (attachedAlive_of_run (busyState_run fun s request hacquires => ?_)).1 (0, 0) 7 rfl
  cases request with
  | closeFile => cases hacquires
  | descListRelease => cases hacquires
  | _ => trivial

/-- Releasing an attached list returns 0 and leaves the channel attached to it, and
disabling the channel follows the pointer. -/
theorem releaseAttached_dangles :
    ∃ s, Relation.ReflTransGen (Steps hailoPcieVdmaHw fun _ _ => True)
        (initialState idleMemory) s ∧
      Attached s.kernel (0, 0) 7 ∧ s.kernel.descLists 7 = none ∧ ¬ AttachedAlive s ∧
      handle hailoPcieVdmaHw s (.disableChannels 1 fun _ => 1) =
        .error (.usedAfterFree .descriptorsList 7) := by
  obtain ⟨s, hrun, hattached, hfreed, hfault⟩ : ∃ s,
      Relation.ReflTransGen (Steps hailoPcieVdmaHw fun _ _ => True)
        (initialState idleMemory) s ∧
      Attached s.kernel (0, 0) 7 ∧ s.kernel.descLists 7 = none ∧
      handle hailoPcieVdmaHw s (.disableChannels 1 fun _ => 1) =
        .error (.usedAfterFree .descriptorsList 7) :=
    ⟨_, .head ⟨.openFile 1, _, trivial, trivial, rfl⟩ <|
      .head ⟨.enableChannels 1 (fun _ => 1) false, _, trivial, trivial, rfl⟩ <|
      .head ⟨listRequest, _, rfl, trivial, rfl⟩ <|
      .head ⟨.launchTransfer 1 ⟨0, 0, 4096, 0, true, [], 0, 0, false⟩ activeRegs, 0, trivial,
        trivial, rfl⟩ <|
      .single ⟨.descListRelease 1 4096, 0, trivial, trivial, rfl⟩, rfl, rfl, rfl⟩
  refine ⟨s, hrun, hattached, hfreed, fun halive => ?_, hfault⟩
  obtain ⟨descList, hlist⟩ := (halive (0, 0) 7 hattached).allocated
  rw [hfreed] at hlist
  cases hlist

end HailortDrivers.ListLifetime
