import HailortDrivers.OwnedObjects
import HailortDrivers.RequestEffects

/-! How long a mapped buffer lives. A file holds one reference to each of its mapped
buffers, and a launch takes none: `hailo_vdma_buffer_get` has no caller. Unmapping a
buffer and closing its file free it, also under a transfer. The buffers of the ongoing
transfers are alive as long as those two leave them alone. -/
namespace HailortDrivers.BufferLifetime
open KernelExec VdmaTypes LaunchSteps OngoingRing VdmaEngine CompletionSteps EngineSteps EventRuns
  VdmaMemory VdmaIoctl VdmaSystem SystemSteps RequestEffects OwnedObjects

variable {n : Nat}

/-- The buffers of the ongoing transfers are mapped, and their completion callback can
sync each of them. -/
structure TransfersAlive (s : SystemState n) : Prop where
  mapped : ∀ c address, Transferring s.kernel c address →
    ∃ buffer, s.kernel.buffers address = some buffer ∧ 1 ≤ buffer.kref
  syncs : ∀ c, ∀ t ∈ ongoing (channelAt s.kernel c).ongoingTransfers, ∀ synced,
    ∃ synced', transferDone s.kernel.buffers t synced = .ok synced'

/-- Unmapping takes a buffer that no ongoing transfer refers to, and closing a file
frees buffers that only transfers on channels of the file refer to. -/
def FreesIdle (s : SystemState n) : Request n → Prop
  | .bufferUnmap filp mappedHandle => ∀ context address, s.files filp = some context →
      hailoVdmaFindMappedBufferByHandle context s.kernel.buffers mappedHandle =
        .ok (some address) →
      ∀ c, ¬ Transferring s.kernel c address
  | .closeFile filp => ∀ context, s.files filp = some context →
      ∀ c, ∀ address ∈ context.mappedUserBufferList, Transferring s.kernel c address →
        hailoTestBit c.2 (context.enabledChannelsBitmap c.1) = true
  | _ => True

/-- Each buffer of an open file has one reference, the file's, and belongs to no other
file; transfers refer to such buffers only. -/
structure BuffersOwned (kernel : KernelState n) (buffers : Nat → List Nat) : Prop where
  owned : Owned (fun buffer => buffer.kref = 1) kernel.buffers buffers
  transferring : Referenced buffers (Transferring kernel)

abbrev buffersOf (files : Nat → Option (HailoVdmaFileContext n)) : Nat → List Nat :=
  ofFile files HailoVdmaFileContext.mappedUserBufferList

theorem transferDone_ok {buffers : MappedBufferHeap} {t : HailoOngoingTransfer}
    (h : ∀ buffer ∈ t.buffers, ∃ mappedBuffer, buffers buffer.opaqueBuffer = some mappedBuffer)
    (synced : List ScatterEntry) : ∃ synced', transferDone buffers t synced = .ok synced' := by
  rw [transferDone]
  generalize t.buffers = transferBuffers at h
  induction transferBuffers generalizing synced with
  | nil => exact ⟨synced, rfl⟩
  | cons buffer rest ih =>
    obtain ⟨mappedBuffer, hmapped⟩ := h buffer List.mem_cons_self
    rw [List.foldlM_cons, loadMappedBuffer, hmapped]
    exact ih _ fun b hb => h b (List.mem_cons_of_mem _ hb)

theorem BuffersOwned.alive {s : SystemState n} (h : BuffersOwned s.kernel (buffersOf s.files)) :
    TransfersAlive s := by
  have hmapped : ∀ c address, Transferring s.kernel c address →
      ∃ buffer, s.kernel.buffers address = some buffer ∧ buffer.kref = 1 :=
    fun c address htransferring => h.transferring.present h.owned htransferring
  constructor
  · intro c address htransferring
    obtain ⟨buffer, hbuffer, hkref⟩ := hmapped c address htransferring
    exact ⟨buffer, hbuffer, Nat.le_of_eq hkref.symm⟩
  · intro c t ht synced
    refine transferDone_ok (fun buffer hbuffer => ?_) synced
    obtain ⟨mappedBuffer, hmem, -⟩ :=
      hmapped c buffer.opaqueBuffer ⟨t, ht, buffer, hbuffer, Or.inl rfl⟩
    exact ⟨mappedBuffer, hmem⟩

theorem buffersOwned_initialState (memory : Fin n → HailoVdmaEngine) :
    BuffersOwned (initialState memory).kernel (buffersOf (initialState memory).files) := by
  refine ⟨owned_nothing, ?_⟩
  rintro c address ⟨t, ht, -⟩
  have hempty : ongoing (channelAt (initialState memory).kernel c).ongoingTransfers = [] :=
    ongoing_emptyRing _
  rw [hempty] at ht
  cases ht

section Put
variable {buffers buffers' : MappedBufferHeap}

theorem bufferPut_of_ne {address other : Nat} (hne : other ≠ address)
    (h : hailoVdmaBufferPut buffers address = .ok buffers') : buffers' other = buffers other := by
  obtain ⟨buffer, -, h⟩ := bind_ok h
  split at h
  · cases h
    exact Function.update_of_ne hne _ _
  · cases h
    exact Function.update_of_ne hne _ _

theorem clearMapped_of_notMem {addresses : List Nat} {address : Nat} (hmem : address ∉ addresses)
    (h : hailoVdmaClearMappedUserBufferList addresses buffers = .ok buffers') :
    buffers' address = buffers address := by
  induction addresses generalizing buffers with
  | nil =>
    cases h
    rfl
  | cons a as ih =>
    rw [hailoVdmaClearMappedUserBufferList, List.foldlM_cons] at h
    obtain ⟨buffers₁, hput, h⟩ := bind_ok h
    rw [List.mem_cons, not_or] at hmem
    rw [ih hmem.2 h, bufferPut_of_ne hmem.1 hput]

/-- Buffers with one reference are gone. -/
theorem clearMapped_of_mem {addresses : List Nat} {address : Nat} (hmem : address ∈ addresses)
    (hnodup : addresses.Nodup)
    (hkref : ∀ a ∈ addresses, ∃ buffer, buffers a = some buffer ∧ buffer.kref = 1)
    (h : hailoVdmaClearMappedUserBufferList addresses buffers = .ok buffers') :
    buffers' address = none := by
  induction addresses generalizing buffers with
  | nil => cases hmem
  | cons a as ih =>
    obtain ⟨ha, hnodup⟩ := List.nodup_cons.mp hnodup
    obtain ⟨buffer, hbuffer, hone⟩ := hkref a List.mem_cons_self
    rw [hailoVdmaClearMappedUserBufferList, List.foldlM_cons,
      hailoVdmaBufferPut_last hbuffer hone, ok_bind] at h
    rcases List.mem_cons.mp hmem with rfl | hmem
    · rw [clearMapped_of_notMem ha h, Function.update_self]
    · refine ih hmem hnodup (fun b hb => ?_) h
      have hne : b ≠ a := by
        rintro rfl
        exact ha hb
      rw [Function.update_of_ne hne]
      exact hkref b (List.mem_cons_of_mem _ hb)

end Put

section Steps
variable {kernel kernel' : KernelState n} {buffers : Nat → List Nat}

theorem BuffersOwned.attach (h : BuffersOwned kernel buffers) {filp : Nat} {lists : List Nat}
    (hrefers : RefersOnly lists (buffers filp) kernel kernel') : BuffersOwned kernel' buffers where
  owned := hrefers.mappedBuffers ▸ h.owned
  transferring := h.transferring.attach filp hrefers.transferring

theorem BuffersOwned.keep (h : BuffersOwned kernel buffers)
    (hrefers : RefersOnly [] [] kernel kernel') : BuffersOwned kernel' buffers := by
  have hweak : RefersOnly [] (buffers 0) kernel kernel' := hrefers.weaken
  exact h.attach hweak

theorem BuffersOwned.sameFiles {files files' : Nat → Option (HailoVdmaFileContext n)}
    (h : BuffersOwned kernel (buffersOf files)) (hsame : buffersOf files' = buffersOf files) :
    BuffersOwned kernel (buffersOf files') := hsame ▸ h

section Files
variable {s : SystemState n} {filp : Nat} {context : HailoVdmaFileContext n}

theorem buffersOwned_mapped (h : BuffersOwned s.kernel (buffersOf s.files))
    (hopen : s.files filp = some context) {address : Nat}
    (hfresh : s.kernel.buffers address = none) {buffer : HailoVdmaBuffer}
    (hkref : buffer.kref = 1) :
    BuffersOwned
      { s.kernel with buffers := Function.update s.kernel.buffers address (some buffer) }
      (Function.update (buffersOf s.files) filp (address :: context.mappedUserBufferList)) where
  owned := by
    rw [← ofFile_open HailoVdmaFileContext.mappedUserBufferList hopen]
    exact h.owned.alloc hfresh filp hkref
  transferring := by
    rw [← ofFile_open HailoVdmaFileContext.mappedUserBufferList hopen]
    exact h.transferring.update (fun _ _ ha => ha) fun _ _ ha _ => List.mem_cons_of_mem _ ha

theorem buffersOwned_unmapped (h : BuffersOwned s.kernel (buffersOf s.files))
    (hopen : s.files filp = some context) {address : Nat}
    (hmem : address ∈ context.mappedUserBufferList)
    (hidle : ∀ c, ¬ Transferring s.kernel c address) :
    BuffersOwned { s.kernel with buffers := Function.update s.kernel.buffers address none }
      (Function.update (buffersOf s.files) filp
        (context.mappedUserBufferList.erase address)) := by
  have hown : buffersOf s.files filp = context.mappedUserBufferList := ofFile_open _ hopen
  have hnodup := h.owned.nodup filp
  constructor
  · refine h.owned.free (hown ▸ hmem) (hown ▸ List.erase_sublist) ?_
    rw [← hown]
    exact hnodup.not_mem_erase
  · refine h.transferring.update (fun _ _ hb => hb) fun c b hb htransferring => ?_
    have hne : b ≠ address := by
      rintro rfl
      exact hidle c htransferring
    rw [← hown]
    exact (List.mem_erase_of_ne hne).mpr hb

theorem buffersOwned_closed {kernel' : KernelState n}
    (h : BuffersOwned kernel' (buffersOf s.files)) (hopen : s.files filp = some context)
    {buffers' : MappedBufferHeap} {descLists' : DescListHeap}
    (hput : hailoVdmaClearMappedUserBufferList context.mappedUserBufferList kernel'.buffers =
      .ok buffers')
    (hidle : ∀ c, ∀ address ∈ context.mappedUserBufferList, ¬ Transferring kernel' c address) :
    BuffersOwned { kernel' with buffers := buffers', descLists := descLists' }
      (Function.update (buffersOf s.files) filp []) where
  owned := by
    refine h.owned.freeAll fun address hmem => ?_
    rw [buffersOf, ofFile_open _ hopen] at hmem
    exact clearMapped_of_notMem hmem hput
  transferring := by
    refine h.transferring.update (fun _ _ hb => hb) fun c address hmem htransferring => ?_
    rw [buffersOf, ofFile_open _ hopen] at hmem
    exact absurd htransferring (hidle c address hmem)

/-- The file's reference is the last one. -/
theorem BuffersOwned.put (h : BuffersOwned s.kernel (buffersOf s.files))
    (hopen : s.files filp = some context) {address : Nat}
    (hmem : address ∈ context.mappedUserBufferList) :
    hailoVdmaBufferPut s.kernel.buffers address =
      .ok (Function.update s.kernel.buffers address none) := by
  have hown : buffersOf s.files filp = context.mappedUserBufferList := ofFile_open _ hopen
  obtain ⟨buffer, hbuffer, hkref⟩ := h.owned.present filp address (hown ▸ hmem)
  exact hailoVdmaBufferPut_last hbuffer hkref

theorem buffersOwned_step {s' : SystemState n} {request : Request n}
    (h : BuffersOwned s.kernel (buffersOf s.files)) (hfrees : FreesIdle s request)
    (heffect : Effect s request s') : BuffersOwned s'.kernel (buffersOf s'.files) := by
  cases heffect with
  | kept hrefers henabled hfiles => exact (h.keep hrefers).sameFiles hfiles.buffers
  | enabled hopen hfree =>
    exact (h.keep (refersOnly_enable _ _)).sameFiles (ofFile_context hopen rfl)
  | disabled hopen hdisables =>
    exact (h.keep hdisables.refers).sameFiles (ofFile_context hopen rfl)
  | @launched filp params regs context kernel' hopen hrefers henabled =>
    rw [← ofFile_open HailoVdmaFileContext.mappedUserBufferList hopen] at hrefers
    exact h.attach hrefers
  | mapped hopen hfresh handle buffer hkref =>
    rw [buffersOf, ofFile_update]
    exact buffersOwned_mapped h hopen hfresh hkref
  | unmapped hopen hfound hput =>
    have hmem := findMappedBuffer_mem hfound
    rw [h.put hopen hmem] at hput
    cases hput
    rw [buffersOf, ofFile_update]
    exact buffersOwned_unmapped h hopen hmem (hfrees _ _ hopen hfound)
  | created hopen hfresh handle listHandle descList =>
    exact BuffersOwned.sameFiles ⟨h.owned, h.transferring⟩ (ofFile_context hopen rfl)
  | released hopen hfind =>
    exact BuffersOwned.sameFiles ⟨h.owned, h.transferring⟩ (ofFile_context hopen rfl)
  | closed hopen hdisables hput =>
    rw [buffersOf, ofFile_update]
    refine buffersOwned_closed (h.keep hdisables.refers) hopen hput ?_
    intro c address hmem htransferring
    have hbefore :=
      (hdisables.refers.transferring c address htransferring).resolve_right List.not_mem_nil
    have hdisabled := hdisables.disabled_of_bit (hfrees _ hopen c address hmem hbefore)
    obtain ⟨t, ht, -⟩ := htransferring
    rw [hdisabled.ongoing] at ht
    cases ht

end Files

end Steps

section Runs
variable {vdmaHw : HailoVdmaHw} {memory : Fin n → HailoVdmaEngine} {s s' : SystemState n}
  {request : Request n} {ret : Int32}

/-- A request that frees the buffer of an ongoing transfer leaves it dangling. -/
theorem freesIdle_of_alive (h : BuffersOwned s.kernel (buffersOf s.files))
    (hhandle : handle vdmaHw s request = .ok (ret, s')) (halive : TransfersAlive s') :
    FreesIdle s request := by
  cases request with
  | bufferUnmap filp mappedHandle =>
    intro context address hopen hfound c htransferring
    rcases withFile_ok hhandle with ⟨hclosed, -⟩ | ⟨context', kernel', _, hopen', hrun, rfl⟩
    · rw [hclosed] at hopen
      cases hopen
    · obtain rfl : context' = context := Option.some.inj (hopen'.symm.trans hopen)
      rw [hailoVdmaBufferUnmapIoctl, hfound, ok_bind] at hrun
      simp only [h.put hopen (findMappedBuffer_mem hfound), ok_bind] at hrun
      cases hrun
      obtain ⟨buffer, hbuffer, -⟩ := halive.mapped c address htransferring
      simp at hbuffer
  | closeFile filp =>
    intro context hopen c address hmem htransferring
    rcases closeFile_ok hhandle with
      ⟨hclosed, -⟩ | ⟨context', kernel', buffers', hopen', hdisables, hput, rfl⟩
    · rw [hclosed] at hopen
      cases hopen
    · obtain rfl : context' = context := Option.some.inj (hopen'.symm.trans hopen)
      by_contra hbit
      have huntouched := hdisables.untouched c fun _ => Bool.not_eq_true _ ▸ hbit
      have hstill : Transferring kernel' c address := by
        rw [Transferring, huntouched]
        exact htransferring
      have hown : buffersOf s.files filp = context'.mappedUserBufferList := ofFile_open _ hopen
      have hkept := (h.keep hdisables.refers).owned
      have hfreed := clearMapped_of_mem hmem (hown ▸ hkept.nodup filp)
        (hown ▸ hkept.present filp) hput
      obtain ⟨buffer, hbuffer, -⟩ := halive.mapped c address hstill
      cases hfreed.symm.trans hbuffer
  | openFile => trivial
  | enableChannels => trivial
  | disableChannels => trivial
  | interruptsWait => trivial
  | launchTransfer => trivial
  | bufferMap => trivial
  | descListCreate => trivial
  | descListRelease => trivial
  | interrupt => trivial

/-- In every run in which buffers are freed only while no transfer refers to them, the
buffers of every ongoing transfer are alive; and the next request keeps it so exactly
when it frees only such buffers. -/
theorem transfersAlive_of_run
    (hrun : Relation.ReflTransGen (Steps vdmaHw FreesIdle) (initialState memory) s) :
    TransfersAlive s ∧ ∀ request ret s', AllocatesFresh s request →
      handle vdmaHw s request = .ok (ret, s') → (TransfersAlive s' ↔ FreesIdle s request) := by
  have hstep : ∀ s s' : SystemState n, BuffersOwned s.kernel (buffersOf s.files) →
      Steps vdmaHw FreesIdle s s' → BuffersOwned s'.kernel (buffersOf s'.files) := by
    rintro s s' h ⟨request, ret, hfresh, hfrees, hhandle⟩
    exact buffersOwned_step h hfrees (handle_effect hfresh hhandle)
  have howned := inv_of_run hstep hrun (buffersOwned_initialState memory)
  refine ⟨howned.alive, fun request ret s' hfresh hhandle => ⟨?_, ?_⟩⟩
  · exact freesIdle_of_alive howned hhandle
  · intro hfrees
    exact (buffersOwned_step howned hfrees (handle_effect hfresh hhandle)).alive

end Runs

theorem busyState_transferring : Transferring busyState.kernel (0, 0) 5 := by
  have hongoing : ongoing (channelAt busyState.kernel (0, 0)).ongoingTransfers =
      [⟨0, [⟨⟨5, [⟨65536, 64⟩]⟩, 64, 0, 5⟩], [0, 0], false⟩] := rfl
  rw [Transferring, hongoing]
  exact ⟨_, List.mem_singleton.mpr rfl, _, List.mem_singleton.mpr rfl, Or.inl rfl⟩

/-- The mapped buffer of a transfer under way. -/
theorem transfersAlive_of_run_busyState :
    ∃ buffer, busyState.kernel.buffers 5 = some buffer ∧ 1 ≤ buffer.kref := by
  have hacquires : ∀ (s : SystemState 1) (request : Request 1), Acquires request →
      FreesIdle s request := by
    intro s request hacquires
    cases request with
    | closeFile => cases hacquires
    | bufferUnmap => cases hacquires
    | _ => trivial
  exact (transfersAlive_of_run (busyState_run hacquires)).1.mapped (0, 0) 5 busyState_transferring

/-- Unmapping the buffer of a transfer under way returns 0 and frees it, and handling
the completion of the transfer syncs it. -/
theorem unmapBusy_dangles :
    ∃ s, Relation.ReflTransGen (Steps hailoPcieVdmaHw fun _ _ => True)
        (initialState idleMemory) s ∧
      Transferring s.kernel (0, 0) 5 ∧ s.kernel.buffers 5 = none ∧ ¬ TransfersAlive s ∧
      ∃ s', handle hailoPcieVdmaHw s (.interrupt 0 1) = .ok (0, s') ∧
        handle hailoPcieVdmaHw s' (.interruptsWait 1 (fun _ => 1) fun _ _ =>
          ⟨fun offset => if offset = 4 then 1 else 0, fun _ => 0⟩) =
          .error (.usedAfterFree .mappedBuffer 5) := by
  obtain ⟨s, hunmap, hengines, hfreed, hinterrupt⟩ : ∃ s,
      handle hailoPcieVdmaHw busyState (.bufferUnmap 1 1) = .ok (0, s) ∧
      s.kernel.engines = busyState.kernel.engines ∧ s.kernel.buffers 5 = none ∧
      ∃ s', handle hailoPcieVdmaHw s (.interrupt 0 1) = .ok (0, s') ∧
        handle hailoPcieVdmaHw s' (.interruptsWait 1 (fun _ => 1) fun _ _ =>
          ⟨fun offset => if offset = 4 then 1 else 0, fun _ => 0⟩) =
          .error (.usedAfterFree .mappedBuffer 5) := ⟨_, rfl, rfl, rfl, _, rfl, rfl⟩
  have hstep : Steps hailoPcieVdmaHw (fun _ _ => True) busyState s :=
    ⟨.bufferUnmap 1 1, 0, trivial, trivial, hunmap⟩
  have htransferring : Transferring s.kernel (0, 0) 5 := by
    rw [Transferring, channelAt, hengines]
    exact busyState_transferring
  refine ⟨s, (busyState_run fun _ _ _ => trivial).tail hstep, htransferring, hfreed,
    fun halive => ?_, hinterrupt⟩
  obtain ⟨buffer, hbuffer, -⟩ := halive.mapped (0, 0) 5 htransferring
  rw [hfreed] at hbuffer
  cases hbuffer

end HailortDrivers.BufferLifetime
