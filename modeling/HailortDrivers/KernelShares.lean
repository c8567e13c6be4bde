import HailortDrivers.BufferLifetime
import HailortDrivers.ChannelShares
import HailortDrivers.ListLifetime

/-! The state of the driver that one file sees: some channels, and the objects they refer to. The
requests of the file do the same on what is left of the kernel when only these are kept, and those
of other files leave it alone. -/
namespace HailortDrivers.KernelShares
open KernelExec VdmaTypes ChannelTransfers LaunchSteps OngoingRing VdmaEngine CompletionSteps
  EngineSteps DescriptorsListCreation VdmaMemory VdmaIoctl VdmaSystem SystemSteps OwnedObjects
  ListLifetime BufferLifetime RelatedResults ChannelShares

variable {n : Nat}

/-- The channels of an engine among those of `own`. -/
abbrev ownOn (own : Channel n → Prop) (e : Fin n) : ChannelIndex → Prop := fun i => own (e, i)

/-- References from the channels of `own` are to the given objects, and the others are not. -/
structure SharedOut (own : Channel n → Prop) (lists buffers : List Nat) (kernel : KernelState n) :
    Prop where
  attached : ∀ c address, Attached kernel c address → (own c ↔ address ∈ lists)
  transferring : ∀ c address, Transferring kernel c address → (own c ↔ address ∈ buffers)

/-- `alone` is what is left of the kernel's state when only the given objects are kept, apart from
channels that are not of `own`. -/
structure KernelAlike (own : Channel n → Prop) (lists buffers : List Nat)
    (kernel alone : KernelState n) : Prop where
  engines : ∀ e, SameChannels (ownOn own e) (kernel.engines e) (alone.engines e)
  descLists : alone.descLists = only lists kernel.descLists
  buffers : alone.buffers = only buffers kernel.buffers

/-- A step leaves the channels of `own` and the given objects alone. -/
structure LeavesAlone (own : Channel n → Prop) (lists buffers : List Nat)
    (kernel kernel' : KernelState n) : Prop where
  engines : ∀ e, SameChannels (ownOn own e) (kernel.engines e) (kernel'.engines e)
  descLists : only lists kernel'.descLists = only lists kernel.descLists
  buffers : only buffers kernel'.buffers = only buffers kernel.buffers

section Relations
variable {own : Channel n → Prop} {lists lists' buffers buffers' : List Nat}
  {kernel kernel' kernel'' alone : KernelState n}

theorem SharedOut.keep (h : SharedOut own lists buffers kernel)
    (hrefers : RefersOnly [] [] kernel kernel') : SharedOut own lists buffers kernel' where
  attached := fun c address hattached =>
    h.attached c address ((hrefers.attached c address hattached).resolve_right List.not_mem_nil)
  transferring := fun c address htransferring => h.transferring c address
    ((hrefers.transferring c address htransferring).resolve_right List.not_mem_nil)

/-- References shrink, and who owns what is left stays the same. -/
theorem SharedOut.relist (h : SharedOut own lists buffers kernel)
    (hattached : ∀ c a, Attached kernel' c a → Attached kernel c a ∧ (a ∈ lists' ↔ a ∈ lists))
    (htransferring : ∀ c a, Transferring kernel' c a →
      Transferring kernel c a ∧ (a ∈ buffers' ↔ a ∈ buffers)) :
    SharedOut own lists' buffers' kernel' where
  attached := by
    intro c a hc
    obtain ⟨hbefore, hmem⟩ := hattached c a hc
    rw [hmem]
    exact h.attached c a hbefore
  transferring := by
    intro c a hc
    obtain ⟨hbefore, hmem⟩ := htransferring c a hc
    rw [hmem]
    exact h.transferring c a hbefore

theorem SharedOut.attachesWithin (h : SharedOut own lists buffers kernel) (e : Fin n) :
    AttachesWithin (ownOn own e) lists (kernel.engines e) :=
  fun i hi address hattached => (h.attached (e, i) address hattached).mp hi

theorem SharedOut.attachesOutside (h : SharedOut own lists buffers kernel) (e : Fin n) :
    AttachesOutside (ownOn own e) lists (kernel.engines e) :=
  fun i hi address hattached hmem => hi ((h.attached (e, i) address hattached).mpr hmem)

theorem LeavesAlone.refl (kernel : KernelState n) : LeavesAlone own lists buffers kernel kernel :=
  ⟨fun _ => .refl _ _, rfl, rfl⟩

theorem LeavesAlone.trans (h : LeavesAlone own lists buffers kernel kernel')
    (h' : LeavesAlone own lists buffers kernel' kernel'') :
    LeavesAlone own lists buffers kernel kernel'' where
  engines := fun e => (h.engines e).trans (h'.engines e)
  descLists := h'.descLists.trans h.descLists
  buffers := h'.buffers.trans h.buffers

theorem KernelAlike.leave (h : KernelAlike own lists buffers kernel alone)
    (hleaves : LeavesAlone own lists buffers kernel kernel') :
    KernelAlike own lists buffers kernel' alone where
  engines := fun e => (hleaves.engines e).symm.trans (h.engines e)
  descLists := h.descLists.trans hleaves.descLists.symm
  buffers := h.buffers.trans hleaves.buffers.symm

theorem KernelAlike.setEngine (h : KernelAlike own lists buffers kernel alone) {e : Fin n}
    {engine engine' : HailoVdmaEngine} (hsame : SameChannels (ownOn own e) engine engine')
    (heap : DescListHeap) :
    KernelAlike own lists buffers (setEngine kernel e engine heap)
      (setEngine alone e engine' (only lists heap)) where
  engines := by
    intro e'
    by_cases he : e' = e
    · subst he
      rw [setEngine_self, setEngine_self]
      exact hsame
    · rw [setEngine_of_ne he, setEngine_of_ne he]
      exact h.engines e'
  descLists := rfl
  buffers := h.buffers

theorem leavesAlone_setEngine {e : Fin n} {engine : HailoVdmaEngine} {heap : DescListHeap}
    (hsame : SameChannels (ownOn own e) (kernel.engines e) engine)
    (honly : only lists heap = only lists kernel.descLists) :
    LeavesAlone own lists buffers kernel (setEngine kernel e engine heap) where
  engines := by
    intro e'
    by_cases he : e' = e
    · subst he
      rw [setEngine_self]
      exact hsame
    · rw [setEngine_of_ne he]
      exact .refl _ _
  descLists := honly
  buffers := rfl

end Relations

section Disabling
variable {own : Channel n → Prop} {lists buffers : List Nat} {bitmaps : Fin n → UInt32}
  {es : List (Fin n)} {kernel kernel' alone : KernelState n}

/-- One engine's turn keeps who refers to what. -/
theorem SharedOut.disableTurn (h : SharedOut own lists buffers kernel) {e : Fin n}
    {bitmap : UInt32} {engine : HailoVdmaEngine} {heap : DescListHeap}
    (hturn : hailoVdmaEngineDisableChannels (kernel.engines e) bitmap kernel.descLists =
      .ok (engine, heap)) :
    SharedOut own lists buffers
      (setEngine kernel e (hailoVdmaEngineClearChannelInterrupts engine bitmap) heap) := by
  have hsheds := disableChannels_sheds hturn
  exact h.keep (refersOnly_setEngine ⟨hsheds.attached, hsheds.transfers, hsheds.descLists⟩)

theorem disableEngines_alike (hown : ∀ e ∈ es, Within (ownOn own e) (bitmaps e))
    (hshared : SharedOut own lists buffers kernel)
    (h : KernelAlike own lists buffers kernel alone) :
    Related (KernelAlike own lists buffers) (disableEngines bitmaps es kernel)
      (disableEngines bitmaps es alone) := by
  induction es generalizing kernel alone with
  | nil => exact .ok h
  | cons e es ih =>
    have hbitmap := hown e List.mem_cons_self
    have hturn : Related (fun r r' => SameChannels (ownOn own e) r.1 r'.1 ∧ r'.2 = only lists r.2)
        (hailoVdmaEngineDisableChannels (kernel.engines e) (bitmaps e) kernel.descLists)
        (hailoVdmaEngineDisableChannels (alone.engines e) (bitmaps e) alone.descLists) := by
      rw [h.descLists]
      exact disableChannels_alike hbitmap ((h.engines e).unmarked (bitmaps e))
        (hshared.attachesWithin e)
    refine hturn.bind_ok ?_
    rintro ⟨engine, heap⟩ ⟨engine', heap'⟩ hok ⟨hsame, rfl⟩
    exact ih (fun e he => hown e (List.mem_cons_of_mem _ he)) (hshared.disableTurn hok)
      (h.setEngine (hsame.clear (bitmaps e)) heap)

theorem disableEngines_apart (hother : ∀ e ∈ es, Outside (ownOn own e) (bitmaps e))
    (hshared : SharedOut own lists buffers kernel)
    (h : disableEngines bitmaps es kernel = .ok kernel') :
    LeavesAlone own lists buffers kernel kernel' := by
  induction es generalizing kernel with
  | nil =>
    cases h
    exact .refl _
  | cons e es ih =>
    have hbitmap := hother e List.mem_cons_self
    have hattaches : AttachesOutside (ownOn own e) lists
        (unmarked (kernel.engines e) (bitmaps e)) := hshared.attachesOutside e
    obtain ⟨⟨engine, heap⟩, hturn, h⟩ := bind_ok h
    obtain ⟨hsame, honly⟩ := disableChannels_apart hbitmap hattaches hturn
    have hengine : SameChannels (ownOn own e) (kernel.engines e)
        (hailoVdmaEngineClearChannelInterrupts engine (bitmaps e)) :=
      ((sameChannels_unmarked hbitmap).trans hsame).trans (sameChannels_clear hbitmap)
    exact (leavesAlone_setEngine hengine honly).trans
      (ih (fun e he => hother e (List.mem_cons_of_mem _ he)) (hshared.disableTurn hturn) h)

end Disabling

section Waiting
variable {own : Channel n → Prop} {lists buffers : List Nat} {bitmaps : Nat → UInt32}
  {regs : Fin n → ChannelIndex → ChannelRegs} {es : List (Fin n)} {c c' : WaitCursor n}

theorem loadMappedBuffer_only {heap : MappedBufferHeap} {address : Nat} (h : address ∈ buffers) :
    loadMappedBuffer (only buffers heap) address = loadMappedBuffer heap address := by
  rw [loadMappedBuffer, loadMappedBuffer, only_of_mem h]

theorem transferDone_only {heap : MappedBufferHeap} {t : HailoOngoingTransfer}
    (h : ∀ buffer ∈ t.buffers, buffer.opaqueBuffer ∈ buffers) :
    transferDone (only buffers heap) t = transferDone heap t := by
  funext synced
  rw [transferDone, transferDone]
  generalize t.buffers = transferBuffers at h
  induction transferBuffers generalizing synced with
  | nil => rfl
  | cons buffer rest ih =>
    rw [List.foldlM_cons, List.foldlM_cons, loadMappedBuffer_only (h buffer List.mem_cons_self)]
    cases loadMappedBuffer heap buffer.opaqueBuffer with
    | error fault => rfl
    | ok mappedBuffer => exact ih _ fun b hb => h b (List.mem_cons_of_mem _ hb)

theorem SharedOut.callsAlike {kernel : KernelState n} (h : SharedOut own lists buffers kernel)
    (e : Fin n) :
    CallsAlike (transferDone kernel.buffers) (transferDone (only buffers kernel.buffers))
      (ownOn own e) (kernel.engines e) := by
  intro i hi t ht
  refine transferDone_only fun buffer hbuffer => ?_
  exact (h.transferring (e, i) buffer.opaqueBuffer ⟨t, ht, buffer, hbuffer, Or.inl rfl⟩).mp hi

/-- Two waits that agree on what they told so far. -/
structure WaitAlike (own : Channel n → Prop) (lists buffers : List Nat) (c c' : WaitCursor n) :
    Prop where
  kernel : KernelAlike own lists buffers c.kernel c'.kernel
  irqData : c'.irqData = c.irqData
  synced : c'.synced = c.synced

/-- The bitmap of each engine, which is looked up by the index that the engine carries. -/
def requested (bitmaps : Nat → UInt32) (kernel : KernelState n) (e : Fin n) : UInt32 :=
  bitmaps (kernel.engines e).index.toNat

/-- The state after an engine's turn of a wait. -/
def afterTurn (c : WaitCursor n) (e : Fin n) (filled : FillCursor (List ScatterEntry)) :
    WaitCursor n where
  kernel := setEngine c.kernel e filled.engine filled.heap
  irqData := filled.irqData
  synced := filled.done

theorem requested_afterTurn {e : Fin n} {filled : FillCursor (List ScatterEntry)}
    (hindex : filled.engine.index = (c.kernel.engines e).index) :
    requested bitmaps (afterTurn c e filled).kernel = requested bitmaps c.kernel := by
  funext e'
  rw [requested, requested, afterTurn]
  by_cases he : e' = e
  · rw [he, setEngine_self, hindex]
  · rw [setEngine_of_ne he]

theorem fillIrqData_index {σ : Type} {transferDone : HailoOngoingTransfer → σ → Exec σ}
    {irqData : List HailoVdmaInterruptsChannelData} {engine : HailoVdmaEngine} {bitmap : UInt32}
    {regs : ChannelIndex → ChannelRegs} {heap : DescListHeap} {done : σ} {ret : Int32}
    {c' : FillCursor σ}
    (h : hailoVdmaEngineFillIrqData transferDone irqData engine bitmap regs heap done =
      .ok (ret, c')) : c'.engine.index = engine.index := by
  obtain ⟨turns, hfills⟩ := fillChannels_fills h
  exact hfills.inv (I := fun c => c.engine.index = engine.index)
    (fun _ _ _ _ _ hinv _ _ _ => hinv) rfl

/-- One engine's turn of a wait keeps who refers to what. -/
theorem SharedOut.waitTurn (h : SharedOut own lists buffers c.kernel) {e : Fin n}
    {asked bitmap : UInt32} {ret : Int32} {filled : FillCursor (List ScatterEntry)}
    (hturn : hailoVdmaEngineFillIrqData (transferDone c.kernel.buffers) c.irqData
      (hailoVdmaEngineReadInterrupts (c.kernel.engines e) asked).2 bitmap (regs e)
      c.kernel.descLists c.synced = .ok (ret, filled)) :
    SharedOut own lists buffers (afterTurn c e filled).kernel := by
  have hsheds := fillIrqData_sheds hturn
  exact h.keep (refersOnly_setEngine ⟨hsheds.attached, hsheds.transfers, hsheds.descLists⟩)

/-- The channels of a wait's turn are among those that it asked for. -/
theorem within_read {ownEngine : ChannelIndex → Prop} {engine : HailoVdmaEngine}
    {bitmap : UInt32} (h : Within ownEngine bitmap) :
    Within ownEngine (hailoVdmaEngineReadInterrupts engine bitmap).1 := by
  intro i hbit
  rw [hailoVdmaEngineReadInterrupts, hailoTestBit_and, hailoTestBit_and, Bool.and_eq_true,
    Bool.and_eq_true] at hbit
  exact h i hbit.1.1

theorem outside_read {ownEngine : ChannelIndex → Prop} {engine : HailoVdmaEngine}
    {bitmap : UInt32} (h : Outside ownEngine bitmap) :
    Outside ownEngine (hailoVdmaEngineReadInterrupts engine bitmap).1 := by
  intro i hi
  rw [hailoVdmaEngineReadInterrupts, hailoTestBit_and, hailoTestBit_and, h i hi, Bool.false_and,
    Bool.false_and]

theorem waitEngines_alike (hown : ∀ e, Within (ownOn own e) (requested bitmaps c.kernel e))
    (hshared : SharedOut own lists buffers c.kernel) (h : WaitAlike own lists buffers c c') :
    Related (fun r r' => r'.1 = r.1 ∧ WaitAlike own lists buffers r.2 r'.2)
      (waitEngines bitmaps regs es c) (waitEngines bitmaps regs es c') := by
  induction es generalizing c c' with
  | nil => exact .ok ⟨rfl, h⟩
  | cons e es ih =>
    obtain ⟨hbitmap, hread⟩ := (h.kernel.engines e).readInterrupts (hown e)
    have hturn : Related (fun r r' => r'.1 = r.1 ∧ FillAlike (ownOn own e) lists r.2 r'.2)
        (hailoVdmaEngineFillIrqData (transferDone c.kernel.buffers) c.irqData
          (hailoVdmaEngineReadInterrupts (c.kernel.engines e) (requested bitmaps c.kernel e)).2
          (hailoVdmaEngineReadInterrupts (c.kernel.engines e) (requested bitmaps c.kernel e)).1
          (regs e) c.kernel.descLists c.synced)
        (hailoVdmaEngineFillIrqData (transferDone c'.kernel.buffers) c'.irqData
          (hailoVdmaEngineReadInterrupts (c'.kernel.engines e) (requested bitmaps c.kernel e)).2
          (hailoVdmaEngineReadInterrupts (c.kernel.engines e) (requested bitmaps c.kernel e)).1
          (regs e) c'.kernel.descLists c'.synced) := by
      rw [h.kernel.buffers]
      exact fillChannels_alike (within_read (hown e))
        ⟨hread, h.kernel.descLists, h.irqData, h.synced⟩ (hshared.attachesWithin e)
        (hshared.callsAlike e)
    rw [waitEngines, waitEngines]
    simp only [requested] at hbitmap hturn
    simp only [(h.kernel.engines e).index, hbitmap]
    refine hturn.bind_ok ?_
    rintro ⟨_, filled⟩ ⟨ret, filled'⟩ hok ⟨rfl, hfilled⟩
    have hafter : WaitAlike own lists buffers (afterTurn c e filled) (afterTurn c' e filled') := by
      refine ⟨?_, hfilled.irqData, hfilled.done⟩
      rw [afterTurn, afterTurn, hfilled.heap]
      exact h.kernel.setEngine hfilled.engine filled.heap
    have hshared' : SharedOut own lists buffers (afterTurn c e filled).kernel :=
      hshared.waitTurn hok
    have hread := fillIrqData_index hok
    have hindex : filled.engine.index = (c.kernel.engines e).index := hread
    have hown' : ∀ e', Within (ownOn own e')
        (requested bitmaps (afterTurn c e filled).kernel e') := by
      rw [requested_afterTurn hindex]
      exact hown
    change Related _
      (if ret < 0 then .ok (ret, afterTurn c e filled)
        else waitEngines bitmaps regs es (afterTurn c e filled))
      (if ret < 0 then .ok (ret, afterTurn c' e filled')
        else waitEngines bitmaps regs es (afterTurn c' e filled'))
    exact .ite Iff.rfl (fun _ => .ok ⟨rfl, hafter⟩) fun _ => ih hown' hshared' hafter

theorem waitEngines_apart (hother : ∀ e, Outside (ownOn own e) (requested bitmaps c.kernel e))
    (hshared : SharedOut own lists buffers c.kernel) {ret : Int32}
    (h : waitEngines bitmaps regs es c = .ok (ret, c')) :
    LeavesAlone own lists buffers c.kernel c'.kernel := by
  induction es generalizing c with
  | nil =>
    cases h
    exact .refl _
  | cons e es ih =>
    obtain ⟨⟨err, filled⟩, hturn, h⟩ := bind_ok h
    have hread : Outside (ownOn own e) (hailoVdmaEngineReadInterrupts (c.kernel.engines e)
        (requested bitmaps c.kernel e)).1 := outside_read (hother e)
    have hattaches : AttachesOutside (ownOn own e) lists (hailoVdmaEngineReadInterrupts
        (c.kernel.engines e) (requested bitmaps c.kernel e)).2 := hshared.attachesOutside e
    obtain ⟨hsame, honly⟩ := fillIrqData_apart hread hattaches hturn
    have hengine : SameChannels (ownOn own e) (c.kernel.engines e) filled.engine :=
      (sameChannels_clear hread).trans hsame
    have hleaves : LeavesAlone own lists buffers c.kernel (afterTurn c e filled).kernel :=
      leavesAlone_setEngine hengine honly
    simp only at h
    split at h
    · cases h
      exact hleaves
    · have hother' : ∀ e', Outside (ownOn own e')
          (requested bitmaps (afterTurn c e filled).kernel e') := by
        rw [requested_afterTurn hengine.index]
        exact hother
      exact hleaves.trans (ih hother' (hshared.waitTurn hturn) h)

theorem interruptsWait_alike {kernel alone : KernelState n}
    (hown : ∀ e, Within (ownOn own e) (requested bitmaps kernel e))
    (hshared : SharedOut own lists buffers kernel)
    (h : KernelAlike own lists buffers kernel alone) :
    Related (fun r r' => r'.1 = r.1 ∧ WaitAlike own lists buffers r.2 r'.2)
      (hailoVdmaInterruptsWaitIoctl kernel bitmaps regs)
      (hailoVdmaInterruptsWaitIoctl alone bitmaps regs) :=
  .ite Iff.rfl (fun _ => .ok ⟨rfl, h, rfl, rfl⟩) fun _ =>
    waitEngines_alike hown hshared ⟨h, rfl, rfl⟩

theorem interruptsWait_apart {kernel : KernelState n} {ret : Int32}
    (hother : ∀ e, Outside (ownOn own e) (requested bitmaps kernel e))
    (hshared : SharedOut own lists buffers kernel)
    (h : hailoVdmaInterruptsWaitIoctl kernel bitmaps regs = .ok (ret, c')) :
    LeavesAlone own lists buffers kernel c'.kernel := by
  rw [hailoVdmaInterruptsWaitIoctl] at h
  split at h
  · cases h
    exact .refl _
  · exact waitEngines_apart (c := ⟨kernel, [], []⟩) hother hshared h

end Waiting

/-- What two requests of one file return, and what they leave. -/
structure FileAlike (own : Channel n → Prop)
    (r r' : Int32 × KernelState n × HailoVdmaFileContext n) : Prop where
  ret : r'.1 = r.1
  context : r'.2.2 = r.2.2
  kernel : KernelAlike own (listAddresses r.2.2) r.2.2.mappedUserBufferList r.2.1 r'.2.1

section Enabling
variable {own : Channel n → Prop} {lists buffers : List Nat} {bitmaps : Fin n → UInt32}
  {kernel alone : KernelState n}

theorem enableIoctl_alike {context : HailoVdmaFileContext n}
    (hown : ∀ e, Within (ownOn own e) (bitmaps e))
    (h : KernelAlike own (listAddresses context) context.mappedUserBufferList kernel alone)
    (measure : Bool) :
    FileAlike own (hailoVdmaEnableChannelsIoctl kernel context bitmaps measure)
      (hailoVdmaEnableChannelsIoctl alone context bitmaps measure) := by
  have hsame : ∀ e, bitmaps e &&& (alone.engines e).enabledChannels =
      bitmaps e &&& (kernel.engines e).enabledChannels :=
    fun e => and_eq_of_within (hown e) (h.engines e).enabled
  simp only [hailoVdmaEnableChannelsIoctl, hsame]
  split
  · exact ⟨rfl, rfl, h⟩
  · exact ⟨rfl, rfl, fun e => (h.engines e).enable (bitmaps e) measure, h.descLists, h.buffers⟩

theorem enableIoctl_apart {context : HailoVdmaFileContext n}
    (hother : ∀ e, Outside (ownOn own e) (bitmaps e)) (measure : Bool) :
    LeavesAlone own lists buffers kernel
      (hailoVdmaEnableChannelsIoctl kernel context bitmaps measure).2.1 := by
  rw [hailoVdmaEnableChannelsIoctl]
  split
  · exact .refl _
  · exact ⟨fun e => sameChannels_enable (hother e) measure, rfl, rfl⟩

end Enabling

section Launching
variable {own : Channel n → Prop} {lists buffers : List Nat} {vdmaHw : HailoVdmaHw}
  {kernel kernel' alone : KernelState n} {context : HailoVdmaFileContext n}
  {params : HailoVdmaLaunchTransferParams} {regs : ChannelRegs}

theorem findMappedBuffer_only {heap : MappedBufferHeap} {p : HailoVdmaBuffer → Bool}
    {addresses : List Nat} (h : ∀ address ∈ addresses, address ∈ buffers) :
    findMappedBuffer (only buffers heap) p addresses = findMappedBuffer heap p addresses := by
  induction addresses with
  | nil => rfl
  | cons address addresses ih =>
    rw [findMappedBuffer, findMappedBuffer, loadMappedBuffer_only (h address List.mem_cons_self),
      ih fun a ha => h a (List.mem_cons_of_mem _ ha)]

theorem findTransferBuffer_only {heap : MappedBufferHeap} (direction : DmaDataDirection)
    (buffer : HailoVdmaTransferBuffer) :
    findTransferBuffer context (only context.mappedUserBufferList heap) direction buffer =
      findTransferBuffer context heap direction buffer := by
  rw [findTransferBuffer, findTransferBuffer]
  split
  · exact findMappedBuffer_only fun _ h => h
  · exact findMappedBuffer_only fun _ h => h
  · rfl

theorem mapTransferBuffers_only {heap : MappedBufferHeap} (direction : DmaDataDirection)
    (transferBuffers : List HailoVdmaTransferBuffer) :
    mapTransferBuffers context (only context.mappedUserBufferList heap) direction
      transferBuffers = mapTransferBuffers context heap direction transferBuffers := by
  induction transferBuffers with
  | nil => rfl
  | cons buffer rest ih =>
    rw [mapTransferBuffers, mapTransferBuffers, findTransferBuffer_only, ih]
    cases hfound : findTransferBuffer context heap direction buffer with
    | error fault => rfl
    | ok found =>
      cases found with
      | none => rfl
      | some address =>
        simp only [ok_bind, loadMappedBuffer_only (findTransferBuffer_mem hfound)]

theorem launchIoctl_alike
    (hown : ∀ c : Channel n, params.engineIndex.toNat = c.1 → params.channelIndex.toNat = c.2 →
      own c)
    (h : KernelAlike own (listAddresses context) context.mappedUserBufferList kernel alone) :
    Related (fun r r' => r'.1 = r.1 ∧
        KernelAlike own (listAddresses context) context.mappedUserBufferList r.2 r'.2)
      (hailoVdmaLaunchTransferIoctl vdmaHw kernel context params regs)
      (hailoVdmaLaunchTransferIoctl vdmaHw alone context params regs) := by
  rw [hailoVdmaLaunchTransferIoctl, hailoVdmaLaunchTransferIoctl]
  by_cases hengine : params.engineIndex.toNat < n
  · by_cases hchannel : params.channelIndex.toNat < maxVdmaChannelsPerEngine
    · have hc : own (⟨params.engineIndex.toNat, hengine⟩, ⟨params.channelIndex.toNat, hchannel⟩) :=
        hown _ rfl rfl
      have hsame := (h.engines ⟨params.engineIndex.toNat, hengine⟩).channels _ hc
      simp only [dif_pos hengine, dif_pos hchannel, hsame, h.buffers, mapTransferBuffers_only]
      refine .ite Iff.rfl (fun _ => .ok ⟨rfl, h⟩) fun _ => ?_
      cases hfind : hailoVdmaFindDescriptorsBuffer context params.descHandle with
      | none => exact .ok ⟨rfl, h⟩
      | some descriptors =>
        have hmem : AttachedWithin (listAddresses context) (some descriptors.descListAddress) := by
          rintro _ ⟨⟩
          exact List.mem_map_of_mem (findDescriptorsBuffer_mem hfind)
        refine .same_bind _ fun found => ?_
        cases found with
        | error err => exact .ok ⟨rfl, h⟩
        | ok mapped =>
          rw [h.descLists]
          simp only [loadDescList_only hmem]
          refine .same_bind _ fun descList => .same_bind _ fun result => .ok ⟨rfl, ?_⟩
          have hset := h.setEngine ((h.engines ⟨params.engineIndex.toNat, hengine⟩).setChannel
            ⟨params.channelIndex.toNat, hchannel⟩ result.2.1)
            (storeDescList kernel.descLists (some descriptors.descListAddress) result.2.2.1)
          exact ⟨hset.engines, (only_storeDescList hmem _).symm, rfl⟩
    · simp only [dif_pos hengine, dif_neg hchannel]
      exact .ok ⟨rfl, h⟩
  · simp only [dif_neg hengine]
    exact .ok ⟨rfl, h⟩

/-- A launch that was not turned down changes one channel and one list of the file. -/
theorem launchIoctl_outcome {ret : Int32}
    (h : hailoVdmaLaunchTransferIoctl vdmaHw kernel context params regs = .ok (ret, kernel')) :
    kernel' = kernel ∨ ∃ (c : Channel n) (channel : HailoVdmaChannel) (address : Nat)
      (descList : HailoVdmaDescriptorsList), params.engineIndex.toNat = c.1 ∧
      params.channelIndex.toNat = c.2 ∧ address ∈ listAddresses context ∧
      kernel' = setEngine kernel c.1 (setChannel (kernel.engines c.1) c.2 channel)
        (storeDescList kernel.descLists (some address) descList) := by
  unfold hailoVdmaLaunchTransferIoctl at h
  split at h
  · next hengine =>
    split at h
    · next hchannel =>
      simp only at h
      split at h
      · cases h
        exact Or.inl rfl
      · split at h
        · cases h
          exact Or.inl rfl
        · next descriptors hfind =>
          obtain ⟨mapped, -, h⟩ := bind_ok h
          cases mapped with
          | error err =>
            cases h
            exact Or.inl rfl
          | ok mapped =>
            obtain ⟨descList, -, h⟩ := bind_ok h
            obtain ⟨⟨ret', channel', descList', regs'⟩, -, h⟩ := bind_ok h
            cases h
            exact Or.inr ⟨(⟨_, hengine⟩, ⟨_, hchannel⟩), channel', descriptors.descListAddress,
              descList', rfl, rfl, List.mem_map_of_mem (findDescriptorsBuffer_mem hfind), rfl⟩
    · cases h
      exact Or.inl rfl
  · cases h
    exact Or.inl rfl

theorem launchIoctl_apart {ret : Int32}
    (hother : ∀ c : Channel n, params.engineIndex.toNat = c.1 →
      params.channelIndex.toNat = c.2 → ¬ own c)
    (hlists : ∀ address ∈ listAddresses context, address ∉ lists)
    (h : hailoVdmaLaunchTransferIoctl vdmaHw kernel context params regs = .ok (ret, kernel')) :
    LeavesAlone own lists buffers kernel kernel' := by
  rcases launchIoctl_outcome h with
    rfl | ⟨c, channel, address, descList, hengine, hchannel, hmem, rfl⟩
  · exact .refl _
  · exact leavesAlone_setEngine (sameChannels_setChannel (hother c hengine hchannel) channel)
      (only_update_of_notMem (hlists address hmem) _)

end Launching

section Objects
variable {own : Channel n → Prop} {lists buffers : List Nat} {kernel kernel' alone : KernelState n}
  {context context' : HailoVdmaFileContext n} {ret : Int32}

theorem bufferMapIoctl_alike {params : HailoVdmaBufferMapParams}
    {mapped : Except Int32 MappedMemory}
    (hfresh : ∀ memory, mapped = .ok memory → kernel.buffers memory.address = none)
    (h : KernelAlike own (listAddresses context) context.mappedUserBufferList kernel alone)
    (copied : Bool) :
    Related (FileAlike own) (hailoVdmaBufferMapIoctl kernel context params mapped copied)
      (hailoVdmaBufferMapIoctl alone context params mapped copied) := by
  unfold hailoVdmaBufferMapIoctl
  simp only
  refine .ite Iff.rfl (fun _ => .ok ⟨rfl, rfl, h⟩) fun _ => ?_
  cases mapped with
  | error err => exact .ok ⟨rfl, rfl, h⟩
  | ok memory =>
    have hfree : Function.update kernel.buffers memory.address none = kernel.buffers := by
      rw [← hfresh memory rfl, Function.update_eq_self]
    have hnone : alone.buffers memory.address = none := by
      rw [h.buffers]
      exact only_of_none (hfresh memory rfl)
    have hfree' : Function.update alone.buffers memory.address none = alone.buffers := by
      rw [← hnone, Function.update_eq_self]
    refine .ite Iff.rfl (fun _ => ?_) fun _ => ?_
    · -- the buffer of a failed copy is put, and its address is free again
      rw [hailoVdmaBufferPut_last (Function.update_self _ _ _) rfl,
        hailoVdmaBufferPut_last (Function.update_self _ _ _) rfl, ok_bind, ok_bind,
        Function.update_idem, Function.update_idem, hfree, hfree']
      exact .ok ⟨rfl, rfl, h⟩
    · refine .ok ⟨rfl, rfl, h.engines, h.descLists, ?_⟩
      rw [only_cons, h.buffers]

theorem bufferUnmapIoctl_alike (hnodup : context.mappedUserBufferList.Nodup)
    (hput : ∀ address ∈ context.mappedUserBufferList,
      ∃ buffer, kernel.buffers address = some buffer ∧ buffer.kref = 1)
    (h : KernelAlike own (listAddresses context) context.mappedUserBufferList kernel alone)
    (mappedHandle : UInt64) :
    Related (FileAlike own) (hailoVdmaBufferUnmapIoctl kernel context mappedHandle)
      (hailoVdmaBufferUnmapIoctl alone context mappedHandle) := by
  have hfind : hailoVdmaFindMappedBufferByHandle context alone.buffers mappedHandle =
      hailoVdmaFindMappedBufferByHandle context kernel.buffers mappedHandle := by
    rw [h.buffers]
    exact findMappedBuffer_only fun _ hmem => hmem
  rw [hailoVdmaBufferUnmapIoctl, hailoVdmaBufferUnmapIoctl, hfind]
  cases hfound : hailoVdmaFindMappedBufferByHandle context kernel.buffers mappedHandle with
  | error fault => exact .error fault
  | ok found =>
    cases found with
    | none => exact .ok ⟨rfl, rfl, h⟩
    | some address =>
      have hmem := findMappedBuffer_mem hfound
      obtain ⟨buffer, hbuffer, hkref⟩ := hput address hmem
      have hbuffer' : alone.buffers address = some buffer := by
        rw [h.buffers, only_of_mem hmem, hbuffer]
      simp only [ok_bind, hailoVdmaBufferPut_last hbuffer hkref,
        hailoVdmaBufferPut_last hbuffer' hkref]
      refine .ok ⟨rfl, rfl, h.engines, h.descLists, ?_⟩
      rw [only_free fun _ => hnodup.mem_erase_iff, h.buffers]

theorem descListCreateIoctl_alike {params : HailoDescListCreateParams} {address : Option Nat}
    {memory : Option (Nat → HailoVdmaDescriptor)}
    (h : KernelAlike own (listAddresses context) context.mappedUserBufferList kernel alone)
    (copied : Bool) :
    FileAlike own (hailoDescListCreateIoctl kernel context params address memory copied)
      (hailoDescListCreateIoctl alone context params address memory copied) := by
  unfold hailoDescListCreateIoctl
  split
  · exact ⟨rfl, rfl, h⟩
  · split
    · exact ⟨rfl, rfl, h⟩
    · cases address with
      | none => exact ⟨rfl, rfl, h⟩
      | some address =>
        simp only
        split
        · exact ⟨rfl, rfl, h⟩
        · split
          · exact ⟨rfl, rfl, h⟩
          · refine ⟨rfl, rfl, h.engines, ?_, h.buffers⟩
            rw [h.descLists]
            exact (only_cons _ _).symm

theorem descListReleaseIoctl_alike (hnodup : (listAddresses context).Nodup)
    (h : KernelAlike own (listAddresses context) context.mappedUserBufferList kernel alone)
    (descHandle : UInt64) :
    FileAlike own (hailoDescListReleaseIoctl kernel context descHandle)
      (hailoDescListReleaseIoctl alone context descHandle) := by
  rw [hailoDescListReleaseIoctl, hailoDescListReleaseIoctl]
  cases hfind : hailoVdmaFindDescriptorsBuffer context descHandle with
  | none => exact ⟨rfl, rfl, h⟩
  | some descriptors =>
    refine ⟨rfl, rfl, h.engines, ?_, h.buffers⟩
    have hmem := findDescriptorsBuffer_mem hfind
    rw [h.descLists]
    exact (only_free fun address => mem_erase_descriptors hnodup hmem address).symm

/-- Buffers with one reference each can be put one after the other. -/
theorem clearMapped_runs {addresses : List Nat} {heap : MappedBufferHeap}
    (hnodup : addresses.Nodup)
    (hput : ∀ address ∈ addresses, ∃ buffer, heap address = some buffer ∧ buffer.kref = 1) :
    ∃ heap', hailoVdmaClearMappedUserBufferList addresses heap = .ok heap' := by
  induction addresses generalizing heap with
  | nil => exact ⟨heap, rfl⟩
  | cons address addresses ih =>
    obtain ⟨hnotMem, hnodup⟩ := List.nodup_cons.mp hnodup
    obtain ⟨buffer, hbuffer, hkref⟩ := hput address List.mem_cons_self
    rw [hailoVdmaClearMappedUserBufferList, List.foldlM_cons,
      hailoVdmaBufferPut_last hbuffer hkref, ok_bind]
    refine ih hnodup fun other hmem => ?_
    rw [Function.update_of_ne]
    · exact hput other (List.mem_cons_of_mem _ hmem)
    · rintro rfl
      exact hnotMem hmem

/-- Closing its file leaves nothing of what the file had. -/
theorem fileContextFinalize_alike
    (hown : ∀ e, Within (ownOn own e) (context.enabledChannelsBitmap e))
    (hshared : SharedOut own (listAddresses context) context.mappedUserBufferList kernel)
    (hnodup : context.mappedUserBufferList.Nodup)
    (hput : ∀ address ∈ context.mappedUserBufferList,
      ∃ buffer, kernel.buffers address = some buffer ∧ buffer.kref = 1)
    (h : KernelAlike own (listAddresses context) context.mappedUserBufferList kernel alone) :
    Related (KernelAlike own [] []) (hailoVdmaFileContextFinalize kernel context)
      (hailoVdmaFileContextFinalize alone context) := by
  rw [hailoVdmaFileContextFinalize, hailoVdmaFileContextFinalize]
  refine (disableEngines_alike (fun e _ => hown e) hshared h).bind_ok ?_
  intro kernel₁ alone₁ hok h₁
  have hdisables := disableEngines_disables ((List.nodup_finRange n).filter _) hok
  have hput₁ : ∀ address ∈ context.mappedUserBufferList,
      ∃ buffer, kernel₁.buffers address = some buffer ∧ buffer.kref = 1 := by
    rw [hdisables.refers.mappedBuffers]
    exact hput
  have hput₁' : ∀ address ∈ context.mappedUserBufferList,
      ∃ buffer, alone₁.buffers address = some buffer ∧ buffer.kref = 1 := by
    intro address hmem
    rw [h₁.buffers, only_of_mem hmem]
    exact hput₁ address hmem
  obtain ⟨buffers', hclear⟩ := clearMapped_runs hnodup hput₁
  obtain ⟨buffers'', hclear'⟩ := clearMapped_runs hnodup hput₁'
  rw [hclear, hclear']
  refine .ok ⟨h₁.engines, ?_, ?_⟩
  · funext address
    by_cases hmem : address ∈ listAddresses context
    · exact clearDescriptors_of_mem _ _ hmem
    · refine (clearDescriptors_of_notMem _ _ hmem).trans ?_
      rw [h₁.descLists, only, if_neg hmem]
      rfl
  · funext address
    by_cases hmem : address ∈ context.mappedUserBufferList
    · exact clearMapped_of_mem hmem hnodup hput₁' hclear'
    · refine (clearMapped_of_notMem hmem hclear').trans ?_
      rw [h₁.buffers, only, if_neg hmem]
      rfl

theorem fileContextFinalize_apart
    (hother : ∀ e, Outside (ownOn own e) (context.enabledChannelsBitmap e))
    (hshared : SharedOut own lists buffers kernel)
    (hlists : ∀ address ∈ lists, address ∉ listAddresses context)
    (hbuffers : ∀ address ∈ buffers, address ∉ context.mappedUserBufferList)
    (h : hailoVdmaFileContextFinalize kernel context = .ok kernel') :
    LeavesAlone own lists buffers kernel kernel' := by
  obtain ⟨kernel₁, hdisable, h⟩ := bind_ok h
  obtain ⟨buffers', hclear, h⟩ := bind_ok h
  cases h
  have hleaves : LeavesAlone own lists buffers kernel kernel₁ :=
    disableEngines_apart (fun e _ => hother e) hshared hdisable
  refine hleaves.trans ⟨fun e => .refl _ _, ?_, ?_⟩
  · exact only_congr fun address hmem => clearDescriptors_of_notMem _ _ (hlists address hmem)
  · exact only_congr fun address hmem => clearMapped_of_notMem (hbuffers address hmem) hclear

theorem bufferMapIoctl_apart {params : HailoVdmaBufferMapParams}
    {mapped : Except Int32 MappedMemory} {copied : Bool}
    (hfresh : ∀ memory, mapped = .ok memory → memory.address ∉ buffers)
    (h : hailoVdmaBufferMapIoctl kernel context params mapped copied =
      .ok (ret, kernel', context')) : LeavesAlone own lists buffers kernel kernel' := by
  unfold hailoVdmaBufferMapIoctl at h
  simp only at h
  split at h
  · cases h
    exact .refl _
  · cases mapped with
    | error err =>
      cases h
      exact .refl _
    | ok memory =>
      have hmem := hfresh memory rfl
      simp only at h
      split at h
      · rw [hailoVdmaBufferPut_last (Function.update_self _ _ _) rfl, ok_bind] at h
        cases h
        refine ⟨fun e => .refl _ _, rfl, ?_⟩
        rw [only_update_of_notMem hmem, only_update_of_notMem hmem]
      · cases h
        exact ⟨fun e => .refl _ _, rfl, only_update_of_notMem hmem _⟩

theorem bufferUnmapIoctl_apart {mappedHandle : UInt64}
    (hbuffers : ∀ address ∈ context.mappedUserBufferList, address ∉ buffers)
    (h : hailoVdmaBufferUnmapIoctl kernel context mappedHandle = .ok (ret, kernel', context')) :
    LeavesAlone own lists buffers kernel kernel' := by
  obtain ⟨found, hfound, h⟩ := bind_ok h
  cases found with
  | none =>
    cases h
    exact .refl _
  | some address =>
    obtain ⟨buffers', hput, h⟩ := bind_ok h
    cases h
    refine ⟨fun e => .refl _ _, rfl, only_congr fun other hmem => bufferPut_of_ne ?_ hput⟩
    rintro rfl
    exact hbuffers other (findMappedBuffer_mem hfound) hmem

theorem descListCreateIoctl_apart {params : HailoDescListCreateParams} {address : Option Nat}
    {memory : Option (Nat → HailoVdmaDescriptor)} {copied : Bool}
    (hfresh : ∀ a, address = some a → a ∉ lists) :
    LeavesAlone own lists buffers kernel
      (hailoDescListCreateIoctl kernel context params address memory copied).2.1 := by
  unfold hailoDescListCreateIoctl
  split
  · exact .refl _
  · split
    · exact .refl _
    · cases address with
      | none => exact .refl _
      | some address =>
        simp only
        split
        · exact .refl _
        · split
          · exact .refl _
          · exact ⟨fun e => .refl _ _, only_update_of_notMem (hfresh address rfl) _, rfl⟩

theorem descListReleaseIoctl_apart (hlists : ∀ address ∈ listAddresses context, address ∉ lists)
    (descHandle : UInt64) :
    LeavesAlone own lists buffers kernel
      (hailoDescListReleaseIoctl kernel context descHandle).2.1 := by
  rw [hailoDescListReleaseIoctl]
  cases hfind : hailoVdmaFindDescriptorsBuffer context descHandle with
  | none => exact .refl _
  | some descriptors =>
    have hmem := hlists _ (List.mem_map_of_mem (findDescriptorsBuffer_mem hfind))
    exact ⟨fun e => .refl _ _, only_update_of_notMem hmem _, rfl⟩

end Objects

end HailortDrivers.KernelShares
