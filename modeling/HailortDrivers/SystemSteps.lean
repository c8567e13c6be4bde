import HailortDrivers.VdmaSystem

/-! What a request can do: which references channels and transfers keep or gain, which
objects come and go, and whose channels are enabled. Every way through `handle` is one
of the effects below. -/
namespace HailortDrivers.SystemSteps
open KernelExec VdmaTypes ChannelTransfers LaunchSteps OngoingRing VdmaEngine CompletionSteps
  EngineSteps VdmaMemory VdmaIoctl VdmaSystem

/-- The same descriptors lists are allocated. -/
def SameAllocated (heap heap' : DescListHeap) : Prop :=
  ∀ address, (heap' address).isSome = (heap address).isSome

theorem sameAllocated_heapCleared (heap : DescListHeap) (lastDescList : Option Nat)
    (ts : List HailoOngoingTransfer) :
    SameAllocated heap (heapCleared heap lastDescList ts) := by
  intro address
  by_cases h : lastDescList = some address
  · rw [h, heapCleared_self, Option.isSome_map]
  · rw [heapCleared_of_ne h]

theorem sameAllocated_storeDescList {heap : DescListHeap} {address : Nat}
    {descList : HailoVdmaDescriptorsList} (h : heap address = some descList)
    (descList' : HailoVdmaDescriptorsList) :
    SameAllocated heap (storeDescList heap (some address) descList') := by
  intro other
  rw [storeDescList]
  by_cases hother : other = address
  · rw [hother, Function.update_self, h, Option.isSome_some, Option.isSome_some]
  · rw [Function.update_of_ne hother]

/-- Channels lose references and gain none. -/
structure EngineSheds (engine engine' : HailoVdmaEngine) (heap heap' : DescListHeap) : Prop where
  attached : ∀ i a, (engine'.channels i).lastDescList = some a →
    (engine.channels i).lastDescList = some a
  transfers : ∀ i, ∀ t ∈ ongoing (engine'.channels i).ongoingTransfers,
    t ∈ ongoing (engine.channels i).ongoingTransfers
  descLists : SameAllocated heap heap'

theorem EngineSheds.refl (engine : HailoVdmaEngine) (heap : DescListHeap) :
    EngineSheds engine engine heap heap :=
  ⟨fun _ _ h => h, fun _ _ h => h, fun _ => rfl⟩

/-- One more channel lost references. -/
theorem EngineSheds.setChannel {engine₀ engine : HailoVdmaEngine}
    {heap₀ heap heap' : DescListHeap} {i : ChannelIndex} {channel : HailoVdmaChannel}
    (h : EngineSheds engine₀ engine heap₀ heap)
    (hattached : ∀ a, channel.lastDescList = some a →
      (engine.channels i).lastDescList = some a)
    (htransfers : ∀ t ∈ ongoing channel.ongoingTransfers,
      t ∈ ongoing (engine.channels i).ongoingTransfers)
    (hheap : SameAllocated heap heap') :
    EngineSheds engine₀ (EngineSteps.setChannel engine i channel) heap₀ heap' where
  attached := by
    intro j a ha
    by_cases hji : j = i
    · rw [hji, setChannel_self] at ha
      rw [hji]
      exact h.attached i a (hattached a ha)
    · rw [setChannel_of_ne engine hji] at ha
      exact h.attached j a ha
  transfers := by
    intro j t ht
    by_cases hji : j = i
    · rw [hji, setChannel_self] at ht
      rw [hji]
      exact h.transfers i t (htransfers t ht)
    · rw [setChannel_of_ne engine hji] at ht
      exact h.transfers j t ht
  descLists := fun address => (hheap address).trans (h.descLists address)

theorem disableChannels_sheds {bitmap : UInt32} {is : List ChannelIndex}
    {engine engine' : HailoVdmaEngine} {heap heap' : DescListHeap}
    (h : disableChannels bitmap is engine heap = .ok (engine', heap')) :
    EngineSheds engine engine' heap heap' := by
  refine disableChannels_inv (I := fun e hp => EngineSheds engine e heap hp) ?_ h (.refl _ _)
  intro e hp i channel' hp' hinv _ hdisable
  obtain ⟨hchannel, hongoing, rfl⟩ := disableChannel_ok hdisable
  refine hinv.setChannel ?_ ?_ (sameAllocated_heapCleared _ _ _)
  · intro a ha
    rw [hchannel] at ha
    cases ha
  · intro t ht
    rw [hongoing] at ht
    cases ht

theorem disableChannels_enabledChannels {bitmap : UInt32} {is : List ChannelIndex}
    {engine engine' : HailoVdmaEngine} {heap heap' : DescListHeap}
    (h : disableChannels bitmap is engine heap = .ok (engine', heap')) :
    engine'.enabledChannels = engine.enabledChannels :=
  disableChannels_inv (I := fun e _ => e.enabledChannels = engine.enabledChannels)
    (fun _ _ _ _ _ hinv _ _ => hinv) h rfl

section Fill
variable {σ : Type} {transferDone : HailoOngoingTransfer → σ → Exec σ}
  {irqData : List HailoVdmaInterruptsChannelData} {engine : HailoVdmaEngine} {bitmap : UInt32}
  {regs : ChannelIndex → ChannelRegs} {heap : DescListHeap} {done : σ} {ret : Int32}
  {c' : FillCursor σ}

theorem fillIrqData_sheds
    (h : hailoVdmaEngineFillIrqData transferDone irqData engine bitmap regs heap done =
      .ok (ret, c')) : EngineSheds engine c'.engine heap c'.heap := by
  obtain ⟨turns, hfills⟩ := fillChannels_fills h
  refine hfills.inv (I := fun c => EngineSheds engine c.engine heap c.heap) ?_ (.refl _ _)
  intro c i data removed cc hinv _ _ hcompletes
  have hsame := hcompletes.sameChannel
  have hongoing := hcompletes.ongoing_eq
  refine hinv.setChannel ?_ ?_ ?_
  · intro a ha
    exact hsame.lastDescList.symm.trans ha
  · intro t ht
    exact hongoing ▸ List.mem_append_right removed ht
  · exact hcompletes.heap_eq ▸ sameAllocated_heapCleared _ _ _

theorem fillIrqData_enabledChannels
    (h : hailoVdmaEngineFillIrqData transferDone irqData engine bitmap regs heap done =
      .ok (ret, c')) : c'.engine.enabledChannels = engine.enabledChannels := by
  obtain ⟨turns, hfills⟩ := fillChannels_fills h
  exact hfills.inv (I := fun c => c.engine.enabledChannels = engine.enabledChannels)
    (fun _ _ _ _ _ hinv _ _ _ => hinv) rfl

end Fill

variable {n : Nat}

/-- A channel of the board. -/
abbrev Channel (n : Nat) := Fin n × ChannelIndex

def channelAt (kernel : KernelState n) (c : Channel n) : HailoVdmaChannel :=
  (kernel.engines c.1).channels c.2

/-- The channel refers to the descriptors list at the address. -/
def Attached (kernel : KernelState n) (c : Channel n) (address : Nat) : Prop :=
  (channelAt kernel c).lastDescList = some address

/-- An ongoing transfer of the channel refers to the mapped buffer at the address. -/
def Transferring (kernel : KernelState n) (c : Channel n) (address : Nat) : Prop :=
  ∃ t ∈ ongoing (channelAt kernel c).ongoingTransfers, ∃ buffer ∈ t.buffers,
    address = buffer.opaqueBuffer ∨ address = buffer.sgTable.embeddedIn

/-- References after a step were there before or are to the given objects. -/
structure RefersOnly (lists buffers : List Nat) (kernel kernel' : KernelState n) : Prop where
  attached : ∀ c a, Attached kernel' c a → Attached kernel c a ∨ a ∈ lists
  transferring : ∀ c b, Transferring kernel' c b → Transferring kernel c b ∨ b ∈ buffers
  descLists : SameAllocated kernel.descLists kernel'.descLists
  mappedBuffers : kernel'.buffers = kernel.buffers

def SameEnabled (kernel kernel' : KernelState n) : Prop :=
  ∀ e, (kernel'.engines e).enabledChannels = (kernel.engines e).enabledChannels

section Kernel
variable {lists buffers : List Nat} {kernel kernel' kernel'' : KernelState n}

theorem RefersOnly.refl (kernel : KernelState n) : RefersOnly lists buffers kernel kernel :=
  ⟨fun _ _ => Or.inl, fun _ _ => Or.inl, fun _ => rfl, rfl⟩

theorem RefersOnly.weaken (h : RefersOnly [] [] kernel kernel') :
    RefersOnly lists buffers kernel kernel' where
  attached := fun c a ha => Or.inl ((h.attached c a ha).resolve_right List.not_mem_nil)
  transferring := fun c b hb => Or.inl ((h.transferring c b hb).resolve_right List.not_mem_nil)
  descLists := h.descLists
  mappedBuffers := h.mappedBuffers

theorem RefersOnly.trans (h : RefersOnly lists buffers kernel kernel')
    (h' : RefersOnly lists buffers kernel' kernel'') :
    RefersOnly lists buffers kernel kernel'' where
  attached := fun c a ha => (h'.attached c a ha).elim (h.attached c a) Or.inr
  transferring := fun c b hb => (h'.transferring c b hb).elim (h.transferring c b) Or.inr
  descLists := fun address => (h'.descLists address).trans (h.descLists address)
  mappedBuffers := h'.mappedBuffers.trans h.mappedBuffers

/-- One engine and the lists changed. -/
def setEngine (kernel : KernelState n) (e : Fin n) (engine : HailoVdmaEngine)
    (descLists : DescListHeap) : KernelState n :=
  { kernel with
    engines := Function.update kernel.engines e engine
    descLists := descLists }

theorem setEngine_self (e : Fin n) (engine : HailoVdmaEngine) (heap : DescListHeap) :
    (setEngine kernel e engine heap).engines e = engine := Function.update_self _ _ _

theorem setEngine_of_ne {e e' : Fin n} (h : e' ≠ e) (engine : HailoVdmaEngine)
    (heap : DescListHeap) :
    (setEngine kernel e engine heap).engines e' = kernel.engines e' :=
  Function.update_of_ne h _ _

/-- Channels that lose references on every engine. -/
theorem refersOnly_of_sheds {engines' : Fin n → HailoVdmaEngine} {descLists' : DescListHeap}
    (hattached : ∀ e i a, ((engines' e).channels i).lastDescList = some a →
      ((kernel.engines e).channels i).lastDescList = some a)
    (htransfers : ∀ e i, ∀ t ∈ ongoing ((engines' e).channels i).ongoingTransfers,
      t ∈ ongoing ((kernel.engines e).channels i).ongoingTransfers)
    (hheap : SameAllocated kernel.descLists descLists') :
    RefersOnly lists buffers kernel
      { kernel with engines := engines', descLists := descLists' } where
  attached := fun c a ha => Or.inl (hattached c.1 c.2 a ha)
  transferring := by
    rintro c b ⟨t, ht, hb⟩
    exact Or.inl ⟨t, htransfers c.1 c.2 t ht, hb⟩
  descLists := hheap
  mappedBuffers := rfl

theorem refersOnly_setEngine {e : Fin n} {engine' : HailoVdmaEngine} {heap' : DescListHeap}
    (h : EngineSheds (kernel.engines e) engine' kernel.descLists heap') :
    RefersOnly lists buffers kernel (setEngine kernel e engine' heap') := by
  refine refersOnly_of_sheds ?_ ?_ h.descLists
  · intro e' i a ha
    by_cases he : e' = e
    · rw [he, Function.update_self] at ha
      rw [he]
      exact h.attached i a ha
    · rw [Function.update_of_ne he] at ha
      exact ha
  · intro e' i t ht
    by_cases he : e' = e
    · rw [he, Function.update_self] at ht
      rw [he]
      exact h.transfers i t ht
    · rw [Function.update_of_ne he] at ht
      exact ht

theorem channelAt_setChannel {e : Fin n} {i : ChannelIndex} {channel : HailoVdmaChannel}
    {heap : DescListHeap} (c : Channel n) :
    channelAt (setEngine kernel e (setChannel (kernel.engines e) i channel) heap) c =
      if c = (e, i) then channel else channelAt kernel c := by
  obtain ⟨e', i'⟩ := c
  rw [channelAt, channelAt]
  by_cases he : e' = e
  · rw [he, setEngine_self]
    by_cases hi : i' = i
    · rw [hi, setChannel_self, if_pos rfl]
    · rw [setChannel_of_ne _ hi, if_neg fun h => hi (Prod.mk.inj h).2]
  · rw [setEngine_of_ne he, if_neg fun h => he (Prod.mk.inj h).1]

/-- One channel gained references, to the given objects at most. -/
theorem refersOnly_setChannel {e : Fin n} {i : ChannelIndex} {channel : HailoVdmaChannel}
    {heap' : DescListHeap}
    (hattached : ∀ a, channel.lastDescList = some a →
      (channelAt kernel (e, i)).lastDescList = some a ∨ a ∈ lists)
    (htransfers : ∀ t ∈ ongoing channel.ongoingTransfers,
      t ∈ ongoing (channelAt kernel (e, i)).ongoingTransfers ∨
      ∀ buffer ∈ t.buffers, buffer.opaqueBuffer ∈ buffers ∧
        buffer.sgTable.embeddedIn = buffer.opaqueBuffer)
    (hheap : SameAllocated kernel.descLists heap') :
    RefersOnly lists buffers kernel
      (setEngine kernel e (setChannel (kernel.engines e) i channel) heap') where
  attached := by
    intro c a ha
    rw [Attached, channelAt_setChannel] at ha
    split at ha
    · next hc =>
      rw [hc]
      exact hattached a ha
    · exact Or.inl ha
  transferring := by
    rintro c b ⟨t, ht, buffer, hbuffer, hb⟩
    rw [channelAt_setChannel] at ht
    split at ht
    · next hc =>
      rw [hc]
      rcases htransfers t ht with hold | hnew
      · exact Or.inl ⟨t, hold, buffer, hbuffer, hb⟩
      · obtain ⟨hmem, hsame⟩ := hnew buffer hbuffer
        rw [hsame, or_self] at hb
        exact Or.inr (hb ▸ hmem)
    · exact Or.inl ⟨t, ht, buffer, hbuffer, hb⟩
  descLists := hheap
  mappedBuffers := rfl

theorem refersOnly_enable (bitmaps : Fin n → UInt32) (measure : Bool) :
    RefersOnly [] [] kernel { kernel with
      engines := fun e =>
        hailoVdmaEngineEnableChannels (kernel.engines e) (bitmaps e) measure } := by
  refine refersOnly_of_sheds ?_ ?_ fun _ => rfl
  · intro e i a ha
    simp only [hailoVdmaEngineEnableChannels] at ha
    split at ha
    · exact ha
    · exact ha
  · intro e i t ht
    simp only [hailoVdmaEngineEnableChannels] at ht
    split at ht
    · exact ht
    · exact ht

/-- What disabling the bitmaps on some engines does. -/
structure Disables (bitmaps : Fin n → UInt32) (es : List (Fin n))
    (kernel kernel' : KernelState n) : Prop where
  refers : RefersOnly [] [] kernel kernel'
  enabledChannels : ∀ e, (kernel'.engines e).enabledChannels =
    if e ∈ es then (kernel.engines e).enabledChannels &&& ~~~(bitmaps e)
    else (kernel.engines e).enabledChannels
  untouched : ∀ c : Channel n, (c.1 ∈ es → hailoTestBit c.2 (bitmaps c.1) = false) →
    channelAt kernel' c = channelAt kernel c
  disabled : ∀ c : Channel n, c.1 ∈ es → hailoTestBit c.2 (bitmaps c.1) = true →
    Disabled (channelAt kernel' c)

theorem disableEngines_disables {bitmaps : Fin n → UInt32} {es : List (Fin n)}
    (hnodup : es.Nodup) (h : disableEngines bitmaps es kernel = .ok kernel') :
    Disables bitmaps es kernel kernel' := by
  induction es generalizing kernel with
  | nil =>
    cases h
    exact ⟨.refl _, fun _ => rfl, fun _ _ => rfl, fun _ hmem => absurd hmem List.not_mem_nil⟩
  | cons e es ih =>
    obtain ⟨⟨engine, heap⟩, hdisable, h⟩ := bind_ok h
    obtain ⟨he, hnodup⟩ := List.nodup_cons.mp hnodup
    have hrest := ih hnodup h
    have hsheds := disableChannels_sheds hdisable
    have hturn : RefersOnly [] [] kernel (setEngine kernel e
        (hailoVdmaEngineClearChannelInterrupts engine (bitmaps e)) heap) :=
      refersOnly_setEngine ⟨hsheds.attached, hsheds.transfers, hsheds.descLists⟩
    -- the other engines are as before this turn, and this one as the turn left it
    have hself : ∀ i, channelAt kernel' (e, i) = engine.channels i := by
      intro i
      rw [hrest.untouched (e, i) fun hmem => absurd hmem he]
      simp only [channelAt, Function.update_self, hailoVdmaEngineClearChannelInterrupts]
    refine ⟨hturn.trans hrest.refers, ?_, ?_, ?_⟩
    · intro e'
      rw [hrest.enabledChannels e']
      by_cases hee : e' = e
      · simp only [hee, he, List.mem_cons_self, Function.update_self, if_false, if_true]
        exact disableChannels_enabledChannels hdisable
      · simp only [List.mem_cons, hee, Function.update_of_ne hee, false_or]
    · rintro ⟨e', i⟩ hc
      by_cases hee : e' = e
      · rw [hee, hself]
        have hbit : hailoTestBit i (bitmaps e) = false := hee ▸ hc (hee ▸ List.mem_cons_self)
        have huntouched := disableChannels_untouched hbit hdisable
        exact huntouched
      · rw [hrest.untouched (e', i) fun hmem => hc (List.mem_cons_of_mem _ hmem)]
        simp only [channelAt, Function.update_of_ne hee]
    · rintro ⟨e', i⟩ hmem hbit
      by_cases hee : e' = e
      · rw [hee, hself]
        exact disableChannels_disabled (List.mem_finRange i) (hee ▸ hbit) hdisable
      · exact hrest.disabled (e', i) ((List.mem_cons.mp hmem).resolve_left hee) hbit

/-- The engines that closing a file disables channels of. -/
abbrev enabledEngines (bitmaps : Fin n → UInt32) : List (Fin n) :=
  (List.finRange n).filter fun e => bitmaps e ≠ 0

theorem Disables.disabled_of_bit {bitmaps : Fin n → UInt32}
    (h : Disables bitmaps (enabledEngines bitmaps) kernel kernel') {c : Channel n}
    (hbit : hailoTestBit c.2 (bitmaps c.1) = true) : Disabled (channelAt kernel' c) := by
  refine h.disabled c (List.mem_filter.mpr ⟨List.mem_finRange _, ?_⟩) hbit
  rw [decide_eq_true_eq]
  intro hzero
  rw [hzero, hailoTestBit_zero] at hbit
  cases hbit

theorem waitEngines_ok {bitmaps : Nat → UInt32} {regs : Fin n → ChannelIndex → ChannelRegs}
    {es : List (Fin n)} {c c' : WaitCursor n} {ret : Int32}
    (h : waitEngines bitmaps regs es c = .ok (ret, c')) :
    RefersOnly [] [] c.kernel c'.kernel ∧ SameEnabled c.kernel c'.kernel := by
  induction es generalizing c with
  | nil =>
    cases h
    exact ⟨.refl _, fun _ => rfl⟩
  | cons e es ih =>
    obtain ⟨⟨err, filled⟩, hfill, h⟩ := bind_ok h
    have hsheds := fillIrqData_sheds hfill
    have henabled := fillIrqData_enabledChannels hfill
    have hturn : RefersOnly [] [] c.kernel (setEngine c.kernel e filled.engine filled.heap) :=
      refersOnly_setEngine ⟨hsheds.attached, hsheds.transfers, hsheds.descLists⟩
    have hsame : SameEnabled c.kernel (setEngine c.kernel e filled.engine filled.heap) := by
      intro e'
      by_cases hee : e' = e
      · rw [hee, setEngine_self, henabled]
        rfl
      · rw [setEngine_of_ne hee]
    simp only at h
    split at h
    · cases h
      exact ⟨hturn, hsame⟩
    · obtain ⟨hrefers, hrest⟩ := ih h
      exact ⟨hturn.trans hrefers, fun e' => (hrest e').trans (hsame e')⟩

end Kernel

section Launch
variable {context : HailoVdmaFileContext n} {buffers : MappedBufferHeap}

theorem findMappedBuffer_mem {p : HailoVdmaBuffer → Bool} {addresses : List Nat} {address : Nat}
    (h : findMappedBuffer buffers p addresses = .ok (some address)) : address ∈ addresses := by
  induction addresses with
  | nil => cases h
  | cons first addresses ih =>
    obtain ⟨cur, -, h⟩ := bind_ok h
    split at h
    · cases h
      exact List.mem_cons_self
    · exact List.mem_cons_of_mem _ (ih h)

theorem findTransferBuffer_mem {direction : DmaDataDirection} {buffer : HailoVdmaTransferBuffer}
    {address : Nat}
    (h : findTransferBuffer context buffers direction buffer = .ok (some address)) :
    address ∈ context.mappedUserBufferList := by
  rw [findTransferBuffer] at h
  split at h
  · exact findMappedBuffer_mem h
  · exact findMappedBuffer_mem h
  · cases h

/-- A launch refers to mapped buffers of the file only. -/
theorem mapTransferBuffers_mem {direction : DmaDataDirection}
    {requested : List HailoVdmaTransferBuffer} {mapped : List HailoVdmaMappedTransferBuffer}
    (h : mapTransferBuffers context buffers direction requested = .ok (.ok mapped)) :
    ∀ buffer ∈ mapped, buffer.opaqueBuffer ∈ context.mappedUserBufferList ∧
      buffer.sgTable.embeddedIn = buffer.opaqueBuffer := by
  induction requested generalizing mapped with
  | nil =>
    cases h
    intro buffer hbuffer
    cases hbuffer
  | cons buffer rest ih =>
    obtain ⟨found, hfound, h⟩ := bind_ok h
    cases found with
    | none => cases h
    | some address =>
      obtain ⟨mappedBuffer, -, h⟩ := bind_ok h
      obtain ⟨rest', hrest, h⟩ := bind_ok h
      cases rest' with
      | error err => cases h
      | ok restMapped =>
        cases h
        intro b hb
        rcases List.mem_cons.mp hb with rfl | hb
        · exact ⟨findTransferBuffer_mem hfound, rfl⟩
        · exact ih hrest b hb

theorem findDescriptorsBuffer_mem {descHandle : UInt64}
    {descriptors : HailoDescriptorsListBuffer}
    (h : hailoVdmaFindDescriptorsBuffer context descHandle = some descriptors) :
    descriptors ∈ context.descriptorsBufferList := List.mem_of_find?_eq_some h

def listAddresses (context : HailoVdmaFileContext n) : List Nat :=
  context.descriptorsBufferList.map HailoDescriptorsListBuffer.descListAddress

/-- What a launch leaves in the channel. -/
theorem launchTransfer_refers {vdmaHw : HailoVdmaHw} {channel : HailoVdmaChannel}
    {descListAddress : Nat} {descList : HailoVdmaDescriptorsList} {regs : ChannelRegs}
    {startingDesc : UInt32} {mapped : List HailoVdmaMappedTransferBuffer} {shouldBind : Bool}
    {firstInterruptsDomain lastDescInterrupts : HailoVdmaInterruptsDomain} {isDebug : Bool}
    {result : Int32 × HailoVdmaChannel × HailoVdmaDescriptorsList × ChannelRegs}
    (h : hailoVdmaLaunchTransfer vdmaHw channel descListAddress descList regs startingDesc mapped
      shouldBind firstInterruptsDomain lastDescInterrupts isDebug = .ok result) :
    (result.2.1.lastDescList = channel.lastDescList ∨
      result.2.1.lastDescList = some descListAddress) ∧
    ∀ t ∈ ongoing result.2.1.ongoingTransfers,
      t ∈ ongoing channel.ongoingTransfers ∨ t.buffers = mapped := by
  cases launch_outcome h with
  | otherList hsome hother => exact ⟨Or.inl rfl, fun t ht => Or.inl ht⟩
  | rejected ret hret hsame hchecks => exact ⟨Or.inr rfl, fun t ht => Or.inl ht⟩
  | ringFull c hchecks hloop hfull => exact ⟨Or.inr rfl, fun t ht => Or.inl ht⟩
  | launched c hchecks hloop hroom hcount =>
    refine ⟨Or.inr rfl, ?_⟩
    have hpushed := ongoing_pushed (fun hlen => hroom (ringFull_iff.mpr hlen))
      (launchedTransfer mapped isDebug c)
    intro t ht
    rcases List.mem_append.mp (hpushed ▸ ht) with ht | ht
    · exact Or.inl ht
    · rw [List.mem_singleton.mp ht]
      exact Or.inr rfl

theorem launchIoctl_refers {vdmaHw : HailoVdmaHw} {kernel kernel' : KernelState n}
    {params : HailoVdmaLaunchTransferParams} {regs : ChannelRegs} {ret : Int32}
    (h : hailoVdmaLaunchTransferIoctl vdmaHw kernel context params regs = .ok (ret, kernel')) :
    RefersOnly (listAddresses context) context.mappedUserBufferList kernel kernel' ∧
      SameEnabled kernel kernel' := by
  have hrefused : RefersOnly (listAddresses context) context.mappedUserBufferList kernel kernel ∧
      SameEnabled kernel kernel := ⟨.refl _, fun _ => rfl⟩
  unfold hailoVdmaLaunchTransferIoctl at h
  split at h
  · next hengine =>
    split at h
    · next hchannel =>
      simp only at h
      split at h
      · cases h
        exact hrefused
      · split at h
        · cases h
          exact hrefused
        · next descriptors hfind =>
          obtain ⟨mapped, hmapped, h⟩ := bind_ok h
          cases mapped with
          | error err =>
            cases h
            exact hrefused
          | ok mapped =>
            obtain ⟨descList, hload, h⟩ := bind_ok h
            obtain ⟨⟨ret', channel, descList', regs'⟩, hlaunch, h⟩ := bind_ok h
            cases h
            obtain ⟨address, haddress, hlist⟩ := loadDescList_ok hload
            cases haddress
            obtain ⟨hattached, htransfers⟩ := launchTransfer_refers hlaunch
            refine ⟨refersOnly_setChannel ?_ ?_ (sameAllocated_storeDescList hlist _), ?_⟩
            · intro a ha
              rcases hattached with hold | hnew
              · exact Or.inl (hold.symm.trans ha)
              · have haddress := Option.some.inj (hnew.symm.trans ha)
                exact Or.inr (haddress ▸ List.mem_map_of_mem (findDescriptorsBuffer_mem hfind))
            · intro t ht
              rcases htransfers t ht with hold | hnew
              · exact Or.inl hold
              · exact Or.inr (hnew ▸ mapTransferBuffers_mem hmapped)
            · intro e'
              by_cases he : e' = ⟨params.engineIndex.toNat, hengine⟩
              · simp only [he, Function.update_self]
              · simp only [Function.update_of_ne he]
    · cases h
      exact hrefused
  · cases h
    exact hrefused

end Launch

end HailortDrivers.SystemSteps
