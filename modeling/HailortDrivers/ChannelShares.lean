import HailortDrivers.EngineSteps
import HailortDrivers.OwnedObjects
import HailortDrivers.RelatedResults

/-! One user's channels of an engine. What the driver does with them depends on nothing but these
channels and the lists they are attached to, and what it does with the other channels changes
neither. -/
namespace HailortDrivers.ChannelShares
open KernelExec VdmaTypes ChannelTransfers OngoingRing VdmaEngine CompletionSteps EngineSteps
  OwnedObjects RelatedResults

/-- Two engines that agree on the channels of `own`. -/
structure SameChannels (own : ChannelIndex → Prop) (engine engine' : HailoVdmaEngine) :
    Prop where
  index : engine'.index = engine.index
  channels : ∀ i, own i → engine'.channels i = engine.channels i
  enabled : ∀ i, own i →
    hailoTestBit i engine'.enabledChannels = hailoTestBit i engine.enabledChannels
  interrupted : ∀ i, own i →
    hailoTestBit i engine'.interruptedChannels = hailoTestBit i engine.interruptedChannels

/-- The bitmap has only channels of `own`. -/
def Within (own : ChannelIndex → Prop) (bitmap : UInt32) : Prop :=
  ∀ i : ChannelIndex, hailoTestBit i bitmap = true → own i

/-- The bitmap has no channel of `own`. -/
def Outside (own : ChannelIndex → Prop) (bitmap : UInt32) : Prop :=
  ∀ i : ChannelIndex, own i → hailoTestBit i bitmap = false

section Engines
variable {own : ChannelIndex → Prop} {engine engine' engine'' : HailoVdmaEngine}
  {bitmap : UInt32}

theorem SameChannels.refl (own : ChannelIndex → Prop) (engine : HailoVdmaEngine) :
    SameChannels own engine engine :=
  ⟨rfl, fun _ _ => rfl, fun _ _ => rfl, fun _ _ => rfl⟩

theorem SameChannels.trans (h : SameChannels own engine engine')
    (h' : SameChannels own engine' engine'') : SameChannels own engine engine'' where
  index := h'.index.trans h.index
  channels := fun i hi => (h'.channels i hi).trans (h.channels i hi)
  enabled := fun i hi => (h'.enabled i hi).trans (h.enabled i hi)
  interrupted := fun i hi => (h'.interrupted i hi).trans (h.interrupted i hi)

theorem SameChannels.symm (h : SameChannels own engine engine') :
    SameChannels own engine' engine where
  index := h.index.symm
  channels := fun i hi => (h.channels i hi).symm
  enabled := fun i hi => (h.enabled i hi).symm
  interrupted := fun i hi => (h.interrupted i hi).symm

/-- A channel that is not of `own` changes. -/
theorem sameChannels_setChannel {i : ChannelIndex} (hi : ¬ own i) (channel : HailoVdmaChannel) :
    SameChannels own engine (setChannel engine i channel) where
  index := rfl
  channels := by
    intro j hj
    refine setChannel_of_ne engine ?_ channel
    rintro rfl
    exact hi hj
  enabled := fun _ _ => rfl
  interrupted := fun _ _ => rfl

theorem SameChannels.setChannel (h : SameChannels own engine engine') (i : ChannelIndex)
    (channel : HailoVdmaChannel) :
    SameChannels own (setChannel engine i channel) (setChannel engine' i channel) where
  index := h.index
  channels := by
    intro j hj
    by_cases hji : j = i
    · rw [hji, setChannel_self, setChannel_self]
    · rw [setChannel_of_ne engine hji, setChannel_of_ne engine' hji]
      exact h.channels j hj
  enabled := h.enabled
  interrupted := h.interrupted

theorem sameChannels_enable (hbitmap : Outside own bitmap) (measure : Bool) :
    SameChannels own engine (hailoVdmaEngineEnableChannels engine bitmap measure) where
  index := rfl
  channels := by
    intro i hi
    simp only [hailoVdmaEngineEnableChannels, hbitmap i hi, Bool.false_eq_true, if_false]
  enabled := by
    intro i hi
    rw [hailoVdmaEngineEnableChannels, hailoTestBit_or, hbitmap i hi, Bool.or_false]
  interrupted := fun _ _ => rfl

theorem SameChannels.enable (h : SameChannels own engine engine') (bitmap : UInt32)
    (measure : Bool) :
    SameChannels own (hailoVdmaEngineEnableChannels engine bitmap measure)
      (hailoVdmaEngineEnableChannels engine' bitmap measure) where
  index := h.index
  channels := by
    intro i hi
    simp only [hailoVdmaEngineEnableChannels, h.channels i hi]
  enabled := by
    intro i hi
    simp only [hailoVdmaEngineEnableChannels, hailoTestBit_or, h.enabled i hi]
  interrupted := h.interrupted

theorem sameChannels_clear (hbitmap : Outside own bitmap) :
    SameChannels own engine (hailoVdmaEngineClearChannelInterrupts engine bitmap) where
  index := rfl
  channels := fun _ _ => rfl
  enabled := fun _ _ => rfl
  interrupted := by
    intro i hi
    rw [hailoVdmaEngineClearChannelInterrupts, hailoTestBit_and_not, hbitmap i hi,
      Bool.not_false, Bool.and_true]

theorem SameChannels.clear (h : SameChannels own engine engine') (bitmap : UInt32) :
    SameChannels own (hailoVdmaEngineClearChannelInterrupts engine bitmap)
      (hailoVdmaEngineClearChannelInterrupts engine' bitmap) where
  index := h.index
  channels := h.channels
  enabled := h.enabled
  interrupted := by
    intro i hi
    simp only [hailoVdmaEngineClearChannelInterrupts, hailoTestBit_and_not, h.interrupted i hi]

theorem SameChannels.setInterrupts (h : SameChannels own engine engine') (bitmap : UInt32) :
    SameChannels own (hailoVdmaEngineSetChannelInterrupts engine bitmap)
      (hailoVdmaEngineSetChannelInterrupts engine' bitmap) where
  index := h.index
  channels := h.channels
  enabled := h.enabled
  interrupted := by
    intro i hi
    simp only [hailoVdmaEngineSetChannelInterrupts, hailoTestBit_or, h.interrupted i hi]

/-- The channels of a bitmap are enabled no more. -/
def unmarked (engine : HailoVdmaEngine) (bitmap : UInt32) : HailoVdmaEngine :=
  { engine with enabledChannels := engine.enabledChannels &&& ~~~bitmap }

theorem sameChannels_unmarked (hbitmap : Outside own bitmap) :
    SameChannels own engine (unmarked engine bitmap) where
  index := rfl
  channels := fun _ _ => rfl
  enabled := by
    intro i hi
    rw [unmarked, hailoTestBit_and_not, hbitmap i hi, Bool.not_false, Bool.and_true]
  interrupted := fun _ _ => rfl

theorem SameChannels.unmarked (h : SameChannels own engine engine') (bitmap : UInt32) :
    SameChannels own (unmarked engine bitmap) (unmarked engine' bitmap) where
  index := h.index
  channels := h.channels
  enabled := by
    intro i hi
    simp only [ChannelShares.unmarked, hailoTestBit_and_not, h.enabled i hi]
  interrupted := h.interrupted

/-- Two words of which one has bits of `own` only, and that agree on these, are the same. -/
theorem and_eq_of_within {requested word word' : UInt32} (hrequested : Within own requested)
    (h : ∀ i : ChannelIndex, own i → hailoTestBit i word' = hailoTestBit i word) :
    requested &&& word' = requested &&& word := by
  refine eq_of_hailoTestBit fun pos => ?_
  rw [hailoTestBit_and, hailoTestBit_and]
  cases hpos : hailoTestBit pos requested with
  | false => rfl
  | true =>
    have hlt : pos < maxVdmaChannelsPerEngine := hailoTestBit_lt hpos
    rw [Bool.true_and, Bool.true_and]
    exact h ⟨pos, hlt⟩ (hrequested ⟨pos, hlt⟩ hpos)

/-- A user waits for the same interrupts of his on both engines. -/
theorem SameChannels.readInterrupts (h : SameChannels own engine engine') {requested : UInt32}
    (hrequested : Within own requested) :
    (hailoVdmaEngineReadInterrupts engine' requested).1 =
        (hailoVdmaEngineReadInterrupts engine requested).1 ∧
      SameChannels own (hailoVdmaEngineReadInterrupts engine requested).2
        (hailoVdmaEngineReadInterrupts engine' requested).2 := by
  have hbitmap : (hailoVdmaEngineReadInterrupts engine' requested).1 =
      (hailoVdmaEngineReadInterrupts engine requested).1 := by
    rw [hailoVdmaEngineReadInterrupts, hailoVdmaEngineReadInterrupts, UInt32.and_assoc,
      UInt32.and_assoc]
    refine and_eq_of_within hrequested fun i hi => ?_
    rw [hailoTestBit_and, hailoTestBit_and, h.enabled i hi, h.interrupted i hi]
  refine ⟨hbitmap, ?_⟩
  change SameChannels own _ (hailoVdmaEngineClearChannelInterrupts engine'
    (hailoVdmaEngineReadInterrupts engine' requested).1)
  rw [hbitmap]
  exact h.clear _

end Engines

section Lists
variable {lists : List Nat} {lastDescList : Option Nat} {heap : DescListHeap}

/-- The channel is attached to one of the lists, or to none. -/
def AttachedWithin (lists : List Nat) (lastDescList : Option Nat) : Prop :=
  ∀ address, lastDescList = some address → address ∈ lists

theorem loadDescList_only {pointer : Option Nat} (h : AttachedWithin lists pointer) :
    loadDescList (only lists heap) pointer = loadDescList heap pointer := by
  cases pointer with
  | none => rfl
  | some address => rw [loadDescList, only_of_mem (h address rfl), loadDescList]

theorem only_storeDescList {pointer : Option Nat} (h : AttachedWithin lists pointer)
    (descList : HailoVdmaDescriptorsList) :
    only lists (storeDescList heap pointer descList) =
      storeDescList (only lists heap) pointer descList := by
  cases pointer with
  | none => rfl
  | some address => exact only_update_of_mem (h address rfl) _

theorem clearDirtyDescs_only (h : AttachedWithin lists lastDescList)
    (transfer : HailoOngoingTransfer) :
    clearDirtyDescs lastDescList transfer (only lists heap) =
      (clearDirtyDescs lastDescList transfer heap).map (only lists) := by
  rw [clearDirtyDescs, clearDirtyDescs, loadDescList_only h]
  split
  · rfl
  · split
    · rfl
    · cases loadDescList heap lastDescList with
      | error fault => rfl
      | ok descList => exact congrArg Except.ok (only_storeDescList h _).symm

theorem validateTransfer_only (h : AttachedWithin lists lastDescList)
    (transfer : HailoOngoingTransfer) :
    validateTransfer lastDescList transfer (only lists heap) =
      validateTransfer lastDescList transfer heap := by
  simp only [validateTransfer, validateLastDescStatus, loadDescList_only h]

/-- What the channel's list is not kept, its transfers are cleared elsewhere. -/
theorem only_heapCleared (h : ∀ address, lastDescList = some address → address ∉ lists)
    (ts : List HailoOngoingTransfer) :
    only lists (heapCleared heap lastDescList ts) = only lists heap := by
  refine only_congr fun address hmem => heapCleared_of_ne ?_ ts
  intro hattached
  exact h address hattached hmem

end Lists

section Disabling
variable {lists : List Nat} {channel : HailoVdmaChannel} {heap : DescListHeap}

theorem drainTransfers_only {n : Nat} (h : AttachedWithin lists channel.lastDescList) :
    drainTransfers n channel (only lists heap) =
      (drainTransfers n channel heap).map fun r => (r.1, only lists r.2) := by
  induction n generalizing channel heap with
  | zero => rfl
  | succ n ih =>
    rw [drainTransfers, drainTransfers]
    simp only
    split
    · exact ih h
    · rw [clearDirtyDescs_only h]
      cases clearDirtyDescs channel.lastDescList
        (channel.ongoingTransfers.transfers channel.ongoingTransfers.tail.toNat) heap with
      | error fault => rfl
      | ok heap' => exact ih h

theorem disableChannel_only (h : AttachedWithin lists channel.lastDescList) :
    disableChannel channel (only lists heap) =
      (disableChannel channel heap).map fun r => (r.1, only lists r.2) := by
  have hdrain : drainTransfers (ongoingTransfersCircCnt channel.ongoingTransfers).toNat
      { channel with state := channelStateInit } (only lists heap) =
      (drainTransfers (ongoingTransfersCircCnt channel.ongoingTransfers).toNat
        { channel with state := channelStateInit } heap).map fun r => (r.1, only lists r.2) :=
    drainTransfers_only h
  rw [disableChannel, disableChannel, hdrain]
  cases drainTransfers (ongoingTransfersCircCnt channel.ongoingTransfers).toNat
    { channel with state := channelStateInit } heap with
  | error fault => rfl
  | ok r => rfl

end Disabling

/-- The channels of `own` are attached to some of the lists at most. -/
def AttachesWithin (own : ChannelIndex → Prop) (lists : List Nat) (engine : HailoVdmaEngine) :
    Prop := ∀ i, own i → AttachedWithin lists (engine.channels i).lastDescList

/-- The other channels are attached to none of the lists. -/
def AttachesOutside (own : ChannelIndex → Prop) (lists : List Nat) (engine : HailoVdmaEngine) :
    Prop := ∀ i, ¬ own i → ∀ address, (engine.channels i).lastDescList = some address →
      address ∉ lists

section Disabling
variable {own : ChannelIndex → Prop} {lists : List Nat} {bitmap : UInt32}
  {is : List ChannelIndex} {engine engine' : HailoVdmaEngine} {heap heap' : DescListHeap}

theorem AttachesWithin.setChannel (h : AttachesWithin own lists engine) {i : ChannelIndex}
    {channel : HailoVdmaChannel}
    (hchannel : own i → AttachedWithin lists channel.lastDescList) :
    AttachesWithin own lists (setChannel engine i channel) := by
  intro j hj
  by_cases hji : j = i
  · subst hji
    rw [setChannel_self]
    exact hchannel hj
  · rw [setChannel_of_ne engine hji]
    exact h j hj

theorem AttachesOutside.setChannel (h : AttachesOutside own lists engine) {i : ChannelIndex}
    {channel : HailoVdmaChannel}
    (hchannel : ¬ own i → ∀ address, channel.lastDescList = some address → address ∉ lists) :
    AttachesOutside own lists (setChannel engine i channel) := by
  intro j hj
  by_cases hji : j = i
  · subst hji
    rw [setChannel_self]
    exact hchannel hj
  · rw [setChannel_of_ne engine hji]
    exact h j hj

/-- A user disables channels of his. -/
theorem disableChannels_alike (hown : Within own bitmap) (h : SameChannels own engine engine')
    (hattaches : AttachesWithin own lists engine) :
    Related (fun r r' => SameChannels own r.1 r'.1 ∧ r'.2 = only lists r.2)
      (disableChannels bitmap is engine heap)
      (disableChannels bitmap is engine' (only lists heap)) := by
  induction is generalizing engine engine' heap with
  | nil => exact .ok ⟨h, rfl⟩
  | cons i is ih =>
    rw [disableChannels, disableChannels]
    refine .ite Iff.rfl (fun hbit => ?_) fun _ => ih h hattaches
    rw [h.channels i (hown i hbit), disableChannel_only (hattaches i (hown i hbit))]
    cases hturn : disableChannel (engine.channels i) heap with
    | error fault => exact .error fault
    | ok r =>
      have hdisabled : Disabled r.1 := disabled_of_disableChannel hturn
      refine ih (h.setChannel i r.1) (hattaches.setChannel fun _ address hattached => ?_)
      rw [hdisabled.lastDescList] at hattached
      cases hattached

/-- Another user disables channels of his. -/
theorem disableChannels_apart (hother : Outside own bitmap)
    (hattaches : AttachesOutside own lists engine)
    (h : disableChannels bitmap is engine heap = .ok (engine', heap')) :
    SameChannels own engine engine' ∧ only lists heap' = only lists heap := by
  have hinv := disableChannels_inv
    (I := fun e hp => AttachesOutside own lists e ∧ SameChannels own engine e ∧
      only lists hp = only lists heap) ?_ h ⟨hattaches, .refl _ _, rfl⟩
  · exact hinv.2
  · rintro e hp i channel' hp' ⟨hattaches, hsame, honly⟩ hbit hturn
    have hi : ¬ own i := fun hi => by
      rw [hother i hi] at hbit
      cases hbit
    obtain ⟨hchannel, -, rfl⟩ := disableChannel_ok hturn
    refine ⟨hattaches.setChannel fun _ address hattached => ?_,
      hsame.trans (sameChannels_setChannel hi channel'), ?_⟩
    · rw [hchannel] at hattached
      cases hattached
    · rw [only_heapCleared (hattaches i hi), honly]

end Disabling

section Completing
variable {σ : Type} {transferDone transferDone' : HailoOngoingTransfer → σ → Exec σ}
  {lists : List Nat} {channel : HailoVdmaChannel} {heap : DescListHeap}

/-- The rest of a completion cursor over the lists that are kept. -/
def onlyLists (lists : List Nat) (c : CompletionCursor σ) : CompletionCursor σ :=
  { c with heap := only lists c.heap }

theorem completeTransfer_only {c : CompletionCursor σ}
    (hattached : AttachedWithin lists c.channel.lastDescList)
    (hdone : transferDone' (curTransfer c.channel) = transferDone (curTransfer c.channel)) :
    completeTransfer transferDone' (onlyLists lists c) =
      (completeTransfer transferDone c).map (onlyLists lists) := by
  rw [curTransfer] at hdone
  simp only [completeTransfer, onlyLists, validateTransfer_only hattached,
    clearDirtyDescs_only hattached, hdone]
  cases validateTransfer c.channel.lastDescList
    (c.channel.ongoingTransfers.transfers c.channel.ongoingTransfers.tail.toNat) c.heap with
  | error fault => rfl
  | ok valid =>
    cases clearDirtyDescs c.channel.lastDescList
      (c.channel.ongoingTransfers.transfers c.channel.ongoingTransfers.tail.toNat) c.heap with
    | error fault => rfl
    | ok heap' =>
      cases transferDone
        (c.channel.ongoingTransfers.transfers c.channel.ongoingTransfers.tail.toNat) c.done with
      | error fault => rfl
      | ok done => rfl

theorem completeTransfers_only {hwNumProc : UInt16} {n : Nat} {c : CompletionCursor σ}
    (hn : n = (ongoing c.channel.ongoingTransfers).length)
    (hattached : AttachedWithin lists c.channel.lastDescList)
    (hdone : ∀ t ∈ ongoing c.channel.ongoingTransfers, transferDone' t = transferDone t) :
    completeTransfers transferDone' hwNumProc n (onlyLists lists c) =
      (completeTransfers transferDone hwNumProc n c).map (onlyLists lists) := by
  induction n generalizing c with
  | zero => rfl
  | succ n ih =>
    have hongoing : ongoing c.channel.ongoingTransfers ≠ [] := by
      intro hnil
      rw [hnil] at hn
      cases hn
    have hpop := ongoing_popped hongoing
    have hchannel : (onlyLists lists c).channel = c.channel := rfl
    rw [completeTransfers, completeTransfers, hchannel]
    split
    · rfl
    · rw [completeTransfer_only hattached (hdone _ (hpop ▸ List.mem_cons_self))]
      cases hround : completeTransfer transferDone c with
      | error fault => rfl
      | ok c₁ =>
        obtain ⟨valid, done, -, -, rfl⟩ := completeTransfer_ok hround
        refine ih ?_ hattached fun t ht => hdone t ?_
        · rw [hpop, List.length_cons] at hn
          exact Nat.succ.inj hn
        · rw [hpop]
          exact List.mem_cons_of_mem _ ht

theorem fillChannelIrqData_only {engineIndex : UInt8} {regs : ChannelRegs} {done : σ}
    (hattached : AttachedWithin lists channel.lastDescList)
    (hdone : ∀ t ∈ ongoing channel.ongoingTransfers, transferDone' t = transferDone t) :
    fillChannelIrqData transferDone' engineIndex channel regs (only lists heap) done =
      (fillChannelIrqData transferDone engineIndex channel regs heap done).map fun r =>
        (r.1, r.2.1, only lists r.2.2.1, r.2.2.2) := by
  have hloop : completeTransfers transferDone' (readHwNumProc channel regs)
      (ongoingTransfersCircCnt channel.ongoingTransfers).toNat
      ⟨channel, only lists heap, done, 0, true, false⟩ =
      (completeTransfers transferDone (readHwNumProc channel regs)
        (ongoingTransfersCircCnt channel.ongoingTransfers).toNat
        ⟨channel, heap, done, 0, true, false⟩).map (onlyLists lists) :=
    completeTransfers_only (c := (⟨channel, heap, done, 0, true, false⟩ : CompletionCursor σ))
      (toNat_ongoingTransfersCircCnt channel.ongoingTransfers) hattached hdone
  rw [fillChannelIrqData, fillChannelIrqData, hloop]
  cases completeTransfers transferDone (readHwNumProc channel regs)
    (ongoingTransfersCircCnt channel.ongoingTransfers).toNat
    ⟨channel, heap, done, 0, true, false⟩ with
  | error fault => rfl
  | ok c => rfl

end Completing

section Filling
variable {σ : Type} {transferDone transferDone' : HailoOngoingTransfer → σ → Exec σ}
  {own : ChannelIndex → Prop} {lists : List Nat} {bitmap : UInt32}
  {regs : ChannelIndex → ChannelRegs}

/-- Two completion reads that agree on the channels of `own` and the lists that are kept. -/
structure FillAlike (own : ChannelIndex → Prop) (lists : List Nat) (c c' : FillCursor σ) :
    Prop where
  engine : SameChannels own c.engine c'.engine
  heap : c'.heap = only lists c.heap
  irqData : c'.irqData = c.irqData
  done : c'.done = c.done

/-- The callback does the same on both sides for the transfers of the channels of `own`. -/
def CallsAlike (transferDone transferDone' : HailoOngoingTransfer → σ → Exec σ)
    (own : ChannelIndex → Prop) (engine : HailoVdmaEngine) : Prop :=
  ∀ i, own i → ∀ t ∈ ongoing (engine.channels i).ongoingTransfers, transferDone' t = transferDone t

theorem CallsAlike.setChannel {engine : HailoVdmaEngine}
    (h : CallsAlike transferDone transferDone' own engine) {i : ChannelIndex}
    {channel : HailoVdmaChannel}
    (hchannel : ∀ t ∈ ongoing channel.ongoingTransfers,
      t ∈ ongoing (engine.channels i).ongoingTransfers) :
    CallsAlike transferDone transferDone' own (setChannel engine i channel) := by
  intro j hj t ht
  by_cases hji : j = i
  · subst hji
    rw [setChannel_self] at ht
    exact h j hj t (hchannel t ht)
  · rw [setChannel_of_ne engine hji] at ht
    exact h j hj t ht

/-- A user reads completions of his channels. -/
theorem fillChannels_alike {is : List ChannelIndex} {c c' : FillCursor σ}
    (hown : Within own bitmap) (h : FillAlike own lists c c')
    (hattaches : AttachesWithin own lists c.engine)
    (hcalls : CallsAlike transferDone transferDone' own c.engine) :
    Related (fun r r' => r'.1 = r.1 ∧ FillAlike own lists r.2 r'.2)
      (fillChannels transferDone bitmap regs is c)
      (fillChannels transferDone' bitmap regs is c') := by
  induction is generalizing c c' with
  | nil => exact .ok ⟨rfl, h⟩
  | cons i is ih =>
    rw [fillChannels, fillChannels]
    refine .ite Iff.rfl (fun _ => ih h hattaches hcalls) fun hbit => ?_
    have hi : own i := hown i (by simpa using hbit)
    rw [h.engine.channels i hi, h.irqData]
    refine .ite Iff.rfl (fun _ => ih h hattaches hcalls) fun _ => ?_
    refine .ite Iff.rfl (fun _ => .ok ⟨rfl, h⟩) fun _ => ?_
    rw [h.engine.index, h.heap, h.done, fillChannelIrqData_only (hattaches i hi) (hcalls i hi)]
    cases hfill : fillChannelIrqData transferDone c.engine.index (c.engine.channels i) (regs i)
      c.heap c.done with
    | error fault => exact .error fault
    | ok r =>
      obtain ⟨data, channel, heap, done⟩ := r
      obtain ⟨removed, cc, hcompletes, -, rfl, -, -⟩ := fillChannelIrqData_ok hfill
      refine ih ⟨h.engine.setChannel i cc.channel, rfl, rfl, rfl⟩ ?_ ?_
      · refine hattaches.setChannel fun _ address hattached => hattaches i hi address ?_
        rw [← hcompletes.sameChannel.lastDescList]
        exact hattached
      · refine hcalls.setChannel fun t ht => ?_
        have hongoing := hcompletes.ongoing_eq
        rw [hongoing]
        exact List.mem_append_right removed ht

/-- Another user reads completions of his channels. -/
theorem fillIrqData_apart {irqData : List HailoVdmaInterruptsChannelData}
    {engine : HailoVdmaEngine} {heap : DescListHeap} {done : σ} {ret : Int32} {c' : FillCursor σ}
    (hother : Outside own bitmap) (hattaches : AttachesOutside own lists engine)
    (h : hailoVdmaEngineFillIrqData transferDone irqData engine bitmap regs heap done =
      .ok (ret, c')) :
    SameChannels own engine c'.engine ∧ only lists c'.heap = only lists heap := by
  obtain ⟨turns, hfills⟩ := fillChannels_fills h
  have hinv := hfills.inv (I := fun c => AttachesOutside own lists c.engine ∧
    SameChannels own engine c.engine ∧ only lists c.heap = only lists heap) ?_
    ⟨hattaches, .refl _ _, rfl⟩
  · exact hinv.2
  · rintro c i data removed cc ⟨hattaches, hsame, honly⟩ hbit - hcompletes
    have hi : ¬ own i := fun hi => by
      rw [hother i hi] at hbit
      cases hbit
    refine ⟨hattaches.setChannel fun _ address hattached => hattaches i hi address ?_,
      hsame.trans (sameChannels_setChannel hi cc.channel), ?_⟩
    · rw [← hcompletes.sameChannel.lastDescList]
      exact hattached
    · rw [afterFill, hcompletes.heap_eq, only_heapCleared (hattaches i hi), honly]

end Filling

end HailortDrivers.ChannelShares
