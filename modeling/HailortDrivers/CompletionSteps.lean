import HailortDrivers.DescriptorWords
import HailortDrivers.OngoingRing
import HailortDrivers.VdmaEngine

/-! What completing and draining can do to a channel, its descriptors list and
the state of the callback: each round takes the oldest transfer off the ring and
puts the default word back into the descriptors it lists. -/
namespace HailortDrivers.CompletionSteps
open KernelExec VdmaTypes DescriptorWords ChannelTransfers OngoingRing VdmaEngine

section ClearDirtyDescs
variable {l : HailoVdmaDescriptorsList} {heap heap' : DescListHeap}
  {lastDescList : Option Nat} {transfer : HailoOngoingTransfer}

theorem clearDirtyDesc_descList (desc : UInt16) (x : Nat) :
    (clearDirtyDesc l desc).descList x =
      if x = desc.toNat then
        { l.descList x with pageSizeDescControl := defaultPageSizeDescControl l.descPageSize }
      else l.descList x := by
  rw [clearDirtyDesc, HailoVdmaDescriptorsList.store]
  simp only [HailoVdmaDescriptorsList.withDescs_descList, UInt16.toNat_toUInt32]
  split
  · next hx =>
    rw [hx, Function.update_self]
    rfl
  · next hx => rw [Function.update_of_ne hx]

theorem clearDirtyDescs_shape (l : HailoVdmaDescriptorsList) (descs : List UInt16) :
    ∃ memory, descs.foldl clearDirtyDesc l = l.withDescs memory := by
  induction descs generalizing l with
  | nil => exact ⟨l.descList, rfl⟩
  | cons desc descs ih =>
    obtain ⟨memory, hmemory⟩ := ih (clearDirtyDesc l desc)
    exact ⟨memory, hmemory⟩

/-- Clearing puts the default word into the listed descriptors and no others. -/
theorem clearDirtyDescs_descList (l : HailoVdmaDescriptorsList) (descs : List UInt16) (x : Nat) :
    (descs.foldl clearDirtyDesc l).descList x =
      if ∃ desc ∈ descs, desc.toNat = x then
        { l.descList x with pageSizeDescControl := defaultPageSizeDescControl l.descPageSize }
      else l.descList x := by
  induction descs generalizing l with
  | nil => simp
  | cons desc descs ih =>
    have hpage : (clearDirtyDesc l desc).descPageSize = l.descPageSize := rfl
    rw [List.foldl_cons, ih, clearDirtyDesc_descList, hpage]
    by_cases hx : x = desc.toNat
    · simp [hx]
    · simp [hx, Ne.symm hx]

theorem clearDirtyDescs_ok
    (h : clearDirtyDescs lastDescList transfer heap = .ok heap') :
    heap' = heap ∧ transfer.dirtyDescs = [] ∨
      ∃ address l, lastDescList = some address ∧ heap address = some l ∧
        heap' =
          Function.update heap address (some (transfer.dirtyDescs.foldl clearDirtyDesc l)) := by
  unfold clearDirtyDescs at h
  split at h
  · cases h
  · split at h
    · next hempty =>
      cases h
      exact Or.inl ⟨rfl, List.isEmpty_iff.mp hempty⟩
    · obtain ⟨l, hload, h⟩ := bind_ok h
      obtain ⟨address, rfl, hheap⟩ := loadDescList_ok hload
      cases h
      exact Or.inr ⟨address, l, rfl, hheap, rfl⟩

/-- The list after the transfers' descriptors were cleared. -/
def clearAll (ts : List HailoOngoingTransfer) (l : HailoVdmaDescriptorsList) :
    HailoVdmaDescriptorsList :=
  (ts.flatMap HailoOngoingTransfer.dirtyDescs).foldl clearDirtyDesc l

/-- The descriptor is dirty for one of the transfers. -/
def Listed (ts : List HailoOngoingTransfer) (x : Nat) : Prop :=
  ∃ desc ∈ ts.flatMap HailoOngoingTransfer.dirtyDescs, desc.toNat = x

theorem listed_append (ts us : List HailoOngoingTransfer) (x : Nat) :
    Listed (ts ++ us) x ↔ Listed ts x ∨ Listed us x := by
  simp only [Listed, List.flatMap_append, List.mem_append, or_and_right, exists_or]

theorem listed_singleton (t : HailoOngoingTransfer) (x : Nat) :
    Listed [t] x ↔ ∃ desc ∈ t.dirtyDescs, desc.toNat = x := by
  simp [Listed]

theorem clearAll_cons (t : HailoOngoingTransfer) (ts : List HailoOngoingTransfer)
    (l : HailoVdmaDescriptorsList) :
    clearAll (t :: ts) l = clearAll ts (t.dirtyDescs.foldl clearDirtyDesc l) := by
  rw [clearAll, List.flatMap_cons, List.foldl_append, ← clearAll]

theorem clearAll_shape (ts : List HailoOngoingTransfer) (l : HailoVdmaDescriptorsList) :
    ∃ memory, clearAll ts l = l.withDescs memory := clearDirtyDescs_shape l _

theorem clearAll_listed {ts : List HailoOngoingTransfer} {x : Nat} (h : Listed ts x) :
    ((clearAll ts l).descList x).pageSizeDescControl =
      defaultPageSizeDescControl l.descPageSize := by
  unfold Listed at h
  rw [clearAll, clearDirtyDescs_descList, if_pos h]

theorem clearAll_not_listed {ts : List HailoOngoingTransfer} {x : Nat} (h : ¬ Listed ts x) :
    (clearAll ts l).descList x = l.descList x := by
  unfold Listed at h
  rw [clearAll, clearDirtyDescs_descList, if_neg h]

theorem clearAll_status (ts : List HailoOngoingTransfer) (x : Nat) :
    ((clearAll ts l).descList x).remainingPageSizeStatus =
      (l.descList x).remainingPageSizeStatus := by
  rw [clearAll, clearDirtyDescs_descList]
  split
  · rfl
  · rfl

/-- The heap after the transfers of a channel were cleared. -/
def heapCleared (heap : DescListHeap) (lastDescList : Option Nat)
    (ts : List HailoOngoingTransfer) : DescListHeap :=
  match lastDescList with
  | none => heap
  | some address => Function.update heap address ((heap address).map (clearAll ts))

theorem heapCleared_nil (heap : DescListHeap) (lastDescList : Option Nat) :
    heapCleared heap lastDescList [] = heap := by
  cases lastDescList with
  | none => rfl
  | some address =>
    have hid : clearAll [] = id := rfl
    rw [heapCleared, hid, Option.map_id, id, Function.update_eq_self]

theorem heapCleared_cons (heap : DescListHeap) (lastDescList : Option Nat)
    (t : HailoOngoingTransfer) (ts : List HailoOngoingTransfer) :
    heapCleared (heapCleared heap lastDescList [t]) lastDescList ts =
      heapCleared heap lastDescList (t :: ts) := by
  cases lastDescList with
  | none => rfl
  | some address =>
    simp only [heapCleared, Function.update_self, Function.update_idem, Option.map_map]
    congr 2
    funext l
    simp only [Function.comp_apply, clearAll_cons]
    rfl

theorem heapCleared_of_ne {address : Nat} (h : lastDescList ≠ some address)
    (ts : List HailoOngoingTransfer) : heapCleared heap lastDescList ts address = heap address := by
  cases lastDescList with
  | none => rfl
  | some address' =>
    rw [heapCleared, Function.update_of_ne]
    rintro rfl
    exact h rfl

theorem heapCleared_self {address : Nat} (ts : List HailoOngoingTransfer) :
    heapCleared heap (some address) ts address = (heap address).map (clearAll ts) :=
  Function.update_self _ _ _

theorem clearDirtyDescs_heap (h : clearDirtyDescs lastDescList transfer heap = .ok heap') :
    heap' = heapCleared heap lastDescList [transfer] := by
  rcases clearDirtyDescs_ok h with ⟨rfl, hempty⟩ | ⟨address, l, rfl, hheap, rfl⟩
  · have hnil : heapCleared heap' lastDescList [transfer] = heapCleared heap' lastDescList [] := by
      have hclear : clearAll [transfer] = clearAll [] := by
        funext l
        rw [clearAll_cons, hempty]
        rfl
      cases lastDescList with
      | none => rfl
      | some address => rw [heapCleared, hclear, heapCleared]
    rw [hnil, heapCleared_nil]
  · rw [heapCleared, hheap, Option.map_some, clearAll_cons]
    rfl

end ClearDirtyDescs

section Complete
variable {σ : Type} {transferDone : HailoOngoingTransfer → σ → Exec σ} {hwNumProc : UInt16}

/-- The transfer at the tail of a channel's ring. -/
def curTransfer (channel : HailoVdmaChannel) : HailoOngoingTransfer :=
  channel.ongoingTransfers.transfers channel.ongoingTransfers.tail.toNat

/-- The channel after its transfer at the tail was completed. -/
def afterComplete (channel : HailoVdmaChannel) : HailoVdmaChannel :=
  { channel with
    state := { channel.state with
      numProc := (((curTransfer channel).lastDesc.toUInt32 + 1) &&&
        channel.state.descCountMask).toUInt16 }
    ongoingTransfers := popped channel.ongoingTransfers }

theorem completeTransfer_ok {c c' : CompletionCursor σ}
    (h : completeTransfer transferDone c = .ok c') :
    ∃ valid done,
      validateTransfer c.channel.lastDescList (curTransfer c.channel) c.heap = .ok valid ∧
      transferDone (curTransfer c.channel) c.done = .ok done ∧
      c' = { channel := afterComplete c.channel
             heap := heapCleared c.heap c.channel.lastDescList [curTransfer c.channel]
             done := done
             transfersCompleted := c.transfersCompleted + 1
             validationSuccess := c.validationSuccess && valid
             isDebug := c.isDebug || !valid } := by
  obtain ⟨valid, hvalid, h⟩ := bind_ok h
  obtain ⟨heap, hheap, h⟩ := bind_ok h
  obtain ⟨done, hdone, h⟩ := bind_ok h
  cases h
  refine ⟨valid, done, hvalid, hdone, ?_⟩
  rw [clearDirtyDescs_heap hheap]
  rfl

variable (transferDone hwNumProc) in
/-- A run of the completion loop, with the transfers it took off the ring. -/
inductive Completes : CompletionCursor σ → List HailoOngoingTransfer → CompletionCursor σ → Prop
  | stop {c : CompletionCursor σ}
      (hstop : ongoing c.channel.ongoingTransfers = [] ∨
        isTransferComplete c.channel (curTransfer c.channel) hwNumProc = false) :
      Completes c [] c
  | round {c c₁ c' : CompletionCursor σ} {ts : List HailoOngoingTransfer}
      (hongoing : ongoing c.channel.ongoingTransfers ≠ [])
      (hcomplete : isTransferComplete c.channel (curTransfer c.channel) hwNumProc = true)
      (hround : completeTransfer transferDone c = .ok c₁)
      (hrest : Completes c₁ ts c') :
      Completes c (curTransfer c.channel :: ts) c'

theorem completeTransfers_completes {n : Nat} {c c' : CompletionCursor σ}
    (hn : n = (ongoing c.channel.ongoingTransfers).length)
    (h : completeTransfers transferDone hwNumProc n c = .ok c') :
    ∃ ts, Completes transferDone hwNumProc c ts c' := by
  induction n generalizing c with
  | zero =>
    cases h
    exact ⟨[], .stop (Or.inl (List.length_eq_zero_iff.mp hn.symm))⟩
  | succ n ih =>
    have hongoing : ongoing c.channel.ongoingTransfers ≠ [] := by
      intro hnil
      rw [hnil] at hn
      cases hn
    rw [completeTransfers] at h
    split at h
    · next hstop =>
      cases h
      exact ⟨[], .stop (Or.inr (by simpa [curTransfer] using hstop))⟩
    · next hcomplete =>
      obtain ⟨c₁, hround, hrest⟩ := bind_ok h
      obtain ⟨valid, done, -, -, rfl⟩ := completeTransfer_ok hround
      have hpop := ongoing_popped hongoing
      obtain ⟨ts, hts⟩ := ih (by
        rw [hpop, List.length_cons] at hn
        exact Nat.succ.inj hn) hrest
      exact ⟨_, .round hongoing (by simpa [curTransfer] using hcomplete) hround hts⟩

variable {c c' : CompletionCursor σ} {ts : List HailoOngoingTransfer}

/-- What completions leave alone in a channel. -/
structure SameChannel (channel channel' : HailoVdmaChannel) : Prop where
  index : channel'.index = channel.index
  lastDescList : channel'.lastDescList = channel.lastDescList
  numAvail : channel'.state.numAvail = channel.state.numAvail
  descCountMask : channel'.state.descCountMask = channel.state.descCountMask

theorem Completes.sameChannel (h : Completes transferDone hwNumProc c ts c') :
    SameChannel c.channel c'.channel := by
  induction h with
  | stop hstop => exact ⟨rfl, rfl, rfl, rfl⟩
  | round hongoing hcomplete hround hrest ih =>
    obtain ⟨valid, done, -, -, rfl⟩ := completeTransfer_ok hround
    exact ⟨ih.index, ih.lastDescList, ih.numAvail, ih.descCountMask⟩

theorem Completes.ongoing_eq (h : Completes transferDone hwNumProc c ts c') :
    ongoing c.channel.ongoingTransfers = ts ++ ongoing c'.channel.ongoingTransfers := by
  induction h with
  | stop hstop => rfl
  | round hongoing hcomplete hround hrest ih =>
    obtain ⟨valid, done, -, -, rfl⟩ := completeTransfer_ok hround
    rw [ongoing_popped hongoing, List.cons_append, ← ih]
    rfl

theorem Completes.heap_eq (h : Completes transferDone hwNumProc c ts c') :
    c'.heap = heapCleared c.heap c.channel.lastDescList ts := by
  induction h with
  | stop hstop => exact (heapCleared_nil _ _).symm
  | round hongoing hcomplete hround hrest ih =>
    obtain ⟨valid, done, -, -, rfl⟩ := completeTransfer_ok hround
    rw [ih]
    exact heapCleared_cons _ _ _ _

/-- The callback is called once for each transfer that leaves the ring, in order. -/
theorem Completes.done_eq (h : Completes transferDone hwNumProc c ts c') :
    ts.foldlM (fun done t => transferDone t done) c.done = .ok c'.done := by
  induction h with
  | stop hstop => rfl
  | round hongoing hcomplete hround hrest ih =>
    obtain ⟨valid, done, -, hdone, rfl⟩ := completeTransfer_ok hround
    rw [List.foldlM_cons, hdone]
    exact ih

end Complete

section Fill
variable {σ : Type} {transferDone : HailoOngoingTransfer → σ → Exec σ} {engineIndex : UInt8}
  {channel channel' : HailoVdmaChannel} {regs : ChannelRegs} {heap heap' : DescListHeap}
  {done done' : σ} {data : HailoVdmaInterruptsChannelData}

/-- The data a channel reports once its completion loop has ended in `c`. -/
def channelData (engineIndex : UInt8) (channel : HailoVdmaChannel) (regs : ChannelRegs)
    (c : CompletionCursor σ) : HailoVdmaInterruptsChannelData where
  engineIndex := engineIndex
  channelIndex := channel.index
  data :=
    if !readIsActive regs then vdmaTransferDataChannelNotActive
    else if !(c.validationSuccess && !(c.isDebug && channelHasError regs)) then
      vdmaTransferDataChannelWithError
    else c.transfersCompleted

theorem fillChannelIrqData_ok
    (h : fillChannelIrqData transferDone engineIndex channel regs heap done =
      .ok (data, channel', heap', done')) :
    ∃ ts c, Completes transferDone (readHwNumProc channel regs)
        ⟨channel, heap, done, 0, true, false⟩ ts c ∧
      data = channelData engineIndex channel regs c ∧
      channel' = c.channel ∧ heap' = c.heap ∧ done' = c.done := by
  obtain ⟨c, hloop, h⟩ := bind_ok h
  cases h
  obtain ⟨ts, hts⟩ := completeTransfers_completes
    (toNat_ongoingTransfersCircCnt channel.ongoingTransfers) hloop
  exact ⟨ts, c, hts, rfl, rfl, rfl, rfl⟩

end Fill

theorem ongoing_emptyRing (transfers : Nat → HailoOngoingTransfer) :
    ongoing (emptyRing transfers) = [] := by
  have hcount : CircularBuffer.count 128 (0 : UInt64).toNat (0 : UInt64).toNat = 0 := by decide
  exact CircularBuffer.contents_empty hcount

section Drain
variable {channel channel' : HailoVdmaChannel} {heap heap' : DescListHeap}

theorem drainTransfers_ok {n : Nat}
    (hn : n = (ongoing channel.ongoingTransfers).length)
    (h : drainTransfers n channel heap = .ok (channel', heap')) :
    channel' = { channel with ongoingTransfers := channel'.ongoingTransfers } ∧
      ongoing channel'.ongoingTransfers = [] ∧
      heap' = heapCleared heap channel.lastDescList (ongoing channel.ongoingTransfers) := by
  induction n generalizing channel heap with
  | zero =>
    have hnil := List.length_eq_zero_iff.mp hn.symm
    cases h
    exact ⟨rfl, hnil, by rw [hnil, heapCleared_nil]⟩
  | succ n ih =>
    have hongoing : ongoing channel.ongoingTransfers ≠ [] := by
      intro hnil
      rw [hnil] at hn
      cases hn
    have hpop := ongoing_popped hongoing
    have hn' : n = (ongoing (popped channel.ongoingTransfers)).length := by
      rw [hpop, List.length_cons] at hn
      exact Nat.succ.inj hn
    rw [drainTransfers] at h
    simp only at h
    split at h
    · next hnone =>
      obtain ⟨hchannel, hempty, hheap⟩ := ih (by exact hn') h
      refine ⟨hchannel, hempty, ?_⟩
      rw [hheap]
      simp only [hnone, heapCleared]
    · obtain ⟨heap₁, hclear, h⟩ := bind_ok h
      obtain ⟨hchannel, hempty, hheap⟩ := ih (by exact hn') h
      refine ⟨hchannel, hempty, ?_⟩
      rw [hheap, clearDirtyDescs_heap hclear, hpop]
      exact heapCleared_cons _ _ _ _

/-- A disabled channel has its ring drained, its state reset and no list. -/
theorem disableChannel_ok (h : disableChannel channel heap = .ok (channel', heap')) :
    channel' = { channel with
        lastDescList := none
        state := channelStateInit
        ongoingTransfers := channel'.ongoingTransfers } ∧
      ongoing channel'.ongoingTransfers = [] ∧
      heap' = heapCleared heap channel.lastDescList (ongoing channel.ongoingTransfers) := by
  obtain ⟨⟨channel₁, heap₁⟩, hdrain, h⟩ := bind_ok h
  cases h
  obtain ⟨hchannel, hempty, hheap⟩ := drainTransfers_ok
    (by exact toNat_ongoingTransfersCircCnt channel.ongoingTransfers) hdrain
  refine ⟨?_, hempty, hheap⟩
  rw [hchannel]

end Drain

end HailortDrivers.CompletionSteps
