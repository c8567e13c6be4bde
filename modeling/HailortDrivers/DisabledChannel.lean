import HailortDrivers.ChannelHistories
import HailortDrivers.RelatedResults

/-!
A channel that was disabled is like one that was only initialized: its ring is rotated and the
arrays hold old entries, but no operation after the next enable tells them apart.
-/
namespace HailortDrivers.DisabledChannel
open KernelExec VdmaTypes ChannelTransfers OngoingRing LaunchSteps CompletionSteps VdmaEngine
open EngineSteps TimestampRing ChannelHistories RelatedResults DescriptorsListCreation
open TimestampReads (masked)

/-- Channels with the same ongoing transfers and timestamps, wherever these are in the rings. -/
structure Twin (a b : HailoVdmaChannel) : Prop where
  index : a.index = b.index
  lastDescList : a.lastDescList = b.lastDescList
  state : a.state = b.state
  ongoing : ongoing a.ongoingTransfers = ongoing b.ongoingTransfers
  measured : a.timestampMeasureEnabled = b.timestampMeasureEnabled
  bounds : InBounds a.timestampList ∧ InBounds b.timestampList
  pending : pending a.timestampList = pending b.timestampList

section Launch
variable {vdmaHw : HailoVdmaHw} {a b : HailoVdmaChannel} {descListAddress : Nat}
  {descList : HailoVdmaDescriptorsList} {regs : ChannelRegs} {startingDesc : UInt32}
  {buffers : List HailoVdmaMappedTransferBuffer} {shouldBind : Bool}
  {firstInterruptsDomain lastDescInterrupts : HailoVdmaInterruptsDomain} {isDebug : Bool}

/-- What a launch returns for channels that are twins. -/
def LaunchTwin (r r' : Int32 × HailoVdmaChannel × HailoVdmaDescriptorsList × ChannelRegs) :
    Prop :=
  r.1 = r'.1 ∧ Twin r.2.1 r'.2.1 ∧ r.2.2 = r'.2.2

theorem Twin.ringFull_iff (h : Twin a b) : RingFull a ↔ RingFull b := by
  rw [OngoingRing.ringFull_iff, OngoingRing.ringFull_iff, h.ongoing]

theorem Twin.withState (h : Twin a b) (state : HailoVdmaChannelState) :
    Twin { a with state := state } { b with state := state } :=
  ⟨h.index, h.lastDescList, rfl, h.ongoing, h.measured, h.bounds, h.pending⟩

theorem Twin.withList (h : Twin a b) (lastDescList : Option Nat) :
    Twin { a with lastDescList := lastDescList } { b with lastDescList := lastDescList } :=
  ⟨h.index, rfl, h.state, h.ongoing, h.measured, h.bounds, h.pending⟩

theorem Twin.remask (h : Twin a b) (descList : HailoVdmaDescriptorsList) :
    Twin (remask a descList) (remask b descList) := by
  have hmask := h.withState { a.state with descCountMask := descList.descCount - 1 }
  unfold LaunchSteps.remask
  rw [← h.state]
  exact hmask

theorem Twin.attach (h : Twin a b) (descListAddress : Nat) (descList : HailoVdmaDescriptorsList) :
    Twin (attach a descListAddress descList) (attach b descListAddress descList) :=
  (h.remask descList).withList (some descListAddress)

theorem Twin.publish (h : Twin a b) (hroom : ¬ RingFull a) (transfer : HailoOngoingTransfer)
    (numAvail : UInt16) : Twin (publish a transfer numAvail) (publish b transfer numAvail) where
  index := h.index
  lastDescList := h.lastDescList
  state := by
    unfold LaunchSteps.publish
    rw [h.state]
  ongoing := by
    have hroom' : ¬ RingFull b := fun hfull => hroom (h.ringFull_iff.mpr hfull)
    rw [OngoingRing.ringFull_iff] at hroom hroom'
    exact (ongoing_pushed hroom transfer).trans
      (h.ongoing ▸ (ongoing_pushed hroom' transfer).symm)
  measured := h.measured
  bounds := h.bounds
  pending := h.pending

theorem related_publishTransfer (h : Twin a b) (c : LaunchCursor) :
    Related LaunchTwin (publishTransfer a regs buffers isDebug c)
      (publishTransfer b regs buffers isDebug c) := by
  have hfailed : Related LaunchTwin (.ok (-efault, a, c.descList, regs) : Exec _)
      (.ok (-efault, b, c.descList, regs)) := .ok ⟨rfl, h, rfl⟩
  unfold publishTransfer
  by_cases hfull : RingFull a
  · rw [ongoingTransferPush_full hfull, ongoingTransferPush_full (h.ringFull_iff.mp hfull)]
    exact hfailed
  · have hroom' : ¬ RingFull b := fun hfull' => hfull (h.ringFull_iff.mpr hfull')
    by_cases hmany : c.dirtyDescs.length ≤ maxDirtyDescriptorsPerTransfer
    · rw [ongoingTransferPush_room hfull hmany, ongoingTransferPush_room hroom' hmany]
      refine .same_bind _ fun newNumAvail => ?_
      exact .ok ⟨rfl, h.publish hfull _ _, rfl⟩
    · have hpush : ∀ channel, ¬ RingFull channel →
          ongoingTransferPush channel (launchedTransfer buffers isDebug c) =
            (-efault, channel) := by
        intro channel hroom
        exact (if_neg hroom).trans (if_pos (Nat.not_le.mp hmany))
      have ha := hpush a hfull
      have hb := hpush b hroom'
      unfold launchedTransfer at ha hb
      rw [ha, hb]
      exact hfailed

theorem launchTransfer_eq (channel : HailoVdmaChannel) :
    hailoVdmaLaunchTransfer vdmaHw channel descListAddress descList regs startingDesc buffers
      shouldBind firstInterruptsDomain lastDescInterrupts isDebug =
    if channel.lastDescList ≠ none ∧ channel.lastDescList ≠ some descListAddress then
      .ok (-einval, remask channel descList, descList, regs)
    else if validateChannelState (attach channel descListAddress descList) regs < 0 then
      .ok (validateChannelState (attach channel descListAddress descList) regs,
        attach channel descListAddress descList, descList, regs)
    else if channel.state.numAvail ≠ startingDesc.toUInt16 then
      .ok (-efault, attach channel descListAddress descList, descList, regs)
    else if buffers.length > hailoMaxBuffersPerSingleTransfer then
      .ok (-einval, attach channel descListAddress descList, descList, regs)
    else
      launchBuffers vdmaHw shouldBind channel.index lastDescInterrupts isDebug buffers
        (launchStart startingDesc descList) >>= fun c =>
      publishTransfer (attach channel descListAddress descList) regs buffers isDebug
        { c with descList := launchedList vdmaHw startingDesc firstInterruptsDomain isDebug c } :=
  rfl

theorem related_launch (h : Twin a b) :
    Related LaunchTwin
      (hailoVdmaLaunchTransfer vdmaHw a descListAddress descList regs startingDesc buffers
        shouldBind firstInterruptsDomain lastDescInterrupts isDebug)
      (hailoVdmaLaunchTransfer vdmaHw b descListAddress descList regs startingDesc buffers
        shouldBind firstInterruptsDomain lastDescInterrupts isDebug) := by
  have hattach := h.attach descListAddress descList
  have hvalid : validateChannelState (attach a descListAddress descList) regs =
      validateChannelState (attach b descListAddress descList) regs := by
    unfold validateChannelState
    rw [hattach.state]
  have hreturn : ∀ ret : Int32, Related LaunchTwin
      (.ok (ret, attach a descListAddress descList, descList, regs) : Exec _)
      (.ok (ret, attach b descListAddress descList, descList, regs)) :=
    fun ret => .ok ⟨rfl, hattach, rfl⟩
  rw [launchTransfer_eq, launchTransfer_eq, ← h.lastDescList, ← hvalid, ← h.state, ← h.index]
  refine .ite Iff.rfl (fun _ => .ok ⟨rfl, h.remask descList, rfl⟩) fun _ => ?_
  refine .ite Iff.rfl (fun _ => hreturn _) fun _ => ?_
  refine .ite Iff.rfl (fun _ => hreturn _) fun _ => ?_
  refine .ite Iff.rfl (fun _ => hreturn _) fun _ => ?_
  exact .same_bind _ fun c => related_publishTransfer hattach _

end Launch

section Fill
variable {σ : Type} {transferDone : HailoOngoingTransfer → σ → Exec σ}

structure CursorTwin (c c' : CompletionCursor σ) : Prop where
  channel : Twin c.channel c'.channel
  heap : c.heap = c'.heap
  done : c.done = c'.done
  transfersCompleted : c.transfersCompleted = c'.transfersCompleted
  validationSuccess : c.validationSuccess = c'.validationSuccess
  isDebug : c.isDebug = c'.isDebug

variable {a b : HailoVdmaChannel}

/-- Rings with the same contents have the same transfer at their tails. -/
theorem Twin.pop (h : Twin a b) (hongoing : OngoingRing.ongoing a.ongoingTransfers ≠ []) :
    curTransfer a = curTransfer b ∧
      OngoingRing.ongoing (popped a.ongoingTransfers) =
        OngoingRing.ongoing (popped b.ongoingTransfers) := by
  have hongoing' : OngoingRing.ongoing b.ongoingTransfers ≠ [] := h.ongoing ▸ hongoing
  have heq := h.ongoing
  rw [ongoing_popped hongoing, ongoing_popped hongoing'] at heq
  exact ⟨(List.cons.inj heq).1, (List.cons.inj heq).2⟩

theorem related_completeTransfer {c c' : CompletionCursor σ} (h : CursorTwin c c')
    (hongoing : ongoing c.channel.ongoingTransfers ≠ []) :
    Related (fun r r' => CursorTwin r r' ∧ r.channel = afterComplete c.channel)
      (completeTransfer transferDone c) (completeTransfer transferDone c') := by
  obtain ⟨a, heap, done, count, success, debug⟩ := c
  obtain ⟨b, heap', done', count', success', debug'⟩ := c'
  obtain ⟨htwin, hheap, hdone, hcount, hsuccess, hdebug⟩ := h
  simp only at htwin hheap hdone hcount hsuccess hdebug hongoing
  subst hheap hdone hcount hsuccess hdebug
  obtain ⟨hcur, hpopped⟩ := htwin.pop hongoing
  unfold curTransfer at hcur
  unfold completeTransfer
  simp only
  rw [← htwin.lastDescList, ← hcur]
  refine .same_bind _ fun valid => ?_
  refine .same_bind _ fun heap => ?_
  refine .same_bind _ fun done => .ok ⟨⟨?_, rfl, rfl, rfl, rfl, rfl⟩, rfl⟩
  refine ⟨htwin.index, rfl, ?_, hpopped, htwin.measured, htwin.bounds, htwin.pending⟩
  simp only [htwin.state]

theorem related_completeTransfers (hwNumProc : UInt16) {n : Nat} {c c' : CompletionCursor σ}
    (h : CursorTwin c c') (hn : n = (ongoing c.channel.ongoingTransfers).length) :
    Related CursorTwin (completeTransfers transferDone hwNumProc n c)
      (completeTransfers transferDone hwNumProc n c') := by
  induction n generalizing c c' with
  | zero => exact .ok h
  | succ n ih =>
    have hongoing : ongoing c.channel.ongoingTransfers ≠ [] := by
      intro hnil
      rw [hnil] at hn
      cases hn
    have hcur := (h.channel.pop hongoing).1
    have hcomplete : isTransferComplete c.channel (curTransfer c.channel) hwNumProc =
        isTransferComplete c'.channel (curTransfer c'.channel) hwNumProc := by
      unfold isTransferComplete
      rw [h.channel.state, hcur]
    unfold completeTransfers
    refine .ite (by exact hcomplete ▸ Iff.rfl) (fun _ => .ok h) fun _ => ?_
    refine (related_completeTransfer h hongoing).bind fun c₁ c₁' hround => ?_
    refine ih hround.1 ?_
    rw [hround.2]
    rw [ongoing_popped hongoing, List.length_cons] at hn
    exact Nat.succ.inj hn

theorem related_fillChannel (h : Twin a b) (engineIndex : UInt8) (regs : ChannelRegs)
    (heap : DescListHeap) (done : σ) :
    Related (fun r r' => r.1 = r'.1 ∧ Twin r.2.1 r'.2.1 ∧ r.2.2 = r'.2.2)
      (fillChannelIrqData transferDone engineIndex a regs heap done)
      (fillChannelIrqData transferDone engineIndex b regs heap done) := by
  have hnum : readHwNumProc a regs = readHwNumProc b regs := by
    unfold readHwNumProc
    rw [h.state]
  have hcount : (ongoingTransfersCircCnt a.ongoingTransfers).toNat =
      (ongoingTransfersCircCnt b.ongoingTransfers).toNat := by
    rw [toNat_ongoingTransfersCircCnt, toNat_ongoingTransfersCircCnt, h.ongoing]
  unfold fillChannelIrqData
  rw [← hnum, ← hcount]
  have hloop : Related CursorTwin
      (completeTransfers transferDone (readHwNumProc a regs)
        (ongoingTransfersCircCnt a.ongoingTransfers).toNat ⟨a, heap, done, 0, true, false⟩)
      (completeTransfers transferDone (readHwNumProc a regs)
        (ongoingTransfersCircCnt a.ongoingTransfers).toNat ⟨b, heap, done, 0, true, false⟩) :=
    related_completeTransfers _ ⟨h, rfl, rfl, rfl, rfl, rfl⟩
      (toNat_ongoingTransfersCircCnt a.ongoingTransfers)
  refine hloop.bind fun c c' hc => ?_
  refine .ok ⟨?_, hc.channel, ?_⟩
  · simp only [h.index, hc.validationSuccess, hc.isDebug, hc.transfersCompleted]
  · simp only [hc.heap, hc.done]

end Fill

section Timestamps
variable {list list' : HailoChannelInterruptTimestampList}

/-- Rings with the same contents are both empty, or lose the same timestamp. -/
theorem pop_agree (h : InBounds list) (h' : InBounds list')
    (hpending : pending list = pending list') :
    (hailoVdmaPopTimestamp list = none ∧ hailoVdmaPopTimestamp list' = none) ∨
      ∃ entry left left', hailoVdmaPopTimestamp list = some (entry, left) ∧
        hailoVdmaPopTimestamp list' = some (entry, left') ∧ InBounds left ∧ InBounds left' ∧
        pending left = pending left' := by
  rcases pop_cases h with ⟨hpop, hnil⟩ | ⟨entry, left, hpop, hleft, hcons⟩
  · rcases pop_cases h' with ⟨hpop', -⟩ | ⟨entry', left', -, -, hcons'⟩
    · exact Or.inl ⟨hpop, hpop'⟩
    · rw [← hpending, hnil] at hcons'
      cases hcons'
  · rcases pop_cases h' with ⟨-, hnil'⟩ | ⟨entry', left', hpop', hleft', hcons'⟩
    · rw [hnil', hcons] at hpending
      cases hpending
    · rw [hcons, hcons', List.cons.injEq] at hpending
      obtain ⟨rfl, hrest⟩ := hpending
      exact Or.inr ⟨entry, left, left', hpop, hpop', hleft, hleft', hrest⟩

/-- Both loops take the same timestamps and leave the same ones. -/
theorem popTimestamps_eq (descCountMask : UInt32) (room i : Nat)
    (timestamps : Nat → HailoChannelInterruptTimestamp) (h : InBounds list) (h' : InBounds list')
    (hpending : pending list = pending list') :
    ∃ count filled left left',
      popTimestamps descCountMask room i list timestamps = (count, filled, left) ∧
      popTimestamps descCountMask room i list' timestamps = (count, filled, left') ∧
      InBounds left ∧ InBounds left' ∧ pending left = pending left' := by
  induction room generalizing i list list' timestamps with
  | zero =>
    unfold popTimestamps
    rcases pop_agree h h' hpending with
      ⟨hpop, hpop'⟩ | ⟨entry, left, left', hpop, hpop', hleft, hleft', hrest⟩
    · rw [hpop, hpop']
      exact ⟨_, _, _, _, rfl, rfl, h, h', hpending⟩
    · rw [hpop, hpop']
      exact ⟨_, _, _, _, rfl, rfl, hleft, hleft', hrest⟩
  | succ room ih =>
    unfold popTimestamps
    rcases pop_agree h h' hpending with
      ⟨hpop, hpop'⟩ | ⟨entry, left, left', hpop, hpop', hleft, hleft', hrest⟩
    · rw [hpop, hpop']
      exact ⟨_, _, _, _, rfl, rfl, h, h', hpending⟩
    · rw [hpop, hpop']
      exact ih _ _ hleft hleft' hrest

theorem Twin.readTimestamps {a b : HailoVdmaChannel} (h : Twin a b)
    (timestamps : Nat → HailoChannelInterruptTimestamp) :
    ∃ count filled a' b', hailoVdmaPopTimestampsToResponse a timestamps = (count, filled, a') ∧
      hailoVdmaPopTimestampsToResponse b timestamps = (count, filled, b') ∧ Twin a' b' := by
  obtain ⟨count, filled, left, left', hpop, hpop', hbounds, hbounds', hpending⟩ :=
    popTimestamps_eq a.state.descCountMask channelIrqTimestampsSize 0 timestamps h.bounds.1
      h.bounds.2 h.pending
  rw [h.state] at hpop'
  unfold hailoVdmaPopTimestampsToResponse
  rw [hpop, hpop']
  exact ⟨count, filled, _, _, rfl, rfl, h.index, h.lastDescList, h.state, h.ongoing, h.measured,
    ⟨hbounds, hbounds'⟩, hpending⟩

theorem Twin.pushTimestamp {a b : HailoVdmaChannel} (h : Twin a b) (now : UInt64)
    (regs : ChannelRegs) :
    Twin { a with timestampList := hailoVdmaPushTimestamp now regs a.timestampList }
      { b with timestampList := hailoVdmaPushTimestamp now regs b.timestampList } where
  index := h.index
  lastDescList := h.lastDescList
  state := h.state
  ongoing := h.ongoing
  measured := h.measured
  bounds := ⟨h.bounds.1.push now regs, h.bounds.2.push now regs⟩
  pending := by
    simp only
    rw [pending_push h.bounds.1, pending_push h.bounds.2, h.pending]

/-- The ring as enabling leaves it, whatever the array holds. -/
theorem emptied_timestamps (timestamps : Nat → HailoChannelInterruptTimestamp) :
    InBounds ⟨0, 0, timestamps⟩ ∧ pending ⟨0, 0, timestamps⟩ = [] :=
  ⟨⟨Nat.zero_lt_succ _, Nat.zero_lt_succ _⟩,
    CircularBuffer.contents_empty (show CircularBuffer.count 256 0 0 = 0 by decide)⟩

end Timestamps

section Engines
variable {bitmap : UInt32} {e e' : HailoVdmaEngine}

/-- Words with the same bits in a bitmap -/
def SameOn (bitmap a a' : UInt32) : Prop :=
  ∀ pos, hailoTestBit pos bitmap = true → hailoTestBit pos a = hailoTestBit pos a'

/-- Engines whose channels of the bitmap are twins. -/
structure Alike (bitmap : UInt32) (e e' : HailoVdmaEngine) : Prop where
  index : e.index = e'.index
  enabled : SameOn bitmap e.enabledChannels e'.enabledChannels
  interrupted : SameOn bitmap e.interruptedChannels e'.interruptedChannels
  channels : ∀ i : ChannelIndex, hailoTestBit i bitmap = true → Twin (e.channels i) (e'.channels i)

/-- Every channel of the one bitmap is in the other. -/
def Within (bits bitmap : UInt32) : Prop :=
  ∀ pos, hailoTestBit pos bits = true → hailoTestBit pos bitmap = true

theorem SameOn.or {a a' : UInt32} (h : SameOn bitmap a a') (bits : UInt32) :
    SameOn bitmap (a ||| bits) (a' ||| bits) := by
  intro pos hpos
  rw [hailoTestBit_or, hailoTestBit_or, h pos hpos]

theorem SameOn.and_not {a a' : UInt32} (h : SameOn bitmap a a') (bits : UInt32) :
    SameOn bitmap (a &&& ~~~bits) (a' &&& ~~~bits) := by
  intro pos hpos
  rw [hailoTestBit_and_not, hailoTestBit_and_not, h pos hpos]

/-- `hailo_vdma_engine_read_interrupts` of channels in the bitmap -/
theorem Alike.irqChannelsBitmap (h : Alike bitmap e e') {requested : UInt32}
    (hrequested : Within requested bitmap) :
    requested &&& e.enabledChannels &&& e.interruptedChannels =
      requested &&& e'.enabledChannels &&& e'.interruptedChannels := by
  refine eq_of_hailoTestBit fun pos => ?_
  rw [hailoTestBit_and, hailoTestBit_and, hailoTestBit_and _ (requested &&& e'.enabledChannels),
    hailoTestBit_and _ requested e'.enabledChannels]
  cases hbit : hailoTestBit pos requested with
  | false => rfl
  | true =>
    have hpos := hrequested pos hbit
    rw [h.enabled pos hpos, h.interrupted pos hpos]

theorem Alike.setChannel (h : Alike bitmap e e') {i : ChannelIndex} {a b : HailoVdmaChannel}
    (htwin : Twin a b) : Alike bitmap (setChannel e i a) (setChannel e' i b) where
  index := h.index
  enabled := h.enabled
  interrupted := h.interrupted
  channels := by
    intro j hj
    by_cases hji : j = i
    · subst hji
      rw [setChannel_self, setChannel_self]
      exact htwin
    · rw [setChannel_of_ne e hji, setChannel_of_ne e' hji]
      exact h.channels j hj

theorem twin_enabled {a b : HailoVdmaChannel} (hindex : a.index = b.index)
    (hlist : a.lastDescList = b.lastDescList) (hstate : a.state = b.state)
    (hongoing : ongoing a.ongoingTransfers = ongoing b.ongoingTransfers)
    (measureTimestamp : Bool) :
    Twin ⟨a.index, a.lastDescList, a.state, a.ongoingTransfers, measureTimestamp,
        ⟨0, 0, a.timestampList.timestamps⟩⟩
      ⟨b.index, b.lastDescList, b.state, b.ongoingTransfers, measureTimestamp,
        ⟨0, 0, b.timestampList.timestamps⟩⟩ where
  index := hindex
  lastDescList := hlist
  state := hstate
  ongoing := hongoing
  measured := rfl
  bounds := ⟨(emptied_timestamps _).1, (emptied_timestamps _).1⟩
  pending := (emptied_timestamps _).2.trans (emptied_timestamps _).2.symm

theorem Alike.enable (h : Alike bitmap e e') (enabled : UInt32) (measureTimestamp : Bool) :
    Alike bitmap (hailoVdmaEngineEnableChannels e enabled measureTimestamp)
      (hailoVdmaEngineEnableChannels e' enabled measureTimestamp) where
  index := h.index
  enabled := h.enabled.or enabled
  interrupted := h.interrupted
  channels := by
    intro i hi
    have htwin := h.channels i hi
    simp only [hailoVdmaEngineEnableChannels]
    split
    · exact twin_enabled htwin.index htwin.lastDescList htwin.state htwin.ongoing measureTimestamp
    · exact htwin

theorem Alike.pushTimestamps (h : Alike bitmap e e') (pushed : UInt32)
    (now : ChannelIndex → UInt64) (regs : ChannelIndex → ChannelRegs) :
    Alike bitmap (hailoVdmaEnginePushTimestamps e pushed now regs)
      (hailoVdmaEnginePushTimestamps e' pushed now regs) where
  index := h.index
  enabled := h.enabled
  interrupted := h.interrupted
  channels := by
    intro i hi
    have htwin := h.channels i hi
    simp only [hailoVdmaEnginePushTimestamps]
    by_cases hpush : (hailoTestBit i pushed && (e.channels i).timestampMeasureEnabled) = true
    · rw [if_pos hpush, if_pos (htwin.measured ▸ hpush)]
      exact htwin.pushTimestamp (now i) (regs i)
    · rw [if_neg hpush, if_neg (htwin.measured ▸ hpush)]
      exact htwin

variable {σ : Type}

/-- What a read of completions returns for engines that are alike. -/
structure FillTwin (bitmap : UInt32) (r r' : Int32 × FillCursor σ) : Prop where
  ret : r.1 = r'.1
  irqData : r.2.irqData = r'.2.irqData
  heap : r.2.heap = r'.2.heap
  done : r.2.done = r'.2.done
  engine : Alike bitmap r.2.engine r'.2.engine

theorem related_fillChannels {transferDone : HailoOngoingTransfer → σ → Exec σ} {irq : UInt32}
    (hirq : Within irq bitmap) (regs : ChannelIndex → ChannelRegs) (is : List ChannelIndex)
    (irqData : List HailoVdmaInterruptsChannelData) (heap : DescListHeap) (done : σ)
    (h : Alike bitmap e e') :
    Related (FillTwin bitmap)
      (fillChannels transferDone irq regs is ⟨e, heap, irqData, done⟩)
      (fillChannels transferDone irq regs is ⟨e', heap, irqData, done⟩) := by
  induction is generalizing e e' irqData heap done with
  | nil => exact .ok ⟨rfl, rfl, rfl, rfl, h⟩
  | cons i is ih =>
    unfold fillChannels
    refine .ite Iff.rfl (fun _ => ih irqData heap done h) fun hbit => ?_
    have htwin := h.channels i (hirq i (by simpa using hbit))
    refine .ite (by rw [htwin.lastDescList]) (fun _ => ih irqData heap done h) fun _ => ?_
    refine .ite Iff.rfl (fun _ => .ok ⟨rfl, rfl, rfl, rfl, h⟩) fun _ => ?_
    rw [h.index]
    refine (related_fillChannel htwin e'.index (regs i) heap done).bind ?_
    rintro ⟨data, a, heap₁, done₁⟩ ⟨data', b, heap₁', done₁'⟩ ⟨hdata, hab, hrest⟩
    cases hdata
    cases hrest
    exact ih _ _ _ (h.setChannel hab)

variable (bitmap) in
/-- An operation on channels of the bitmap, after they were disabled. Operations that treat
every channel by itself may be on others as well. -/
def OnChannels : Operation σ → Prop
  | .enable _ _ | .setInterrupts _ | .pushTimestamps _ _ _ => True
  | .launch channel _ _ _ _ _ _ _ _ _ => hailoTestBit channel bitmap = true
  | .readInterrupts requestedBitmap => Within requestedBitmap bitmap
  | .fillIrqData _ irqChannelsBitmap _ _ _ => Within irqChannelsBitmap bitmap
  | .readTimestamps channelIndex _ => channelIndex.toNat < maxVdmaChannelsPerEngine →
    hailoTestBit channelIndex.toNat bitmap = true
  | .disable _ _ | .clearInterrupts _ => False

/-- The same outcome, and engines that are still alike. -/
def OutcomeTwin (bitmap : UInt32) (r r' : Outcome σ × HailoVdmaEngine) : Prop :=
  r.1 = r'.1 ∧ Alike bitmap r.2 r'.2

theorem related_apply (vdmaHw : HailoVdmaHw) (transferDone : HailoOngoingTransfer → σ → Exec σ)
    (h : Alike bitmap e e') {op : Operation σ} (hop : OnChannels bitmap op) :
    Related (OutcomeTwin bitmap) (apply vdmaHw transferDone e op)
      (apply vdmaHw transferDone e' op) := by
  cases op with
  | enable enabled measureTimestamp => exact .ok ⟨rfl, h.enable enabled measureTimestamp⟩
  | disable => exact hop.elim
  | launch channel =>
    refine (related_launch (h.channels channel hop)).bind ?_
    rintro ⟨ret, a, rest⟩ ⟨ret', b, rest'⟩ ⟨hret, hab, hrest⟩
    cases hret
    cases hrest
    exact .ok ⟨rfl, h.setChannel hab⟩
  | setInterrupts bits => exact .ok ⟨rfl, h.index, h.enabled, h.interrupted.or bits, h.channels⟩
  | clearInterrupts => exact hop.elim
  | readInterrupts requested =>
    have hirq := h.irqChannelsBitmap hop
    refine .ok ⟨congrArg Outcome.interrupts hirq, h.index, h.enabled, ?_, h.channels⟩
    simp only [hailoVdmaEngineReadInterrupts, hailoVdmaEngineClearChannelInterrupts, hirq]
    exact h.interrupted.and_not _
  | pushTimestamps pushed now regs => exact .ok ⟨rfl, h.pushTimestamps pushed now regs⟩
  | fillIrqData irqData irq regs heap done =>
    have hfill : Related (FillTwin bitmap)
        (hailoVdmaEngineFillIrqData transferDone irqData e irq regs heap done)
        (hailoVdmaEngineFillIrqData transferDone irqData e' irq regs heap done) :=
      related_fillChannels hop regs _ irqData heap done h
    refine hfill.bind fun r r' hr => ?_
    obtain ⟨hret, hdata, hheap, hdone, hengine⟩ := hr
    refine .ok ⟨?_, hengine⟩
    simp only [hret, hdata, hheap, hdone]
  | readTimestamps channelIndex timestamps =>
    refine .ok ?_
    unfold hailoVdmaEngineReadTimestamps
    split
    · next hlt =>
      obtain ⟨count, filled, a, b, hread, hread', hab⟩ :=
        (h.channels ⟨channelIndex.toNat, hlt⟩ (hop hlt)).readTimestamps timestamps
      rw [hread, hread']
      exact ⟨rfl, h.setChannel hab⟩
    · exact ⟨rfl, h⟩

theorem related_run (vdmaHw : HailoVdmaHw) (transferDone : HailoOngoingTransfer → σ → Exec σ)
    (h : Alike bitmap e e') {ops : List (Operation σ)} (hops : ∀ op ∈ ops, OnChannels bitmap op) :
    Related (fun r r' => r.1 = r'.1) (runOperations vdmaHw transferDone e ops)
      (runOperations vdmaHw transferDone e' ops) := by
  induction ops generalizing e e' with
  | nil => exact .ok rfl
  | cons op ops ih =>
    refine (related_apply vdmaHw transferDone h (hops op List.mem_cons_self)).bind ?_
    rintro ⟨outcome, e₁⟩ ⟨outcome', e₁'⟩ ⟨houtcome, halike⟩
    cases houtcome
    refine (ih halike fun op hop => hops op (List.mem_cons_of_mem _ hop)).bind ?_
    rintro ⟨outcomes, e₂⟩ ⟨outcomes', e₂'⟩ houtcomes
    cases houtcomes
    exact .ok rfl

variable {vdmaHw : HailoVdmaHw} {transferDone : HailoOngoingTransfer → σ → Exec σ}

theorem runOperations_append {ops ops' : List (Operation σ)} {outcomes : List (Outcome σ)}
    (h : runOperations vdmaHw transferDone e (ops ++ ops') = .ok (outcomes, e')) :
    ∃ first e₁ last, runOperations vdmaHw transferDone e ops = .ok (first, e₁) ∧
      runOperations vdmaHw transferDone e₁ ops' = .ok (last, e') := by
  induction ops generalizing e outcomes with
  | nil => exact ⟨[], e, outcomes, rfl, h⟩
  | cons op ops ih =>
    obtain ⟨⟨outcome, e₁⟩, hop, h⟩ := bind_ok h
    obtain ⟨⟨outcomes₁, e₂⟩, hrest, h⟩ := bind_ok h
    cases h
    obtain ⟨first, e₃, last, hfirst, hlast⟩ := ih hrest
    refine ⟨outcome :: first, e₃, last, ?_, hlast⟩
    rw [List.cons_append] at *
    rw [runOperations, hop, ok_bind]
    simp only [hfirst, ok_bind]
    rfl

/-- An enable brings a disabled engine and an initialized one together. -/
theorem alike_enabled {memory : HailoVdmaEngine} {engineIndex : UInt8}
    (hindexed : Indexed engineIndex e)
    (hdisabled : ∀ i : ChannelIndex, hailoTestBit i bitmap = true → Disabled (e.channels i))
    (hcleared : SameOn bitmap e.interruptedChannels 0) {enabled : UInt32}
    (henabled : Within bitmap enabled) (measureTimestamp : Bool) :
    Alike bitmap (hailoVdmaEngineEnableChannels e enabled measureTimestamp)
      (hailoVdmaEngineEnableChannels (hailoVdmaEngineInit memory engineIndex) enabled
        measureTimestamp) where
  index := hindexed.own
  enabled := by
    intro pos hpos
    simp only [hailoVdmaEngineEnableChannels, hailoTestBit_or, henabled pos hpos, Bool.or_true]
  interrupted := hcleared
  channels := by
    intro i hi
    have hchannel := hdisabled i hi
    have hongoing : ongoing (e.channels i).ongoingTransfers =
        ongoing ((hailoVdmaEngineInit memory engineIndex).channels i).ongoingTransfers :=
      hchannel.ongoing.trans
        (ongoing_emptyRing (memory.channels i).ongoingTransfers.transfers).symm
    simp only [hailoVdmaEngineEnableChannels, henabled i hi, if_true]
    exact twin_enabled (hindexed.channels i) hchannel.lastDescList hchannel.state hongoing
      measureTimestamp

theorem disabled_like_initialized {memory memory' : HailoVdmaEngine} {engineIndex : UInt8}
    {earlier later : List (Operation σ)} {outcomes : List (Outcome σ)} {heap : DescListHeap}
    {enabled : UInt32}
    (hrun : runOperations vdmaHw transferDone (hailoVdmaEngineInit memory engineIndex)
      (earlier ++ [.disable bitmap heap, .clearInterrupts bitmap]) = .ok (outcomes, e))
    (henabled : Within bitmap enabled) (hlater : ∀ op ∈ later, OnChannels bitmap op)
    (measureTimestamp : Bool) :
    (runOperations vdmaHw transferDone e
        (.enable enabled measureTimestamp :: later)).map Prod.fst =
      (runOperations vdmaHw transferDone (hailoVdmaEngineInit memory' engineIndex)
        (.enable enabled measureTimestamp :: later)).map Prod.fst := by
  obtain ⟨first, e₁, last, hfirst, hlast⟩ := runOperations_append hrun
  obtain ⟨⟨outcome, e₂⟩, hop, hlast⟩ := bind_ok hlast
  obtain ⟨⟨e₃, heap'⟩, hdisable, hop⟩ := bind_ok hop
  cases hop
  cases hlast
  have hindexed :=
    ((indexed_init memory engineIndex).run vdmaHw transferDone hfirst).disable hdisable
  have hcleared : Indexed engineIndex (hailoVdmaEngineClearChannelInterrupts e₂ bitmap) :=
    ⟨hindexed.own, hindexed.channels⟩
  have halike : Alike bitmap
      (hailoVdmaEngineEnableChannels (hailoVdmaEngineClearChannelInterrupts e₂ bitmap) enabled
        measureTimestamp)
      (hailoVdmaEngineEnableChannels (hailoVdmaEngineInit memory' engineIndex) enabled
        measureTimestamp) := by
    refine alike_enabled hcleared (fun i hi => ?_) (fun pos hpos => ?_)
      henabled measureTimestamp
    · have hchannel : Disabled (e₂.channels i) :=
        disableChannels_disabled (List.mem_finRange i) hi hdisable
      exact hchannel
    · simp only [hailoVdmaEngineClearChannelInterrupts, hailoTestBit_and_not, hpos,
        hailoTestBit_zero, Bool.not_true, Bool.and_false]
  refine Related.map_eq (R := fun r r' => r.1 = r'.1) ?_ fun _ _ h => h
  refine (related_run vdmaHw transferDone halike hlater).bind ?_
  rintro ⟨outcomes₁, e₄⟩ ⟨outcomes₁', e₄'⟩ houtcomes
  cases houtcomes
  exact .ok rfl

end Engines

/-- A transfer of no buffers over a list at address 1. -/
def launchNothing : Operation Unit :=
  .launch 0 1 ringOfFour activeRegs 0 [] false hailoVdmaInterruptsDomainNone
    hailoVdmaInterruptsDomainHost false

def stampAll : Operation Unit := .pushTimestamps 1 (fun _ => 7) fun _ => activeRegs

/-- Channel 0 launches a transfer, gets a timestamp and an interrupt, and is disabled with all of
them left, its ring rotated; then it is used again. -/
theorem disabled_like_initialized_leftovers :
    ∃ e : HailoVdmaEngine, (e.channels 0).ongoingTransfers.head = 1 ∧
      (runOperations hailoPcieVdmaHw (fun _ done => .ok done) e
          [.enable 1 true, launchNothing, stampAll, .readTimestamps 0 fun _ => ⟨0, 0⟩]).map
          Prod.fst =
        (runOperations hailoPcieVdmaHw (fun _ done => .ok done)
          (hailoVdmaEngineInit ⟨9, 9, 9, fun _ => idleChannel⟩ 0)
          [.enable 1 true, launchNothing, stampAll, .readTimestamps 0 fun _ => ⟨0, 0⟩]).map
          Prod.fst := by
  obtain ⟨outcomes, e, hrun, hrotated⟩ : ∃ outcomes e,
      runOperations hailoPcieVdmaHw (fun _ done => .ok done)
        (hailoVdmaEngineInit ⟨9, 9, 9, fun _ => idleChannel⟩ 0)
        ([.enable 1 true, launchNothing, stampAll, .setInterrupts 1] ++
          [.disable 1 (Function.update (fun _ => none) 1 (some ringOfFour)), .clearInterrupts 1]) =
        .ok (outcomes, e) ∧ (e.channels 0).ongoingTransfers.head = 1 := ⟨_, _, rfl, rfl⟩
  refine ⟨e, hrotated, disabled_like_initialized hrun (fun _ hpos => hpos) ?_ true⟩
  intro op hop
  simp only [List.mem_cons, List.not_mem_nil, or_false] at hop
  rcases hop with rfl | rfl | rfl
  · exact (by decide : hailoTestBit 0 1 = true)
  · trivial
  · exact fun _ => (by decide : hailoTestBit 0 1 = true)

end HailortDrivers.DisabledChannel
