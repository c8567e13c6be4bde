import HailortDrivers.CompletionWindows
import HailortDrivers.DescriptorWindow

/-! Completion over whole runs of a channel on a circular list. Beside the engine a
run keeps what was launched, with a counter that never wraps, what completion
reads took off the ring, and how far hardware has come. -/
namespace HailortDrivers.CompletionOrder
open KernelExec MachineWord VdmaTypes DescriptorProgramming BoundBuffers DescriptorsListCreation
open ChannelTransfers LaunchSteps LaunchedBuffers OngoingRing VdmaEngine CompletionSteps
open EventRuns EngineSteps EngineRuns ModularWindow LaunchedWindows DescriptorWindow
open CompletionWindows

/-- `available` and `processed` are `num_avail` and the hardware's counter of processed
descriptors before they are taken modulo the ring length. A launched transfer comes
with the value of `available` after its launch. -/
structure Tracked where
  state : EngineState
  launched : List (HailoOngoingTransfer × Nat)
  completed : List HailoOngoingTransfer
  available : Nat
  processed : Nat

def Tracked.ring (t : Tracked) (i : ChannelIndex) : List HailoOngoingTransfer :=
  ongoing (t.state.engine.channels i).ongoingTransfers

/-- The transfers that are gone from the front. -/
def taken (before after : List HailoOngoingTransfer) : List HailoOngoingTransfer :=
  before.take (before.length - after.length)

/-- The transfers that are new at the end. -/
def added (before after : List HailoOngoingTransfer) : List HailoOngoingTransfer :=
  after.drop before.length

theorem taken_append (xs ys : List HailoOngoingTransfer) : taken (xs ++ ys) ys = xs := by
  rw [taken, List.length_append, Nat.add_sub_cancel, List.take_left]

theorem added_append (xs ys : List HailoOngoingTransfer) : added xs (xs ++ ys) = ys := by
  rw [added, List.drop_left]

variable (vdmaHw : HailoVdmaHw) (i : ChannelIndex) (address : Nat)

/-- A launch, progress of the hardware, a completion read of any channels, or
something that leaves the channel and the size of its list alone. -/
inductive Step : Tracked → Tracked → Prop
  | launch {t : Tracked} {s' : EngineState} {args : LaunchArgs} {l : HailoVdmaDescriptorsList}
      {rets : List Int32} (hlaunch : Launches vdmaHw i address args l rets t.state s')
      (hpos : 0 < launchedCount rets)
      (hroom : heldDescs l.descCount.toNat (t.ring i) + launchedCount rets ≤
        l.descCount.toNat - 1) :
      Step t
        { state := s'
          launched := t.launched ++
            (added (t.ring i) (ongoing (s'.engine.channels i).ongoingTransfers)).map
              fun transfer => (transfer, t.available + launchedCount rets)
          completed := t.completed
          available := t.available + launchedCount rets
          processed := t.processed }
  | progress {t : Tracked} {processed : Nat} (hmono : t.processed ≤ processed)
      (hle : processed ≤ t.available) : Step t { t with processed := processed }
  | completionRead {t : Tracked} {l : HailoVdmaDescriptorsList} {σ : Type}
      {transferDone : HailoOngoingTransfer → σ → Exec σ}
      {irqData : List HailoVdmaInterruptsChannelData} {bitmap : UInt32}
      {regs : ChannelIndex → ChannelRegs} {done : σ} {ret : Int32} {c : FillCursor σ}
      (hlist : t.state.heap address = some l)
      (hregs : hailoTestBit i bitmap = true →
        ShowsProcessed l.descCount.toNat (regs i) t.processed)
      (hfill : hailoVdmaEngineFillIrqData transferDone irqData t.state.engine bitmap regs
        t.state.heap done = .ok (ret, c)) :
      Step t
        { t with
          state := ⟨c.engine, c.heap⟩
          completed := t.completed ++
            taken (t.ring i) (ongoing (c.engine.channels i).ongoingTransfers) }
  | elsewhere {t : Tracked} {s' : EngineState} {l : HailoVdmaDescriptorsList}
      (hlist : (s'.engine.channels i).lastDescList = (t.state.engine.channels i).lastDescList)
      (hstate : (s'.engine.channels i).state = (t.state.engine.channels i).state)
      (hring : (s'.engine.channels i).ongoingTransfers =
        (t.state.engine.channels i).ongoingTransfers)
      (hheap : t.state.heap address = some l)
      (hheap' : ∃ l', s'.heap address = some l' ∧ SameShape l l') :
      Step t { t with state := s' }

/-- A channel that starts over. -/
structure Fresh (channel : HailoVdmaChannel) : Prop where
  state : channel.state.numAvail = 0 ∧ channel.state.numProc = 0
  ongoing : ongoing channel.ongoingTransfers = []

theorem hailoVdmaEngineInit_fresh (engine : HailoVdmaEngine) (engineIndex : UInt8) :
    Fresh ((hailoVdmaEngineInit engine engineIndex).channels i) :=
  ⟨⟨rfl, rfl⟩, ongoing_emptyRing _⟩

theorem fresh_of_disabled {channel : HailoVdmaChannel} (h : Disabled channel) : Fresh channel := by
  refine ⟨?_, h.ongoing⟩
  rw [h.state]
  exact ⟨rfl, rfl⟩

def startOf (s : EngineState) : Tracked := ⟨s, [], [], 0, 0⟩

/-- The launched transfers are those taken off, up to `b`, and then those on the ring. -/
structure InOrder (l₀ : HailoVdmaDescriptorsList) (t : Tracked) : Prop where
  list : ∃ l, t.state.heap address = some l ∧ SameShape l₀ l
  windows : ∃ xs ys b, t.launched = xs ++ ys ∧ xs.map Prod.fst = t.completed ∧
    Windows l₀.descCount.toNat 0 xs b ∧
    RingAt l₀.descCount.toNat (t.state.engine.channels i) ys b t.available ∧ b ≤ t.processed
  processed_le : t.processed ≤ t.available
  attached : t.launched = [] ∨ (t.state.engine.channels i).lastDescList ≠ none

section
variable {vdmaHw : HailoVdmaHw} {i : ChannelIndex} {address : Nat} {l₀ : HailoVdmaDescriptorsList}
  {t t' : Tracked}

theorem InOrder.launched {k : Nat} (hN : l₀.descCount.toNat = 2 ^ k)
    (hcount : l₀.descCount.toNat ≤ 65536) (h : InOrder i address l₀ t) {s' : EngineState}
    {args : LaunchArgs} {l : HailoVdmaDescriptorsList} {rets : List Int32}
    (hlaunch : Launches vdmaHw i address args l rets t.state s') (hpos : 0 < launchedCount rets)
    (hroom : heldDescs l.descCount.toNat (t.ring i) + launchedCount rets ≤
      l.descCount.toNat - 1) :
    InOrder i address l₀
      { state := s'
        launched := t.launched ++
          (added (t.ring i) (ongoing (s'.engine.channels i).ongoingTransfers)).map
            fun transfer => (transfer, t.available + launchedCount rets)
        completed := t.completed
        available := t.available + launchedCount rets
        processed := t.processed } := by
  obtain ⟨c, hin⟩ := hlaunch.spec
  obtain ⟨⟨l', hheap, descs, rfl⟩, ⟨xs, ys, b, hlaunched, hcompleted, hxs, hring, hb⟩, hle, -⟩ := h
  obtain rfl : l₀.withDescs descs = l := Option.some.inj (hheap.symm.trans hin.list)
  simp only [HailoVdmaDescriptorsList.withDescs_descCount] at hroom
  have hlast := LaunchesIn.lastDesc_eq hin (dvd_word hN) hpos
  have hstart : t.available % l₀.descCount.toNat = args.startingDesc.toNat :=
    hring.numAvail.symm.trans (LaunchesIn.numAvail_eq hin hcount)
  obtain ⟨hnew, hnumAvail⟩ := LaunchesIn.windows hin hcount hpos hlast hstart
  simp only [HailoVdmaDescriptorsList.withDescs_descCount] at hnew hnumAvail
  have hmask := LaunchesIn.descCountMask_eq hin
  have hadded : added (t.ring i) (ongoing (s'.engine.channels i).ongoingTransfers) =
      [launchedTransfer args.buffers args.isDebug c] := by
    rw [hin.ongoing_eq]
    exact added_append _ _
  have hfit : t.available + launchedCount rets ≤ b + (l₀.descCount.toNat - 1) := by
    have hfit := hring.fit
    have hble := hring.windows.le
    rw [heldDescs, Tracked.ring, ← hring.ongoing_eq, hring.windows.sum_held (by omega)] at hroom
    omega
  rw [hadded, List.map_singleton]
  refine ⟨⟨_, hin.heap_self, SameShape.trans ⟨descs, rfl⟩ hin.sameShape⟩,
    ⟨xs, ys ++ [(launchedTransfer args.buffers args.isDebug c, t.available + launchedCount rets)],
      b, ?_, hcompleted, hxs, ⟨hring.windows.append hnew, ?_, hfit, ?_, hnumAvail,
        fun _ => hmask⟩, hb⟩, ?_, Or.inr ?_⟩
  · rw [hlaunched, List.append_assoc]
  · rw [List.map_append, hring.ongoing_eq, hin.ongoing_eq]
    rfl
  · rw [hin.channel_eq]
    exact hring.numProc
  · simp only
    omega
  · rw [hin.channel_eq]
    exact Option.some_ne_none address

/-- A turn of the channel in a completion read. -/
theorem InOrder.completes {k : Nat} (hN : l₀.descCount.toNat = 2 ^ k)
    (hcount : l₀.descCount.toNat ≤ 65536) (h : InOrder i address l₀ t) {σ : Type}
    {transferDone : HailoOngoingTransfer → σ → Exec σ} {regs : ChannelRegs} {heap : DescListHeap}
    {done : σ} {removed : List HailoOngoingTransfer} {cc : CompletionCursor σ}
    (hshows : ShowsProcessed l₀.descCount.toNat regs t.processed)
    (hcompletes : Completes transferDone (readHwNumProc (t.state.engine.channels i) regs)
      ⟨t.state.engine.channels i, heap, done, 0, true, false⟩ removed cc) :
    t.completed ++ removed =
        (t.launched.filter fun x => decide (x.2 ≤ t.processed)).map Prod.fst ∧
      ∃ xs ys b, t.launched = xs ++ ys ∧ xs.map Prod.fst = t.completed ++ removed ∧
        Windows l₀.descCount.toNat 0 xs b ∧
        RingAt l₀.descCount.toNat cc.channel ys b t.available ∧ b ≤ t.processed := by
  obtain ⟨-, ⟨xs, ys, b, hlaunched, hcompleted, hxs, hring, hb⟩, hle, -⟩ := h
  have hhw : ys ≠ [] → (readHwNumProc (t.state.engine.channels i) regs).toNat =
      t.processed % l₀.descCount.toNat := by
    intro hne
    have hmask := hring.mask hne
    rw [hN] at hmask hcount hshows ⊢
    exact toNat_readHwNumProc hmask hcount hshows
  rw [hN] at hring hhw hcount hxs ⊢
  obtain ⟨ys, zs, m, rfl, rfl, hys, hm, hzs, hring'⟩ :=
    Completes.exact hcount hcompletes hring hb hle hhw
  have hdone := hxs.append hys
  have hmap : (xs ++ ys).map Prod.fst = t.completed ++ ys.map Prod.fst := by
    rw [List.map_append, hcompleted]
  refine ⟨?_, xs ++ ys, zs, m, by rw [hlaunched, List.append_assoc], hmap, hdone, hring', hm⟩
  have hprocessed : (xs ++ ys).filter (fun x => decide (x.2 ≤ t.processed)) = xs ++ ys := by
    refine List.filter_eq_self.mpr fun x hx => decide_eq_true ?_
    exact (hdone.end_le hx).trans hm
  have hwaiting : zs.filter (fun x => decide (x.2 ≤ t.processed)) = [] := by
    refine List.filter_eq_nil_iff.mpr fun z hz => ?_
    rw [decide_eq_true_eq]
    exact Nat.not_le.mpr (hzs z hz)
  rw [hlaunched, ← List.append_assoc, List.filter_append, hprocessed, hwaiting, List.append_nil,
    hmap]

section Read
variable {σ : Type} {transferDone : HailoOngoingTransfer → σ → Exec σ}
  {irqData : List HailoVdmaInterruptsChannelData} {bitmap : UInt32}
  {regs : ChannelIndex → ChannelRegs} {done : σ} {ret : Int32} {c : FillCursor σ}

/-- A completion read, failed or not, takes transfers off the front of the ring. -/
theorem InOrder.filled {k : Nat} (hN : l₀.descCount.toNat = 2 ^ k)
    (hcount : l₀.descCount.toNat ≤ 65536) (h : InOrder i address l₀ t)
    (hregs : hailoTestBit i bitmap = true →
      ShowsProcessed l₀.descCount.toNat (regs i) t.processed)
    (hfill : hailoVdmaEngineFillIrqData transferDone irqData t.state.engine bitmap regs
      t.state.heap done = .ok (ret, c)) :
    ∃ removed, t.ring i = removed ++ ongoing (c.engine.channels i).ongoingTransfers ∧
      InOrder i address l₀
        { t with state := ⟨c.engine, c.heap⟩, completed := t.completed ++ removed } := by
  obtain ⟨turns, hfills⟩ := fillChannels_fills hfill
  refine hfills.inv (I := fun c => ∃ removed,
    t.ring i = removed ++ ongoing (c.engine.channels i).ongoingTransfers ∧
      InOrder i address l₀
        { t with state := ⟨c.engine, c.heap⟩, completed := t.completed ++ removed }) ?_
        ⟨[], rfl, ?_⟩
  · rintro c j data removed' cc ⟨removed, hremoved, hinv⟩ hbit - hcompletes
    have hlist : ∃ l, cc.heap address = some l ∧ SameShape l₀ l := by
      rw [hcompletes.heap_eq]
      exact heapCleared_sameShape hinv.list _
    by_cases hij : i = j
    · subst hij
      obtain ⟨-, hwindows⟩ := hinv.completes hN hcount (hregs hbit) hcompletes
      have hattached := hinv.attached
      rw [← hcompletes.sameChannel.lastDescList] at hattached
      refine ⟨removed ++ removed', ?_, hlist, ?_, hinv.processed_le, ?_⟩
      · rw [hremoved, hcompletes.ongoing_eq, List.append_assoc]
        simp only [afterFill, setChannel_self]
      · simp only [afterFill, setChannel_self, ← List.append_assoc]
        exact hwindows
      · simp only [afterFill, setChannel_self]
        exact hattached
    · refine ⟨removed, ?_, hlist, ?_, hinv.processed_le, ?_⟩
      · simp only [afterFill, setChannel_of_ne c.engine hij]
        exact hremoved
      · simp only [afterFill, setChannel_of_ne c.engine hij]
        exact hinv.windows
      · simp only [afterFill, setChannel_of_ne c.engine hij]
        exact hinv.attached
  · rw [List.append_nil]
    exact ⟨h.list, h.windows, h.processed_le, h.attached⟩

/-- What a completion read of channel `i` does, by the turns it gives the channels. -/
structure ExactRead (i : ChannelIndex) (t : Tracked)
    (transferDone : HailoOngoingTransfer → σ → Exec σ)
    (irqData : List HailoVdmaInterruptsChannelData) (regs : ChannelIndex → ChannelRegs) (done : σ)
    (c : FillCursor σ) (turns : List ChannelTurn) : Prop where
  once : (turns.map ChannelTurn.channel).Nodup
  others : ∀ j, j ∉ turns.map ChannelTurn.channel →
    c.engine.channels j = t.state.engine.channels j
  indices : ∀ turn ∈ turns, turn.data.engineIndex = t.state.engine.index ∧
    turn.data.channelIndex = (t.state.engine.channels turn.channel).index
  removed : ∀ turn ∈ turns, t.ring turn.channel =
    turn.removed ++ ongoing (c.engine.channels turn.channel).ongoingTransfers
  calls : (turns.flatMap ChannelTurn.removed).foldlM (fun done t => transferDone t done) done =
    .ok c.done
  exactly : t.ring i = taken (t.ring i) (ongoing (c.engine.channels i).ongoingTransfers) ++
      ongoing (c.engine.channels i).ongoingTransfers ∧
    t.completed ++ taken (t.ring i) (ongoing (c.engine.channels i).ongoingTransfers) =
      (t.launched.filter fun x => decide (x.2 ≤ t.processed)).map Prod.fst
  reports : c.irqData = irqData ++ turns.map ChannelTurn.data
  visited : (t.state.engine.channels i).lastDescList ≠ none → i ∈ turns.map ChannelTurn.channel
  reported : ∀ turn ∈ turns, turn.channel = i → readIsActive (regs i) = true →
    (∀ transfer ∈ turn.removed, validateTransfer (t.state.engine.channels i).lastDescList transfer
      t.state.heap = .ok true) →
    turn.data.data.toNat = turn.removed.length ∧
      turn.data.data ≠ vdmaTransferDataChannelNotActive ∧
      turn.data.data ≠ vdmaTransferDataChannelWithError

/-- The data of an active channel whose validations pass is how many transfers were
taken off; the ring is too small for it to be one of the two special values. -/
theorem channelData_eq {engineIndex : UInt8} {channel : HailoVdmaChannel} {regs : ChannelRegs}
    {heap : DescListHeap} {removed : List HailoOngoingTransfer} {cc : CompletionCursor σ}
    (hcompletes : Completes transferDone (readHwNumProc channel regs)
      ⟨channel, heap, done, 0, true, false⟩ removed cc)
    (hactive : readIsActive regs = true)
    (hvalid : ∀ transfer ∈ removed,
      validateTransfer channel.lastDescList transfer heap = .ok true) :
    (channelData engineIndex channel regs cc).data.toNat = removed.length ∧
      (channelData engineIndex channel regs cc).data ≠ vdmaTransferDataChannelNotActive ∧
      (channelData engineIndex channel regs cc).data ≠ vdmaTransferDataChannelWithError := by
  have hzero : (0 : UInt8).toNat = 0 := rfl
  have hring := length_ongoing_lt channel.ongoingTransfers
  have hlen := congrArg List.length hcompletes.ongoing_eq
  rw [List.length_append] at hlen
  simp only at hlen
  obtain ⟨hsuccess, hdebug⟩ := Completes.validated hcompletes hvalid
  have hnumber := Completes.transfersCompleted hcompletes (by simp only [hzero]; omega)
  simp only [hzero, Nat.zero_add] at hnumber
  have hdata : (channelData engineIndex channel regs cc).data = cc.transfersCompleted := by
    simp only [channelData, hactive, hsuccess, hdebug]
    rfl
  rw [hdata]
  refine ⟨hnumber, ?_, ?_⟩
  · intro heq
    rw [heq] at hnumber
    have : vdmaTransferDataChannelNotActive.toNat = 255 := rfl
    omega
  · intro heq
    rw [heq] at hnumber
    have : vdmaTransferDataChannelWithError.toNat = 254 := rfl
    omega

theorem InOrder.exactRead {k : Nat} (hN : l₀.descCount.toNat = 2 ^ k)
    (hcount : l₀.descCount.toNat ≤ 65536) (h : InOrder i address l₀ t)
    (hbit : hailoTestBit i bitmap = true)
    (hshows : ShowsProcessed l₀.descCount.toNat (regs i) t.processed)
    (hfill : hailoVdmaEngineFillIrqData transferDone irqData t.state.engine bitmap regs
      t.state.heap done = .ok (0, c)) :
    ∃ turns, ExactRead i t transferDone irqData regs done c turns := by
  obtain ⟨turns, hfills⟩ := fillChannels_fills hfill
  have hnodup := List.nodup_finRange maxVdmaChannelsPerEngine
  have hvisited (hattached : (t.state.engine.channels i).lastDescList ≠ none) :
      ∃ turn ∈ turns, turn.channel = i :=
    hfills.visits rfl hnodup (List.mem_finRange i) hbit hattached
  obtain ⟨removed, hremoved, -⟩ := h.filled hN hcount (fun _ => hshows) hfill
  have htaken : taken (t.ring i) (ongoing (c.engine.channels i).ongoingTransfers) = removed := by
    rw [hremoved, taken_append]
  have hexactly : t.completed ++ removed =
      (t.launched.filter fun x => decide (x.2 ≤ t.processed)).map Prod.fst := by
    by_cases hattached : (t.state.engine.channels i).lastDescList = none
    · -- nothing was launched yet
      have hnil := h.attached.resolve_right (not_not.mpr hattached)
      obtain ⟨xs, ys, b, hlaunched, hcompleted, -, hring, -⟩ := h.windows
      rw [hnil] at hlaunched
      obtain ⟨rfl, rfl⟩ := List.append_eq_nil_iff.mp hlaunched.symm
      have hempty : removed = [] := by
        have hnone := hring.ongoing_eq
        rw [← Tracked.ring, hremoved] at hnone
        exact (List.append_eq_nil_iff.mp hnone.symm).1
      rw [hempty, ← hcompleted, hnil]
      rfl
    · obtain ⟨turn, hmem, rfl⟩ := hvisited hattached
      obtain ⟨heap, done', cc, -, -, hcompletes, -, hchannel⟩ := hfills.turn_of_mem hnodup hmem
      have hsame : removed = turn.removed := by
        have hring := hcompletes.ongoing_eq
        rw [← hchannel] at hring
        exact List.append_cancel_right (hremoved.symm.trans hring)
      rw [hsame]
      exact (h.completes hN hcount hshows hcompletes).1
  refine ⟨turns, hfills.channels_sublist.nodup hnodup, fun j hj => hfills.channels_of_no_turn hj,
    ?_, ?_, hfills.done_eq, ⟨by rw [htaken]; exact hremoved, by rw [htaken]; exact hexactly⟩,
    hfills.irqData_eq, ?_, ?_⟩
  · intro turn hmem
    obtain ⟨heap, done', cc, -, -, -, hdata, -⟩ := hfills.turn_of_mem hnodup hmem
    rw [hdata]
    exact ⟨rfl, rfl⟩
  · intro turn hmem
    obtain ⟨heap, done', cc, -, -, hcompletes, -, hchannel⟩ := hfills.turn_of_mem hnodup hmem
    rw [hchannel]
    exact hcompletes.ongoing_eq
  · intro hattached
    obtain ⟨turn, hmem, hturn⟩ := hvisited hattached
    exact List.mem_map.mpr ⟨turn, hmem, hturn⟩
  · intro turn hmem hturn hactive hvalid
    obtain ⟨heap, done', cc, hstatus, -, hcompletes, hdata, -⟩ := hfills.turn_of_mem hnodup hmem
    rw [hturn] at hcompletes hdata
    rw [hdata]
    refine channelData_eq hcompletes hactive fun transfer htransfer => ?_
    exact (hstatus _ _).trans (hvalid transfer htransfer)

end Read

theorem InOrder.step {k : Nat} (hN : l₀.descCount.toNat = 2 ^ k)
    (hcount : l₀.descCount.toNat ≤ 65536) (h : InOrder i address l₀ t)
    (hstep : Step vdmaHw i address t t') : InOrder i address l₀ t' := by
  cases hstep with
  | launch hlaunch hpos hroom => exact h.launched hN hcount hlaunch hpos hroom
  | progress hmono hle =>
    obtain ⟨hlist, ⟨xs, ys, b, hlaunched, hcompleted, hxs, hring, hb⟩, -, hattached⟩ := h
    exact ⟨hlist, ⟨xs, ys, b, hlaunched, hcompleted, hxs, hring, hb.trans hmono⟩, hle, hattached⟩
  | completionRead hheap hregs hfill =>
    obtain ⟨l, hheap', descs, rfl⟩ := h.list
    cases hheap.symm.trans hheap'
    obtain ⟨removed, hremoved, hinv⟩ := h.filled hN hcount hregs hfill
    rw [hremoved, taken_append]
    exact hinv
  | elsewhere hlist hstate hring hheap hheap' =>
    obtain ⟨⟨l, hheap'', hshape⟩, ⟨xs, ys, b, hlaunched, hcompleted, hxs, hat, hb⟩, hle,
      hattached⟩ := h
    cases hheap.symm.trans hheap''
    obtain ⟨l', hl', hshape'⟩ := hheap'
    refine ⟨⟨l', hl', hshape.trans hshape'⟩, ⟨xs, ys, b, hlaunched, hcompleted, hxs, ?_, hb⟩, hle,
      by rwa [hlist]⟩
    obtain ⟨hwindows, hongoing, hfit, hnumProc, hnumAvail, hmask⟩ := hat
    exact ⟨hwindows, by rwa [hring], hfit, by rwa [hstate], by rwa [hstate], by rwa [hstate]⟩

theorem inOrder_start {s : EngineState} (hheap : s.heap address = some l₀)
    (hfresh : Fresh (s.engine.channels i)) : InOrder i address l₀ (startOf s) where
  list := ⟨l₀, hheap, .refl l₀⟩
  windows := by
    have hzero : (0 : UInt16).toNat = 0 := rfl
    refine ⟨[], [], 0, rfl, rfl, .nil 0, ⟨.nil 0, hfresh.ongoing.symm, Nat.zero_le _, ?_, ?_,
      fun h => absurd rfl h⟩, Nat.le_refl 0⟩
    · rw [startOf, hfresh.state.2, hzero, Nat.zero_mod]
    · rw [startOf, hfresh.state.1, hzero, Nat.zero_mod]
  processed_le := Nat.le_refl 0
  attached := Or.inl rfl

end

end HailortDrivers.CompletionOrder
