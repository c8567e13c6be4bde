import HailortDrivers.CompletionSteps
import HailortDrivers.EventRuns

/-! Rules for the loops over the channels of an engine: what one channel's turn
preserves, the call preserves. -/
namespace HailortDrivers.EngineSteps
open KernelExec VdmaTypes ChannelTransfers OngoingRing VdmaEngine CompletionSteps

def setChannel (engine : HailoVdmaEngine) (i : ChannelIndex) (channel : HailoVdmaChannel) :
    HailoVdmaEngine :=
  { engine with channels := Function.update engine.channels i channel }

@[simp] theorem setChannel_self (engine : HailoVdmaEngine) (i : ChannelIndex)
    (channel : HailoVdmaChannel) : (setChannel engine i channel).channels i = channel :=
  Function.update_self _ _ _

theorem setChannel_of_ne (engine : HailoVdmaEngine) {i j : ChannelIndex} (h : j ≠ i)
    (channel : HailoVdmaChannel) :
    (setChannel engine i channel).channels j = engine.channels j := Function.update_of_ne h _ _

section Disable
variable {I : HailoVdmaEngine → DescListHeap → Prop} {bitmap : UInt32}
  {engine engine' : HailoVdmaEngine} {heap heap' : DescListHeap}

theorem disableChannels_inv {is : List ChannelIndex}
    (hturn : ∀ (engine : HailoVdmaEngine) (heap : DescListHeap) (i : ChannelIndex)
      (channel' : HailoVdmaChannel) (heap' : DescListHeap), I engine heap →
      hailoTestBit i bitmap = true →
      disableChannel (engine.channels i) heap = .ok (channel', heap') →
      I (setChannel engine i channel') heap')
    (h : disableChannels bitmap is engine heap = .ok (engine', heap')) (hinv : I engine heap) :
    I engine' heap' := by
  induction is generalizing engine heap with
  | nil =>
    cases h
    exact hinv
  | cons i is ih =>
    rw [disableChannels] at h
    split at h
    · next hbit =>
      obtain ⟨⟨channel, heap₁⟩, hdisable, h⟩ := bind_ok h
      exact ih h (hturn _ _ _ _ _ hinv hbit hdisable)
    · exact ih h hinv

theorem disableChannels_untouched {is : List ChannelIndex} {j : ChannelIndex}
    (hbit : hailoTestBit j bitmap = false)
    (h : disableChannels bitmap is engine heap = .ok (engine', heap')) :
    engine'.channels j = engine.channels j := by
  refine disableChannels_inv (I := fun e _ => e.channels j = engine.channels j) ?_ h rfl
  intro e _ i channel' _ hinv hi _
  have hne : j ≠ i := by
    rintro rfl
    rw [hbit] at hi
    cases hi
  rw [setChannel_of_ne e hne, hinv]

/-- What a channel is after it was disabled. -/
structure Disabled (channel : HailoVdmaChannel) : Prop where
  lastDescList : channel.lastDescList = none
  state : channel.state = channelStateInit
  ongoing : ongoing channel.ongoingTransfers = []

theorem disabled_of_disableChannel {channel channel' : HailoVdmaChannel}
    (h : disableChannel channel heap = .ok (channel', heap')) : Disabled channel' := by
  obtain ⟨hchannel, hongoing, -⟩ := disableChannel_ok h
  rw [hchannel]
  exact ⟨rfl, rfl, hongoing⟩

theorem disableChannels_disabled {is : List ChannelIndex} {j : ChannelIndex} (hmem : j ∈ is)
    (hbit : hailoTestBit j bitmap = true)
    (h : disableChannels bitmap is engine heap = .ok (engine', heap')) :
    Disabled (engine'.channels j) := by
  induction is generalizing engine heap with
  | nil => cases hmem
  | cons i is ih =>
    rw [disableChannels] at h
    split at h
    · obtain ⟨⟨channel, heap₁⟩, hdisable, h⟩ := bind_ok h
      by_cases hji : j = i
      · refine disableChannels_inv (I := fun e _ => Disabled (e.channels j)) ?_ h ?_
        · intro e _ k channel' _ hinv _ hturn
          by_cases hjk : j = k
          · rw [hjk, setChannel_self]
            exact disabled_of_disableChannel hturn
          · rw [setChannel_of_ne e hjk]
            exact hinv
        · simp only [hji, Function.update_self]
          exact disabled_of_disableChannel hdisable
      · exact ih ((List.mem_cons.mp hmem).resolve_left hji) h
    · next hi =>
      have hji : j ≠ i := by
        rintro rfl
        exact hi hbit
      exact ih ((List.mem_cons.mp hmem).resolve_left hji) h

end Disable

section Fill
variable {σ : Type} {transferDone : HailoOngoingTransfer → σ → Exec σ} {bitmap : UInt32}
  {regs : ChannelIndex → ChannelRegs} {c c' : FillCursor σ} {ret : Int32}

/-- What a completion read did with one channel. -/
structure ChannelTurn where
  channel : ChannelIndex
  removed : List HailoOngoingTransfer
  data : HailoVdmaInterruptsChannelData

/-- The cursor after channel `i` was filled. -/
def afterFill (c : FillCursor σ) (i : ChannelIndex) (data : HailoVdmaInterruptsChannelData)
    (channel : HailoVdmaChannel) (heap : DescListHeap) (done : σ) : FillCursor σ where
  engine := setChannel c.engine i channel
  heap := heap
  irqData := c.irqData ++ [data]
  done := done

variable (transferDone bitmap regs) in
/-- A run of the loop over the interrupted channels. -/
inductive Fills : List ChannelIndex → FillCursor σ → List ChannelTurn → Int32 →
    FillCursor σ → Prop
  | nil (c : FillCursor σ) : Fills [] c [] 0 c
  | skip {i : ChannelIndex} {is : List ChannelIndex} {c c' : FillCursor σ}
      {turns : List ChannelTurn} {ret : Int32}
      (hskip : hailoTestBit i bitmap = false ∨ (c.engine.channels i).lastDescList = none)
      (hrest : Fills is c turns ret c') : Fills (i :: is) c turns ret c'
  | full {i : ChannelIndex} {is : List ChannelIndex} {c : FillCursor σ}
      (hfull : irqDataSize ≤ c.irqData.length) : Fills (i :: is) c [] (-einval) c
  | turn {i : ChannelIndex} {is : List ChannelIndex} {c c' : FillCursor σ}
      {removed : List HailoOngoingTransfer} {cc : CompletionCursor σ} {turns : List ChannelTurn}
      {ret : Int32} {data : HailoVdmaInterruptsChannelData}
      (hbit : hailoTestBit i bitmap = true)
      (hattached : (c.engine.channels i).lastDescList ≠ none)
      (hcompletes : Completes transferDone (readHwNumProc (c.engine.channels i) (regs i))
        ⟨c.engine.channels i, c.heap, c.done, 0, true, false⟩ removed cc)
      (hdata : data = channelData c.engine.index (c.engine.channels i) (regs i) cc)
      (hrest : Fills is (afterFill c i data cc.channel cc.heap cc.done) turns ret c') :
      Fills (i :: is) c (⟨i, removed, data⟩ :: turns) ret c'

theorem fillChannels_fills {is : List ChannelIndex}
    (h : fillChannels transferDone bitmap regs is c = .ok (ret, c')) :
    ∃ turns, Fills transferDone bitmap regs is c turns ret c' := by
  induction is generalizing c with
  | nil =>
    cases h
    exact ⟨[], .nil _⟩
  | cons i is ih =>
    rw [fillChannels] at h
    simp only at h
    split at h
    · next hbit =>
      obtain ⟨turns, hturns⟩ := ih h
      exact ⟨turns, .skip (Or.inl (by simpa using hbit)) hturns⟩
    · next hbit =>
      split at h
      · next hnone =>
        obtain ⟨turns, hturns⟩ := ih h
        exact ⟨turns, .skip (Or.inr hnone) hturns⟩
      · next hattached =>
        split at h
        · next hfull =>
          cases h
          exact ⟨[], .full hfull⟩
        · obtain ⟨⟨data, channel, heap, done⟩, hfill, h⟩ := bind_ok h
          obtain ⟨removed, cc, hcompletes, hdata, rfl, rfl, rfl⟩ := fillChannelIrqData_ok hfill
          obtain ⟨turns, hturns⟩ := ih h
          exact ⟨_, .turn (by simpa using hbit) hattached hcompletes hdata hturns⟩

section
variable {is : List ChannelIndex} {turns : List ChannelTurn}

/-- What each channel's turn keeps, a completion read keeps. -/
theorem Fills.inv {I : FillCursor σ → Prop}
    (hturn : ∀ (c : FillCursor σ) (i : ChannelIndex) (data : HailoVdmaInterruptsChannelData)
      (removed : List HailoOngoingTransfer) (cc : CompletionCursor σ), I c →
      hailoTestBit i bitmap = true → (c.engine.channels i).lastDescList ≠ none →
      Completes transferDone (readHwNumProc (c.engine.channels i) (regs i))
        ⟨c.engine.channels i, c.heap, c.done, 0, true, false⟩ removed cc →
      I (afterFill c i data cc.channel cc.heap cc.done))
    (h : Fills transferDone bitmap regs is c turns ret c') (hinv : I c) : I c' := by
  induction h with
  | nil => exact hinv
  | skip hskip hrest ih => exact ih hinv
  | full hfull => exact hinv
  | turn hbit hattached hcompletes hdata hrest ih =>
    exact ih (hturn _ _ _ _ _ hinv hbit hattached hcompletes)

/-- The callback sees what left the rings, channel by channel. -/
theorem Fills.done_eq (h : Fills transferDone bitmap regs is c turns ret c') :
    (turns.flatMap ChannelTurn.removed).foldlM (fun done t => transferDone t done) c.done =
      .ok c'.done := by
  induction h with
  | nil => rfl
  | skip hskip hrest ih => exact ih
  | full hfull => rfl
  | turn hbit hattached hcompletes hdata hrest ih =>
    have hdone := hcompletes.done_eq
    rw [List.flatMap_cons, List.foldlM_append, hdone]
    exact ih

theorem Fills.irqData_eq (h : Fills transferDone bitmap regs is c turns ret c') :
    c'.irqData = c.irqData ++ turns.map ChannelTurn.data := by
  induction h with
  | nil => simp
  | skip hskip hrest ih => exact ih
  | full hfull => simp
  | turn hbit hattached hcompletes hdata hrest ih =>
    rw [ih, afterFill, List.map_cons, List.append_assoc, List.singleton_append]

/-- With room for an entry of each channel the call does not fail. -/
theorem Fills.ret_eq (h : Fills transferDone bitmap regs is c turns ret c')
    (hroom : c.irqData.length + is.length ≤ irqDataSize) : ret = 0 := by
  induction h with
  | nil => rfl
  | skip hskip hrest ih =>
    rw [List.length_cons] at hroom
    exact ih (by omega)
  | full hfull =>
    rw [List.length_cons] at hroom
    omega
  | turn hbit hattached hcompletes hdata hrest ih =>
    rw [List.length_cons] at hroom
    refine ih ?_
    rw [afterFill, List.length_append, List.length_singleton]
    omega

theorem Fills.channels_of_notMem (h : Fills transferDone bitmap regs is c turns ret c')
    {j : ChannelIndex} (hj : j ∉ is) : c'.engine.channels j = c.engine.channels j := by
  induction h with
  | nil => rfl
  | skip hskip hrest ih => exact ih fun hmem => hj (List.mem_cons_of_mem _ hmem)
  | full hfull => rfl
  | turn hbit hattached hcompletes hdata hrest ih =>
    obtain ⟨hne, hj⟩ := not_or.mp (mt List.mem_cons.mpr hj)
    rw [ih hj]
    exact setChannel_of_ne _ hne _

theorem Fills.channels_sublist (h : Fills transferDone bitmap regs is c turns ret c') :
    (turns.map ChannelTurn.channel).Sublist is := by
  induction h with
  | nil => exact .slnil
  | skip hskip hrest ih => exact ih.cons _
  | full hfull => exact List.nil_sublist _
  | turn hbit hattached hcompletes hdata hrest ih => exact ih.cons_cons _

theorem Fills.channels_of_no_turn (h : Fills transferDone bitmap regs is c turns ret c')
    {j : ChannelIndex} (hj : j ∉ turns.map ChannelTurn.channel) :
    c'.engine.channels j = c.engine.channels j := by
  induction h with
  | nil => rfl
  | skip hskip hrest ih => exact ih hj
  | full hfull => rfl
  | turn hbit hattached hcompletes hdata hrest ih =>
    obtain ⟨hne, hj⟩ := not_or.mp (mt List.mem_cons.mpr hj)
    rw [ih hj]
    exact setChannel_of_ne _ hne _

/-- Lists are only cleared: the status words and what is allocated stay. -/
def SameStatus (heap heap' : DescListHeap) : Prop :=
  ∀ pointer transfer, validateTransfer pointer transfer heap' =
    validateTransfer pointer transfer heap

theorem sameStatus_heapCleared (heap : DescListHeap) (lastDescList : Option Nat)
    (ts : List HailoOngoingTransfer) : SameStatus heap (heapCleared heap lastDescList ts) := by
  intro pointer transfer
  rw [validateTransfer, validateTransfer]
  congr 1
  cases pointer with
  | none => rfl
  | some address =>
    by_cases hhere : lastDescList = some address
    · rw [validateLastDescStatus, validateLastDescStatus, loadDescList, loadDescList, hhere,
        heapCleared_self]
      cases heap address with
      | none => rfl
      | some l =>
        simp only [Option.map_some, ok_bind, clearAll_status]
    · rw [validateLastDescStatus, validateLastDescStatus, loadDescList, loadDescList,
        heapCleared_of_ne hhere]

/-- Where the turn of a channel starts from, and what it leaves in the channel. -/
theorem Fills.turn_of_mem (h : Fills transferDone bitmap regs is c turns ret c')
    (hnodup : is.Nodup) {turn : ChannelTurn} (hturn : turn ∈ turns) :
    ∃ heap done cc, SameStatus c.heap heap ∧ turn.channel ∈ is ∧
      Completes transferDone
        (readHwNumProc (c.engine.channels turn.channel) (regs turn.channel))
        ⟨c.engine.channels turn.channel, heap, done, 0, true, false⟩ turn.removed cc ∧
      turn.data = channelData c.engine.index (c.engine.channels turn.channel)
        (regs turn.channel) cc ∧
      c'.engine.channels turn.channel = cc.channel := by
  induction h with
  | nil => cases hturn
  | skip hskip hrest ih =>
    obtain ⟨heap, done, cc, hstatus, hmem, hspec⟩ := ih (List.nodup_cons.mp hnodup).2 hturn
    exact ⟨heap, done, cc, hstatus, List.mem_cons_of_mem _ hmem, hspec⟩
  | full hfull => cases hturn
  | @turn i is c c' removed cc turns ret data hbit hattached hcompletes hdata hrest ih =>
    obtain ⟨hi, hnodup⟩ := List.nodup_cons.mp hnodup
    rcases List.mem_cons.mp hturn with rfl | hturn
    · refine ⟨c.heap, c.done, cc, fun _ _ => rfl, List.mem_cons_self, hcompletes, hdata, ?_⟩
      rw [hrest.channels_of_notMem hi]
      exact setChannel_self _ _ _
    · obtain ⟨heap, done, cc', hstatus, hmem, hspec⟩ := ih hnodup hturn
      have hne : turn.channel ≠ i := by
        rintro rfl
        exact hi hmem
      have hsame : (afterFill c i data cc.channel cc.heap cc.done).engine.channels turn.channel =
          c.engine.channels turn.channel := setChannel_of_ne _ hne _
      rw [hsame] at hspec
      refine ⟨heap, done, cc', ?_, List.mem_cons_of_mem _ hmem, hspec⟩
      intro pointer transfer
      have hcleared : (afterFill c i data cc.channel cc.heap cc.done).heap =
          heapCleared c.heap (c.engine.channels i).lastDescList removed := hcompletes.heap_eq
      rw [hstatus, hcleared]
      exact sameStatus_heapCleared _ _ _ _ _

/-- A call that does not fail has a turn for each attached channel of the bitmap. -/
theorem Fills.visits (h : Fills transferDone bitmap regs is c turns ret c') (hret : ret = 0)
    (hnodup : is.Nodup) {j : ChannelIndex} (hj : j ∈ is) (hbit : hailoTestBit j bitmap = true)
    (hattached : (c.engine.channels j).lastDescList ≠ none) :
    ∃ turn ∈ turns, turn.channel = j := by
  induction h with
  | nil => cases hj
  | skip hskip hrest ih =>
    rcases List.mem_cons.mp hj with rfl | hj
    · rcases hskip with hskip | hskip
      · rw [hbit] at hskip
        cases hskip
      · exact absurd hskip hattached
    · exact ih hret (List.nodup_cons.mp hnodup).2 hj hattached
  | full hfull => exact absurd hret (by decide)
  | @turn i is c c' removed cc turns ret data hbit' hattached' hcompletes hdata hrest ih =>
    obtain ⟨hi, hnodup⟩ := List.nodup_cons.mp hnodup
    rcases List.mem_cons.mp hj with rfl | hmem
    · exact ⟨_, List.mem_cons_self, rfl⟩
    · have hne : j ≠ i := by
        rintro rfl
        exact hi hmem
      obtain ⟨turn, hmem, hturn⟩ := ih hret hnodup hmem (by
        simp only [afterFill, setChannel_of_ne _ hne]
        exact hattached)
      exact ⟨turn, List.mem_cons_of_mem _ hmem, hturn⟩

end

end Fill

end HailortDrivers.EngineSteps
