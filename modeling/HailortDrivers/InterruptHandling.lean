import HailortDrivers.CompletionOrder

/-!
Interrupts of an engine between hardware, the interrupt handler and the wait
calls. A wait call first reads the bitmap and then fills it, both under the
board mutex like a launch; hardware and the handler can come between the two.
-/
namespace HailortDrivers.InterruptHandling
open KernelExec VdmaTypes DescriptorProgramming BoundBuffers DescriptorsListCreation
open ChannelTransfers LaunchedBuffers OngoingRing VdmaEngine CompletionSteps EngineSteps EngineRuns
open EventRuns
open ModularWindow LaunchedWindows
open DescriptorWindow CompletionWindows CompletionOrder

/-- What a run keeps of one channel. `handled` is how far hardware was when an
interrupt of the channel was last handled. -/
structure Progress where
  launched : List (HailoOngoingTransfer × Nat)
  completed : List HailoOngoingTransfer
  available : Nat
  processed : Nat
  handled : Nat

def Progress.advance (p : Progress) (processed : Nat) : Progress :=
  { p with processed := processed }

def Progress.handle (p : Progress) : Progress := { p with handled := p.processed }

/-- The transfers that are new on the ring end where `available` is then. -/
def Progress.launch (p : Progress) (transfers : List HailoOngoingTransfer) (count : Nat) :
    Progress :=
  { p with
    launched := p.launched ++ transfers.map fun transfer => (transfer, p.available + count)
    available := p.available + count }

def Progress.complete (p : Progress) (transfers : List HailoOngoingTransfer) : Progress :=
  { p with completed := p.completed ++ transfers }

/-- `reading` is the bitmap that a wait call has read and not yet filled. -/
structure IrqState where
  state : EngineState
  channels : ChannelIndex → Progress
  reading : Option UInt32

def IrqState.setProgress (t : IrqState) (i : ChannelIndex) (p : Progress) : IrqState :=
  { t with channels := Function.update t.channels i p }

def IrqState.tracked (t : IrqState) (i : ChannelIndex) : Tracked where
  state := t.state
  launched := (t.channels i).launched
  completed := (t.channels i).completed
  available := (t.channels i).available
  processed := (t.channels i).processed

/-- The launched transfers that are still on the ring, each with where it ends. -/
def IrqState.waiting (t : IrqState) (i : ChannelIndex) : List (HailoOngoingTransfer × Nat) :=
  (t.channels i).launched.drop (t.channels i).completed.length

def IrqState.interrupted (t : IrqState) (i : ChannelIndex) : Bool :=
  hailoTestBit i t.state.engine.interruptedChannels

/-- A wait call has read the bit of the channel and not yet filled it. -/
def IrqState.taken (t : IrqState) (i : ChannelIndex) : Prop :=
  ∃ bitmap, t.reading = some bitmap ∧ hailoTestBit i bitmap = true

variable (vdmaHw : HailoVdmaHw) (address : ChannelIndex → Nat)

/-- The second half of a wait call. The array has room, as it does for every engine. -/
inductive FillStep (bitmap : UInt32) : IrqState → IrqState → Prop
  | mk {t : IrqState} {σ : Type} {transferDone : HailoOngoingTransfer → σ → Exec σ}
      {irqData : List HailoVdmaInterruptsChannelData} {regs : ChannelIndex → ChannelRegs}
      {done : σ} {ret : Int32} {c : FillCursor σ} (hreading : t.reading = some bitmap)
      (hroom : irqData.length + maxVdmaChannelsPerEngine ≤ irqDataSize)
      (hregs : ∀ i l, t.state.heap (address i) = some l → hailoTestBit i bitmap = true →
        ShowsProcessed l.descCount.toNat (regs i) (t.channels i).processed)
      (hfill : hailoVdmaEngineFillIrqData transferDone irqData t.state.engine bitmap regs
        t.state.heap done = .ok (ret, c)) :
      FillStep bitmap t
        { state := ⟨c.engine, c.heap⟩
          channels := fun i => (t.channels i).complete
            (CompletionOrder.taken ((t.tracked i).ring i)
              (ongoing (c.engine.channels i).ongoingTransfers))
          reading := none }

/-- Hardware and the handler at any time, launches and wait calls one after the other. -/
inductive IrqStep : IrqState → IrqState → Prop
  | progress {t : IrqState} (i : ChannelIndex) {processed : Nat}
      (hmono : (t.channels i).processed ≤ processed)
      (hle : processed ≤ (t.channels i).available) :
      IrqStep t (t.setProgress i ((t.channels i).advance processed))
  | interrupt {t : IrqState} (bitmap : UInt32) :
      IrqStep t
        { state := ⟨hailoVdmaEngineSetChannelInterrupts t.state.engine bitmap, t.state.heap⟩
          channels := fun i =>
            if hailoTestBit i bitmap then (t.channels i).handle else t.channels i
          reading := t.reading }
  | launch {t : IrqState} (i : ChannelIndex) {s' : EngineState} {args : LaunchArgs}
      {l : HailoVdmaDescriptorsList} {rets : List Int32} (hfree : t.reading = none)
      (hlaunch : Launches vdmaHw i (address i) args l rets t.state s')
      (hpos : 0 < launchedCount rets)
      (hroom : heldDescs l.descCount.toNat ((t.tracked i).ring i) + launchedCount rets ≤
        l.descCount.toNat - 1) :
      IrqStep t
        { state := s'
          channels := Function.update t.channels i ((t.channels i).launch
            (added ((t.tracked i).ring i) (ongoing (s'.engine.channels i).ongoingTransfers))
            (launchedCount rets))
          reading := none }
  | read {t : IrqState} (requestedBitmap : UInt32) (hfree : t.reading = none) :
      IrqStep t
        { state :=
            ⟨(hailoVdmaEngineReadInterrupts t.state.engine requestedBitmap).2, t.state.heap⟩
          channels := t.channels
          reading := some (hailoVdmaEngineReadInterrupts t.state.engine requestedBitmap).1 }
  | fill {t t' : IrqState} {bitmap : UInt32} (hfill : FillStep address bitmap t t') : IrqStep t t'

def startOf (s : EngineState) : IrqState := ⟨s, fun _ => ⟨[], [], 0, 0, 0⟩, none⟩

/-- The bit of a channel is set or taken as long as a handled transfer waits. -/
structure NoneLost (i : ChannelIndex) (l₀ : HailoVdmaDescriptorsList) (t : IrqState) : Prop where
  inOrder : InOrder i (address i) l₀ (t.tracked i)
  handled_le : (t.channels i).handled ≤ (t.channels i).processed
  kept : ∀ x ∈ t.waiting i, x.2 ≤ (t.channels i).handled → t.interrupted i = true ∨ t.taken i

theorem fill_interruptedChannels {σ : Type} {transferDone : HailoOngoingTransfer → σ → Exec σ}
    {bitmap : UInt32} {regs : ChannelIndex → ChannelRegs} {is : List ChannelIndex}
    {c c' : FillCursor σ} {turns : List ChannelTurn} {ret : Int32}
    (h : Fills transferDone bitmap regs is c turns ret c') :
    c'.engine.interruptedChannels = c.engine.interruptedChannels :=
  h.inv (I := fun c₁ => c₁.engine.interruptedChannels = c.engine.interruptedChannels)
    (fun _ _ _ _ _ hinv _ _ _ => hinv) rfl

section
variable {vdmaHw : HailoVdmaHw} {address : ChannelIndex → Nat} {i : ChannelIndex}
  {l₀ : HailoVdmaDescriptorsList} {t t' : IrqState}

/-- What waits is what the ring holds, behind what was taken off. -/
theorem waiting_of_inOrder (h : InOrder i (address i) l₀ (t.tracked i)) :
    ∃ xs, (t.channels i).launched = xs ++ t.waiting i ∧
      xs.map Prod.fst = (t.channels i).completed ∧
      (∀ x ∈ xs, x.2 ≤ (t.channels i).processed) ∧
      (t.waiting i).map Prod.fst = (t.tracked i).ring i := by
  obtain ⟨xs, ys, b, hlaunched, hcompleted, hxs, hring, hb⟩ := h.windows
  change (t.channels i).launched = xs ++ ys at hlaunched
  change xs.map Prod.fst = (t.channels i).completed at hcompleted
  have hwaiting : t.waiting i = ys := by
    rw [IrqState.waiting, ← hcompleted, List.length_map, hlaunched, List.drop_left]
  rw [hwaiting]
  exact ⟨xs, hlaunched, hcompleted, fun x hx => (hxs.end_le hx).trans hb, hring.ongoing_eq⟩

section
variable {k : Nat} (hN : l₀.descCount.toNat = 2 ^ k) (hcount : l₀.descCount.toNat ≤ 65536)
include hN hcount

/-- A step that leaves the channel and the shape of its list alone. -/
theorem inOrder_aside (h : InOrder i (address i) l₀ (t.tracked i)) {s' : EngineState}
    (hchannel : s'.engine.channels i = t.state.engine.channels i)
    (hheap : ∀ l, t.state.heap (address i) = some l →
      ∃ l', s'.heap (address i) = some l' ∧ SameShape l l') :
    InOrder i (address i) l₀ { t.tracked i with state := s' } := by
  obtain ⟨l, hl, _⟩ := h.list
  have hstep : Step hailoPcieVdmaHw i (address i) (t.tracked i)
      { t.tracked i with state := s' } := by
    refine .elsewhere ?_ ?_ ?_ hl (hheap l hl)
    · exact congrArg HailoVdmaChannel.lastDescList hchannel
    · exact congrArg HailoVdmaChannel.state hchannel
    · exact congrArg HailoVdmaChannel.ongoingTransfers hchannel
  exact h.step hN hcount hstep

theorem NoneLost.progress (h : NoneLost address i l₀ t) (j : ChannelIndex) {processed : Nat}
    (hmono : (t.channels j).processed ≤ processed) (hle : processed ≤ (t.channels j).available) :
    NoneLost address i l₀ (t.setProgress j ((t.channels j).advance processed)) := by
  obtain ⟨hinOrder, hhandled, hkept⟩ := h
  by_cases hij : i = j
  · subst hij
    have hself : (t.setProgress i ((t.channels i).advance processed)).channels i =
        (t.channels i).advance processed := Function.update_self _ _ _
    have hstep : Step hailoPcieVdmaHw i (address i) (t.tracked i)
        { t.tracked i with processed := processed } := .progress hmono hle
    refine ⟨?_, ?_, ?_⟩
    · rw [IrqState.tracked, hself]
      exact hinOrder.step hN hcount hstep
    · rw [hself]
      exact hhandled.trans hmono
    · rw [IrqState.waiting, hself]
      exact hkept
  · have hsame : (t.setProgress j ((t.channels j).advance processed)).channels i = t.channels i :=
      Function.update_of_ne hij _ _
    refine ⟨?_, ?_, ?_⟩
    · rw [IrqState.tracked, hsame]
      exact hinOrder
    · rw [hsame]
      exact hhandled
    · rw [IrqState.waiting, hsame]
      exact hkept

theorem NoneLost.interrupt (h : NoneLost address i l₀ t) (bitmap : UInt32) :
    NoneLost address i l₀
      { state := ⟨hailoVdmaEngineSetChannelInterrupts t.state.engine bitmap, t.state.heap⟩
        channels := fun i =>
          if hailoTestBit i bitmap then (t.channels i).handle else t.channels i
        reading := t.reading } := by
  obtain ⟨hinOrder, hhandled, hkept⟩ := h
  have haside : InOrder i (address i) l₀
      { t.tracked i with
        state := ⟨hailoVdmaEngineSetChannelInterrupts t.state.engine bitmap, t.state.heap⟩ } :=
    inOrder_aside hN hcount hinOrder rfl fun l hl => ⟨l, hl, .refl l⟩
  cases hbit : hailoTestBit i bitmap with
  | true =>
    refine ⟨?_, ?_, fun x _ _ => .inl ?_⟩
    · simp only [IrqState.tracked, hbit, if_true]
      exact haside
    · simp only [hbit, if_true]
      exact Nat.le_refl _
    · rw [IrqState.interrupted, hailoVdmaEngineSetChannelInterrupts, hailoTestBit_or, hbit,
        Bool.or_true]
  | false =>
    refine ⟨?_, ?_, ?_⟩
    · simp only [IrqState.tracked, hbit, Bool.false_eq_true, if_false]
      exact haside
    · simp only [hbit, Bool.false_eq_true, if_false]
      exact hhandled
    · simp only [IrqState.waiting, IrqState.interrupted, hailoVdmaEngineSetChannelInterrupts,
        hailoTestBit_or, hbit, Bool.or_false, Bool.false_eq_true, if_false]
      exact hkept

theorem NoneLost.read (h : NoneLost address i l₀ t) (requestedBitmap : UInt32)
    (hfree : t.reading = none) :
    NoneLost address i l₀
      { state := ⟨(hailoVdmaEngineReadInterrupts t.state.engine requestedBitmap).2, t.state.heap⟩
        channels := t.channels
        reading := some (hailoVdmaEngineReadInterrupts t.state.engine requestedBitmap).1 } := by
  obtain ⟨hinOrder, hhandled, hkept⟩ := h
  refine ⟨inOrder_aside hN hcount hinOrder rfl fun l hl => ⟨l, hl, .refl l⟩, hhandled,
    fun x hx hx' => ?_⟩
  have hset : t.interrupted i = true := by
    rcases hkept x hx hx' with hset | ⟨bitmap, hreading, _⟩
    · exact hset
    · rw [hfree] at hreading
      cases hreading
  -- What is cleared is exactly what is taken.
  cases hbit : hailoTestBit i (hailoVdmaEngineReadInterrupts t.state.engine requestedBitmap).1 with
  | true => exact .inr ⟨_, rfl, hbit⟩
  | false =>
    refine .inl ?_
    have hclear := hailoTestBit_and_not i t.state.engine.interruptedChannels
      (hailoVdmaEngineReadInterrupts t.state.engine requestedBitmap).1
    rw [hbit, Bool.not_false, Bool.and_true] at hclear
    exact hclear.trans hset

theorem NoneLost.launch (h : NoneLost address i l₀ t) (j : ChannelIndex) {s' : EngineState}
    {args : LaunchArgs} {l : HailoVdmaDescriptorsList} {rets : List Int32}
    (hfree : t.reading = none) (hlaunch : Launches vdmaHw j (address j) args l rets t.state s')
    (hpos : 0 < launchedCount rets)
    (hroom : heldDescs l.descCount.toNat ((t.tracked j).ring j) + launchedCount rets ≤
      l.descCount.toNat - 1) :
    NoneLost address i l₀
      { state := s'
        channels := Function.update t.channels j ((t.channels j).launch
          (added ((t.tracked j).ring j) (ongoing (s'.engine.channels j).ongoingTransfers))
          (launchedCount rets))
        reading := none } := by
  obtain ⟨c, hin⟩ := hlaunch.spec
  have hbits : s'.engine.interruptedChannels = t.state.engine.interruptedChannels := by
    rw [hin.state_eq]
    rfl
  have hinterrupted : ∀ x ∈ t.waiting i, x.2 ≤ (t.channels i).handled →
      hailoTestBit i s'.engine.interruptedChannels = true := by
    intro x hx hx'
    rw [hbits]
    rcases h.kept x hx hx' with hset | ⟨bitmap, hreading, _⟩
    · exact hset
    · rw [hfree] at hreading
      cases hreading
  by_cases hij : i = j
  · subst hij
    have hstep := Step.launch (t := t.tracked i) hlaunch hpos hroom
    obtain ⟨xs, hlaunched, hcompleted, _⟩ := waiting_of_inOrder h.inOrder
    have hlen : (t.channels i).completed.length ≤ (t.channels i).launched.length := by
      rw [hlaunched, ← hcompleted, List.length_map, List.length_append]
      exact Nat.le_add_right _ _
    refine ⟨?_, ?_, ?_⟩
    · rw [IrqState.tracked]
      simp only [Function.update_self]
      exact h.inOrder.step hN hcount hstep
    · simp only [Function.update_self]
      exact h.handled_le
    · rw [IrqState.waiting]
      simp only [Function.update_self]
      intro x hx hx'
      rw [Progress.launch, List.drop_append_of_le_length hlen, List.mem_append] at hx
      rcases hx with hx | hx
      · exact .inl (hinterrupted x hx hx')
      · obtain ⟨transfer, _, rfl⟩ := List.mem_map.mp hx
        have hhandled := h.handled_le
        have hprocessed := h.inOrder.processed_le
        change (t.channels i).available + launchedCount rets ≤ (t.channels i).handled at hx'
        change (t.channels i).processed ≤ (t.channels i).available at hprocessed
        omega
  · have hsame : ∀ p, Function.update t.channels j p i = t.channels i :=
      fun p => Function.update_of_ne hij _ _
    have hheap : ∀ l₁, t.state.heap (address i) = some l₁ →
        ∃ l', s'.heap (address i) = some l' ∧ SameShape l₁ l' := by
      intro l₁ hl₁
      rw [hin.heap_eq]
      by_cases haddress : address i = address j
      · rw [haddress] at hl₁ ⊢
        obtain rfl := Option.some.inj (hl₁.symm.trans hin.list)
        exact ⟨_, Function.update_self _ _ _, hin.sameShape⟩
      · exact ⟨l₁, (Function.update_of_ne haddress _ _).trans hl₁, .refl l₁⟩
    refine ⟨?_, ?_, ?_⟩
    · rw [IrqState.tracked]
      simp only [hsame]
      exact inOrder_aside hN hcount h.inOrder (hin.channels_of_ne hij) hheap
    · simp only [hsame]
      exact h.handled_le
    · rw [IrqState.waiting]
      simp only [hsame]
      exact fun x hx hx' => .inl (hinterrupted x hx hx')

theorem inOrder_filled (h : InOrder i (address i) l₀ (t.tracked i)) {bitmap : UInt32}
    (hfill : FillStep address bitmap t t') : InOrder i (address i) l₀ (t'.tracked i) := by
  cases hfill with
  | @mk σ transferDone irqData regs done ret c hreading hroom hregs hfill =>
    obtain ⟨l, hl, descs, rfl⟩ := h.list
    have hstep : Step hailoPcieVdmaHw i (address i) (t.tracked i) _ :=
      .completionRead hl (hregs i _ hl) hfill
    exact h.step hN hcount hstep

/-- Filling a channel of the bitmap takes off as many transfers as hardware has completed. -/
theorem length_completed_of_fill (h : InOrder i (address i) l₀ (t.tracked i)) {bitmap : UInt32}
    (hbit : hailoTestBit i bitmap = true) (hfill : FillStep address bitmap t t') :
    (t'.channels i).completed.length =
        ((t'.channels i).launched.filter fun x => x.2 ≤ (t'.channels i).processed).length := by
  cases hfill with
  | @mk σ transferDone irqData regs done ret c hreading hroom hregs hfill =>
    obtain ⟨l, hl, descs, rfl⟩ := h.list
    obtain ⟨turns, hfills⟩ := fillChannels_fills hfill
    obtain rfl : ret = 0 := hfills.ret_eq (by rw [List.length_finRange]; exact hroom)
    obtain ⟨_, hexact⟩ := h.exactRead hN hcount hbit
      (hregs i (l₀.withDescs descs) hl hbit) hfill
    exact (congrArg List.length hexact.exactly.2).trans (List.length_map _)

theorem processed_lt_of_fill (h : InOrder i (address i) l₀ (t.tracked i)) {bitmap : UInt32}
    (hbit : hailoTestBit i bitmap = true) (hfill : FillStep address bitmap t t') :
    ∀ x ∈ t'.waiting i, (t'.channels i).processed < x.2 := by
  have hlen := length_completed_of_fill hN hcount h hbit hfill
  obtain ⟨xs, hlaunched, hcompleted, hxs, _⟩ :=
    waiting_of_inOrder (inOrder_filled hN hcount h hfill)
  have hdone : xs.filter (fun x => decide (x.2 ≤ (t'.channels i).processed)) = xs :=
    List.filter_eq_self.mpr fun x hx => decide_eq_true (hxs x hx)
  rw [← hcompleted, List.length_map, hlaunched, List.filter_append, hdone,
    List.length_append] at hlen
  have hnone : (t'.waiting i).filter (fun x => decide (x.2 ≤ (t'.channels i).processed)) = [] :=
    List.length_eq_zero_iff.mp (by omega)
  intro x hx
  have hx' := List.filter_eq_nil_iff.mp hnone x hx
  rw [decide_eq_true_eq] at hx'
  exact Nat.not_le.mp hx'

theorem NoneLost.fill (h : NoneLost address i l₀ t) {bitmap : UInt32}
    (hfill : FillStep address bitmap t t') : NoneLost address i l₀ t' := by
  have hinOrder := inOrder_filled hN hcount h.inOrder hfill
  cases hbit : hailoTestBit i bitmap with
  | true =>
    have hlt := processed_lt_of_fill hN hcount h.inOrder hbit hfill
    cases hfill with
    | @mk σ transferDone irqData regs done ret c hreading hroom hregs hrun =>
      refine ⟨hinOrder, h.handled_le, fun x hx hx' => ?_⟩
      have hhandled := h.handled_le
      have hx := hlt x hx
      change (t.channels i).processed < x.2 at hx
      change x.2 ≤ (t.channels i).handled at hx'
      omega
  | false =>
    cases hfill with
    | @mk σ transferDone irqData regs done ret c hreading hroom hregs hrun =>
      obtain ⟨turns, hfills⟩ := fillChannels_fills hrun
      refine ⟨hinOrder, h.handled_le, fun x hx hx' => .inl ?_⟩
      have hmem : x ∈ t.waiting i := by
        change x ∈ (t.channels i).launched.drop ((t.channels i).completed ++ _).length at hx
        rw [List.length_append, ← List.drop_drop] at hx
        exact List.mem_of_mem_drop hx
      rcases h.kept x hmem hx' with hset | ⟨bitmap', hreading', hbit'⟩
      · rw [IrqState.interrupted] at hset ⊢
        rw [fill_interruptedChannels hfills]
        exact hset
      · rw [Option.some.inj (hreading.symm.trans hreading'), hbit'] at hbit
        cases hbit

theorem NoneLost.step (h : NoneLost address i l₀ t) (hstep : IrqStep vdmaHw address t t') :
    NoneLost address i l₀ t' := by
  cases hstep with
  | progress j hmono hle => exact h.progress hN hcount j hmono hle
  | interrupt bitmap => exact h.interrupt hN hcount bitmap
  | launch j hfree hlaunch hpos hroom => exact h.launch hN hcount j hfree hlaunch hpos hroom
  | read requestedBitmap hfree => exact h.read hN hcount requestedBitmap hfree
  | fill hfill => exact h.fill hN hcount hfill

end

theorem noneLost_start {s : EngineState} (hheap : s.heap (address i) = some l₀)
    (hfresh : Fresh (s.engine.channels i)) : NoneLost address i l₀ (startOf s) where
  inOrder := inOrder_start hheap hfresh
  handled_le := Nat.le_refl 0
  kept := fun x hx => by cases hx

/-- Over every run: a transfer that waits on a ring although its interrupt was handled has the
bit of its channel set, or taken by the wait call that is going on. When that call fills the
channel, no transfer is left that hardware has completed. -/
theorem completionInterrupt_kept {k : Nat} (hN : l₀.descCount.toNat = 2 ^ k)
    (hcount : l₀.descCount.toNat ≤ 65536) {s : EngineState}
    (hheap : s.heap (address i) = some l₀) (hfresh : Fresh (s.engine.channels i))
    (hrun : Relation.ReflTransGen (IrqStep vdmaHw address) (startOf s) t) :
    (t.waiting i).map Prod.fst = ongoing (t.state.engine.channels i).ongoingTransfers ∧
    (∀ x ∈ t.waiting i, x.2 ≤ (t.channels i).handled → t.interrupted i = true ∨ t.taken i) ∧
    ∀ bitmap t', hailoTestBit i bitmap = true → FillStep address bitmap t t' →
      ∀ x ∈ t'.waiting i, (t'.channels i).processed < x.2 := by
  have hinv := inv_of_run (fun _ _ h hstep => NoneLost.step hN hcount h hstep) hrun
    (noneLost_start hheap hfresh)
  obtain ⟨_, _, _, _, hring⟩ := waiting_of_inOrder hinv.inOrder
  exact ⟨hring, hinv.kept, fun bitmap t' hbit hfill =>
    processed_lt_of_fill hN hcount hinv.inOrder hbit hfill⟩

end

/-- A launched transfer that hardware completes and the handler is told of. -/
theorem completionInterrupt_kept_splitBuffer :
    ∃ t, Relation.ReflTransGen (IrqStep hailoPcieVdmaHw fun _ => 1) (startOf idleState) t ∧
      (t.channels 0).handled = 3 ∧
      ∀ x ∈ t.waiting 0, x.2 ≤ 3 → t.interrupted 0 = true ∨ t.taken 0 := by
  obtain ⟨s', hlaunch⟩ := idleState_launches
  obtain ⟨t₁, hlaunched, hprocessed, havailable⟩ : ∃ t₁,
      IrqStep hailoPcieVdmaHw (fun _ => 1) (startOf idleState) t₁ ∧
        (t₁.channels 0).processed = 0 ∧ (t₁.channels 0).available = 3 :=
    ⟨_, .launch 0 rfl hlaunch (by decide) (by decide), rfl, rfl⟩
  have hprogress : IrqStep hailoPcieVdmaHw (fun _ => 1) t₁
      (t₁.setProgress 0 ((t₁.channels 0).advance 3)) := .progress 0 (by omega) (by omega)
  have hhandled : IrqStep hailoPcieVdmaHw (fun _ => 1) _ _ :=
    .interrupt (t := t₁.setProgress 0 ((t₁.channels 0).advance 3)) 1
  have hrun := ((Relation.ReflTransGen.single hlaunched).tail hprogress).tail hhandled
  exact ⟨_, hrun, rfl, (completionInterrupt_kept (k := 2) rfl (by decide) idleState_heap
    ⟨⟨rfl, rfl⟩, rfl⟩ hrun).2.1⟩

end HailortDrivers.InterruptHandling
