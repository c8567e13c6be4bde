import HailortDrivers.BoundBuffers
import HailortDrivers.EngineSteps

/-! Runs of an engine on one of its descriptors lists: successful launches through
one channel, completion reads and disables of any channels, and whatever else
happens meanwhile. -/
namespace HailortDrivers.EngineRuns
open KernelExec VdmaTypes DescriptorProgramming DescriptorsListCreation BoundBuffers
open ChannelTransfers LaunchSteps OngoingRing VdmaEngine CompletionSteps EngineSteps

/-- An engine and the lists that its channels may point to. -/
structure EngineState where
  engine : HailoVdmaEngine
  heap : DescListHeap

/-- What a launch is given, apart from the channel and the list. -/
structure LaunchArgs where
  regs : ChannelRegs
  startingDesc : UInt32
  buffers : List HailoVdmaMappedTransferBuffer
  shouldBind : Bool
  firstInterruptsDomain : HailoVdmaInterruptsDomain
  lastDescInterrupts : HailoVdmaInterruptsDomain
  isDebug : Bool

/-- An engine whose channels are all idle, and one list at address 1. -/
def idleState : EngineState where
  engine := ⟨0, 0, 0, fun _ => idleChannel⟩
  heap := Function.update (fun _ => none) 1 (some ringOfFour)

theorem idleState_heap : idleState.heap 1 = some ringOfFour := rfl

def splitArgs : LaunchArgs where
  regs := activeRegs
  startingDesc := 0
  buffers := [splitBuffer]
  shouldBind := true
  firstInterruptsDomain := hailoVdmaInterruptsDomainNone
  lastDescInterrupts := hailoVdmaInterruptsDomainHost
  isDebug := false

section Launch
variable (vdmaHw : HailoVdmaHw) (i : ChannelIndex) (address : Nat) (args : LaunchArgs)
  (l : HailoVdmaDescriptorsList) (rets : List Int32) (s : EngineState)

/-- A launch that succeeds, every buffer being programmed without an error. -/
inductive Launches : EngineState → Prop
  | mk {ret : Int32} {channel' : HailoVdmaChannel} {l' : HailoVdmaDescriptorsList}
      {regs' : ChannelRegs} (hlist : s.heap address = some l)
      (hstart : args.startingDesc.toNat < l.descCount.toNat)
      (hlaunch : hailoVdmaLaunchTransfer vdmaHw (s.engine.channels i) address l args.regs
        args.startingDesc args.buffers args.shouldBind args.firstInterruptsDomain
        args.lastDescInterrupts args.isDebug = .ok (ret, channel', l', regs'))
      (hret : 0 ≤ ret.toInt)
      (hprogram : programReturns vdmaHw args.shouldBind (s.engine.channels i).index
        args.lastDescInterrupts args.isDebug args.buffers args.startingDesc l = .ok rets)
      (hok : ∀ r ∈ rets, 0 ≤ r.toInt) :
      Launches ⟨setChannel s.engine i channel', Function.update s.heap address (some l')⟩

/-- The channel of a launch that ended its loop in `c`. -/
def launchedChannel (c : LaunchCursor) : HailoVdmaChannel :=
  publish (attach (s.engine.channels i) address l) (launchedTransfer args.buffers args.isDebug c)
    ((c.lastDesc + 1) % c.descList.descCount).toUInt16

def afterLaunch (c : LaunchCursor) : EngineState where
  engine := setChannel s.engine i (launchedChannel i address args l s c)
  heap := Function.update s.heap address
    (some (launchedList vdmaHw args.startingDesc args.firstInterruptsDomain args.isDebug c))

variable {vdmaHw i address args l rets s} {s' : EngineState}

/-- What a successful launch does. -/
structure LaunchesIn (vdmaHw : HailoVdmaHw) (i : ChannelIndex) (address : Nat) (args : LaunchArgs)
    (l : HailoVdmaDescriptorsList) (rets : List Int32) (s s' : EngineState) (c : LaunchCursor) :
    Prop where
  list : s.heap address = some l
  start : args.startingDesc.toNat < l.descCount.toNat
  programmed : ∀ r ∈ rets, 0 ≤ r.toInt
  checks : ChecksPass (s.engine.channels i) address args.regs args.startingDesc args.buffers
  rounds : Rounds vdmaHw args.shouldBind (s.engine.channels i).index args.lastDescInterrupts
    args.isDebug args.buffers (launchStart args.startingDesc l) rets c
  room : (ongoing (s.engine.channels i).ongoingTransfers).length ≠ 127
  state_eq : s' = afterLaunch vdmaHw i address args l s c

theorem Launches.spec (h : Launches vdmaHw i address args l rets s s') :
    ∃ c, LaunchesIn vdmaHw i address args l rets s s' c := by
  obtain ⟨hlist, hstart, hlaunch, hret, hprogram, hok⟩ := h
  cases launch_outcome hlaunch with
  | otherList => exact absurd hret (by decide)
  | rejected _ hneg => exact absurd hret (by omega)
  | ringFull => exact absurd hret (by decide)
  | launched c hchecks hloop hroom hcount =>
    obtain ⟨rets', hprogram', hrounds⟩ := launchBuffers_rounds hloop
    have hrets : rets' = rets := Except.ok.inj (hprogram'.symm.trans hprogram)
    exact ⟨c, hlist, hstart, hok, hchecks, hrets ▸ hrounds, mt ringFull_iff.mpr hroom, rfl⟩

section Spec
variable {c : LaunchCursor} (h : LaunchesIn vdmaHw i address args l rets s s' c)
include h

theorem LaunchesIn.ongoing_eq : ongoing (s'.engine.channels i).ongoingTransfers =
    ongoing (s.engine.channels i).ongoingTransfers ++
      [launchedTransfer args.buffers args.isDebug c] := by
  rw [h.state_eq, afterLaunch]
  simp only [setChannel_self]
  exact ongoing_pushed h.room _

theorem LaunchesIn.channels_of_ne {j : ChannelIndex} (hj : j ≠ i) :
    s'.engine.channels j = s.engine.channels j := by
  rw [h.state_eq]
  exact setChannel_of_ne _ hj _

theorem LaunchesIn.channel_eq :
    s'.engine.channels i = launchedChannel i address args l s c := by
  rw [h.state_eq]
  exact setChannel_self _ _ _

theorem LaunchesIn.sameShape : SameShape l
    (launchedList vdmaHw args.startingDesc args.firstInterruptsDomain args.isDebug c) :=
  h.rounds.sameShape.trans (orPageSizeDescControl_sameShape _ _)

theorem LaunchesIn.heap_eq : s'.heap = Function.update s.heap address
    (some (launchedList vdmaHw args.startingDesc args.firstInterruptsDomain args.isDebug c)) := by
  rw [h.state_eq, afterLaunch]

theorem LaunchesIn.heap_self : s'.heap address =
    some (launchedList vdmaHw args.startingDesc args.firstInterruptsDomain args.isDebug c) := by
  rw [h.heap_eq, Function.update_self]

end Spec

end Launch

variable (vdmaHw : HailoVdmaHw) (i : ChannelIndex) (address : Nat)
  (Admitted : EngineState → LaunchArgs → HailoVdmaDescriptorsList → List Int32 → Prop) in
/-- One call on an engine, where launches are admitted under a condition. Whatever
else happens leaves the channel's list, state and ring and the list itself. -/
inductive EngineStep : EngineState → EngineState → Prop
  | launch {s s' : EngineState} {args : LaunchArgs} {l : HailoVdmaDescriptorsList}
      {rets : List Int32} (hlaunch : Launches vdmaHw i address args l rets s s')
      (hadmitted : Admitted s args l rets) : EngineStep s s'
  | completionRead {s : EngineState} {σ : Type} {transferDone : HailoOngoingTransfer → σ → Exec σ}
      {irqData : List HailoVdmaInterruptsChannelData} {bitmap : UInt32}
      {regs : ChannelIndex → ChannelRegs} {done : σ} {ret : Int32} {c : FillCursor σ}
      (hfill : hailoVdmaEngineFillIrqData transferDone irqData s.engine bitmap regs s.heap done =
        .ok (ret, c)) : EngineStep s ⟨c.engine, c.heap⟩
  | disable {s : EngineState} {bitmap : UInt32} {engine : HailoVdmaEngine} {heap : DescListHeap}
      (hdisable : hailoVdmaEngineDisableChannels s.engine bitmap s.heap = .ok (engine, heap)) :
      EngineStep s ⟨engine, heap⟩
  | elsewhere {s s' : EngineState}
      (hlist : (s'.engine.channels i).lastDescList = (s.engine.channels i).lastDescList)
      (hstate : (s'.engine.channels i).state = (s.engine.channels i).state)
      (hring : (s'.engine.channels i).ongoingTransfers = (s.engine.channels i).ongoingTransfers)
      (hheap : s'.heap address = s.heap address)
      (hothers : ∀ j ≠ i, (s'.engine.channels j).lastDescList ≠ some address) :
      EngineStep s s'

theorem idleState_launches :
    ∃ s', Launches hailoPcieVdmaHw 0 1 splitArgs ringOfFour [3] idleState s' := by
  obtain ⟨channel', l', regs', hrun⟩ : ∃ channel' l' regs',
      hailoVdmaLaunchTransfer hailoPcieVdmaHw idleChannel 1 ringOfFour activeRegs 0 [splitBuffer]
        true hailoVdmaInterruptsDomainNone hailoVdmaInterruptsDomainHost false =
        .ok (3, channel', l', regs') := ⟨_, _, _, rfl⟩
  refine ⟨_, .mk idleState_heap (by decide) hrun (by decide) rfl ?_⟩
  intro r hr
  obtain rfl := List.mem_singleton.mp hr
  decide

end HailortDrivers.EngineRuns
