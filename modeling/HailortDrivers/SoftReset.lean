import HailortDrivers.EventRuns
import HailortDrivers.KernelCompletion
import HailortDrivers.KernelExec

/-!
`hailo_pcie_soft_reset` (`pcie.c`) beside a firmware that answers its request with one
interrupt, and the handler of interrupts while the board boots (`fops.c`). The request is
written before the completion is cleared, so the answer can come in between.
-/
namespace HailortDrivers.SoftReset
open KernelExec KernelCompletion EventRuns

def bcsIstatusHostSwIrqShift : UInt32 := 24
def bcsIstatusHostVdmaSrcIrqMask : UInt32 := 0x000000FF
def bcsIstatusHostVdmaDestIrqMask : UInt32 := 0x0000FF00
def hailoPcieBootSoftResetIrq : UInt32 := 0x1
def hailoPcieBootIrq : UInt32 := 0x2
def fwAccessSoftResetMask : UInt32 := 0x8
def firmwareWaitTimeoutMs : Nat := 5000

/-- `msecs_to_jiffies`, with `hz` jiffies a second -/
def msecsToJiffies (hz msecs : Nat) : Nat := (msecs * hz + 999) / 1000

/-- How long the call waits: its time is converted twice, once by `wait_for_firmware_completion`. -/
def waitJiffies (hz : Nat) : Nat := msecsToJiffies hz (msecsToJiffies hz firmwareWaitTimeoutMs)

structure HailoPcieInterruptSource where
  swInterrupts : UInt32
  vdmaChannelsBitmap : UInt32

/-- The registers are read once and cleared, those of the channels only if they are needed. -/
def hailoPcieReadInterrupt (istatusHost sourceInterrupts destinationInterrupts : UInt32) :
    Option HailoPcieInterruptSource :=
  if istatusHost = 0 then none
  else
    some
      { swInterrupts := istatusHost >>> bcsIstatusHostSwIrqShift
        vdmaChannelsBitmap :=
          (if istatusHost &&& bcsIstatusHostVdmaSrcIrqMask ≠ 0 then sourceInterrupts else 0) |||
            (if istatusHost &&& bcsIstatusHostVdmaDestIrqMask ≠ 0 then destinationInterrupts
              else 0) }

structure HailoPcieFwBoot where
  bootUsedChannelBitmap : UInt16
  fwLoadedCompletion : Completion
  vdmaBootCompletion : Completion

def HailoPcieInterruptSource.softReset (irqSource : HailoPcieInterruptSource) : Bool :=
  irqSource.swInterrupts &&& hailoPcieBootSoftResetIrq != 0

/-- What `boot_irq_handler` does to `soft_reset.reset_completed`. -/
def completeReset (irqSource : HailoPcieInterruptSource) (resetCompleted : Completion) :
    Completion :=
  if irqSource.softReset then resetCompleted.complete else resetCompleted

/-- What `boot_irq_handler` does to `fw_boot`. -/
def completeBoot (irqSource : HailoPcieInterruptSource) (fwBoot : HailoPcieFwBoot) :
    HailoPcieFwBoot :=
  if irqSource.swInterrupts &&& hailoPcieBootIrq ≠ 0 then
    { fwBoot with fwLoadedCompletion := fwBoot.fwLoadedCompletion.completeAll }
  else
    let bitmap := fwBoot.bootUsedChannelBitmap &&& (~~~irqSource.vdmaChannelsBitmap).toUInt16
    { fwBoot with
      bootUsedChannelBitmap := bitmap
      vdmaBootCompletion :=
        if bitmap = 0 then fwBoot.vdmaBootCompletion.completeAll else fwBoot.vdmaBootCompletion }

/-- How far the call is. -/
inductive ResetPhase
  | called
  | written
  | reinited
  | waiting (jiffies : Nat)
  | waited (completionResult : Bool)
deriving DecidableEq

/-- `doorbell` is what the call wrote to the firmware, `handledIn` where the call was when the
interrupt raised for its request was handled. -/
structure ResetSystem where
  resetCompleted : Completion
  fwBoot : HailoPcieFwBoot
  call : ResetPhase
  doorbell : Option UInt32
  raised : Bool
  istatusHost : UInt32
  handler : Option HailoPcieInterruptSource
  handledIn : Option ResetPhase

inductive Event
  | writeFirmwareSoftReset
  | reinit
  | startWait
  | tick
  | wake
  | expire
  | firmwareRaises
  | otherInterrupt (istatusHost : UInt32)
  | readInterrupt (sourceInterrupts destinationInterrupts : UInt32)
  | bootIrqHandler

/-- The bit of the soft reset interrupt. -/
def softResetPending (istatusHost : UInt32) : Bool := hailoTestBit 24 istatusHost

namespace ResetSystem
variable (s : ResetSystem)

def setCall (call : ResetPhase) : ResetSystem := { s with call := call }

def setResetCompleted (resetCompleted : Completion) : ResetSystem :=
  { s with resetCompleted := resetCompleted }

def ringDoorbell (value : UInt32) : ResetSystem := { s with doorbell := some value }

def raise (istatusHost : UInt32) (raised : Bool) : ResetSystem :=
  { s with istatusHost := s.istatusHost ||| istatusHost, raised := raised }

def startHandler (irqSource : HailoPcieInterruptSource) : ResetSystem :=
  { s with istatusHost := 0, handler := some irqSource }

def handle (irqSource : HailoPcieInterruptSource) : ResetSystem :=
  { s with
    resetCompleted := completeReset irqSource s.resetCompleted
    fwBoot := completeBoot irqSource s.fwBoot
    handler := none
    handledIn := if irqSource.softReset then some s.call else s.handledIn }

end ResetSystem

/-- The time of a wait only runs out while the wait sleeps. A wait that finds a signal then
still takes it. -/
def step (hz : Nat) (s : ResetSystem) : Event → Option ResetSystem
  | .writeFirmwareSoftReset =>
    if s.call = .called then some ((s.ringDoorbell fwAccessSoftResetMask).setCall .written)
    else none
  | .reinit =>
    if s.call = .written then some ((s.setResetCompleted s.resetCompleted.reinit).setCall .reinited)
    else none
  | .startWait =>
    if s.call = .reinited then some (s.setCall (.waiting (waitJiffies hz))) else none
  | .tick =>
    match s.call with
    | .waiting (jiffies + 1) => some (s.setCall (.waiting jiffies))
    | _ => none
  | .wake =>
    match s.call with
    | .waiting _ => s.resetCompleted.tryWait.map fun resetCompleted =>
        (s.setResetCompleted resetCompleted).setCall (.waited true)
    | _ => none
  | .expire =>
    if s.call = .waiting 0 ∧ s.resetCompleted.done = 0 then some (s.setCall (.waited false))
    else none
  | .firmwareRaises =>
    if s.doorbell = some fwAccessSoftResetMask ∧ s.raised = false then
      some (s.raise (hailoPcieBootSoftResetIrq <<< bcsIstatusHostSwIrqShift) true)
    else none
  -- Any interrupt but the one of a soft reset.
  | .otherInterrupt istatusHost =>
    if softResetPending istatusHost then none else some (s.raise istatusHost s.raised)
  | .readInterrupt sourceInterrupts destinationInterrupts =>
    match s.handler with
    | some _ => none
    | none =>
      (hailoPcieReadInterrupt s.istatusHost sourceInterrupts destinationInterrupts).map
        s.startHandler
  | .bootIrqHandler => s.handler.map s.handle

def Step (hz : Nat) (s s' : ResetSystem) : Prop := ∃ event, step hz s event = some s'

theorem softReset_shiftRight (istatusHost vdmaChannelsBitmap : UInt32) :
    HailoPcieInterruptSource.softReset
        ⟨istatusHost >>> bcsIstatusHostSwIrqShift, vdmaChannelsBitmap⟩ =
      softResetPending istatusHost := by
  have hshift : bcsIstatusHostSwIrqShift.toNat % 32 = 24 := rfl
  have hbit : hailoPcieBootSoftResetIrq.toNat = 2 ^ 1 - 1 := rfl
  have hnat : ((istatusHost >>> bcsIstatusHostSwIrqShift) &&& hailoPcieBootSoftResetIrq).toNat =
      istatusHost.toNat / 2 ^ 24 % 2 ^ 1 := by
    rw [UInt32.toNat_and, UInt32.toNat_shiftRight, hshift, hbit, Nat.and_two_pow_sub_one_eq_mod,
      Nat.shiftRight_eq_div_pow]
  rw [Bool.eq_iff_iff, HailoPcieInterruptSource.softReset, softResetPending, hailoTestBit,
    bne_iff_ne, ne_eq, ← UInt32.toNat_inj, hnat, Nat.testBit_eq_decide_div_mod_eq,
    decide_eq_true_eq]
  exact Nat.mod_two_ne_zero

theorem softReset_of_readInterrupt {istatusHost sourceInterrupts destinationInterrupts : UInt32}
    {irqSource : HailoPcieInterruptSource}
    (h : hailoPcieReadInterrupt istatusHost sourceInterrupts destinationInterrupts =
      some irqSource) : irqSource.softReset = softResetPending istatusHost := by
  rw [hailoPcieReadInterrupt] at h
  split at h
  · cases h
  · cases h
    exact softReset_shiftRight istatusHost _

theorem softResetPending_or (a b : UInt32) :
    softResetPending (a ||| b) = (softResetPending a || softResetPending b) :=
  hailoTestBit_or 24 a b

/-- The phases in which a signal still counts for the wait. -/
def ResetPhase.AfterReinit : ResetPhase → Prop
  | .reinited | .waiting _ => True
  | _ => False

/-- The interrupt is raised and not yet handled. -/
def ResetSystem.Pending (s : ResetSystem) : Prop :=
  softResetPending s.istatusHost = true ∨
    ∃ irqSource, s.handler = some irqSource ∧ irqSource.softReset = true

def ResetSystem.HandledAfterReinit (s : ResetSystem) : Prop :=
  ∃ phase, s.handledIn = some phase ∧ phase.AfterReinit

/-- The state in which the call starts, with any signals left in the completion and other
interrupts on their way. -/
structure BeforeCall (s : ResetSystem) : Prop where
  call : s.call = .called
  doorbell : s.doorbell = none
  raised : s.raised = false
  notPending : ¬ s.Pending
  handledIn : s.handledIn = none

/-- What the completion says in each phase of the call. -/
def ResetSystem.Tells (s : ResetSystem) : Prop :=
  match s.call with
  | .called | .written => ¬ s.HandledAfterReinit
  | .reinited | .waiting _ => s.resetCompleted.done ≠ 0 ↔ s.HandledAfterReinit
  | .waited completionResult => completionResult = true ↔ s.HandledAfterReinit

structure Inv (s : ResetSystem) : Prop where
  asked : s.call = .called → s.doorbell = none
  raised : s.raised = true → s.call ≠ .called
  handled : s.handledIn ≠ none → s.raised = true
  pending : s.Pending → s.raised = true ∧ s.handledIn = none
  once : softResetPending s.istatusHost = true →
    ∀ irqSource, s.handler = some irqSource → irqSource.softReset = false
  notCalled : s.handledIn ≠ some .called
  tells : s.Tells

theorem inv_of_beforeCall {s : ResetSystem} (h : BeforeCall s) : Inv s where
  asked := fun _ => h.doorbell
  raised := by
    intro hraised
    rw [h.raised] at hraised
    cases hraised
  handled := fun hhandled => absurd h.handledIn hhandled
  pending := fun hpending => absurd hpending h.notPending
  once := fun hpending => absurd (Or.inl hpending) h.notPending
  notCalled := by
    rw [h.handledIn]
    exact nofun
  tells := by
    rw [ResetSystem.Tells, h.call]
    rintro ⟨phase, hphase, -⟩
    rw [h.handledIn] at hphase
    cases hphase

section Steps
variable {hz : Nat} {s s' : ResetSystem}

/-- A step of the call alone: it moves on and leaves the interrupts as they are. -/
structure CallMoves (s s' : ResetSystem) : Prop where
  raised : s'.raised = s.raised
  istatusHost : s'.istatusHost = s.istatusHost
  handler : s'.handler = s.handler
  handledIn : s'.handledIn = s.handledIn
  call : s'.call ≠ .called

theorem Inv.callMoves (h : Inv s) (hmoves : CallMoves s s') (htells : s'.Tells) : Inv s' where
  asked := fun hcall => absurd hcall hmoves.call
  raised := fun _ => hmoves.call
  handled := by
    rw [hmoves.handledIn, hmoves.raised]
    exact h.handled
  pending := by
    rw [ResetSystem.Pending, hmoves.istatusHost, hmoves.handler, hmoves.raised, hmoves.handledIn]
    exact h.pending
  once := by
    rw [hmoves.istatusHost, hmoves.handler]
    exact h.once
  notCalled := by
    rw [hmoves.handledIn]
    exact h.notCalled
  tells := htells

/-- The firmware answers once, and not before it was asked. -/
theorem Inv.firmwareRaises (h : Inv s) (hasked : s.doorbell ≠ none) (hfirst : s.raised = false) :
    Inv (s.raise (hailoPcieBootSoftResetIrq <<< bcsIstatusHostSwIrqShift) true) := by
  have hunhandled : s.handledIn = none := by
    by_contra hhandled
    have hraised := h.handled hhandled
    rw [hfirst] at hraised
    cases hraised
  have hquiet : ¬ s.Pending := by
    intro hpending
    have hraised := (h.pending hpending).1
    rw [hfirst] at hraised
    cases hraised
  have hcalled : s.call ≠ .called := fun hcall => hasked (h.asked hcall)
  refine ⟨h.asked, fun _ => hcalled, fun _ => rfl, fun _ => ⟨rfl, hunhandled⟩, ?_, h.notCalled,
    h.tells⟩
  intro _ irqSource hhandler
  by_contra hreset
  exact hquiet (Or.inr ⟨irqSource, hhandler, Bool.not_eq_false _ ▸ hreset⟩)

theorem Inv.otherInterrupt (h : Inv s) {istatusHost : UInt32}
    (hother : softResetPending istatusHost = false) :
    Inv (s.raise istatusHost s.raised) := by
  have hsame : softResetPending (s.istatusHost ||| istatusHost) =
      softResetPending s.istatusHost := by
    rw [softResetPending_or, hother, Bool.or_false]
  refine ⟨h.asked, h.raised, h.handled, ?_, ?_, h.notCalled, h.tells⟩
  · rw [ResetSystem.Pending, ResetSystem.raise, hsame]
    exact h.pending
  · rw [ResetSystem.raise, hsame]
    exact h.once

/-- Reading the interrupt moves it from the register to the handler. -/
theorem Inv.startHandler (h : Inv s) {irqSource : HailoPcieInterruptSource}
    (hread : irqSource.softReset = softResetPending s.istatusHost) :
    Inv (s.startHandler irqSource) := by
  have hcleared : softResetPending (s.startHandler irqSource).istatusHost ≠ true :=
    Bool.eq_false_iff.mp (hailoTestBit_zero 24)
  refine ⟨h.asked, h.raised, h.handled, ?_, fun hpending => absurd hpending hcleared,
    h.notCalled, h.tells⟩
  rintro (hpending | ⟨irqSource', hhandler, hreset⟩)
  · exact absurd hpending hcleared
  · cases hhandler
    rw [hread] at hreset
    exact h.pending (Or.inl hreset)

/-- Another interrupt leaves the completion and the record alone. -/
theorem Inv.handleOther (h : Inv s) {irqSource : HailoPcieInterruptSource}
    (hother : irqSource.softReset = false) : Inv (s.handle irqSource) := by
  have hcompletion : (s.handle irqSource).resetCompleted = s.resetCompleted := by
    rw [ResetSystem.handle, completeReset, hother]
    rfl
  have hhandled : (s.handle irqSource).handledIn = s.handledIn := by
    rw [ResetSystem.handle, hother]
    rfl
  refine ⟨h.asked, h.raised, ?_, ?_, nofun, ?_, ?_⟩
  · rw [hhandled]
    exact h.handled
  · rintro (hpending | ⟨irqSource', hhandler, -⟩)
    · rw [hhandled]
      exact h.pending (Or.inl hpending)
    · cases hhandler
  · rw [hhandled]
    exact h.notCalled
  · rw [ResetSystem.Tells, ResetSystem.HandledAfterReinit, hcompletion, hhandled]
    exact h.tells

/-- The interrupt of the request is handled once, and its signal stays if the completion was
cleared before. -/
theorem Inv.handleReset (h : Inv s) {irqSource : HailoPcieInterruptSource}
    (hhandler : s.handler = some irqSource) (hreset : irqSource.softReset = true) :
    Inv (s.handle irqSource) := by
  obtain ⟨hraised, hunhandled⟩ := h.pending (Or.inr ⟨irqSource, hhandler, hreset⟩)
  have hcompletion : (s.handle irqSource).resetCompleted.done ≠ 0 := by
    rw [ResetSystem.handle, completeReset, if_pos hreset]
    exact Completion.complete_done_ne_zero _
  have hhandled : (s.handle irqSource).handledIn = some s.call := by
    rw [ResetSystem.handle, hreset]
    rfl
  have hafter : (s.handle irqSource).HandledAfterReinit ↔ s.call.AfterReinit := by
    rw [ResetSystem.HandledAfterReinit, hhandled]
    simp
  have hcall : (s.handle irqSource).call = s.call := rfl
  have htells := h.tells
  refine ⟨h.asked, h.raised, fun _ => hraised, ?_, nofun, ?_, ?_⟩
  · rintro (hpending | ⟨irqSource', hhandler', -⟩)
    · have hnot := h.once hpending irqSource hhandler
      rw [hreset] at hnot
      cases hnot
    · cases hhandler'
  · rw [hhandled]
    exact fun hcalled => h.raised hraised (Option.some.inj hcalled)
  · rw [ResetSystem.Tells] at htells
    rw [ResetSystem.Tells, hcall, hafter]
    cases hphase : s.call with
    | called | written => exact id
    | reinited | waiting jiffies => exact iff_of_true hcompletion trivial
    | waited completionResult =>
      rw [hphase] at htells
      refine iff_of_false (fun hresult => ?_) id
      obtain ⟨phase, hbefore, -⟩ := htells.mp hresult
      rw [hunhandled] at hbefore
      cases hbefore

theorem Inv.handle (h : Inv s) {irqSource : HailoPcieInterruptSource}
    (hhandler : s.handler = some irqSource) : Inv (s.handle irqSource) := by
  cases hreset : irqSource.softReset with
  | false => exact h.handleOther hreset
  | true => exact h.handleReset hhandler hreset

theorem Inv.step (h : Inv s) {event : Event} (hstep : step hz s event = some s') : Inv s' := by
  have htells := h.tells
  rw [ResetSystem.Tells] at htells
  cases event with
  | writeFirmwareSoftReset =>
    rw [SoftReset.step] at hstep
    split at hstep
    · next hcall =>
      cases hstep
      rw [hcall] at htells
      exact h.callMoves ⟨rfl, rfl, rfl, rfl, nofun⟩ htells
    · cases hstep
  | reinit =>
    rw [SoftReset.step] at hstep
    split at hstep
    · next hcall =>
      cases hstep
      rw [hcall] at htells
      refine h.callMoves ⟨rfl, rfl, rfl, rfl, nofun⟩ ?_
      exact iff_of_false (not_not.mpr rfl) htells
    · cases hstep
  | startWait =>
    rw [SoftReset.step] at hstep
    split at hstep
    · next hcall =>
      cases hstep
      rw [hcall] at htells
      exact h.callMoves ⟨rfl, rfl, rfl, rfl, nofun⟩ htells
    · cases hstep
  | tick =>
    rw [SoftReset.step] at hstep
    split at hstep
    · next jiffies hcall =>
      cases hstep
      rw [hcall] at htells
      exact h.callMoves ⟨rfl, rfl, rfl, rfl, nofun⟩ htells
    · cases hstep
  | wake =>
    rw [SoftReset.step] at hstep
    split at hstep
    · next jiffies hcall =>
      obtain ⟨resetCompleted, hwait, rfl⟩ := Option.map_eq_some_iff.mp hstep
      rw [hcall] at htells
      refine h.callMoves ⟨rfl, rfl, rfl, rfl, nofun⟩ ?_
      exact iff_of_true rfl (htells.mp (Completion.done_ne_zero_of_tryWait hwait))
    · cases hstep
  | expire =>
    rw [SoftReset.step] at hstep
    split at hstep
    · next hexpired =>
      cases hstep
      rw [hexpired.1] at htells
      refine h.callMoves ⟨rfl, rfl, rfl, rfl, nofun⟩ ?_
      exact iff_of_false Bool.false_ne_true fun hhandled => htells.mpr hhandled hexpired.2
    · cases hstep
  | firmwareRaises =>
    rw [SoftReset.step] at hstep
    split at hstep
    · next hasked =>
      cases hstep
      refine h.firmwareRaises ?_ hasked.2
      rw [hasked.1]
      exact nofun
    · cases hstep
  | otherInterrupt istatusHost =>
    rw [SoftReset.step] at hstep
    split at hstep
    · cases hstep
    · next hother =>
      cases hstep
      exact h.otherInterrupt (Bool.eq_false_iff.mpr hother)
  | readInterrupt sourceInterrupts destinationInterrupts =>
    rw [SoftReset.step] at hstep
    split at hstep
    · cases hstep
    · obtain ⟨irqSource, hread, rfl⟩ := Option.map_eq_some_iff.mp hstep
      exact h.startHandler (softReset_of_readInterrupt hread)
  | bootIrqHandler =>
    obtain ⟨irqSource, hhandler, rfl⟩ := Option.map_eq_some_iff.mp hstep
    exact h.handle hhandler

end Steps

/-- The interrupt was handled while the call was not yet through with its wait. -/
def ResetSystem.HandledInTime (s : ResetSystem) : Prop :=
  ∃ phase, s.handledIn = some phase ∧ ∀ completionResult, phase ≠ .waited completionResult

/-- In every run, the wait succeeds just when the interrupt was handled in time, exactly
unless it was handled between the write of the request and the clearing of the completion. -/
theorem softReset_iff {hz : Nat} {s s' : ResetSystem} {completionResult : Bool}
    (hs : BeforeCall s) (hrun : Relation.ReflTransGen (Step hz) s s')
    (hwaited : s'.call = .waited completionResult) :
    (completionResult = true ↔ s'.HandledInTime) ↔ s'.handledIn ≠ some .written := by
  have hinv : Inv s' :=
    inv_of_run (fun _ _ h ⟨_, hstep⟩ => h.step hstep) hrun (inv_of_beforeCall hs)
  have htells : completionResult = true ↔ s'.HandledAfterReinit := by
    have htells := hinv.tells
    rw [ResetSystem.Tells, hwaited] at htells
    exact htells
  rw [htells]
  constructor
  · intro hiff hearly
    have hintime : s'.HandledInTime := ⟨.written, hearly, nofun⟩
    obtain ⟨phase, hphase, hafter⟩ := hiff.mpr hintime
    rw [hearly] at hphase
    cases hphase
    exact hafter
  · intro hnotEarly
    constructor
    · rintro ⟨phase, hphase, hafter⟩
      refine ⟨phase, hphase, ?_⟩
      rintro completionResult' rfl
      exact hafter
    · rintro ⟨phase, hphase, hintime⟩
      refine ⟨phase, hphase, ?_⟩
      cases phase with
      | called => exact absurd hphase hinv.notCalled
      | written => exact absurd hphase hnotEarly
      | reinited | waiting jiffies => trivial
      | waited completionResult' => exact absurd rfl (hintime completionResult')

/-- A run given by its events. -/
def runEvents (hz : Nat) (s : ResetSystem) (events : List Event) : Option ResetSystem :=
  events.foldlM (step hz) s

theorem steps_of_runEvents {hz : Nat} {events : List Event} {s s' : ResetSystem}
    (h : runEvents hz s events = some s') : Relation.ReflTransGen (Step hz) s s' :=
  run_of_events (fun _ event _ hstep => ⟨event, hstep⟩) h

/-- A signal is left from before the call. -/
def staleSystem : ResetSystem where
  resetCompleted := ⟨1⟩
  fwBoot := ⟨1, .init, .init⟩
  call := .called
  doorbell := none
  raised := false
  istatusHost := 0
  handler := none
  handledIn := none

theorem beforeCall_staleSystem : BeforeCall staleSystem := by
  refine ⟨rfl, rfl, rfl, ?_, rfl⟩
  rintro (hpending | ⟨irqSource, hhandler, -⟩)
  · exact absurd hpending (by decide)
  · cases hhandler

/-- The interrupt, from the firmware through the handler. -/
def interrupt : List Event := [.firmwareRaises, .readInterrupt 0 0, .bootIrqHandler]

/-- The answer comes while the call waits. -/
theorem softReset_iff_whileWaiting : ∃ s', Relation.ReflTransGen (Step 100) staleSystem s' ∧
    s'.call = .waited true ∧ s'.HandledInTime := by
  have hrun : runEvents 100 staleSystem ([.writeFirmwareSoftReset, .reinit, .startWait] ++
      interrupt ++ [.wake]) = some _ := rfl
  have hsteps := steps_of_runEvents hrun
  refine ⟨_, hsteps, rfl, ((softReset_iff beforeCall_staleSystem hsteps rfl).mpr ?_).mp rfl⟩
  decide

/-- The answer comes before the completion is cleared, and the wait runs into its timeout. -/
theorem earlyAnswer_lost : ∃ s', BeforeCall staleSystem ∧
    Relation.ReflTransGen (Step 100) staleSystem s' ∧ s'.call = .waited false ∧
    s'.HandledInTime := by
  have hrun : runEvents 100 staleSystem ([.writeFirmwareSoftReset] ++ interrupt ++
      [.reinit, .startWait] ++ List.replicate 50 .tick ++ [.expire]) = some _ := rfl
  refine ⟨_, beforeCall_staleSystem, steps_of_runEvents hrun, rfl, .written, rfl, nofun⟩

end HailortDrivers.SoftReset
