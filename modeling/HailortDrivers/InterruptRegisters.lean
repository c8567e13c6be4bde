import HailortDrivers.RegisterBits
import Mathlib.Logic.Function.Basic
import Mathlib.Logic.Relation

/-!
The interrupt registers of the device and `hailo_pcie_read_interrupt`: at once, and split at
its register accesses, with device steps in between. All three registers are
write-one-to-clear.
-/
namespace HailortDrivers.InterruptRegisters
open KernelExec

/-- `BCS_ISTATUS_HOST`, `BCS_SOURCE_INTERRUPT_PER_CHANNEL` and
`BCS_DESTINATION_INTERRUPT_PER_CHANNEL` -/
inductive Register
  | istatusHost
  | sourceInterruptPerChannel
  | destinationInterruptPerChannel
deriving DecidableEq

/-- `resources->config` -/
abbrev Config := Register → UInt32

def bcsIstatusHostSwIrqMask : UInt32 := 0xFF000000
def bcsIstatusHostSwIrqShift : UInt32 := 24
def bcsIstatusHostVdmaSrcIrqMask : UInt32 := 0x000000FF
def bcsIstatusHostVdmaDestIrqMask : UInt32 := 0x0000FF00

structure HailoPcieInterruptSource where
  swInterrupts : UInt32
  vdmaChannelsBitmap : UInt32

/-- `memset(source, 0, sizeof(*source))` -/
def HailoPcieInterruptSource.zero : HailoPcieInterruptSource := ⟨0, 0⟩

def HailoPcieInterruptSource.addChannels (source : HailoPcieInterruptSource) (value : UInt32) :
    HailoPcieInterruptSource :=
  { source with vdmaChannelsBitmap := source.vdmaChannelsBitmap ||| value }

def hailoResourceWrite32 (config : Config) (reg : Register) (value : UInt32) : Config :=
  Function.update config reg (config reg &&& ~~~value)

def readAndClearReg (config : Config) (reg : Register) : UInt32 × Config :=
  (config reg, if config reg = 0 then config else hailoResourceWrite32 config reg (config reg))

/-- The bits of one side of the channels are read if its summary bits say so. -/
def readSide (istatusHost mask : UInt32) (reg : Register)
    (read : HailoPcieInterruptSource × Config) : HailoPcieInterruptSource × Config :=
  if istatusHost &&& mask = 0 then read
  else (read.1.addChannels (readAndClearReg read.2 reg).1, (readAndClearReg read.2 reg).2)

def hailoPcieReadInterrupt (config : Config) : (Bool × HailoPcieInterruptSource) × Config :=
  let (istatusHost, config) := readAndClearReg config .istatusHost
  if istatusHost = 0 then ((false, .zero), config)
  else
    let read := readSide istatusHost bcsIstatusHostVdmaDestIrqMask .destinationInterruptPerChannel
      (readSide istatusHost bcsIstatusHostVdmaSrcIrqMask .sourceInterruptPerChannel
        (⟨istatusHost >>> bcsIstatusHostSwIrqShift, 0⟩, config))
    ((true, read.1), read.2)

/-- Where a call is: before the read of a register, before the write that clears it, or before
its value goes into `source`. -/
inductive ReadPhase
  | reads (reg : Register) (istatusHost : UInt32) (source : HailoPcieInterruptSource)
  | clears (reg : Register) (istatusHost : UInt32) (source : HailoPcieInterruptSource)
      (value : UInt32)
  | reports (reg : Register) (istatusHost : UInt32) (source : HailoPcieInterruptSource)
      (value : UInt32)
  | returned (gotInterrupt : Bool) (source : HailoPcieInterruptSource)

def ReadPhase.called : ReadPhase := .reads .istatusHost 0 .zero

def afterSource (istatusHost : UInt32) (source : HailoPcieInterruptSource) : ReadPhase :=
  if istatusHost &&& bcsIstatusHostVdmaDestIrqMask = 0 then .returned true source
  else .reads .destinationInterruptPerChannel istatusHost source

def afterIstatus (istatusHost : UInt32) (source : HailoPcieInterruptSource) : ReadPhase :=
  if istatusHost &&& bcsIstatusHostVdmaSrcIrqMask = 0 then afterSource istatusHost source
  else .reads .sourceInterruptPerChannel istatusHost source

/-- A register that reads as zero is not written. -/
def afterRead (reg : Register) (istatusHost : UInt32) (source : HailoPcieInterruptSource)
    (value : UInt32) : ReadPhase :=
  if value = 0 then
    if reg = .istatusHost then .returned false source else .reports reg istatusHost source value
  else .clears reg istatusHost source value

/-- The value goes into `source`, and the call goes on. -/
def afterReport (reg : Register) (istatusHost : UInt32) (source : HailoPcieInterruptSource)
    (value : UInt32) : ReadPhase :=
  match reg with
  | .istatusHost =>
    afterIstatus value ⟨value >>> bcsIstatusHostSwIrqShift, source.vdmaChannelsBitmap⟩
  | .sourceInterruptPerChannel => afterSource istatusHost (source.addChannels value)
  | .destinationInterruptPerChannel => .returned true (source.addChannels value)

/-- The bits of a register that are in `source` once its value is. -/
def reported (reg : Register) (value : UInt32) : UInt32 :=
  match reg with
  | .istatusHost => (value >>> bcsIstatusHostSwIrqShift) <<< bcsIstatusHostSwIrqShift
  | _ => value

/-- The channels that read memory and those that write it -/
inductive Side
  | source
  | destination
deriving DecidableEq

def Side.register : Side → Register
  | .source => .sourceInterruptPerChannel
  | .destination => .destinationInterruptPerChannel

def Side.mask : Side → UInt32
  | .source => bcsIstatusHostVdmaSrcIrqMask
  | .destination => bcsIstatusHostVdmaDestIrqMask

/-- `unannounced` are the channel bits that wait for their summary bit, `unreported` the bits
that were set and not put into a `source` after that. `settled` says that no bit waited for its
summary bit when the summary was last read, and that the device did nothing since then. -/
structure InterruptSystem where
  config : Config
  unannounced : Side → UInt32
  unreported : Register → UInt32
  phase : ReadPhase
  settled : Bool

/-- The device sets channel bits, summary bits of a side that announce some of its channel
bits, or software bits; `driver` is the next access of the call, or the next call. -/
inductive Event
  | channels (side : Side) (bits : UInt32)
  | summary (side : Side) (bits announced : UInt32)
  | software (bits : UInt32)
  | driver

namespace InterruptSystem

def raise (s : InterruptSystem) (reg : Register) (bits : UInt32) : InterruptSystem :=
  { s with
    config := Function.update s.config reg (s.config reg ||| bits)
    unreported := Function.update s.unreported reg (s.unreported reg ||| bits)
    settled := false }

def setChannels (s : InterruptSystem) (side : Side) (bits : UInt32) : InterruptSystem :=
  { s.raise side.register bits with
    unannounced := Function.update s.unannounced side (s.unannounced side ||| bits) }

def setSummary (s : InterruptSystem) (side : Side) (bits announced : UInt32) : InterruptSystem :=
  { s with
    config := Function.update s.config .istatusHost (s.config .istatusHost ||| bits)
    unannounced := Function.update s.unannounced side (s.unannounced side &&& ~~~announced)
    settled := false }

def setPhase (s : InterruptSystem) (phase : ReadPhase) : InterruptSystem :=
  { s with phase := phase }

def settle (s : InterruptSystem) (reg : Register) : InterruptSystem :=
  if reg = .istatusHost then
    { s with settled := decide (s.unannounced .source = 0 ∧ s.unannounced .destination = 0) }
  else s

def clear (s : InterruptSystem) (reg : Register) (value : UInt32) : InterruptSystem :=
  { s with config := hailoResourceWrite32 s.config reg value }

def report (s : InterruptSystem) (reg : Register) (value : UInt32) : InterruptSystem :=
  { s with
    unreported := Function.update s.unreported reg (s.unreported reg &&& ~~~reported reg value) }

variable (s : InterruptSystem) (side : Side) (reg : Register) (bits value : UInt32)
  (phase : ReadPhase)

@[simp] theorem raise_config :
    (s.raise reg bits).config = Function.update s.config reg (s.config reg ||| bits) := rfl
@[simp] theorem setChannels_config : (s.setChannels side bits).config =
    Function.update s.config side.register (s.config side.register ||| bits) := rfl
@[simp] theorem setChannels_unreported : (s.setChannels side bits).unreported =
    Function.update s.unreported side.register (s.unreported side.register ||| bits) := rfl
@[simp] theorem setChannels_unannounced : (s.setChannels side bits).unannounced =
    Function.update s.unannounced side (s.unannounced side ||| bits) := rfl
@[simp] theorem setPhase_config : (s.setPhase phase).config = s.config := rfl
@[simp] theorem setPhase_unannounced : (s.setPhase phase).unannounced = s.unannounced := rfl
@[simp] theorem setPhase_unreported : (s.setPhase phase).unreported = s.unreported := rfl
@[simp] theorem setPhase_phase : (s.setPhase phase).phase = phase := rfl
@[simp] theorem clear_config :
    (s.clear reg value).config = Function.update s.config reg (s.config reg &&& ~~~value) := rfl
@[simp] theorem report_unreported : (s.report reg value).unreported =
    Function.update s.unreported reg (s.unreported reg &&& ~~~reported reg value) := rfl

@[simp] theorem settle_config : (s.settle reg).config = s.config := by
  unfold settle
  split <;> rfl

@[simp] theorem settle_unreported : (s.settle reg).unreported = s.unreported := by
  unfold settle
  split <;> rfl

@[simp] theorem settle_unannounced : (s.settle reg).unannounced = s.unannounced := by
  unfold settle
  split <;> rfl

end InterruptSystem

def driverStep (s : InterruptSystem) : InterruptSystem :=
  match s.phase with
  | .reads reg istatusHost source =>
    (s.settle reg).setPhase (afterRead reg istatusHost source (s.config reg))
  | .clears reg istatusHost source value =>
    (s.clear reg value).setPhase (.reports reg istatusHost source value)
  | .reports reg istatusHost source value =>
    (s.report reg value).setPhase (afterReport reg istatusHost source value)
  | .returned _ _ => s.setPhase .called

def step (s : InterruptSystem) : Event → Option InterruptSystem
  | .channels side bits => some (s.setChannels side bits)
  | .summary side bits announced =>
    if bits &&& side.mask = 0 then none
    else some (s.setSummary side (bits &&& side.mask) announced)
  | .software bits => some (s.raise .istatusHost (bits &&& bcsIstatusHostSwIrqMask))
  | .driver => some (driverStep s)

def Steps (s s' : InterruptSystem) : Prop := ∃ event, step s event = some s'

/-- The driver's accesses with no device step in between -/
abbrev Alone (s s' : InterruptSystem) : Prop :=
  Relation.ReflTransGen (fun s s' => driverStep s = s') s s'

theorem alone_readAndClear (s : InterruptSystem) {reg : Register} {istatusHost : UInt32}
    {source : HailoPcieInterruptSource} (hphase : s.phase = .reads reg istatusHost source)
    (hread : reg ≠ .istatusHost ∨ s.config reg ≠ 0) :
    ∃ s', Alone s s' ∧ s'.config = (readAndClearReg s.config reg).2 ∧
      s'.phase = afterReport reg istatusHost source (readAndClearReg s.config reg).1 := by
  have hfirst : driverStep s =
      (s.settle reg).setPhase (afterRead reg istatusHost source (s.config reg)) := by
    unfold driverStep
    rw [hphase]
  by_cases hvalue : s.config reg = 0
  · have hreg : reg ≠ .istatusHost := hread.resolve_right (not_not_intro hvalue)
    refine ⟨_, .head hfirst (.single rfl), ?_, ?_⟩
    · simp only [afterRead, hvalue, if_true, if_neg hreg, driverStep, readAndClearReg,
        InterruptSystem.setPhase, InterruptSystem.report, InterruptSystem.settle_config]
    · simp only [afterRead, hvalue, if_true, if_neg hreg, driverStep, readAndClearReg,
        InterruptSystem.setPhase]
  · refine ⟨_, .head hfirst (.head rfl (.single rfl)), ?_, ?_⟩
    · simp only [afterRead, hvalue, if_false, driverStep, readAndClearReg,
        InterruptSystem.setPhase, InterruptSystem.report, InterruptSystem.clear,
        InterruptSystem.settle_config]
    · simp only [afterRead, hvalue, if_false, driverStep, readAndClearReg,
        InterruptSystem.setPhase]

theorem alone_afterSource (s : InterruptSystem) {istatusHost : UInt32}
    {source : HailoPcieInterruptSource} (hphase : s.phase = afterSource istatusHost source)
    {read : HailoPcieInterruptSource × Config}
    (hread : readSide istatusHost bcsIstatusHostVdmaDestIrqMask .destinationInterruptPerChannel
      (source, s.config) = read) :
    ∃ s', Alone s s' ∧ s'.config = read.2 ∧ s'.phase = .returned true read.1 := by
  subst hread
  unfold afterSource at hphase
  unfold readSide
  split at hphase
  · next hnone =>
    rw [if_pos hnone]
    exact ⟨s, .refl, rfl, hphase⟩
  · next hsome =>
    rw [if_neg hsome]
    exact alone_readAndClear s hphase (Or.inl (by decide))

theorem alone_afterIstatus (s : InterruptSystem) {istatusHost : UInt32}
    {source : HailoPcieInterruptSource} (hphase : s.phase = afterIstatus istatusHost source)
    {first read : HailoPcieInterruptSource × Config}
    (hfirst : readSide istatusHost bcsIstatusHostVdmaSrcIrqMask .sourceInterruptPerChannel
      (source, s.config) = first)
    (hread : readSide istatusHost bcsIstatusHostVdmaDestIrqMask .destinationInterruptPerChannel
      first = read) :
    ∃ s', Alone s s' ∧ s'.config = read.2 ∧ s'.phase = .returned true read.1 := by
  subst hfirst
  unfold afterIstatus at hphase
  unfold readSide at hread
  split at hphase
  · next hnone =>
    rw [if_pos hnone] at hread
    exact alone_afterSource s hphase hread
  · next hsome =>
    rw [if_neg hsome] at hread
    obtain ⟨s₁, hrun₁, hconfig₁, hphase₁⟩ := alone_readAndClear s hphase (Or.inl (by decide))
    obtain ⟨s', hrun, hconfig, hreturned⟩ := alone_afterSource s₁ hphase₁ (hconfig₁ ▸ hread)
    exact ⟨s', hrun₁.trans hrun, hconfig, hreturned⟩

/-- Left alone, the accesses of a call do what the function does. -/
theorem alone_readInterrupt (s : InterruptSystem) (hphase : s.phase = .called) :
    ∃ s', Alone s s' ∧ s'.config = (hailoPcieReadInterrupt s.config).2 ∧
      s'.phase = .returned (hailoPcieReadInterrupt s.config).1.1
        (hailoPcieReadInterrupt s.config).1.2 := by
  by_cases hzero : s.config .istatusHost = 0
  · refine ⟨driverStep s, .single rfl, ?_, ?_⟩
    · simp [driverStep, hphase, ReadPhase.called, hailoPcieReadInterrupt, readAndClearReg, hzero,
        InterruptSystem.setPhase, InterruptSystem.settle]
    · simp [driverStep, hphase, ReadPhase.called, hailoPcieReadInterrupt, readAndClearReg, hzero,
        InterruptSystem.setPhase, afterRead]
  · obtain ⟨s₁, hrun₁, hconfig₁, hphase₁⟩ := alone_readAndClear s hphase (Or.inr hzero)
    obtain ⟨s', hrun, hconfig, hreturned⟩ := alone_afterIstatus s₁ hphase₁ rfl rfl
    have hgot : (readAndClearReg s.config .istatusHost).1 ≠ 0 := hzero
    rw [hconfig₁] at hconfig hreturned
    simp only [hailoPcieReadInterrupt, if_neg hgot]
    exact ⟨s', hrun₁.trans hrun, hconfig, hreturned⟩

end HailortDrivers.InterruptRegisters
