import HailortDrivers.BootSuccess
import HailortDrivers.SoftReset

/-!
The life of a board that loads its firmware over vDMA (`pcie.c`, `fops.c`): it is probed once
and activated then and after every suspend. Its boot state is set up by the probe alone; the
files of a batch and the interrupts while the board boots change it.
-/
namespace HailortDrivers.BootActivation
open KernelExec KernelCompletion EventRuns VdmaTypes SegmentSlicing SoftReset FirmwareLoading
open ProgrammedPages BootProgramming BootRounds BootSuccess

/-- What allocating puts into a channel. -/
structure BootChannelResources where
  hostDescriptorsBuffer : HailoVdmaDescriptorsList
  deviceDescriptorsBuffer : HailoVdmaDescriptorsList
  sgTable : SgTable
  buffer : BounceBuffer

/-- `desc_program_num` is no resource: a channel keeps it. -/
def BootChannelResources.channel (r : BootChannelResources) (descProgramNum : UInt32) :
    HailoPcieBootDmaChannelState :=
  { hostDescriptorsBuffer := r.hostDescriptorsBuffer
    deviceDescriptorsBuffer := r.deviceDescriptorsBuffer
    sgTable := r.sgTable
    buffer := r.buffer
    descProgramNum := descProgramNum }

/-- What allocating gives a channel when it succeeds. -/
structure AllocatedChannel extends BootChannelResources where
  ready : ChannelReady (toBootChannelResources.channel 0)
  room : ChannelRoom (toBootChannelResources.channel 0)
  unwritten : ∀ p, buffer.bytes p = none
  distinct : (allBytes (segments sgTable.sgl)).Nodup

/-- How allocating ends. One that fails may have put anything into the channels before. -/
inductive BootAllocation
  | created (resources : Nat → AllocatedChannel)
  | failed (err : Int32) (neg : err < 0) (left : Nat → BootChannelResources)

def allocateBootResources (resources : Nat → BootChannelResources) (boot : BootState) :
    BootState :=
  { boot with
    channels := fun c =>
      if c < hailoPciOverVdmaNumChannels then
        (resources c).channel (boot.channels c).descProgramNum
      else boot.channels c }

/-- What a run of `pcie_write_firmware_batch_over_dma` finds: memory and files. -/
structure BatchEnv where
  allocation : BootAllocation
  request : FirmwareStore
  rounds : Nat

/-- How far `load_soc_firmware` is. The board is in boot unless it is idle. -/
inductive LoadPhase
  | idle
  | firstStage
  | transferring
  | secondStage
  | returning
deriving DecidableEq

structure HailoPcieBoard where
  boot : BootState
  fwLoadedCompletion : Completion
  vdmaBootCompletion : Completion
  phase : LoadPhase

/-- `pcie_write_firmware_batch_over_dma` up to the wait for the channels. The release at its end
leaves the counters of the channels as they are. -/
def pcieWriteFirmwareBatchOverDma (stageInfo : HailoPcieLoadingStage) (env : BatchEnv)
    (s : HailoPcieBoard) : Exec (Option (Int32 × HailoPcieBoard)) :=
  match env.allocation with
  | .failed err _ left => .ok (some (err, { s with boot := allocateBootResources left s.boot }))
  | .created resources => do
    match ← pcieVdmaProgramEntireBatch env.request env.rounds stageInfo
        (allocateBootResources (fun c => (resources c).toBootChannelResources) s.boot) with
    | none => return none
    | some (err, boot) =>
      return some (err, { s with
        boot := boot
        vdmaBootCompletion := s.vdmaBootCompletion.reinit })

inductive LoadEvent
  | activateBoard (isFirmwareLoaded : Bool)
  | bootIrqHandler (irqSource : HailoPcieInterruptSource)
  | writeFirmwareBatchOverDma (env : BatchEnv)
  | triggerBoot
  | firmwareLoaded
  | loadReturns

namespace HailoPcieBoard
variable (s : HailoPcieBoard)

def setPhase (phase : LoadPhase) : HailoPcieBoard := { s with phase := phase }

def initCompletions : HailoPcieBoard :=
  { s with fwLoadedCompletion := .init, vdmaBootCompletion := .init }

def fwBoot : HailoPcieFwBoot :=
  ⟨s.boot.bootUsedChannelBitmap, s.fwLoadedCompletion, s.vdmaBootCompletion⟩

def bootIrqHandler (irqSource : HailoPcieInterruptSource) : HailoPcieBoard :=
  { s with
    boot := { s.boot with
      bootUsedChannelBitmap := (completeBoot irqSource s.fwBoot).bootUsedChannelBitmap }
    fwLoadedCompletion := (completeBoot irqSource s.fwBoot).fwLoadedCompletion
    vdmaBootCompletion := (completeBoot irqSource s.fwBoot).vdmaBootCompletion }

end HailoPcieBoard

/-- `load_soc_firmware` step by step. An activation that finds the firmware loaded, a wait that
times out and a batch that fails all return early. -/
def step (stageInfo : HailoPcieLoadingStage) (s : HailoPcieBoard) :
    LoadEvent → Option HailoPcieBoard
  | .activateBoard isFirmwareLoaded =>
    if s.phase = .idle then
      if isFirmwareLoaded then some (s.setPhase .returning)
      else some (s.initCompletions.setPhase .firstStage)
    else none
  | .bootIrqHandler irqSource =>
    if s.phase = .idle then none else some (s.bootIrqHandler irqSource)
  | .writeFirmwareBatchOverDma env =>
    if s.phase = .firstStage ∧ s.fwLoadedCompletion.done ≠ 0 then
      match pcieWriteFirmwareBatchOverDma stageInfo env
          { s with fwLoadedCompletion := s.fwLoadedCompletion.reinit } with
      | .ok (some (err, s)) => some (s.setPhase (if err < 0 then .returning else .transferring))
      | _ => none
    else none
  | .triggerBoot =>
    if s.phase = .transferring ∧ s.vdmaBootCompletion.done ≠ 0 then
      some ({ s with fwLoadedCompletion := s.fwLoadedCompletion.reinit }.setPhase .secondStage)
    else none
  | .firmwareLoaded =>
    if s.phase = .secondStage ∧ s.fwLoadedCompletion.done ≠ 0 then
      some (s.initCompletions.setPhase .returning)
    else none
  | .loadReturns => if s.phase = .idle then none else some (s.setPhase .idle)

def runEvents (stageInfo : HailoPcieLoadingStage) (s : HailoPcieBoard) (events : List LoadEvent) :
    Option HailoPcieBoard := events.foldlM (step stageInfo) s

/-- A channel behind the `memset` of the probe. -/
def zeroChannel : HailoPcieBootDmaChannelState :=
  BootChannelResources.channel
    ⟨⟨fun _ => ⟨0, 0, 0, 0⟩, 0, 0, 0, false⟩, ⟨fun _ => ⟨0, 0, 0, 0⟩, 0, 0, 0, false⟩, ⟨0, []⟩,
      ⟨0, fun _ => none⟩⟩ 0

/-- The boot state that `hailo_pcie_probe` sets up, with the bit of channel 0 in the bitmap;
`beyond` is the memory behind the array. -/
def probedBoot (beyond : Nat → HailoPcieBootDmaChannelState) : BootState where
  channels c := if c < hailoPciOverVdmaNumChannels then zeroChannel else beyond c
  currChannelIndex := 0
  bootUsedChannelBitmap := 1

def probedBoard (beyond : Nat → HailoPcieBootDmaChannelState) : HailoPcieBoard :=
  ⟨probedBoot beyond, .init, .init, .idle⟩

section Allocation
variable (resources : Nat → BootChannelResources) (boot : BootState)

@[simp] theorem allocate_currChannelIndex :
    (allocateBootResources resources boot).currChannelIndex = boot.currChannelIndex := rfl

@[simp] theorem allocate_bitmap :
    (allocateBootResources resources boot).bootUsedChannelBitmap =
      boot.bootUsedChannelBitmap := rfl

theorem allocate_of_lt {c : Nat} (hc : c < hailoPciOverVdmaNumChannels) :
    (allocateBootResources resources boot).channels c =
      (resources c).channel (boot.channels c).descProgramNum := if_pos hc

theorem allocate_of_le {c : Nat} (hc : hailoPciOverVdmaNumChannels ≤ c) :
    (allocateBootResources resources boot).channels c = boot.channels c :=
  if_neg (Nat.not_lt.mpr hc)

@[simp] theorem allocate_descProgramNum (c : Nat) :
    ((allocateBootResources resources boot).channels c).descProgramNum =
      (boot.channels c).descProgramNum := by
  by_cases hc : c < hailoPciOverVdmaNumChannels
  · rw [allocate_of_lt resources boot hc]
    rfl
  · rw [allocate_of_le resources boot (Nat.not_lt.mp hc)]

end Allocation

theorem probedBoot_descProgramNum (beyond : Nat → HailoPcieBootDmaChannelState) {c : Nat}
    (hc : c < hailoPciOverVdmaNumChannels) :
    ((probedBoot beyond).channels c).descProgramNum = 0 := by
  have hchannel : (probedBoot beyond).channels c = zeroChannel := if_pos hc
  rw [hchannel]
  rfl

end HailortDrivers.BootActivation
