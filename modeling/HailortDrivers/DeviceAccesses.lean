import HailortDrivers.FirmwareImage

/-!
What the entry points of a board do to its device: registers through
`pcie_resources`, `pDev`, and log messages, which follow `pDev` when their level is
on. An access without the device is recorded.
-/
namespace HailortDrivers.DeviceAccesses
open FirmwareImage

/-- `pci_power_t` -/
inductive PciPower
  | d0
  | d1
  | d2
  | d3hot
  | d3cold
  | unknown
deriving DecidableEq

structure DriverParams where
  oDbg : Int
  powerModeEnabled : Bool
  acceleratorType : HailoAcceleratorType

def kernCrit : Int := 2
def kernErr : Int := 3
def kernNotice : Int := 5
def kernInfo : Int := 6
def kernDebug : Int := 7

/-- `pDev` is the power state of the device while there is one, `mapped` says that the
BARs of `pcie_resources` are, `vdmaDev` that `vdma.dev` is set. -/
structure BoardDevice where
  pDev : Option PciPower
  mapped : Bool
  vdmaDev : Bool
  interruptsEnabled : Bool
  touchedAbsent : Bool

inductive Access
  | pDev
  | register
  | log (level : Int)

def BoardDevice.touch (d : BoardDevice) (present : Bool) : BoardDevice :=
  { d with touchedAbsent := d.touchedAbsent || !present }

variable (p : DriverParams)

def BoardDevice.access (d : BoardDevice) : Access → BoardDevice
  | .pDev => d.touch d.pDev.isSome
  | .register => d.touch d.mapped
  | .log level => if level ≤ p.oDbg then d.touch d.pDev.isSome else d

def BoardDevice.accesses (d : BoardDevice) (accesses : List Access) : BoardDevice :=
  accesses.foldl (BoardDevice.access p) d

/-- A device of unknown power state stays one that is absent. -/
def BoardDevice.setPower (d : BoardDevice) (state : PciPower) : BoardDevice :=
  { d with pDev := d.pDev.map fun _ => state }

def BoardDevice.setInterrupts (d : BoardDevice) (enabled : Bool) : BoardDevice :=
  { d with interruptsEnabled := enabled }

def hailoDisableInterrupts (d : BoardDevice) : BoardDevice :=
  if d.pDev.isNone || !d.interruptsEnabled then d
  else (d.setInterrupts false).accesses p [.register, .pDev]

/-- `msi` and `irq` are the answers of `pci_enable_msi` and `request_irq`. -/
def hailoEnableInterrupts (d : BoardDevice) (msi irq : Bool) : BoardDevice × Bool :=
  if d.interruptsEnabled then (d.accesses p [.log kernCrit], false)
  else if !msi then (d.accesses p [.pDev, .log kernErr], false)
  else if !irq then
    (d.accesses p [.pDev, .log kernInfo, .pDev, .log kernErr, .pDev], false)
  else
    ((d.accesses p [.pDev, .log kernInfo, .pDev, .log kernInfo, .register]).setInterrupts true,
      true)

/-- What the kernel and the device answer to an open. -/
structure OpenAnswers where
  contextAllocated : Bool
  powered : Bool
  connected : Bool
  msi : Bool
  irq : Bool
  waitAllocated : Bool
  restored : Bool

def wakeUp (d : BoardDevice) (previous : PciPower) (powered : Bool) : BoardDevice × Bool :=
  if previous = .d0 then (d, true)
  else if powered then ((d.accesses p [.log kernInfo, .pDev]).setPower .d0, true)
  else (d.accesses p [.log kernInfo, .pDev, .log kernErr], false)

/-- `l_revert_power_state` -/
def revertPower (d : BoardDevice) (previous : PciPower) (restored : Bool) : BoardDevice :=
  if d.pDev = some previous then d.accesses p [.pDev]
  else if restored then (d.accesses p [.pDev, .log kernInfo, .pDev]).setPower previous
  else d.accesses p [.pDev, .log kernInfo, .pDev, .log kernErr]

/-- `hailo_nnc_file_context_init` or `hailo_soc_file_context_init` and what follows -/
def initFileContext (d : BoardDevice) (previous : PciPower) (enabledByFilp : Bool)
    (answers : OpenAnswers) : BoardDevice × Bool :=
  if p.acceleratorType = .nnc ∧ answers.waitAllocated = false then
    let d := d.accesses p [.log kernErr]
    let d := if enabledByFilp then hailoDisableInterrupts p d else d
    (revertPower p d previous answers.restored, false)
  else (d.accesses p [.log kernDebug], true)

def enableForOpen (d : BoardDevice) (previous : PciPower) (answers : OpenAnswers) :
    BoardDevice × Bool :=
  if d.interruptsEnabled then initFileContext p d previous false answers
  else
    match hailoEnableInterrupts p d answers.msi answers.irq with
    | (d, true) => initFileContext p d previous true answers
    | (d, false) =>
      (revertPower p (d.accesses p [.log kernErr]) previous answers.restored, false)

/-- `hailo_pcie_fops_open` once its file context exists -/
def openDevice (d : BoardDevice) (answers : OpenAnswers) : BoardDevice × Bool :=
  let previous := d.pDev.getD .unknown
  match wakeUp p (d.accesses p [.pDev]) previous answers.powered with
  | (d, false) => (d, false)
  | (d, true) =>
    let d := d.accesses p [.register]
    if answers.connected then enableForOpen p d previous answers
    else (revertPower p (d.accesses p [.log kernErr]) previous answers.restored, false)

def hailoNncDriverDown (d : BoardDevice) (answered : Bool) : BoardDevice :=
  d.accesses p (if answered then [.register] else [.register, .log kernErr])

inductive SocAnswer
  | timeout
  | interrupted
  | refused
  | granted

def socControl (d : BoardDevice) : SocAnswer → BoardDevice
  | .timeout => d.accesses p [.register, .log kernErr]
  | .interrupted => d.accesses p [.register, .log kernInfo]
  | .refused => d.accesses p [.register, .register, .log kernErr]
  | .granted => d.accesses p [.register, .register]

def closeChannels (d : BoardDevice) (answer : SocAnswer) : BoardDevice :=
  socControl p (d.accesses p [.log kernInfo, .register]) answer

/-- The interrupts mask is only updated while `vdma.dev` is set. -/
def vdmaFinalizeDevice (d : BoardDevice) : BoardDevice :=
  if d.vdmaDev then d.accesses p [.pDev] else d

def powerOff (d : BoardDevice) (powered : Bool) : BoardDevice :=
  if d.pDev.isNone then d
  else if powered then (d.accesses p [.pDev]).setPower .d3hot
  else d.accesses p [.pDev, .log kernErr]

/-- What the last release does to the device. -/
def powerDown (d : BoardDevice) (powered : Bool) : BoardDevice :=
  if p.powerModeEnabled then
    powerOff p ((hailoDisableInterrupts p d).accesses p [.log kernInfo]) powered
  else hailoDisableInterrupts p d

/-- `hailo_pcie_remove` from disabling the interrupts to clearing `vdma.dev` -/
def detachDevice (d : BoardDevice) : BoardDevice :=
  { hailoDisableInterrupts p d with pDev := none, mapped := false, vdmaDev := false }

/-- The device is there as before, and if it is there, no access without it is recorded. -/
structure SamePresence (d d' : BoardDevice) : Prop where
  pDev : d'.pDev.isSome = d.pDev.isSome
  mapped : d'.mapped = d.mapped
  vdmaDev : d'.vdmaDev = d.vdmaDev
  touched : d.pDev.isSome = true → d.mapped = true → d'.touchedAbsent = d.touchedAbsent

theorem SamePresence.refl (d : BoardDevice) : SamePresence d d := ⟨rfl, rfl, rfl, fun _ _ => rfl⟩

theorem SamePresence.trans {d d' d'' : BoardDevice} (h : SamePresence d d')
    (h' : SamePresence d' d'') : SamePresence d d'' where
  pDev := h'.pDev.trans h.pDev
  mapped := h'.mapped.trans h.mapped
  vdmaDev := h'.vdmaDev.trans h.vdmaDev
  touched := by
    intro hpDev hmapped
    rw [h'.touched (h.pDev.trans hpDev) (h.mapped.trans hmapped), h.touched hpDev hmapped]

theorem touch_samePresence (d : BoardDevice) {present : Bool}
    (h : d.pDev.isSome = true → d.mapped = true → present = true) :
    SamePresence d (d.touch present) := by
  refine ⟨rfl, rfl, rfl, fun hpDev hmapped => ?_⟩
  simp [BoardDevice.touch, h hpDev hmapped]

theorem access_samePresence (d : BoardDevice) (access : Access) :
    SamePresence d (d.access p access) := by
  cases access with
  | pDev => exact touch_samePresence d fun hpDev _ => hpDev
  | register => exact touch_samePresence d fun _ hmapped => hmapped
  | log level =>
    simp only [BoardDevice.access]
    split
    · exact touch_samePresence d fun hpDev _ => hpDev
    · exact .refl d

theorem accesses_samePresence (d : BoardDevice) (accesses : List Access) :
    SamePresence d (d.accesses p accesses) := by
  induction accesses generalizing d with
  | nil => exact .refl d
  | cons access accesses ih => exact (access_samePresence p d access).trans (ih _)

theorem setPower_samePresence (d : BoardDevice) (state : PciPower) :
    SamePresence d (d.setPower state) :=
  ⟨Option.isSome_map, rfl, rfl, fun _ _ => rfl⟩

theorem setInterrupts_samePresence (d : BoardDevice) (enabled : Bool) :
    SamePresence d (d.setInterrupts enabled) := ⟨rfl, rfl, rfl, fun _ _ => rfl⟩

theorem disableInterrupts_samePresence (d : BoardDevice) :
    SamePresence d (hailoDisableInterrupts p d) := by
  unfold hailoDisableInterrupts
  split
  · exact .refl d
  · exact (setInterrupts_samePresence d false).trans (accesses_samePresence p _ _)

theorem enableInterrupts_samePresence (d : BoardDevice) (msi irq : Bool) :
    SamePresence d (hailoEnableInterrupts p d msi irq).1 := by
  unfold hailoEnableInterrupts
  split_ifs
  · exact accesses_samePresence p d _
  · exact accesses_samePresence p d _
  · exact accesses_samePresence p d _
  · exact (accesses_samePresence p d _).trans (setInterrupts_samePresence _ true)

theorem wakeUp_samePresence (d : BoardDevice) (previous : PciPower) (powered : Bool) :
    SamePresence d (wakeUp p d previous powered).1 := by
  unfold wakeUp
  split_ifs
  · exact .refl d
  · exact (accesses_samePresence p d _).trans (setPower_samePresence _ _)
  · exact accesses_samePresence p d _

theorem revertPower_samePresence (d : BoardDevice) (previous : PciPower) (restored : Bool) :
    SamePresence d (revertPower p d previous restored) := by
  unfold revertPower
  split_ifs
  · exact accesses_samePresence p d _
  · exact (accesses_samePresence p d _).trans (setPower_samePresence _ _)
  · exact accesses_samePresence p d _

theorem initFileContext_samePresence (d : BoardDevice) (previous : PciPower)
    (enabledByFilp : Bool) (answers : OpenAnswers) :
    SamePresence d (initFileContext p d previous enabledByFilp answers).1 := by
  unfold initFileContext
  split_ifs with _ henabled
  · exact ((accesses_samePresence p d [.log kernErr]).trans
      (disableInterrupts_samePresence p _)).trans (revertPower_samePresence p _ _ _)
  · exact (accesses_samePresence p d [.log kernErr]).trans (revertPower_samePresence p _ _ _)
  · exact accesses_samePresence p d [.log kernDebug]

theorem enableForOpen_samePresence (d : BoardDevice) (previous : PciPower)
    (answers : OpenAnswers) : SamePresence d (enableForOpen p d previous answers).1 := by
  have henable := enableInterrupts_samePresence p d answers.msi answers.irq
  unfold enableForOpen
  split
  · exact initFileContext_samePresence p d _ _ _
  · split
    · next d' heq =>
      rw [heq] at henable
      exact henable.trans (initFileContext_samePresence p d' _ _ _)
    · next d' heq =>
      rw [heq] at henable
      exact henable.trans ((accesses_samePresence p d' _).trans (revertPower_samePresence p _ _ _))

theorem openDevice_samePresence (d : BoardDevice) (answers : OpenAnswers) :
    SamePresence d (openDevice p d answers).1 := by
  have hwake := (accesses_samePresence p d [.pDev]).trans
    (wakeUp_samePresence p _ (d.pDev.getD .unknown) answers.powered)
  rw [openDevice]
  rcases heq : wakeUp p (d.accesses p [.pDev]) (d.pDev.getD .unknown) answers.powered with ⟨d', ok⟩
  rw [heq] at hwake
  cases ok with
  | false => exact hwake
  | true =>
    have hregister := hwake.trans (accesses_samePresence p d' [.register])
    simp only
    split
    · exact hregister.trans (enableForOpen_samePresence p _ _ _)
    · exact hregister.trans ((accesses_samePresence p _ _).trans (revertPower_samePresence p _ _ _))

theorem socControl_samePresence (d : BoardDevice) (answer : SocAnswer) :
    SamePresence d (socControl p d answer) := by
  cases answer with
  | _ => exact accesses_samePresence p d _

theorem closeChannels_samePresence (d : BoardDevice) (answer : SocAnswer) :
    SamePresence d (closeChannels p d answer) :=
  (accesses_samePresence p d _).trans (socControl_samePresence p _ answer)

theorem vdmaFinalizeDevice_samePresence (d : BoardDevice) :
    SamePresence d (vdmaFinalizeDevice p d) := by
  unfold vdmaFinalizeDevice
  split
  · exact accesses_samePresence p d _
  · exact .refl d

theorem powerOff_samePresence (d : BoardDevice) (powered : Bool) :
    SamePresence d (powerOff p d powered) := by
  unfold powerOff
  split_ifs
  · exact .refl d
  · exact (accesses_samePresence p d _).trans (setPower_samePresence _ _)
  · exact accesses_samePresence p d _

theorem powerDown_samePresence (d : BoardDevice) (powered : Bool) :
    SamePresence d (powerDown p d powered) := by
  have hdisable := disableInterrupts_samePresence p d
  unfold powerDown
  split
  · exact hdisable.trans ((accesses_samePresence p _ _).trans (powerOff_samePresence p _ powered))
  · exact hdisable

end HailortDrivers.DeviceAccesses
