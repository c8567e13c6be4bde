import HailortDrivers.BufferMapping
import HailortDrivers.FirmwareControl
import HailortDrivers.FirmwareLoading
import HailortDrivers.LedgerFrames

/-!
What a board takes from the kernel (`pcie.c`, `fops.c`): its memory, the device, the three
BARs, the engines, interrupts, its place in the list of boards and what its open files add.
An answer of the kernel that can fail is given; `none` is success.
-/
namespace HailortDrivers.ProbeResources
open ResourceLedger LedgerFrames VdmaTypes FirmwareImage FirmwareLoading
open BufferMapping (Errno)
open VdmaMemory (enomem)
open FirmwareControl (enodev)

inductive PcieBar
  | config
  | vdmaRegs
  | fwAccess
deriving DecidableEq

/-- `page` is the one that `is_kmalloc_dma_capable` tries. -/
inductive BoardResource
  | board
  | enabledDevice
  | regions
  | bar (bar : PcieBar) (address : Nat)
  | engines
  | page
  | msi
  | irq
  | listed
  | deviceNode
  | fileContext (filp : Nat)
  | notificationWait (filp : Nat)
deriving DecidableEq

abbrev BoardLedger := Ledgered BoardResource

structure ModuleParams where
  forceDescPageSize : Int32
  forceAllocationFromDriver : Int32
  forceHailo10hLegacyMode : Bool
  powerModeEnabled : Bool

structure InterruptOps where
  pciEnableMsi : Option Errno
  requestIrq : Option Errno

/-- `loadFirmware` is what the firmware load comes to. -/
structure ActivationOps extends InterruptOps where
  loadFirmware : Option Errno
  pciSetPowerState : Option Errno

/-- A BAR without length is not mapped; the address 0 is `NULL`. -/
structure ProbeOps where
  kzalloc : Bool
  pciEnableDevice : Option Errno
  boardType : HailoBoardType
  pciRequestRegions : Option Errno
  pciResourceLen : PcieBar → Nat
  pciIomap : PcieBar → Nat
  iomap_empty : ∀ bar, pciResourceLen bar = 0 → pciIomap bar = 0
  deviceConnected : Bool
  readDevctl : Except Errno UInt16
  devmKmallocArray : Bool
  dmaSetMaskAndCoherent : Nat → Option Errno
  dmaMask : Bool
  kmalloc : Bool
  isDmaCapable : Bool
  activation : ActivationOps
  classCreate : Option Errno
  deviceCreate : Option Errno

inductive HailoAllocationMode
  | userspace
  | driver
deriving DecidableEq

structure PcieResources where
  config : Nat
  vdmaRegisters : Nat
  fwAccess : Nat
  acceleratorType : HailoAcceleratorType

/-- `pDev` tells whether the pointer is not yet `NULL`. -/
structure HailoPcieBoard where
  pDev : Bool
  pcieResources : PcieResources
  descMaxPageSize : UInt32
  allocationMode : HailoAllocationMode
  interruptsEnabled : Bool
  refCount : Nat
  openFilesList : List Nat
  notificationWaitList : List Nat

section Probe
variable (p : ModuleParams) (ops : ProbeOps)

def hailoBarIomap (bar : PcieBar) : BoardLedger (Except Int32 Nat) := do
  if ops.pciIomap bar ≠ 0 then acquire (.bar bar (ops.pciIomap bar))
  if ops.pciResourceLen bar = 0 ∨ ops.pciIomap bar = 0 then return .error (-einval)
  else return .ok (ops.pciIomap bar)

def hailoBarIounmap (bar : PcieBar) (address : Nat) : BoardLedger Unit :=
  if address ≠ 0 then release (.bar bar address) else return ()

/-- The last part of `pcie_resources_init`, once the BARs are mapped. -/
def identifyDevice : Except Int32 HailoAcceleratorType :=
  let boardType :=
    if ops.boardType = .hailo10h ∧ p.forceHailo10hLegacyMode then .hailo10hLegacy
    else ops.boardType
  match hailoSetDeviceType boardType with
  | none => .error (-einval)
  | some acceleratorType =>
    if !ops.deviceConnected then .error (-enodev) else .ok acceleratorType

def pcieResourcesInit : BoardLedger (Except Int32 PcieResources) :=
  if ops.boardType = .count then return .error (-einval)
  else
    match ops.pciRequestRegions with
    | some err => return .error err.value
    | none => do
      acquire .regions
      match ← hailoBarIomap ops .config with
      | .error err =>
        release .regions
        return .error err
      | .ok config =>
        match ← hailoBarIomap ops .vdmaRegs with
        | .error err =>
          hailoBarIounmap .config config
          release .regions
          return .error err
        | .ok vdmaRegisters =>
          match ← hailoBarIomap ops .fwAccess with
          | .error err =>
            hailoBarIounmap .vdmaRegs vdmaRegisters
            hailoBarIounmap .config config
            release .regions
            return .error err
          | .ok fwAccess =>
            match identifyDevice p ops with
            | .error err =>
              hailoBarIounmap .fwAccess fwAccess
              hailoBarIounmap .vdmaRegs vdmaRegisters
              hailoBarIounmap .config config
              release .regions
              return .error err
            | .ok acceleratorType =>
              return .ok ⟨config, vdmaRegisters, fwAccess, acceleratorType⟩

def pcieResourcesRelease (resources : PcieResources) : BoardLedger Unit := do
  hailoBarIounmap .config resources.config
  hailoBarIounmap .vdmaRegs resources.vdmaRegisters
  hailoBarIounmap .fwAccess resources.fwAccess
  release .regions

/-- `PCI_EXP_DEVCTL_READRQ` of the device control word chooses the size. The module parameter
is compared as a 32-bit number without sign. -/
def hailoGetDescPageSize : Except Int32 UInt32 :=
  if p.forceDescPageSize ≠ 0 then
    if p.forceDescPageSize &&& (p.forceDescPageSize - 1) ≠ 0 then .error (-einval)
    else if p.forceDescPageSize.toUInt32 > 4096 then .error (-einval)
    else .ok p.forceDescPageSize.toUInt32
  else
    match ops.readDevctl with
    | .error err => .error err.value
    | .ok control =>
      if control &&& 0x7000 = 0 then .ok 128
      else if control &&& 0x7000 = 0x1000 then .ok 256
      else .ok 4096

/-- The widest mask that the device takes is enough; the error is that of the last. -/
def hailoSetDmaMask : Option Errno :=
  [64, 48, 40, 36].foldr (fun bits rest =>
    if (ops.dmaSetMaskAndCoherent bits).isNone then none else rest) (ops.dmaSetMaskAndCoherent 32)

/-- `init_vdma_engines`, and then the mask. -/
def hailoVdmaControllerInit : BoardLedger (Except Int32 Unit) :=
  if !ops.devmKmallocArray then return .error (-enomem)
  else do
    acquire .engines
    match hailoSetDmaMask ops with
    | some err => return .error err.value
    | none => return .ok ()

def isKmallocDmaCapable : BoardLedger Bool :=
  if !ops.dmaMask then return false
  else if !ops.kmalloc then return false
  else do
    acquire .page
    release .page
    return ops.isDmaCapable

def hailoGetAllocationMode : BoardLedger (Except Int32 HailoAllocationMode) :=
  if p.forceAllocationFromDriver ≠ 0 then
    if p.forceAllocationFromDriver = 1 then return .ok .userspace
    else if p.forceAllocationFromDriver = 2 then return .ok .driver
    else return .error (-einval)
  else do
    if ← isKmallocDmaCapable ops then return .ok .userspace else return .ok .driver

end Probe

section Interrupts
variable (p : ModuleParams)

/-- What it returns, with `interrupts_enabled` afterwards. -/
def hailoEnableInterrupts (ops : InterruptOps) (interruptsEnabled : Bool) :
    BoardLedger (Int32 × Bool) :=
  if interruptsEnabled then return (-einval, true)
  else
    match ops.pciEnableMsi with
    | some err => return (err.value, false)
    | none => do
      acquire .msi
      match ops.requestIrq with
      | some err =>
        release .msi
        return (err.value, false)
      | none =>
        acquire .irq
        return (0, true)

/-- `interrupts_enabled` afterwards. -/
def hailoDisableInterrupts (pDev interruptsEnabled : Bool) : BoardLedger Bool :=
  if !pDev then return interruptsEnabled
  else if !interruptsEnabled then return false
  else do
    release .irq
    release .msi
    return false

/-- What the SoC answers about its driver does not matter to what it returns. -/
def hailoActivateBoard (ops : ActivationOps) (interruptsEnabled : Bool) :
    BoardLedger (Int32 × Bool) := do
  match ← hailoEnableInterrupts ops.toInterruptOps interruptsEnabled with
  | (err, interruptsEnabled) =>
    if err < 0 then return (err, interruptsEnabled)
    else
      match ops.loadFirmware with
      | some err =>
        let interruptsEnabled ← hailoDisableInterrupts true interruptsEnabled
        return (err.value, interruptsEnabled)
      | none =>
        let interruptsEnabled ← hailoDisableInterrupts true interruptsEnabled
        if p.powerModeEnabled then
          match ops.pciSetPowerState with
          | some err => return (err.value, interruptsEnabled)
          | none => return (0, interruptsEnabled)
        else return (0, interruptsEnabled)

end Interrupts

section Board
variable (p : ModuleParams)

/-- From `probe_release_pcie_resources` on. The driver core frees what was allocated for the
device once the probe has failed. -/
def probeReleasePcieResources (resources : PcieResources) (managed : List BoardResource) :
    BoardLedger Unit := do
  pcieResourcesRelease resources
  release .enabledDevice
  release .board
  releaseAll managed

/-- `hailo_pcie_probe` from the mapped BARs up to where the board is inserted. -/
def configureBoard (ops : ProbeOps) (resources : PcieResources) :
    BoardLedger (Except Int32 HailoPcieBoard) :=
  match hailoGetDescPageSize p ops with
  | .error err => do
    probeReleasePcieResources resources []
    return .error err
  | .ok descMaxPageSize => do
    match ← hailoVdmaControllerInit ops with
    | .error err =>
      probeReleasePcieResources resources (if ops.devmKmallocArray then [.engines] else [])
      return .error err
    | .ok _ =>
      match ← hailoGetAllocationMode p ops with
      | .error err =>
        probeReleasePcieResources resources [.engines]
        return .error err
      | .ok allocationMode =>
        match ← hailoActivateBoard p ops.activation false with
        | (err, interruptsEnabled) =>
          if err < 0 then
            probeReleasePcieResources resources [.engines]
            return .error err
          else
            return .ok ⟨true, resources, descMaxPageSize, allocationMode, interruptsEnabled,
              0, [], []⟩

/-- `hailo_pcie_probe` up to where the board is inserted. -/
def prepareBoard (ops : ProbeOps) : BoardLedger (Except Int32 HailoPcieBoard) :=
  if !ops.kzalloc then return .error (-enomem)
  else do
    acquire .board
    match ops.pciEnableDevice with
    | some err =>
      release .board
      return .error err.value
    | none =>
      acquire .enabledDevice
      match ← pcieResourcesInit p ops with
      | .error err =>
        release .enabledDevice
        release .board
        return .error err
      | .ok resources => configureBoard p ops resources

end Board

section Held

def PcieResources.held (resources : PcieResources) : Multiset BoardResource :=
  .bar .config resources.config ::ₘ .bar .vdmaRegs resources.vdmaRegisters ::ₘ
    .bar .fwAccess resources.fwAccess ::ₘ {.regions}

structure PcieResources.Mapped (resources : PcieResources) : Prop where
  config : resources.config ≠ 0
  vdmaRegisters : resources.vdmaRegisters ≠ 0
  fwAccess : resources.fwAccess ≠ 0

def interruptsHeld (interruptsEnabled : Bool) : Multiset BoardResource :=
  if interruptsEnabled then .irq ::ₘ {.msi} else 0

@[simp] theorem interruptsHeld_false : interruptsHeld false = 0 := rfl

theorem interruptsHeld_true_add (held : Multiset BoardResource) :
    interruptsHeld true + held = .irq ::ₘ .msi ::ₘ held := by
  rw [interruptsHeld, if_pos rfl, Multiset.cons_add, Multiset.singleton_add]

theorem hailoBarIomap_runs (ops : ProbeOps) (bar : PcieBar) (held : Multiset BoardResource) :
    (∃ err, (hailoBarIomap ops bar).Runs held (.error err) held) ∨
    (ops.pciIomap bar ≠ 0 ∧ (hailoBarIomap ops bar).Runs held (.ok (ops.pciIomap bar))
      (.bar bar (ops.pciIomap bar) ::ₘ held)) := by
  unfold hailoBarIomap
  by_cases haddress : ops.pciIomap bar = 0
  · refine Or.inl ⟨-einval, ?_⟩
    simp only [haddress, ne_eq, not_true, if_false, or_true, if_true]
    exact .pure _ _
  · have hlength : ¬ ops.pciResourceLen bar = 0 := fun hzero =>
      haddress (ops.iomap_empty bar hzero)
    refine Or.inr ⟨haddress, ?_⟩
    simp only [haddress, hlength, ne_eq, not_false_iff, if_true, or_self, if_false]
    exact (runs_acquire _ _).bind (.pure _ _)

theorem hailoBarIounmap_runs {bar : PcieBar} {address : Nat} (h : address ≠ 0)
    (held : Multiset BoardResource) :
    (hailoBarIounmap bar address).Runs (.bar bar address ::ₘ held) () held := by
  rw [hailoBarIounmap, if_pos h]
  exact runs_release _ _

theorem pcieResourcesRelease_runs {resources : PcieResources} (h : resources.Mapped)
    (held : Multiset BoardResource) :
    (pcieResourcesRelease resources).Runs (resources.held + held) () held := by
  rw [PcieResources.held, Multiset.cons_add, Multiset.cons_add, Multiset.cons_add,
    Multiset.singleton_add]
  refine (hailoBarIounmap_runs h.config _).bind ?_
  refine (hailoBarIounmap_runs h.vdmaRegisters _).bind ?_
  exact (hailoBarIounmap_runs h.fwAccess _).bind (runs_release _ _)

theorem pcieResourcesInit_runs (p : ModuleParams) (ops : ProbeOps)
    (held : Multiset BoardResource) :
    (∃ err, (pcieResourcesInit p ops).Runs held (.error err) held) ∨
    (∃ resources : PcieResources, resources.Mapped ∧
      (pcieResourcesInit p ops).Runs held (.ok resources) (resources.held + held)) := by
  unfold pcieResourcesInit
  split
  · exact Or.inl ⟨_, .pure _ _⟩
  · split
    · exact Or.inl ⟨_, .pure _ _⟩
    · rcases hailoBarIomap_runs ops .config (.regions ::ₘ held) with
        ⟨err, hconfig⟩ | ⟨hconfig0, hconfig⟩
      · refine Or.inl ⟨err, (runs_acquire _ _).bind (hconfig.bind ?_)⟩
        exact (runs_release _ _).bind (.pure _ _)
      · rcases hailoBarIomap_runs ops .vdmaRegs (.bar .config (ops.pciIomap .config) ::ₘ
          .regions ::ₘ held) with ⟨err, hregs⟩ | ⟨hregs0, hregs⟩
        · refine Or.inl ⟨err, (runs_acquire _ _).bind (hconfig.bind (hregs.bind ?_))⟩
          exact (hailoBarIounmap_runs hconfig0 _).bind ((runs_release _ _).bind (.pure _ _))
        · rcases hailoBarIomap_runs ops .fwAccess (.bar .vdmaRegs (ops.pciIomap .vdmaRegs) ::ₘ
            .bar .config (ops.pciIomap .config) ::ₘ .regions ::ₘ held) with
            ⟨err, hfw⟩ | ⟨hfw0, hfw⟩
          · refine Or.inl ⟨err,
              (runs_acquire _ _).bind (hconfig.bind (hregs.bind (hfw.bind ?_)))⟩
            refine (hailoBarIounmap_runs hregs0 _).bind ?_
            exact (hailoBarIounmap_runs hconfig0 _).bind ((runs_release _ _).bind (.pure _ _))
          · cases hdevice : identifyDevice p ops with
            | error err =>
              refine Or.inl ⟨err,
                (runs_acquire _ _).bind (hconfig.bind (hregs.bind (hfw.bind ?_)))⟩
              refine (hailoBarIounmap_runs hfw0 _).bind ?_
              refine (hailoBarIounmap_runs hregs0 _).bind ?_
              exact (hailoBarIounmap_runs hconfig0 _).bind ((runs_release _ _).bind (.pure _ _))
            | ok acceleratorType =>
              refine Or.inr ⟨⟨_, _, _, acceleratorType⟩, ⟨hconfig0, hregs0, hfw0⟩,
                (runs_acquire _ _).bind (hconfig.bind (hregs.bind (hfw.bind ?_)))⟩
              have hheld : (.bar .fwAccess (ops.pciIomap .fwAccess) ::ₘ
                  .bar .vdmaRegs (ops.pciIomap .vdmaRegs) ::ₘ
                  .bar .config (ops.pciIomap .config) ::ₘ .regions ::ₘ held) =
                  (⟨ops.pciIomap .config, ops.pciIomap .vdmaRegs, ops.pciIomap .fwAccess,
                    acceleratorType⟩ : PcieResources).held + held := by
                simp only [PcieResources.held, Multiset.cons_add, Multiset.singleton_add,
                  Multiset.cons_swap]
              rw [← hheld]
              exact .pure _ _

theorem hailoVdmaControllerInit_runs (ops : ProbeOps) (held : Multiset BoardResource) :
    (∃ err, (hailoVdmaControllerInit ops).Runs held (.error err)
      (((if ops.devmKmallocArray then [.engines] else [] : List BoardResource) :
        Multiset BoardResource) + held)) ∨
    (hailoVdmaControllerInit ops).Runs held (.ok ()) (.engines ::ₘ held) := by
  unfold hailoVdmaControllerInit
  by_cases harray : ops.devmKmallocArray = true
  · rw [harray, if_neg (by decide), if_pos rfl, Multiset.coe_singleton, Multiset.singleton_add]
    cases hailoSetDmaMask ops with
    | some err => exact Or.inl ⟨err.value, (runs_acquire _ _).bind (.pure _ _)⟩
    | none => exact Or.inr ((runs_acquire _ _).bind (.pure _ _))
  · rw [Bool.not_eq_true] at harray
    rw [harray, Bool.not_false, if_pos rfl, if_neg (by decide), Multiset.coe_nil, zero_add]
    exact Or.inl ⟨-enomem, .pure _ _⟩

theorem hailoGetAllocationMode_runs (p : ModuleParams) (ops : ProbeOps)
    (held : Multiset BoardResource) :
    ∃ result, (hailoGetAllocationMode p ops).Runs held result held := by
  have hcapable : ∃ capable, (isKmallocDmaCapable ops).Runs held capable held := by
    unfold isKmallocDmaCapable
    split
    · exact ⟨_, .pure _ _⟩
    · split
      · exact ⟨_, .pure _ _⟩
      · exact ⟨_, (runs_acquire _ _).bind ((runs_release _ _).bind (.pure _ _))⟩
  unfold hailoGetAllocationMode
  split
  · split
    · exact ⟨_, .pure _ _⟩
    · split
      · exact ⟨_, .pure _ _⟩
      · exact ⟨_, .pure _ _⟩
  · obtain ⟨capable, hruns⟩ := hcapable
    cases capable with
    | false => exact ⟨.ok .driver, hruns.bind (.pure _ _)⟩
    | true => exact ⟨.ok .userspace, hruns.bind (.pure _ _)⟩

theorem hailoEnableInterrupts_runs (ops : InterruptOps) (held : Multiset BoardResource) :
    (∃ err < 0, (hailoEnableInterrupts ops false).Runs held (err, false) held) ∨
    (hailoEnableInterrupts ops false).Runs held (0, true) (interruptsHeld true + held) := by
  unfold hailoEnableInterrupts
  rw [if_neg (by decide)]
  cases ops.pciEnableMsi with
  | some err => exact Or.inl ⟨err.value, err.negative, .pure _ _⟩
  | none =>
    cases ops.requestIrq with
    | some err =>
      refine Or.inl ⟨err.value, err.negative, (runs_acquire _ _).bind ?_⟩
      exact (runs_release _ _).bind (.pure _ _)
    | none =>
      rw [interruptsHeld_true_add]
      exact Or.inr ((runs_acquire _ _).bind ((runs_acquire _ _).bind (.pure _ _)))

/-- A board whose device is gone has its interrupts disabled already. -/
theorem hailoDisableInterrupts_runs {pDev interruptsEnabled : Bool}
    (h : interruptsEnabled = true → pDev = true) (held : Multiset BoardResource) :
    (hailoDisableInterrupts pDev interruptsEnabled).Runs (interruptsHeld interruptsEnabled + held)
      false held := by
  cases interruptsEnabled with
  | false =>
    rw [interruptsHeld_false, zero_add]
    cases pDev with
    | false => exact .pure _ _
    | true => exact .pure _ _
  | true =>
    rw [h rfl, interruptsHeld_true_add]
    exact (runs_release _ _).bind ((runs_release _ _).bind (.pure _ _))

/-- Activating leaves the interrupts as they were, whatever fails. -/
theorem hailoActivateBoard_runs (p : ModuleParams) (ops : ActivationOps)
    (interruptsEnabled : Bool) (held : Multiset BoardResource) :
    ∃ err, (hailoActivateBoard p ops interruptsEnabled).Runs held (err, interruptsEnabled)
      held := by
  unfold hailoActivateBoard
  cases interruptsEnabled with
  | true => exact ⟨-einval, (Ledgered.Runs.pure _ _).bind (.pure _ _)⟩
  | false =>
    rcases hailoEnableInterrupts_runs ops.toInterruptOps held with ⟨err, hneg, hruns⟩ | hruns
    · refine ⟨err, hruns.bind ?_⟩
      simp only
      rw [if_pos hneg]
      exact .pure _ _
    · have hdisable := @hailoDisableInterrupts_runs true true (fun _ => rfl) held
      cases hload : ops.loadFirmware with
      | some err =>
        refine ⟨err.value, hruns.bind ?_⟩
        simp only
        rw [if_neg (by decide)]
        exact hdisable.bind (.pure _ _)
      | none =>
        by_cases hpower : p.powerModeEnabled = true
        · cases hstate : ops.pciSetPowerState with
          | some err =>
            refine ⟨err.value, hruns.bind ?_⟩
            simp only [hpower, if_true]
            rw [if_neg (by decide)]
            exact hdisable.bind (.pure _ _)
          | none =>
            refine ⟨0, hruns.bind ?_⟩
            simp only [hpower, if_true]
            rw [if_neg (by decide)]
            exact hdisable.bind (.pure _ _)
        · refine ⟨0, hruns.bind ?_⟩
          simp only [hpower]
          rw [if_neg (by decide)]
          exact hdisable.bind (.pure _ _)

/-- What is held for a board with mapped BARs, before there are engines. -/
def PcieResources.probeHeld (resources : PcieResources) : Multiset BoardResource :=
  .board ::ₘ .enabledDevice ::ₘ resources.held

theorem probeReleasePcieResources_runs {resources : PcieResources} (h : resources.Mapped)
    (managed : List BoardResource) (held : Multiset BoardResource) :
    (probeReleasePcieResources resources managed).Runs
      ((managed : Multiset BoardResource) + (resources.probeHeld + held)) () held := by
  have hheld : (managed : Multiset BoardResource) + (resources.probeHeld + held) =
      resources.held +
        .enabledDevice ::ₘ .board ::ₘ ((managed : Multiset BoardResource) + held) := by
    rw [PcieResources.probeHeld, Multiset.cons_add, Multiset.cons_add, Multiset.add_cons,
      Multiset.add_cons, Multiset.add_cons, Multiset.add_cons, add_left_comm,
      Multiset.cons_swap]
  rw [hheld]
  refine (pcieResourcesRelease_runs h _).bind ?_
  exact (runs_release _ _).bind ((runs_release _ _).bind (runs_releaseAll managed held))

structure HailoPcieBoard.Prepared (board : HailoPcieBoard) : Prop where
  pDev : board.pDev = true
  mapped : board.pcieResources.Mapped
  interruptsEnabled : board.interruptsEnabled = false
  refCount : board.refCount = 0
  openFilesList : board.openFilesList = []
  notificationWaitList : board.notificationWaitList = []

/-- A board whose BARs are mapped is configured, or all that it has is given back. -/
theorem configureBoard_runs (p : ModuleParams) (ops : ProbeOps) {resources : PcieResources}
    (h : resources.Mapped) (held : Multiset BoardResource) :
    (∃ err, (configureBoard p ops resources).Runs (resources.probeHeld + held) (.error err)
      held) ∨
    (∃ board : HailoPcieBoard, board.Prepared ∧ board.pcieResources = resources ∧
      (configureBoard p ops resources).Runs (resources.probeHeld + held) (.ok board)
        (.engines ::ₘ (resources.probeHeld + held))) := by
  have hrelease := probeReleasePcieResources_runs h [.engines] held
  rw [Multiset.coe_singleton, Multiset.singleton_add] at hrelease
  unfold configureBoard
  cases hailoGetDescPageSize p ops with
  | error err =>
    have hempty := probeReleasePcieResources_runs h [] held
    rw [Multiset.coe_nil, zero_add] at hempty
    exact Or.inl ⟨err, hempty.bind (.pure _ _)⟩
  | ok descMaxPageSize =>
    rcases hailoVdmaControllerInit_runs ops (resources.probeHeld + held) with ⟨err, hinit⟩ | hinit
    · exact Or.inl ⟨err, hinit.bind ((probeReleasePcieResources_runs h _ held).bind (.pure _ _))⟩
    · obtain ⟨result, hmode⟩ :=
        hailoGetAllocationMode_runs p ops (.engines ::ₘ (resources.probeHeld + held))
      cases result with
      | error err => exact Or.inl ⟨err, hinit.bind (hmode.bind (hrelease.bind (.pure _ _)))⟩
      | ok allocationMode =>
        obtain ⟨err, hactivate⟩ := hailoActivateBoard_runs p ops.activation false
          (.engines ::ₘ (resources.probeHeld + held))
        by_cases hneg : err < 0
        · refine Or.inl ⟨err, hinit.bind (hmode.bind (hactivate.bind ?_))⟩
          simp only
          rw [if_pos hneg]
          exact hrelease.bind (.pure _ _)
        · refine Or.inr ⟨⟨true, resources, descMaxPageSize, allocationMode, false, 0, [], []⟩,
            ⟨rfl, h, rfl, rfl, rfl, rfl⟩, rfl, hinit.bind (hmode.bind (hactivate.bind ?_))⟩
          simp only
          rw [if_neg hneg]
          exact .pure _ _

/-- A probe that fails before the insertion gives everything back, and one that comes there
holds a board with its device, BARs and engines, whatever fails on the way. -/
theorem prepareBoard_runs (p : ModuleParams) (ops : ProbeOps) (held : Multiset BoardResource) :
    (∃ err, (prepareBoard p ops).Runs held (.error err) held) ∨
    (∃ board : HailoPcieBoard, board.Prepared ∧ (prepareBoard p ops).Runs held (.ok board)
      (.engines ::ₘ (board.pcieResources.probeHeld + held))) := by
  unfold prepareBoard
  split
  · exact Or.inl ⟨_, .pure _ _⟩
  · cases ops.pciEnableDevice with
    | some err =>
      exact Or.inl ⟨err.value, (runs_acquire _ _).bind ((runs_release _ _).bind (.pure _ _))⟩
    | none =>
      rcases pcieResourcesInit_runs p ops (.enabledDevice ::ₘ .board ::ₘ held) with
        ⟨err, hinit⟩ | ⟨resources, hmapped, hinit⟩
      · refine Or.inl ⟨err, (runs_acquire _ _).bind ((runs_acquire _ _).bind (hinit.bind ?_))⟩
        exact (runs_release _ _).bind ((runs_release _ _).bind (.pure _ _))
      · have hheld : resources.held + .enabledDevice ::ₘ .board ::ₘ held =
            resources.probeHeld + held := by
          rw [PcieResources.probeHeld, Multiset.cons_add, Multiset.cons_add, Multiset.add_cons,
            Multiset.add_cons, Multiset.cons_swap]
        rw [hheld] at hinit
        rcases configureBoard_runs p ops hmapped held with
          ⟨err, hconfigure⟩ | ⟨board, hprepared, rfl, hconfigure⟩
        · exact Or.inl ⟨err,
            (runs_acquire _ _).bind ((runs_acquire _ _).bind (hinit.bind hconfigure))⟩
        · exact Or.inr ⟨board, hprepared,
            (runs_acquire _ _).bind ((runs_acquire _ _).bind (hinit.bind hconfigure))⟩

end Held

end HailortDrivers.ProbeResources
