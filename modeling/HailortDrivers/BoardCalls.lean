import HailortDrivers.DeviceAccesses
import Mathlib.Logic.Function.Basic
import Mathlib.Logic.Relation

/-!
A board under `hailo_pcie_remove` and any number of open, release, ioctl and mmap
calls, each split at its mutex operations and at what it does without the mutex.
Files are told apart by `filp`, ioctl and mmap calls by their thread.
-/
namespace HailortDrivers.BoardCalls
open FirmwareImage DeviceAccesses

inductive MutexOwner (F C : Type)
  | remove
  | file (filp : F)
  | call (thread : C)
deriving DecidableEq

structure HailoFileContext where
  isValid : Bool
  socUsedChannelsBitmap : UInt32

/-- `freed` counts how often the board was freed, `usedAfterFree` says that it was read
or written after that. -/
structure HailoPcieBoard (F C : Type) where
  mutex : Option (MutexOwner F C)
  fwControlMutex : Option C
  inBoardList : Bool
  refCount : Int
  device : BoardDevice
  openFilesList : F → Option HailoFileContext
  usedByFilp : Option F
  freed : Nat
  usedAfterFree : Bool

variable {F C : Type}

def HailoPcieBoard.use (b : HailoPcieBoard F C) : HailoPcieBoard F C :=
  { b with usedAfterFree := b.usedAfterFree || decide (0 < b.freed) }

def HailoPcieBoard.setDevice (b : HailoPcieBoard F C) (d : BoardDevice) : HailoPcieBoard F C :=
  { b with device := d }

def HailoPcieBoard.setRefCount (b : HailoPcieBoard F C) (count : Int) : HailoPcieBoard F C :=
  { b with refCount := count }

def HailoPcieBoard.setMutex (b : HailoPcieBoard F C) (owner : Option (MutexOwner F C)) :
    HailoPcieBoard F C :=
  { b with mutex := owner }

def HailoPcieBoard.setFwControlMutex (b : HailoPcieBoard F C) (owner : Option C) :
    HailoPcieBoard F C :=
  { b with fwControlMutex := owner }

def HailoPcieBoard.setUsedByFilp (b : HailoPcieBoard F C) (filp : Option F) :
    HailoPcieBoard F C :=
  { b with usedByFilp := filp }

/-- `hailo_pcie_remove_board` -/
def hailoPcieRemoveBoard (b : HailoPcieBoard F C) : HailoPcieBoard F C :=
  { b with inBoardList := false }

def HailoPcieBoard.access (p : DriverParams) (b : HailoPcieBoard F C) (accesses : List Access) :
    HailoPcieBoard F C :=
  b.setDevice (b.device.accesses p accesses)

/-- A message after which the call is done with the board. -/
def HailoPcieBoard.lastLog (p : DriverParams) (b : HailoPcieBoard F C) : HailoPcieBoard F C :=
  if kernDebug ≤ p.oDbg then b.use.access p [.log kernDebug] else b

def HailoPcieBoard.kfree (b : HailoPcieBoard F C) : HailoPcieBoard F C :=
  { b.use with freed := b.freed + 1 }

/-- `down` gets the mutex when nobody holds it. -/
def HailoPcieBoard.down (b : HailoPcieBoard F C) (owner : MutexOwner F C) :
    Option (HailoPcieBoard F C) :=
  if b.mutex.isNone then some (b.use.setMutex (some owner)) else none

/-- `hailo_pcie_remove`. After `removed` the mutex is free again and `ref_count` not yet
read. -/
inductive RemovePhase
  | notCalled
  | waits
  | holds
  | unlisted
  | removed
  | sawUnused
  | sawUsed
  | done
deriving DecidableEq

/-- `hailo_pcie_fops_open` and `hailo_pcie_fops_release` -/
inductive FilePhase
  | closed
  | openWaits
  | openHolds
  | openDrops
  | opened
  | releaseWaits
  | releaseHolds
  | releaseFrees
  | releaseLogs
deriving DecidableEq

inductive IoctlCmd
  | queryDeviceProperties
  | queryDriverInfo
  | vdmaEnableChannels
  | vdmaDisableChannels
  | vdmaInterruptsWait
  | vdmaInterruptsReadTimestamps
  | vdmaBufferMap
  | vdmaBufferUnmap
  | vdmaBufferSync
  | descListCreate
  | descListRelease
  | descListProgram
  | vdmaLowMemoryBufferAlloc
  | vdmaLowMemoryBufferFree
  | markAsInUse
  | vdmaContinuousBufferAlloc
  | vdmaContinuousBufferFree
  | vdmaLaunchTransfer
  | socConnect
  | socClose
  | socPowerOff
  | fwControl
  | readNotification
  | disableNotification
  | readLog
  | unknown
deriving DecidableEq

/-- `hailo_pcie_fops_unlockedioctl` and `hailo_pcie_fops_mmap`. An event is what
`HAILO_READ_NOTIFICATION` and `HAILO_VDMA_INTERRUPTS_WAIT` wait for without the mutex. -/
inductive CallPhase (F : Type)
  | idle
  | ioctlWaits (filp : F) (cmd : IoctlCmd)
  | ioctlHolds (filp : F) (cmd : IoctlCmd)
  | fwControlWaits (filp : F)
  | fwControlHolds (filp : F)
  | fwControlAwaits (filp : F)
  | eventWaits (filp : F) (cmd : IoctlCmd)
  | eventLocks (filp : F) (cmd : IoctlCmd)
  | eventHolds (filp : F) (cmd : IoctlCmd)
  | ioctlLogs (filp : F)
  | mmapWaits (filp : F)
  | mmapHolds (filp : F)

/-- How a handler ends: `rejected` before it gets to the device, `idle` with nothing to do,
`failed` after it got there; a SoC connection that is `done` says which channels it has. -/
inductive Outcome
  | rejected
  | idle
  | failed
  | done (channels : UInt32)

/-- The accelerator that has the ioctl, where only one does. -/
def IoctlCmd.acceleratorType : IoctlCmd → Option HailoAcceleratorType
  | .socConnect | .socClose | .socPowerOff => some .soc
  | .fwControl | .readNotification | .disableNotification | .readLog => some .nnc
  | _ => none

/-- What a handler does to the device, up to its first access: what follows in the same
section finds the device as that access did. Handlers follow `vdma.dev` themselves only to
update the interrupts mask; messages on `vdma.dev` and DMA calls hand it on. -/
def handlerAccesses : IoctlCmd → Outcome → List Access
  | .queryDeviceProperties, _ => [.register]
  | .queryDriverInfo, _ => [.log kernInfo]
  | .vdmaEnableChannels, .failed => [.pDev]
  | .vdmaEnableChannels, .done _ => [.pDev]
  | .vdmaDisableChannels, .failed => [.pDev]
  | .vdmaDisableChannels, .done _ => [.pDev]
  | .vdmaInterruptsWait, .failed => [.register]
  | .vdmaInterruptsWait, .done _ => [.register]
  | .vdmaLaunchTransfer, .failed => [.register]
  | .vdmaLaunchTransfer, .done _ => [.register]
  | .socConnect, .rejected => [.log kernErr]
  | .socConnect, _ => [.register]
  | .socClose, .rejected => [.log kernErr]
  | .socClose, _ => [.log kernInfo, .register]
  | .socPowerOff, .rejected => [.log kernErr]
  | .socPowerOff, _ => [.register]
  | .readNotification, .rejected => [.log kernInfo]
  | .readNotification, .failed => [.log kernErr]
  | .disableNotification, _ => [.log kernInfo]
  | .readLog, .rejected => [.log kernErr]
  | .readLog, .failed => [.register]
  | .readLog, .done _ => [.register]
  | .unknown, .rejected => [.log kernErr]
  | _, _ => []

def HailoFileContext.connect (context : HailoFileContext) (channels : UInt32) :
    HailoFileContext :=
  { context with socUsedChannelsBitmap := context.socUsedChannelsBitmap ||| channels }

def HailoFileContext.disconnect (context : HailoFileContext) (channels : UInt32) :
    HailoFileContext :=
  { context with socUsedChannelsBitmap := context.socUsedChannelsBitmap &&& ~~~channels }

variable [DecidableEq F] [DecidableEq C]

def HailoPcieBoard.setContext (b : HailoPcieBoard F C) (filp : F)
    (context : Option HailoFileContext) : HailoPcieBoard F C :=
  { b with openFilesList := Function.update b.openFilesList filp context }

/-- What a handler leaves in the board and in the file's context. -/
def applyHandler (b : HailoPcieBoard F C) (filp : F) (context : HailoFileContext) :
    IoctlCmd → Outcome → HailoPcieBoard F C
  | .markAsInUse, _ => if b.usedByFilp.isNone then b.setUsedByFilp (some filp) else b
  | .socConnect, .done channels => b.setContext filp (some (context.connect channels))
  | .socClose, .done channels => b.setContext filp (some (context.disconnect channels))
  | _, _ => b

variable (p : DriverParams)

/-- The file context was just created, or there was no memory for it. -/
def openSection (b : HailoPcieBoard F C) (filp : F) (answers : OpenAnswers) :
    HailoPcieBoard F C × FilePhase :=
  if answers.contextAllocated then
    match openDevice p b.device answers with
    | (d, true) => (((b.setDevice d).setContext filp (some ⟨true, 0⟩)).setMutex none, .opened)
    | (d, false) => ((b.setDevice d).setMutex none, .openDrops)
  else ((b.access p [.log kernErr]).setMutex none, .openDrops)

structure ReleaseAnswers where
  shutdown : Bool
  closed : SocAnswer
  powered : Bool

/-- `hailo_nnc_file_context_finalize` or `hailo_soc_file_context_finalize` -/
def finalizeAccelerator (usedByFilp : Option F) (filp : F) (context : HailoFileContext)
    (d : BoardDevice) (answers : ReleaseAnswers) : BoardDevice :=
  match p.acceleratorType with
  | .nnc => if usedByFilp = some filp then hailoNncDriverDown p d answers.shutdown else d
  | .soc => if context.socUsedChannelsBitmap = 0 then d else closeChannels p d answers.closed

def finalizeFile (b : HailoPcieBoard F C) (filp : F) (context : HailoFileContext)
    (answers : ReleaseAnswers) : BoardDevice :=
  vdmaFinalizeDevice p (finalizeAccelerator p b.usedByFilp filp context
    (b.device.accesses p (if context.isValid then [] else [.log kernErr])) answers)

def closeFile (b : HailoPcieBoard F C) (filp : F) : HailoPcieBoard F C :=
  (b.setUsedByFilp (if b.usedByFilp = some filp then none else b.usedByFilp)).setContext filp none

/-- `hailo_pcie_fops_release` from `find_file_context` to the `up` -/
def releaseSection (b : HailoPcieBoard F C) (filp : F) (answers : ReleaseAnswers) :
    HailoPcieBoard F C × FilePhase :=
  match b.openFilesList filp with
  | none => ((b.access p [.log kernErr]).setMutex none, .closed)
  | some context =>
    let d := finalizeFile p b filp context answers
    let count := b.refCount - 1
    if count = 0 then
      let d := (powerDown p d answers.powered).accesses p [.log kernDebug]
      ((((closeFile b filp).setRefCount count).setDevice d).setMutex none,
        if d.pDev.isNone then .releaseFrees else .releaseLogs)
    else ((((closeFile b filp).setRefCount count).setDevice d).setMutex none, .releaseLogs)

inductive FileAction
  | getBoardIndex
  | interrupted
  | down
  | openSection (answers : OpenAnswers)
  | decRefCount
  | release
  | releaseSection (answers : ReleaseAnswers)
  | kfree
  | log

/-- One step of an open or a release. The last message of the release that frees follows
the pointer that it has just cleared. -/
def fileStep (b : HailoPcieBoard F C) (filp : F) :
    FilePhase → FileAction → Option (HailoPcieBoard F C × FilePhase)
  | .closed, .getBoardIndex =>
    if b.inBoardList then some (b.use.setRefCount (b.refCount + 1), .openWaits)
    else some (b, .closed)
  | .openWaits, .interrupted => some (b.use.access p [.log kernErr], .openDrops)
  | .openWaits, .down => (b.down (.file filp)).map fun b => (b, .openHolds)
  | .openHolds, .openSection answers => some (openSection p b.use filp answers)
  | .openDrops, .decRefCount => some (b.use.setRefCount (b.refCount - 1), .closed)
  | .opened, .release => some (b.use.access p [.log kernInfo], .releaseWaits)
  | .releaseWaits, .down => (b.down (.file filp)).map fun b => (b, .releaseHolds)
  | .releaseHolds, .releaseSection answers => some (releaseSection p b.use filp answers)
  | .releaseFrees, .kfree => some (b.kfree.access p [.log kernDebug], .closed)
  | .releaseLogs, .log => some (b.lastLog p, .closed)
  | _, _ => none

/-- `hailo_pcie_fops_unlockedioctl` from `find_file_context` to the `up`. A wait for channel
interrupts that finds some (`done`) goes on without waiting. -/
def ioctlSection (b : HailoPcieBoard F C) (filp : F) (cmd : IoctlCmd) (outcome : Outcome) :
    HailoPcieBoard F C × CallPhase F :=
  match b.openFilesList filp with
  | none => ((b.access p [.log kernErr]).setMutex none, .idle)
  | some context =>
    if !context.isValid then ((b.access p [.log kernErr]).setMutex none, .idle)
    else if cmd.acceleratorType.any (· ≠ p.acceleratorType) then
      ((b.access p [.log kernErr]).setMutex none, .ioctlLogs filp)
    else
      match cmd, outcome with
      | .fwControl, _ => (b.setMutex none, .fwControlWaits filp)
      | .readNotification, .rejected => (b.setMutex none, .ioctlLogs filp)
      | .readNotification, _ => (b.setMutex none, .eventWaits filp .readNotification)
      | .vdmaInterruptsWait, .rejected => (b.setMutex none, .ioctlLogs filp)
      | .vdmaInterruptsWait, .idle => (b.setMutex none, .eventWaits filp .vdmaInterruptsWait)
      | .vdmaInterruptsWait, _ => (b.setMutex none, .eventLocks filp .vdmaInterruptsWait)
      | cmd, outcome =>
        (((applyHandler b filp context cmd outcome).access p
          (handlerAccesses cmd outcome)).setMutex none, .ioctlLogs filp)

/-- An interrupted wait says so on `pDev` or on `vdma.dev`. -/
def interruptedAccesses : IoctlCmd → List Access
  | .readNotification => [.log kernInfo]
  | _ => []

/-- Remove disables all waits for notifications (`hailo_nnc_finalize`), and a disabled wait is
rejected. -/
def eventOutcome (b : HailoPcieBoard F C) (cmd : IoctlCmd) (outcome : Outcome) : Outcome :=
  if cmd = .readNotification && b.device.pDev.isNone then .rejected else outcome

inductive CallAction (F : Type)
  | ioctl (filp : F) (cmd : IoctlCmd) (accessOk : Bool)
  | mmap (filp : F)
  | interrupted
  | down
  | section (outcome : Outcome)
  | woken
  | send (outcome : Outcome)
  | receive (answered : Bool)
  | log

/-- One step of an ioctl or an mmap. -/
def callStep (b : HailoPcieBoard F C) (thread : C) :
    CallPhase F → CallAction F → Option (HailoPcieBoard F C × CallPhase F)
  | .idle, .ioctl filp cmd accessOk =>
    if b.device.pDev.isNone then some (b.use, .idle)
    else if accessOk then some (b.use.access p [.log kernDebug], .ioctlWaits filp cmd)
    else some (b.use.access p [.log kernDebug, .log kernErr], .idle)
  | .idle, .mmap filp =>
    if b.device.pDev.isNone then some (b.use.access p [.log kernInfo], .idle)
    else some (b.use.access p [.log kernInfo], .mmapWaits filp)
  | .ioctlWaits _ _, .interrupted => some (b.use.access p [.log kernErr], .idle)
  | .ioctlWaits filp cmd, .down =>
    (b.down (.call thread)).map fun b => (b, .ioctlHolds filp cmd)
  | .ioctlHolds filp cmd, .section outcome => some (ioctlSection p b.use filp cmd outcome)
  | .fwControlWaits filp, .interrupted =>
    some (b.use.access p [.log kernInfo], .ioctlLogs filp)
  | .fwControlWaits filp, .down =>
    if b.fwControlMutex.isNone then
      some (b.use.setFwControlMutex (some thread), .fwControlHolds filp)
    else none
  | .fwControlHolds filp, .send .rejected =>
    some ((b.use.access p [.log kernErr]).setFwControlMutex none, .ioctlLogs filp)
  | .fwControlHolds filp, .send .failed =>
    some ((b.use.access p [.register, .log kernErr]).setFwControlMutex none, .ioctlLogs filp)
  | .fwControlHolds filp, .send _ => some (b.use.access p [.register], .fwControlAwaits filp)
  | .fwControlAwaits filp, .interrupted =>
    some ((b.use.access p [.log kernInfo]).setFwControlMutex none, .ioctlLogs filp)
  | .fwControlAwaits filp, .receive answered =>
    some ((b.use.access p (if answered then [.register] else [.log kernErr])).setFwControlMutex
      none, .ioctlLogs filp)
  | .eventWaits filp cmd, .interrupted =>
    some (b.use.access p (interruptedAccesses cmd), .ioctlLogs filp)
  | .eventWaits filp cmd, .woken =>
    -- channel waits are woken by the interrupt handler, which remove has taken away
    if cmd = .vdmaInterruptsWait && b.device.pDev.isNone then none
    else some (b.use, .eventLocks filp cmd)
  | .eventLocks filp cmd, .interrupted =>
    some (b.use.access p (interruptedAccesses cmd), .ioctlLogs filp)
  | .eventLocks filp cmd, .down =>
    (b.down (.call thread)).map fun b => (b, .eventHolds filp cmd)
  | .eventHolds filp cmd, .section outcome =>
    some ((b.use.access p (handlerAccesses cmd (eventOutcome b cmd outcome))).setMutex none,
      .ioctlLogs filp)
  | .ioctlLogs _, .log => some (b.use.access p [.log kernDebug], .idle)
  | .mmapWaits _, .interrupted => some (b.use.access p [.log kernErr], .idle)
  | .mmapWaits filp, .down => (b.down (.call thread)).map fun b => (b, .mmapHolds filp)
  | .mmapHolds filp, .section _ =>
    match b.openFilesList filp with
    | none => some ((b.use.access p [.log kernErr]).setMutex none, .idle)
    | some context =>
      some ((b.use.access p (if context.isValid then [] else [.log kernErr])).setMutex none,
        .idle)
  | _, _ => none

/-- The next step of `hailo_pcie_remove`. Its own messages are on the device it was given. -/
def removeStep (b : HailoPcieBoard F C) : RemovePhase → Option (HailoPcieBoard F C × RemovePhase)
  | .notCalled => some (b, .waits)
  | .waits => (b.down .remove).map fun b => (b, .holds)
  | .holds => some (hailoPcieRemoveBoard b.use, .unlisted)
  | .unlisted => some ((b.use.setDevice (detachDevice p b.device)).setMutex none, .removed)
  | .removed => some (b.use, if b.refCount = 0 then .sawUnused else .sawUsed)
  | .sawUnused => some (b.kfree, .done)
  | .sawUsed => some (b.use, .done)
  | .done => none

structure BoardSystem (F C : Type) where
  board : HailoPcieBoard F C
  removing : RemovePhase
  files : F → FilePhase
  calls : C → CallPhase F

inductive Action (F C : Type)
  | remove
  | file (filp : F) (action : FileAction)
  | call (thread : C) (action : CallAction F)

def step (s : BoardSystem F C) : Action F C → Option (BoardSystem F C)
  | .remove => (removeStep p s.board s.removing).map fun next =>
    ⟨next.1, next.2, s.files, s.calls⟩
  | .file filp action => (fileStep p s.board filp (s.files filp) action).map fun next =>
    ⟨next.1, s.removing, Function.update s.files filp next.2, s.calls⟩
  | .call thread action => (callStep p s.board thread (s.calls thread) action).map fun next =>
    ⟨next.1, s.removing, s.files, Function.update s.calls thread next.2⟩

/-- The file an ioctl or mmap call is on. -/
def CallPhase.filp : CallPhase F → Option F
  | .idle => none
  | .ioctlWaits filp _ | .ioctlHolds filp _ | .fwControlWaits filp | .fwControlHolds filp
  | .fwControlAwaits filp | .eventWaits filp _ | .eventLocks filp _ | .eventHolds filp _
  | .ioctlLogs filp | .mmapWaits filp | .mmapHolds filp => some filp

/-- The kernel calls ioctl and mmap on open files, and releases a file with no call on it. -/
def KernelAllows (s : BoardSystem F C) : Action F C → Prop
  | .call _ (.ioctl filp _ _) => s.files filp = .opened
  | .call _ (.mmap filp) => s.files filp = .opened
  | .file filp .release => ∀ thread, (s.calls thread).filp ≠ some filp
  | _ => True

/-- A step, where actions are admitted under a condition. -/
def Steps (Admitted : BoardSystem F C → Action F C → Prop) (s s' : BoardSystem F C) : Prop :=
  ∃ action, KernelAllows s action ∧ Admitted s action ∧ step p s action = some s'

/-- Right after a probe: with power modes, the device sleeps until a file is opened. -/
def probedBoard : HailoPcieBoard F C where
  mutex := none
  fwControlMutex := none
  inBoardList := true
  refCount := 0
  device := ⟨some (if p.powerModeEnabled then .d3hot else .d0), true, true, false, false⟩
  openFilesList := fun _ => none
  usedByFilp := none
  freed := 0
  usedAfterFree := false

def probedSystem : BoardSystem F C :=
  ⟨probedBoard p, .notCalled, fun _ => .closed, fun _ => .idle⟩

/-- The driver's defaults with a NNC device. -/
def nncParams : DriverParams := ⟨kernNotice, true, .nnc⟩

def granted : OpenAnswers := ⟨true, true, true, true, true, true, true⟩

def disconnected : OpenAnswers := ⟨true, true, false, true, true, true, true⟩

def answered : ReleaseAnswers := ⟨true, .granted, true⟩

end HailortDrivers.BoardCalls
