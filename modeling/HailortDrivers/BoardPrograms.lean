import HailortDrivers.SemaphorePrograms
import HailortDrivers.FirmwareControl
import HailortDrivers.FirmwareImage

/-!
The entry points of a board as programs: every operation on its semaphores, every step on
`open_files_list` and on the lists of a file, and an outcome for whatever else may succeed,
fail, wait or be interrupted. What a handler returns here is `should_up_board_mutex`, not its
error code.
-/
namespace HailortDrivers.BoardPrograms
open SemaphorePrograms FirmwareImage
open FirmwareControl hiding hailoFwControlPreprocess
open SemaphorePrograms.Program (acquire acquireInterruptible release bugOn perform outcome)

/-- `board->mutex`, `board->nnc.fw_control.mutex` and `g_hailo_add_board_mutex` -/
inductive Mutex
  | board
  | fwControl
  | addBoard
deriving DecidableEq

/-- The lists of `struct hailo_vdma_file_context` -/
inductive FileList
  | mappedUserBufferList
  | descriptorsBufferList
  | vdmaLowMemoryBufferList
  | continuousBufferList
deriving DecidableEq

/-- An element of a list is an allocated object with a handle; `value` is what else it has. -/
structure ListElement (V : Type) where
  object : Nat
  handle : UInt64
  value : V

/-- Objects are numbered as they are allocated, and `allocated` are those not freed yet. -/
structure BoardLists (F V : Type) where
  openFilesList : F → Bool
  lists : F × FileList → List (ListElement V)
  objects : Nat
  allocated : Nat → Option Unit

/-- `follow` stands for every use of an element through the pointer that was found. -/
inductive ListAction (F V : Type)
  | findFileContext (filp : F)
  | createFileContext (filp : F)
  | releaseFileContext (filp : F)
  | find (filp : F) (list : FileList) (wanted : ListElement V → Bool)
  | follow (element : ListElement V)
  | create (filp : F) (list : FileList) (handle : UInt64) (value : V)
  | remove (filp : F) (list : FileList) (element : ListElement V)
  | clear (filp : F) (list : FileList)

inductive Found (V : Type)
  | nothing
  | context (found : Bool)
  | element (element : Option (ListElement V))

section Apply
variable {F V : Type} [DecidableEq F]

def BoardLists.setFile (s : BoardLists F V) (filp : F) (isOpen : Bool) : BoardLists F V :=
  { s with openFilesList := Function.update s.openFilesList filp isOpen }

/-- The objects of the list other than the kept ones are freed. -/
def BoardLists.keep (s : BoardLists F V) (filp : F) (list : FileList)
    (kept : List (ListElement V)) (freed : Nat → Bool) : BoardLists F V :=
  { s with
    lists := Function.update s.lists (filp, list) kept
    allocated := fun object => if freed object then none else s.allocated object }

/-- `kzalloc` and `list_add` -/
def BoardLists.add (s : BoardLists F V) (filp : F) (list : FileList) (handle : UInt64)
    (value : V) : BoardLists F V :=
  { s with
    lists := Function.update s.lists (filp, list)
      (⟨s.objects, handle, value⟩ :: s.lists (filp, list))
    objects := s.objects + 1
    allocated := Function.update s.allocated s.objects (some ()) }

def applyAction (action : ListAction F V) (s : BoardLists F V) : BoardLists F V × Found V :=
  match action with
  | .findFileContext filp => (s, .context (s.openFilesList filp))
  | .createFileContext filp => (s.setFile filp true, .nothing)
  | .releaseFileContext filp => (s.setFile filp false, .nothing)
  | .find filp list wanted => (s, .element ((s.lists (filp, list)).find? wanted))
  | .follow _ => (s, .nothing)
  | .create filp list handle value =>
    (s.add filp list handle value, .element (some ⟨s.objects, handle, value⟩))
  | .remove filp list element =>
    (s.keep filp list ((s.lists (filp, list)).filter (·.object ≠ element.object))
      (· = element.object), .nothing)
  | .clear filp list =>
    (s.keep filp list [] (fun object => (s.lists (filp, list)).any (·.object = object)), .nothing)

end Apply

variable {F V : Type}

abbrev BoardProgram (F V α : Type) := Program Mutex (ListAction F V) (Found V) α

def findFileContext (filp : F) : BoardProgram F V Bool := do
  match ← perform (.findFileContext filp) with
  | .context found => return found
  | _ => return false

def findElement (filp : F) (list : FileList) (wanted : ListElement V → Bool) :
    BoardProgram F V (Option (ListElement V)) := do
  match ← perform (.find filp list wanted) with
  | .element element => return element
  | _ => return none

def findByHandle (filp : F) (list : FileList) (handle : UInt64) :
    BoardProgram F V (Option (ListElement V)) :=
  findElement filp list fun cur => cur.handle = handle

def run (action : ListAction F V) : BoardProgram F V Unit := do
  let _ ← perform action
  return ()

section Ioctls
variable (filp : F)

/-- A handler without list or mutex of its own: it keeps the mutex, whatever it answers. -/
def plainIoctl : BoardProgram F V Bool := do
  let _ ← outcome
  return true

def hailoVdmaInterruptsWaitIoctl : BoardProgram F V Bool := do
  -- the copy from the user and the check for an empty bitmap
  if !(← outcome) then return true
  release .board
  if !(← outcome) then return false
  if !(← acquireInterruptible .board) then return false
  plainIoctl

/-- The buffer is mapped before the user is told, and listed after that. -/
def hailoVdmaBufferMapIoctl (allocatedBufferHandle mappedHandle : UInt64) (value : V) :
    BoardProgram F V Bool := do
  if !(← outcome) then return true
  match ← findByHandle filp .vdmaLowMemoryBufferList allocatedBufferHandle with
  | none => pure ()
  | some lowMemoryBuffer => run (.follow lowMemoryBuffer)
  if !(← outcome) then return true
  if !(← outcome) then return true
  run (.create filp .mappedUserBufferList mappedHandle value)
  return true

/-- Find an element by its handle, take it off its list and free it. -/
def removeIoctl (list : FileList) (handle : UInt64) : BoardProgram F V Bool := do
  if !(← outcome) then return true
  match ← findByHandle filp list handle with
  | none => return true
  | some element =>
    run (.remove filp list element)
    return true

/-- Create and list an object, which goes again when the user cannot be told. -/
def createIoctl (list : FileList) (handle : UInt64) (value : V) : BoardProgram F V Bool := do
  if !(← outcome) then return true
  match ← perform (.create filp list handle value) with
  | .element (some element) =>
    if !(← outcome) then run (.remove filp list element)
    return true
  | _ => return true

def hailoVdmaBufferUnmapIoctl (mappedHandle : UInt64) : BoardProgram F V Bool :=
  removeIoctl filp .mappedUserBufferList mappedHandle

def hailoDescListCreateIoctl (handle : UInt64) (value : V) : BoardProgram F V Bool :=
  createIoctl filp .descriptorsBufferList handle value

def hailoDescListReleaseIoctl (descHandle : UInt64) : BoardProgram F V Bool :=
  removeIoctl filp .descriptorsBufferList descHandle

def hailoVdmaLowMemoryBufferAllocIoctl (handle : UInt64) (value : V) : BoardProgram F V Bool :=
  createIoctl filp .vdmaLowMemoryBufferList handle value

def hailoVdmaLowMemoryBufferFreeIoctl (bufferHandle : UInt64) : BoardProgram F V Bool :=
  removeIoctl filp .vdmaLowMemoryBufferList bufferHandle

def hailoVdmaContinuousBufferAllocIoctl (handle : UInt64) (value : V) : BoardProgram F V Bool :=
  createIoctl filp .continuousBufferList handle value

def hailoVdmaContinuousBufferFreeIoctl (bufferHandle : UInt64) : BoardProgram F V Bool :=
  removeIoctl filp .continuousBufferList bufferHandle

def hailoVdmaBufferSyncIoctl (handle : UInt64) : BoardProgram F V Bool := do
  if !(← outcome) then return true
  match ← findByHandle filp .mappedUserBufferList handle with
  | none => return true
  | some mappedBuffer =>
    run (.follow mappedBuffer)
    return true

/-- Two elements are found, and followed when both are there. -/
def followBoth (list : FileList) (handle : UInt64) (list' : FileList) (handle' : UInt64) :
    BoardProgram F V Bool := do
  if !(← outcome) then return true
  let element ← findByHandle filp list handle
  let element' ← findByHandle filp list' handle'
  match element, element' with
  | some element, some element' =>
    run (.follow element)
    run (.follow element')
    return true
  | _, _ => return true

def hailoDescListProgramIoctl (bufferHandle descHandle : UInt64) : BoardProgram F V Bool :=
  followBoth filp .mappedUserBufferList bufferHandle .descriptorsBufferList descHandle

def hailoSocConnectIoctl (inputDescHandle outputDescHandle : UInt64) : BoardProgram F V Bool :=
  followBoth filp .descriptorsBufferList inputDescHandle .descriptorsBufferList outputDescHandle

/-- The loop over the buffers of a launch, each found by its address or file descriptor. -/
def mapTransferBuffers : List (ListElement V → Bool) → BoardProgram F V Bool
  | [] => return true
  | wanted :: buffers => do
    match ← findElement filp .mappedUserBufferList wanted with
    | none => return false
    | some mappedBuffer =>
      run (.follow mappedBuffer)
      mapTransferBuffers buffers

def hailoVdmaLaunchTransferIoctl (descHandle : UInt64) (buffers : List (ListElement V → Bool)) :
    BoardProgram F V Bool := do
  if !(← outcome) then return true
  match ← findByHandle filp .descriptorsBufferList descHandle with
  | none => return true
  | some descriptorsBuffer =>
    if ← mapTransferBuffers filp buffers then run (.follow descriptorsBuffer)
    return true

/-- The loop of `hailo_fw_control_preprocess`: each handle becomes the `dma_address` that its
element has. -/
def translateHandles : List UInt64 → BoardProgram F V Bool
  | [] => return true
  | handle :: handles => do
    match ← findByHandle filp .descriptorsBufferList handle with
    | none => return false
    | some descList =>
      run (.follow descList)
      translateHandles handles

/-- `handles` is the used prefix of the translation table, so `handle_count` is its length. -/
def hailoFwControlPreprocess (opcode : Nat) (handles : List UInt64) : BoardProgram F V Bool :=
  if opcode ≠ hailoControlOpcodeContextSwitchSetContextInfo then return true
  else if handles.length > controlProtocolMaxVdmaChannelsPerEngine then return false
  else translateHandles filp handles

def hailoFwControl (opcode : Nat) (handles : List UInt64) : BoardProgram F V Bool := do
  release .board
  if !(← acquireInterruptible .fwControl) then return false
  if ← outcome then
    if ← hailoFwControlPreprocess filp opcode handles then
      -- the doorbell, the wait for the response, and the copy to the user
      let _ ← outcome
  release .fwControl
  return false

def hailoReadNotificationIoctl : BoardProgram F V Bool := do
  -- no thread of this file waits for notifications
  if !(← outcome) then return true
  release .board
  if !(← outcome) then return false
  if !(← acquireInterruptible .board) then return false
  plainIoctl

end Ioctls

inductive BoardIoctl (V : Type)
  | queryDeviceProperties
  | queryDriverInfo
  | vdmaEnableChannels
  | vdmaDisableChannels
  | vdmaInterruptsWait
  | vdmaInterruptsReadTimestamps
  | vdmaBufferMap (allocatedBufferHandle mappedHandle : UInt64) (value : V)
  | vdmaBufferUnmap (mappedHandle : UInt64)
  | vdmaBufferSync (handle : UInt64)
  | descListCreate (handle : UInt64) (value : V)
  | descListRelease (descHandle : UInt64)
  | descListProgram (bufferHandle descHandle : UInt64)
  | vdmaLowMemoryBufferAlloc (handle : UInt64) (value : V)
  | vdmaLowMemoryBufferFree (bufferHandle : UInt64)
  | markAsInUse
  | vdmaContinuousBufferAlloc (handle : UInt64) (value : V)
  | vdmaContinuousBufferFree (bufferHandle : UInt64)
  | vdmaLaunchTransfer (descHandle : UInt64) (buffers : List (ListElement V → Bool))
  | socConnect (inputDescHandle outputDescHandle : UInt64)
  | socClose
  | socPowerOff
  | fwControl (opcode : Nat) (handles : List UInt64)
  | readNotification
  | disableNotification
  | readLog
  | unknown

/-- `hailo_general_ioctl`, `hailo_vdma_ioctl`, `hailo_soc_ioctl` and `hailo_nnc_ioctl`, the last
two behind the check of the accelerator type -/
def handleIoctl (acceleratorType : HailoAcceleratorType) (filp : F) :
    BoardIoctl V → BoardProgram F V Bool
  | .vdmaInterruptsWait => hailoVdmaInterruptsWaitIoctl
  | .vdmaBufferMap allocatedBufferHandle mappedHandle value =>
    hailoVdmaBufferMapIoctl filp allocatedBufferHandle mappedHandle value
  | .vdmaBufferUnmap mappedHandle => hailoVdmaBufferUnmapIoctl filp mappedHandle
  | .vdmaBufferSync handle => hailoVdmaBufferSyncIoctl filp handle
  | .descListCreate handle value => hailoDescListCreateIoctl filp handle value
  | .descListRelease descHandle => hailoDescListReleaseIoctl filp descHandle
  | .descListProgram bufferHandle descHandle =>
    hailoDescListProgramIoctl filp bufferHandle descHandle
  | .vdmaLowMemoryBufferAlloc handle value => hailoVdmaLowMemoryBufferAllocIoctl filp handle value
  | .vdmaLowMemoryBufferFree bufferHandle => hailoVdmaLowMemoryBufferFreeIoctl filp bufferHandle
  | .vdmaContinuousBufferAlloc handle value =>
    hailoVdmaContinuousBufferAllocIoctl filp handle value
  | .vdmaContinuousBufferFree bufferHandle => hailoVdmaContinuousBufferFreeIoctl filp bufferHandle
  | .vdmaLaunchTransfer descHandle buffers => hailoVdmaLaunchTransferIoctl filp descHandle buffers
  | .socConnect inputDescHandle outputDescHandle =>
    if acceleratorType ≠ .soc then return true
    else hailoSocConnectIoctl filp inputDescHandle outputDescHandle
  | .fwControl opcode handles =>
    if acceleratorType ≠ .nnc then return true else hailoFwControl filp opcode handles
  | .readNotification =>
    if acceleratorType ≠ .nnc then return true else hailoReadNotificationIoctl
  | _ => plainIoctl

section Calls
variable (acceleratorType : HailoAcceleratorType) (filp : F)

/-- `hailo_pcie_fops_unlockedioctl`; the first outcome is that of the checks of `pDev` and of the
user's memory, a later one is `is_valid`. -/
def hailoPcieFopsUnlockedioctl (cmd : BoardIoctl V) : BoardProgram F V Unit := do
  if !(← outcome) then return
  if !(← acquireInterruptible .board) then return
  bugOn .board
  if !(← findFileContext filp) then
    release .board
    return
  if !(← outcome) then
    release .board
    return
  let shouldUpBoardMutex ← handleIoctl acceleratorType filp cmd
  if shouldUpBoardMutex then release .board

/-- `hailo_vdma_mmap` -/
def hailoVdmaMmap (vdmaHandle : UInt64) : BoardProgram F V Unit := do
  match ← findByHandle filp .vdmaLowMemoryBufferList vdmaHandle with
  | some lowMemoryBuffer => run (.follow lowMemoryBuffer)
  | none =>
    match ← findByHandle filp .continuousBufferList vdmaHandle with
    | some continuousBuffer => run (.follow continuousBuffer)
    | none => return

def hailoPcieFopsMmap (vdmaHandle : UInt64) : BoardProgram F V Unit := do
  if !(← outcome) then return
  if !(← acquireInterruptible .board) then return
  if !(← findFileContext filp) then
    release .board
    return
  if !(← outcome) then
    release .board
    return
  hailoVdmaMmap filp vdmaHandle
  release .board

/-- `hailo_pcie_get_board_index`: whether the board is there -/
def hailoPcieGetBoardIndex : BoardProgram F V Bool := do
  acquire .addBoard
  let found ← outcome
  release .addBoard
  return found

/-- The outcomes from the file context on: the power state, the device, the interrupts and the
context of the accelerator. Whatever fails, the file context goes again. -/
def hailoPcieFopsOpen : BoardProgram F V Unit := do
  if !(← hailoPcieGetBoardIndex) then return
  if !(← acquireInterruptible .board) then return
  if !(← outcome) then
    release .board
    return
  run (.createFileContext filp)
  if ← outcome then
    if ← outcome then
      if ← outcome then
        if ← outcome then
          release .board
          return
  run (.releaseFileContext filp)
  release .board

/-- `hailo_vdma_file_context_finalize`, as far as it goes over lists -/
def hailoVdmaFileContextFinalize : BoardProgram F V Unit := do
  run (.clear filp .mappedUserBufferList)
  run (.clear filp .descriptorsBufferList)
  run (.clear filp .vdmaLowMemoryBufferList)
  run (.clear filp .continuousBufferList)

/-- Each way out has its own `up`: the last release of a board that is gone frees it after. -/
def hailoPcieFopsRelease : BoardProgram F V Unit := do
  acquire .board
  if !(← findFileContext filp) then
    release .board
    return
  let _ ← outcome
  hailoVdmaFileContextFinalize filp
  run (.releaseFileContext filp)
  if ← outcome then
    let _ ← outcome
    if ← outcome then release .board
    else release .board
  else release .board

/-- What suspend and reset_prepare do under the mutex ends the same way whether
`driver_down` succeeds or not. -/
def driverDownLocked : BoardProgram F V Unit := do
  acquire .board
  if ← outcome then
    let _ ← outcome
  release .board

def hailoPcieSuspend : BoardProgram F V Unit := driverDownLocked

def hailoPciResetPrepare : BoardProgram F V Unit := driverDownLocked

end Calls

inductive BoardCall (F V : Type)
  | «open» (filp : F)
  | release (filp : F)
  | ioctl (filp : F) (cmd : BoardIoctl V)
  | mmap (filp : F) (vdmaHandle : UInt64)
  | suspend
  | resetPrepare

def boardProgram (acceleratorType : HailoAcceleratorType) :
    BoardCall F V → BoardProgram F V Unit
  | .open filp => hailoPcieFopsOpen filp
  | .release filp => hailoPcieFopsRelease filp
  | .ioctl filp cmd => hailoPcieFopsUnlockedioctl acceleratorType filp cmd
  | .mmap filp vdmaHandle => hailoPcieFopsMmap filp vdmaHandle
  | .suspend => hailoPcieSuspend
  | .resetPrepare => hailoPciResetPrepare

/-- No file is open. -/
def noFiles : BoardLists F V := ⟨fun _ => false, fun _ => [], 0, fun _ => none⟩

end HailortDrivers.BoardPrograms
