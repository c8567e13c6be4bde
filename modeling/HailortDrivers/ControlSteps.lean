import HailortDrivers.FirmwareControl
import HailortDrivers.KernelCompletion

/-!
`HAILO_FW_CONTROL` calls beside a firmware that answers each doorbell when it likes:
it writes its response to the mailbox, then raises the control interrupt, and the handler
completes the wait of whichever call is there then. The call that holds
`fw_control.mutex` is the only one that moves.
-/
namespace HailortDrivers.ControlSteps
open LittleEndian ResourceAccess ByteViews VdmaTypes FirmwareControl KernelCompletion

def erestartsys : Int32 := 512
def etimedout : Int32 := 110
def eintr : Int32 := 4

/-- What the firmware was asked and what it produced for that. -/
structure Answer where
  request : List UInt8
  response : List UInt8
  length_lt : response.length < 2 ^ 32

/-- The doorbell of one call, as the firmware sees it. The response is in the mailbox from
`written` on, the interrupt is raised at `raised`. -/
inductive Doorbell
  | quiet
  | rung (accessBit : UInt32) (request : List UInt8)
  | written (answer : Answer)
  | raised (answer : Answer)

def Doorbell.answer : Doorbell → Option Answer
  | .quiet | .rung _ _ => none
  | .written answer | .raised answer => some answer

def Doorbell.request : Doorbell → Option (List UInt8)
  | .quiet => none
  | .rung _ request => some request
  | .written answer | .raised answer => some answer.request

theorem Doorbell.request_of_answer {doorbell : Doorbell} {answer : Answer}
    (h : doorbell.answer = some answer) : doorbell.request = some answer.request := by
  cases doorbell with
  | quiet | rung => cases h
  | written a | raised a => exact congrArg (Option.map Answer.request) h

/-- What a call returned; `copied` is the command as the user got it. -/
structure ControlResult where
  err : Int32
  copied : Option HailoFwControl

/-- How far the call in `hailo_fw_control` is that holds the mutex. -/
inductive ControlPhase
  | locked
  | copied
  | preprocessed
  | reinited
  | written
  | waiting
  | woken
  | lengthRead
  | responded
  | leaving (result : ControlResult)

/-- `istatusHost` says for which calls the pending control interrupt was raised, `handler`
for which the one was that the handler is at; the hardware keeps one bit. -/
structure ControlSystem (T : Type) where
  device : Nat → UInt8
  completion : Completion
  command : HailoFwControl
  mutex : Option (T × ControlPhase)
  doorbells : T → Doorbell
  istatusHost : List T
  handler : Option (List T)
  returned : T → Option ControlResult

inductive WaitOutcome
  | completed
  | timeout
  | signal
deriving DecidableEq

inductive Event (T : Type)
  | downInterrupted (call : T)
  | down (call : T)
  | copyFromUser (command : Option HailoFwControl)
  | preprocess (find : UInt64 → Option UInt64)
  | reinit
  | writeRequest (isFirmwareLoaded : Bool)
  | ringDoorbell
  | wait (outcome : WaitOutcome)
  | readResponseLen
  | readResponse
  | copyToUser (copied : Bool)
  | up
  | firmwareWrites (call : T) (response : List UInt8)
  | firmwareRaises (call : T)
  | readInterrupt
  | nncIrqHandler

section
variable {T : Type} [DecidableEq T]

namespace ControlSystem
variable (s : ControlSystem T)

def setMutex (mutex : Option (T × ControlPhase)) : ControlSystem T := { s with mutex := mutex }

def setCommand (command : HailoFwControl) : ControlSystem T := { s with command := command }

def setRequest (request : Nat → UInt8) : ControlSystem T :=
  { s with command.request := request }

def setResponseLen (responseLen : UInt32) : ControlSystem T :=
  { s with command.responseLen := responseLen }

def setCompletion (completion : Completion) : ControlSystem T :=
  { s with completion := completion }

def setDevice (device : Nat → UInt8) : ControlSystem T := { s with device := device }

def setDoorbell (call : T) (doorbell : Doorbell) : ControlSystem T :=
  { s with doorbells := Function.update s.doorbells call doorbell }

def setInterrupt (istatusHost : List T) (handler : Option (List T)) : ControlSystem T :=
  { s with istatusHost := istatusHost, handler := handler }

def setReturned (call : T) (result : ControlResult) : ControlSystem T :=
  { s with returned := Function.update s.returned call (some result) }

variable {s} in
@[simp] theorem setDoorbell_self {call : T} {doorbell : Doorbell} :
    (s.setDoorbell call doorbell).doorbells call = doorbell := Function.update_self _ _ _

variable {s} in
theorem setDoorbell_of_ne {call c : T} (h : c ≠ call) (doorbell : Doorbell) :
    (s.setDoorbell call doorbell).doorbells c = s.doorbells c := Function.update_of_ne h _ _

variable {s} in
@[simp] theorem setReturned_self {call : T} {result : ControlResult} :
    (s.setReturned call result).returned call = some result := Function.update_self _ _ _

variable {s} in
theorem setReturned_of_ne {call c : T} (h : c ≠ call) (result : ControlResult) :
    (s.setReturned call result).returned c = s.returned c := Function.update_of_ne h _ _

/-- `goto l_exit` -/
def leave (call : T) (err : Int32) : ControlSystem T :=
  s.setMutex (some (call, .leaving ⟨err, none⟩))

end ControlSystem

/-- `pcie_resources.fw_access` and the address of `fw_control.command` -/
structure ControlBoard where
  fwAccess : FwAccess
  command : Nat

variable (board : ControlBoard)

/-- A step of the call that holds the mutex. -/
def callStep (s : ControlSystem T) (call : T) :
    ControlPhase → Event T → Option (ControlSystem T)
  | .locked, .copyFromUser (some command) =>
    some ((s.setCommand command).setMutex (some (call, .copied)))
  | .locked, .copyFromUser none => some (s.leave call (-enomem))
  | .copied, .preprocess find =>
    match hailoFwControlPreprocess find s.command.request with
    | .error err => some (s.leave call err)
    | .ok request => some ((s.setRequest request).setMutex (some (call, .preprocessed)))
  | .preprocessed, .reinit =>
    some ((s.setCompletion s.completion.reinit).setMutex (some (call, .reinited)))
  | .reinited, .writeRequest isFirmwareLoaded =>
    let err := checkFirmwareControl isFirmwareLoaded s.command
    if err < 0 then some (s.leave call err)
    else
      let result := writeRequest board.fwAccess board.command s.command s.device
      if result.1 < 0 then some ((s.setDevice result.2).leave call result.1)
      else some ((s.setDevice result.2).setMutex (some (call, .written)))
  -- The firmware takes the request from the mailbox when its doorbell rings.
  | .written, .ringDoorbell =>
    let base := board.fwAccess.address
    let count := requestSize (wordAt s.device base)
    some ((s.setDoorbell call
      (.rung (accessBit s.command) (bytesFrom s.device base count))).setMutex
      (some (call, .waiting)))
  | .waiting, .wait .completed =>
    s.completion.tryWait.map fun completion =>
      (s.setCompletion completion).setMutex (some (call, .woken))
  | .waiting, .wait .timeout =>
    if s.completion.done = 0 then some (s.leave call (-etimedout)) else none
  | .waiting, .wait .signal =>
    if s.completion.done = 0 then some (s.leave call (-eintr)) else none
  | .woken, .readResponseLen =>
    let responseLen := readResponseLen board.fwAccess (board.command + 1508) s.device
    if controlResponseSize < responseLen.toNat then
      some ((s.setResponseLen responseLen).leave call (-einval))
    else some ((s.setResponseLen responseLen).setMutex (some (call, .lengthRead)))
  | .lengthRead, .readResponse =>
    some ((s.setCommand (readResponse board.fwAccess (board.command + 1512) s.command
      s.device)).setMutex (some (call, .responded)))
  | .responded, .copyToUser true =>
    some (s.setMutex (some (call, .leaving ⟨0, some s.command⟩)))
  | .responded, .copyToUser false => some (s.leave call (-enomem))
  | .leaving result, .up => some ((s.setReturned call result).setMutex none)
  | _, _ => none

def step (s : ControlSystem T) : Event T → Option (ControlSystem T)
  | .downInterrupted call =>
    if (s.returned call).isNone && (s.mutex.map Prod.fst) ≠ some call then
      some (s.setReturned call ⟨-erestartsys, none⟩)
    else none
  | .down call =>
    if (s.returned call).isNone && s.mutex.isNone then some (s.setMutex (some (call, .locked)))
    else none
  | .firmwareWrites call response =>
    match s.doorbells call with
    | .rung _ request =>
      if h : response.length < 2 ^ 32 then
        some ((s.setDevice (overlay s.device (board.fwAccess.address + pcieRequestSizeOffset)
          (wordBytes (UInt32.ofNat response.length) ++ response))).setDoorbell call
          (.written ⟨request, response, h⟩))
      else none
    | _ => none
  | .firmwareRaises call =>
    match s.doorbells call with
    | .written answer =>
      some ((s.setDoorbell call (.raised answer)).setInterrupt (call :: s.istatusHost) s.handler)
    | _ => none
  -- `hailo_pcie_read_interrupt` finds the bit and clears it.
  | .readInterrupt =>
    match s.handler, s.istatusHost with
    | none, call :: calls => some (s.setInterrupt [] (some (call :: calls)))
    | _, _ => none
  | .nncIrqHandler =>
    match s.handler with
    | some _ =>
      some ((s.setCompletion s.completion.complete).setInterrupt s.istatusHost none)
    | none => none
  | event =>
    match s.mutex with
    | some (call, phase) => callStep board s call phase event
    | none => none

/-- A step, where events are admitted under a condition. -/
def Steps (Admitted : ControlSystem T → Event T → Prop) (s s' : ControlSystem T) : Prop :=
  ∃ event, Admitted s event ∧ step board s event = some s'

end

/-- Right after `hailo_nnc_init`, with anything in the memory of the device. -/
def initialSystem {T : Type} (device : Nat → UInt8) (command : HailoFwControl) :
    ControlSystem T where
  device := device
  completion := .init
  command := command
  mutex := none
  doorbells := fun _ => .quiet
  istatusHost := []
  handler := none
  returned := fun _ => none

end HailortDrivers.ControlSteps
