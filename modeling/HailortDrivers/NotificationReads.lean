import HailortDrivers.ResourceAccess
import HailortDrivers.VdmaTypes
import Mathlib.Logic.Function.Basic

/-!
Firmware notifications: the interrupt handler copies one from the device to the cache of
the board and completes the wait of every open file; a read waits for that, then takes
what the cache holds. The handler can run between any two steps of a read.
-/
namespace HailortDrivers.NotificationReads
open LittleEndian ResourceAccess VdmaTypes

def maxNotificationLength : Nat := 1500
def pcieD2hNotificationSramOffset : Nat := 0x640 + 0x640

structure HailoD2hNotification where
  bufferLen : Nat
  buffer : List UInt8
  length_eq : buffer.length = maxNotificationLength
  bufferLen_le : bufferLen ≤ maxNotificationLength

/-- The bytes that the reader of a notification looks at. -/
def HailoD2hNotification.content (notification : HailoD2hNotification) : List UInt8 :=
  notification.buffer.take notification.bufferLen

/-- The bytes over the first ones of the buffer; the rest stays. -/
def HailoD2hNotification.store (notification : HailoD2hNotification) (bytes : List UInt8)
    (h : bytes.length ≤ maxNotificationLength) : HailoD2hNotification where
  bufferLen := bytes.length
  buffer := bytes ++ notification.buffer.drop bytes.length
  length_eq := by
    rw [List.length_append, List.length_drop, notification.length_eq]
    omega
  bufferLen_le := h

theorem length_content_le (notification : HailoD2hNotification) :
    notification.content.length ≤ maxNotificationLength := by
  rw [HailoD2hNotification.content, List.length_take]
  exact Nat.le_trans (Nat.min_le_left _ _) notification.bufferLen_le

theorem content_store (notification : HailoD2hNotification) (bytes : List UInt8)
    (h : bytes.length ≤ maxNotificationLength) :
    (notification.store bytes h).content = bytes := by
  simp [HailoD2hNotification.content, HailoD2hNotification.store]

/-- `sizeof(struct hailo_d2h_notification)` with the padding of its last word -/
def hailoD2hNotificationSize : UInt64 := 1512

section
variable {σ : Type} (io : Mmio σ)

/-- `details` and `buffer` are the addresses of the local of that name and of the array. A
refused notification leaves the cache and the device as they were. -/
def hailoReadFirmwareNotification (resource : HailoResource) (details buffer : Nat)
    (notification : HailoD2hNotification) (s : σ) : Int32 × HailoD2hNotification × σ :=
  let header := hailoResourceReadBuffer io resource 0 4 details s
  let word := wordIn header.1 0
  let bufferLen := word.toNat / 2 ^ 16
  if h : bufferLen ≤ maxNotificationLength ∧ word.toNat % 2 ^ 16 ≠ 0 then
    let bytes := hailoResourceReadBuffer io resource 4 bufferLen buffer header.2
    have hlength : bytes.1.length ≤ maxNotificationLength := by
      rw [length_hailoResourceReadBuffer]
      exact h.1
    (0, notification.store bytes.1 hlength, hailoResourceWrite16 io resource 0 0 bytes.2)
  else (-einval, notification, header.2)

def notificationResource (resource : HailoResource) : HailoResource where
  address := resource.address + pcieD2hNotificationSramOffset
  size := hailoD2hNotificationSize

def hailoPcieReadFirmwareNotification (resource : HailoResource) (details buffer : Nat)
    (notification : HailoD2hNotification) (s : σ) : Int32 × HailoD2hNotification × σ :=
  if resource.size.toNat < pcieD2hNotificationSramOffset then (-einval, notification, s)
  else hailoReadFirmwareNotification io (notificationResource resource) details buffer
    notification s

end

/-- `completion` is the count of `notification_completion`. -/
structure HailoNotificationWait where
  tgid : Nat
  isDisabled : Bool
  completion : Nat

def HailoNotificationWait.complete (wait : HailoNotificationWait) : HailoNotificationWait :=
  { wait with completion := wait.completion + 1 }

def HailoNotificationWait.consume (wait : HailoNotificationWait) : HailoNotificationWait :=
  { wait with completion := wait.completion - 1 }

def HailoNotificationWait.reinit (wait : HailoNotificationWait) : HailoNotificationWait :=
  { wait with completion := 0 }

def HailoNotificationWait.disable (wait : HailoNotificationWait) : HailoNotificationWait :=
  { wait.complete with isDisabled := true }

/-- `firmware_notification_irq_handler`: the notification is `cached`, then the waits of the
list it found are completed. The kernel does not run the handler twice at a time. -/
inductive HandlerPhase (F : Type)
  | idle
  | cached
  | completing (pending : F → Bool)

/-- `hailo_read_notification_ioctl` of a thread -/
inductive ReaderPhase (F : Type)
  | idle
  | waits (filp : F)
  | woken (filp : F)
  | holds (filp : F)
  | reinited (filp : F)

/-- A notification that a read returned, with its number among the accepted ones. -/
structure Returned where
  number : Nat
  content : List UInt8

/-- `accepted` are the notifications so far; of each file, how many there were when it was
opened (`since`) and what its reads returned. -/
structure NotificationSystem (F C σ : Type) where
  device : σ
  handler : HandlerPhase F
  notificationCache : HailoD2hNotification
  notificationToUser : HailoD2hNotification
  notificationWaitList : F → Option HailoNotificationWait
  mutex : Option C
  readers : C → ReaderPhase F
  accepted : List (List UInt8)
  since : F → Nat
  returned : F → List Returned

inductive Event (F C σ : Type)
  | firmware (device : σ)
  | notificationIrq
  | traverse
  | complete (filp : F)
  | handled
  | openFile (filp : F) (tgid : Nat)
  | closeFile (filp : F)
  | disableNotification (thread : C) (filp : F)
  | readNotification (thread : C) (filp : F)
  | waitInterrupted (thread : C)
  | wake (thread : C)
  | downInterrupted (thread : C)
  | down (thread : C)
  | reinit (thread : C)
  | copy (thread : C) (copied : Bool)

section
variable {F C σ : Type} [DecidableEq F] [DecidableEq C]

def NotificationSystem.setWait (s : NotificationSystem F C σ) (filp : F)
    (wait : Option HailoNotificationWait) : NotificationSystem F C σ :=
  { s with notificationWaitList := Function.update s.notificationWaitList filp wait }

def NotificationSystem.setDevice (s : NotificationSystem F C σ) (device : σ) :
    NotificationSystem F C σ :=
  { s with device := device }

def NotificationSystem.setReader (s : NotificationSystem F C σ) (thread : C)
    (phase : ReaderPhase F) : NotificationSystem F C σ :=
  { s with readers := Function.update s.readers thread phase }

def NotificationSystem.setMutex (s : NotificationSystem F C σ) (owner : Option C) :
    NotificationSystem F C σ :=
  { s with mutex := owner }

def NotificationSystem.setHandler (s : NotificationSystem F C σ) (handler : HandlerPhase F) :
    NotificationSystem F C σ :=
  { s with handler := handler }

/-- The notification in the cache is one more accepted. -/
def NotificationSystem.accept (s : NotificationSystem F C σ) (notification : HailoD2hNotification) :
    NotificationSystem F C σ :=
  { s with
    notificationCache := notification
    accepted := s.accepted ++ [notification.content] }

def NotificationSystem.register (s : NotificationSystem F C σ) (filp : F) (tgid : Nat) :
    NotificationSystem F C σ :=
  { s.setWait filp (some ⟨tgid, false, 0⟩) with
    since := Function.update s.since filp s.accepted.length
    returned := Function.update s.returned filp [] }

/-- `notification_to_user` is filled from the cache. -/
def NotificationSystem.copyCache (s : NotificationSystem F C σ) : NotificationSystem F C σ :=
  { s with
    notificationToUser := s.notificationToUser.store s.notificationCache.content
      (length_content_le s.notificationCache) }

/-- `notification_to_user` goes to the reader. -/
def NotificationSystem.giveBack (s : NotificationSystem F C σ) (filp : F) :
    NotificationSystem F C σ :=
  { s with
    returned := Function.update s.returned filp
      (s.returned filp ++ [⟨s.accepted.length - 1, s.notificationToUser.content⟩]) }

variable (io : Mmio σ) (fwAccess : HailoResource) (details buffer : Nat) (tgid : C → Nat)

def firmwareNotificationIrqHandler (s : NotificationSystem F C σ) : NotificationSystem F C σ :=
  let result := hailoPcieReadFirmwareNotification io fwAccess details buffer
    s.notificationCache s.device
  if result.1 < 0 then s.setDevice result.2.2
  else ((s.setDevice result.2.2).accept result.2.1).setHandler .cached

/-- One step. Where a call of a file fails at once, nothing changes. -/
def step (s : NotificationSystem F C σ) : Event F C σ → Option (NotificationSystem F C σ)
  | .firmware device => some (s.setDevice device)
  | .notificationIrq =>
    match s.handler with
    | .idle => some (firmwareNotificationIrqHandler io fwAccess details buffer s)
    | _ => none
  | .traverse =>
    match s.handler with
    | .cached => some (s.setHandler (.completing fun filp => (s.notificationWaitList filp).isSome))
    | _ => none
  | .complete filp =>
    match s.handler with
    | .completing pending =>
      if pending filp then
        some ((s.setWait filp ((s.notificationWaitList filp).map
          HailoNotificationWait.complete)).setHandler
          (.completing (Function.update pending filp false)))
      else none
    | _ => none
  | .handled =>
    match s.handler with
    | .completing _ => some (s.setHandler .idle)
    | _ => none
  | .openFile filp tgid =>
    if s.mutex.isNone && (s.notificationWaitList filp).isNone then some (s.register filp tgid)
    else none
  | .closeFile filp => if s.mutex.isNone then some (s.setWait filp none) else none
  | .disableNotification thread filp =>
    if s.mutex.isNone then
      match s.notificationWaitList filp with
      | some wait =>
        if wait.tgid = tgid thread then some (s.setWait filp (some wait.disable)) else some s
      | none => some s
    else none
  | .readNotification thread filp =>
    match s.readers thread, s.mutex with
    | .idle, none =>
      match s.notificationWaitList filp with
      | some wait =>
        if wait.tgid = tgid thread then some (s.setReader thread (.waits filp)) else some s
      | none => some s
    | _, _ => none
  | .waitInterrupted thread =>
    match s.readers thread with
    | .waits _ => some (s.setReader thread .idle)
    | _ => none
  | .wake thread =>
    match s.readers thread with
    | .waits filp =>
      match s.notificationWaitList filp with
      | some wait =>
        if 0 < wait.completion then
          some ((s.setWait filp (some wait.consume)).setReader thread (.woken filp))
        else none
      | none => none
    | _ => none
  | .downInterrupted thread =>
    match s.readers thread with
    | .woken _ => some (s.setReader thread .idle)
    | _ => none
  | .down thread =>
    match s.readers thread, s.mutex with
    | .woken filp, none => some ((s.setMutex (some thread)).setReader thread (.holds filp))
    | _, _ => none
  | .reinit thread =>
    match s.readers thread with
    | .holds filp =>
      match s.notificationWaitList filp with
      | some wait =>
        if wait.isDisabled then some ((s.setMutex none).setReader thread .idle)
        else some ((s.setWait filp (some wait.reinit)).setReader thread (.reinited filp))
      | none => none
    | _ => none
  | .copy thread copied =>
    match s.readers thread with
    | .reinited filp =>
      let s := s.copyCache
      let s := if copied then s.giveBack filp else s
      some ((s.setMutex none).setReader thread .idle)
    | _ => none

def ReaderPhase.filp : ReaderPhase F → Option F
  | .idle => none
  | .waits filp | .woken filp | .holds filp | .reinited filp => some filp

/-- A file is released when no call is on it and the handler, which is under `rcu_read_lock`
then, is not at the waits; the handler ends when every wait it found is completed. -/
def KernelAllows (s : NotificationSystem F C σ) : Event F C σ → Prop
  | .handled => ∀ pending, s.handler = .completing pending → ∀ filp, pending filp = false
  | .closeFile filp => (∀ thread, (s.readers thread).filp ≠ some filp) ∧
    ∀ pending, s.handler ≠ .completing pending
  | _ => True

/-- A step, where events are admitted under a condition. -/
def Steps (Admitted : NotificationSystem F C σ → Event F C σ → Prop)
    (s s' : NotificationSystem F C σ) : Prop :=
  ∃ event, KernelAllows s event ∧ Admitted s event ∧
    step io fwAccess details buffer tgid s event = some s'

end

def emptyNotification : HailoD2hNotification where
  bufferLen := 0
  buffer := List.replicate maxNotificationLength 0
  length_eq := List.length_replicate
  bufferLen_le := Nat.zero_le _

/-- Right after `hailo_nnc_init`. -/
def initialSystem {F C σ : Type} (device : σ) : NotificationSystem F C σ where
  device := device
  handler := .idle
  notificationCache := emptyNotification
  notificationToUser := emptyNotification
  notificationWaitList := fun _ => none
  mutex := none
  readers := fun _ => .idle
  accepted := []
  since := fun _ => 0
  returned := fun _ => []

end HailortDrivers.NotificationReads
