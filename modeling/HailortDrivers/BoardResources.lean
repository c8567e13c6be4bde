import HailortDrivers.ProbeResources
import Mathlib.Algebra.BigOperators.Group.List.Basic
import Mathlib.Tactic.Abel

/-!
What a board holds while it is bound to its device and while files of it are open (`pcie.c`,
`fops.c`): its removal, opening and releasing files, suspending and resuming.
-/
namespace HailortDrivers.BoardResources
open ResourceLedger LedgerFrames VdmaTypes FirmwareImage ProbeResources
open BufferMapping (Errno)
open VdmaMemory (enomem)

section Calls
variable (p : ModuleParams)

/-- `hailo_pcie_remove`, with what the driver core frees after it. A board that has no file
open is gone. -/
def hailoPcieRemove (board : HailoPcieBoard) : BoardLedger (Option HailoPcieBoard) := do
  release .listed
  release .deviceNode
  let interruptsEnabled ← hailoDisableInterrupts board.pDev board.interruptsEnabled
  pcieResourcesRelease board.pcieResources
  release .enabledDevice
  if board.refCount = 0 then
    release .board
    release .engines
    return none
  else
    release .engines
    return some { board with pDev := false, interruptsEnabled := interruptsEnabled }

structure OpenOps extends InterruptOps where
  downInterruptible : Bool
  kzalloc : Bool
  isD0 : Bool
  pciSetPowerState : Option Errno
  deviceConnected : Bool
  kmalloc : Bool

/-- `hailo_nnc_file_context_init` and `hailo_soc_file_context_init` -/
def fileContextInit (board : HailoPcieBoard) (filp : Nat) (ops : OpenOps) :
    BoardLedger (Except Int32 HailoPcieBoard) :=
  match board.pcieResources.acceleratorType with
  | .soc => return .ok board
  | .nnc =>
    if !ops.kmalloc then return .error (-enomem)
    else do
      acquire (.notificationWait filp)
      return .ok { board with notificationWaitList := filp :: board.notificationWaitList }

/-- `hailo_pcie_fops_open` for a board that it found. Every failure leaves the board as it
was. -/
def hailoPcieFopsOpen (board : HailoPcieBoard) (filp : Nat) (ops : OpenOps) :
    BoardLedger (Int32 × HailoPcieBoard) :=
  if !ops.downInterruptible then return (-512, board)
  else if !ops.kzalloc then return (-enomem, board)
  else do
    acquire (.fileContext filp)
    match if ops.isD0 then none else ops.pciSetPowerState with
    | some err =>
      release (.fileContext filp)
      return (err.value, board)
    | none =>
      if !ops.deviceConnected then
        release (.fileContext filp)
        return (-BufferMapping.enxio, board)
      else
        let interruptsWereEnabled := board.interruptsEnabled
        match ← if interruptsWereEnabled then pure (0, true)
          else hailoEnableInterrupts ops.toInterruptOps false with
        | (err, interruptsEnabled) =>
          if err < 0 then
            release (.fileContext filp)
            return (err, board)
          else
            match ← fileContextInit board filp ops with
            | .error err =>
              if !interruptsWereEnabled then
                let _ ← hailoDisableInterrupts board.pDev interruptsEnabled
              release (.fileContext filp)
              return (err, board)
            | .ok board =>
              return (0, { board with
                interruptsEnabled := interruptsEnabled
                refCount := board.refCount + 1
                openFilesList := filp :: board.openFilesList })

/-- `clear_notification_wait_list` -/
def clearNotificationWaitList (filp : Nat) : List Nat → BoardLedger (List Nat)
  | [] => return []
  | cur :: next =>
    if cur = filp then do
      release (.notificationWait cur)
      clearNotificationWaitList filp next
    else do
      let rest ← clearNotificationWaitList filp next
      return cur :: rest

/-- `hailo_nnc_file_context_finalize` and `hailo_soc_file_context_finalize`, as far as they give
something back. -/
def fileContextFinalize (board : HailoPcieBoard) (filp : Nat) : BoardLedger HailoPcieBoard :=
  match board.pcieResources.acceleratorType with
  | .soc => return board
  | .nnc => do
    let waits ← clearNotificationWaitList filp board.notificationWaitList
    return { board with notificationWaitList := waits }

/-- `hailo_pcie_fops_release` of a file that is open, the memory of its objects apart. The
last file of a removed board frees it. -/
def hailoPcieFopsRelease (board : HailoPcieBoard) (filp : Nat) :
    BoardLedger (Option HailoPcieBoard) := do
  let board ← fileContextFinalize board filp
  release (.fileContext filp)
  let refCount := board.refCount - 1
  let openFilesList := board.openFilesList.erase filp
  if refCount = 0 then
    let interruptsEnabled ← hailoDisableInterrupts board.pDev board.interruptsEnabled
    if !board.pDev then
      release .board
      return none
    else return some { board with interruptsEnabled, refCount, openFilesList }
  else return some { board with refCount, openFilesList }

/-- `hailo_pcie_suspend`, as far as it gives something back. -/
def hailoPcieSuspend (board : HailoPcieBoard) : BoardLedger HailoPcieBoard := do
  let interruptsEnabled ← hailoDisableInterrupts board.pDev board.interruptsEnabled
  return { board with interruptsEnabled := interruptsEnabled }

def hailoPcieResume (board : HailoPcieBoard) (ops : ActivationOps) :
    BoardLedger HailoPcieBoard := do
  let (_, interruptsEnabled) ← hailoActivateBoard p ops board.interruptsEnabled
  return { board with interruptsEnabled := interruptsEnabled }

end Calls

/-- Who waits for notifications: every open file of a board with a neural network core. -/
def waitsOf (acceleratorType : HailoAcceleratorType) (files : List Nat) : List Nat :=
  match acceleratorType with
  | .nnc => files
  | .soc => []

structure Consistent (board : HailoPcieBoard) : Prop where
  mapped : board.pcieResources.Mapped
  interrupts : board.interruptsEnabled = true → board.pDev = true
  refCount : board.refCount = board.openFilesList.length
  nodup : board.openFilesList.Nodup
  waits : board.notificationWaitList =
    waitsOf board.pcieResources.acceleratorType board.openFilesList
  kept : board.pDev = false → board.openFilesList ≠ []

def deviceHeld (board : HailoPcieBoard) : Multiset BoardResource :=
  if board.pDev then .listed ::ₘ .deviceNode ::ₘ .engines ::ₘ .enabledDevice ::ₘ
    board.pcieResources.held
  else 0

def waitHeld (acceleratorType : HailoAcceleratorType) (filp : Nat) : Multiset BoardResource :=
  match acceleratorType with
  | .nnc => {.notificationWait filp}
  | .soc => 0

def filesHeld (acceleratorType : HailoAcceleratorType) (files : List Nat) :
    Multiset BoardResource :=
  heldBy (fun filp => .fileContext filp ::ₘ waitHeld acceleratorType filp) files

def boardHeld (board : HailoPcieBoard) : Multiset BoardResource :=
  .board ::ₘ (interruptsHeld board.interruptsEnabled + (deviceHeld board +
    filesHeld board.pcieResources.acceleratorType board.openFilesList))

/-- Nothing is held for a board that is gone. -/
def leftHeld (left : Option HailoPcieBoard) : Multiset BoardResource := left.elim 0 boardHeld

variable {board : HailoPcieBoard}

theorem deviceHeld_of_removed (h : board.pDev = false) : deviceHeld board = 0 := by
  rw [deviceHeld, h, if_neg (by decide)]

theorem filesHeld_erase (acceleratorType : HailoAcceleratorType) {filp : Nat} {files : List Nat}
    (h : filp ∈ files) : filesHeld acceleratorType files =
      .fileContext filp ::ₘ (waitHeld acceleratorType filp +
        filesHeld acceleratorType (files.erase filp)) := by
  rw [filesHeld, heldBy, ← List.sum_map_erase _ h, Multiset.cons_add]
  rfl

theorem boardHeld_disabled (board : HailoPcieBoard) :
    boardHeld { board with interruptsEnabled := false } = .board ::ₘ (deviceHeld board +
      filesHeld board.pcieResources.acceleratorType board.openFilesList) := by
  rw [boardHeld, interruptsHeld_false, zero_add]
  rfl

/-- Removing a board gives back all but what its open files need. -/
theorem hailoPcieRemove_runs (h : Consistent board) (hdevice : board.pDev = true) :
    ∃ left, (hailoPcieRemove board).Runs (boardHeld board) left (leftHeld left) ∧
      (∀ other ∈ left, Consistent other) ∧ (board.openFilesList = [] → left = none) := by
  have hheld : boardHeld board = .listed ::ₘ .deviceNode ::ₘ
      (interruptsHeld board.interruptsEnabled + (board.pcieResources.held +
        .enabledDevice ::ₘ .board ::ₘ .engines ::ₘ
          filesHeld board.pcieResources.acceleratorType board.openFilesList)) := by
    rw [boardHeld, deviceHeld, hdevice, if_pos rfl]
    simp only [← Multiset.singleton_add]
    abel
  have hinterrupts := fun held => @hailoDisableInterrupts_runs board.pDev board.interruptsEnabled
    h.interrupts held
  rw [hheld]
  unfold hailoPcieRemove
  by_cases hfiles : board.openFilesList = []
  · refine ⟨none, ?_, by simp, fun _ => rfl⟩
    refine (runs_release _ _).bind ((runs_release _ _).bind ((hinterrupts _).bind ?_))
    refine (pcieResourcesRelease_runs h.mapped _).bind ((runs_release _ _).bind ?_)
    rw [h.refCount, hfiles, List.length_nil, if_pos rfl]
    exact (runs_release _ _).bind ((runs_release _ _).bind (.pure _ _))
  · refine ⟨some { board with pDev := false, interruptsEnabled := false }, ?_, ?_, ?_⟩
    · refine (runs_release _ _).bind ((runs_release _ _).bind ((hinterrupts _).bind ?_))
      refine (pcieResourcesRelease_runs h.mapped _).bind ((runs_release _ _).bind ?_)
      have hcount : board.refCount ≠ 0 := by
        rw [h.refCount]
        exact fun hzero => hfiles (List.eq_nil_of_length_eq_zero hzero)
      have hleft : leftHeld (some { board with pDev := false, interruptsEnabled := false }) =
          .board ::ₘ filesHeld board.pcieResources.acceleratorType board.openFilesList := by
        rw [leftHeld, Option.elim_some, boardHeld, deviceHeld_of_removed rfl,
          interruptsHeld_false, zero_add, zero_add]
      rw [if_neg hcount, Multiset.cons_swap, hleft]
      exact (runs_release _ _).bind (.pure _ _)
    · rintro other hother
      cases hother
      exact ⟨h.mapped, fun henabled => absurd henabled Bool.false_ne_true,
        h.refCount, h.nodup, h.waits,
        fun _ => hfiles⟩
    · exact fun hnil => absurd hnil hfiles

/-- The board once its context for a file is initialized. -/
def waiting (board : HailoPcieBoard) (filp : Nat) : HailoPcieBoard :=
  { board with
    notificationWaitList :=
      waitsOf board.pcieResources.acceleratorType (filp :: board.openFilesList) }

/-- The board once a file is open. -/
def opened (board : HailoPcieBoard) (filp : Nat) : HailoPcieBoard :=
  { waiting board filp with
    interruptsEnabled := true
    refCount := board.refCount + 1
    openFilesList := filp :: board.openFilesList }

theorem fileContextInit_runs (h : Consistent board) (filp : Nat) (ops : OpenOps)
    (held : Multiset BoardResource) :
    (∃ err < 0, (fileContextInit board filp ops).Runs held (.error err) held) ∨
    (fileContextInit board filp ops).Runs held (.ok (waiting board filp))
      (waitHeld board.pcieResources.acceleratorType filp + held) := by
  have hwaits := h.waits
  unfold fileContextInit
  rw [waiting]
  cases htype : board.pcieResources.acceleratorType with
  | soc =>
    have hboard : waiting board filp = board := by
      rw [waiting, htype, waitsOf]
      rw [htype, waitsOf] at hwaits
      rw [← hwaits]
    rw [waiting, htype] at hboard
    rw [hboard, waitHeld, zero_add]
    exact Or.inr (.pure _ _)
  | nnc =>
    rw [htype, waitsOf] at hwaits
    by_cases hkmalloc : ops.kmalloc = true
    · rw [hkmalloc, waitsOf, waitHeld, Multiset.singleton_add, ← hwaits]
      exact Or.inr ((runs_acquire _ _).bind (.pure _ _))
    · rw [Bool.not_eq_true] at hkmalloc
      rw [hkmalloc]
      exact Or.inl ⟨-enomem, by decide, .pure _ _⟩

theorem consistent_opened (h : Consistent board) (hdevice : board.pDev = true) {filp : Nat}
    (hfilp : filp ∉ board.openFilesList) : Consistent (opened board filp) where
  mapped := h.mapped
  interrupts := fun _ => hdevice
  refCount := by rw [opened, h.refCount, List.length_cons]
  nodup := List.nodup_cons.mpr ⟨hfilp, h.nodup⟩
  waits := rfl
  kept := fun _ => List.cons_ne_nil _ _

theorem boardHeld_opened (board : HailoPcieBoard) (filp : Nat) :
    boardHeld (opened board filp) = waitHeld board.pcieResources.acceleratorType filp +
      (interruptsHeld true + .fileContext filp ::ₘ .board ::ₘ (deviceHeld board +
        filesHeld board.pcieResources.acceleratorType board.openFilesList)) := by
  have hfiles : filesHeld board.pcieResources.acceleratorType (filp :: board.openFilesList) =
      .fileContext filp ::ₘ waitHeld board.pcieResources.acceleratorType filp +
        filesHeld board.pcieResources.acceleratorType board.openFilesList := heldBy_cons _ _ _
  change .board ::ₘ (interruptsHeld true + (deviceHeld board +
    filesHeld board.pcieResources.acceleratorType (filp :: board.openFilesList))) = _
  rw [hfiles]
  simp only [← Multiset.singleton_add]
  abel

/-- Opening a file fails and leaves all as it was, or the board has the file as well. -/
theorem hailoPcieFopsOpen_runs (h : Consistent board) (hdevice : board.pDev = true) (filp : Nat)
    (ops : OpenOps) :
    (∃ err, (hailoPcieFopsOpen board filp ops).Runs (boardHeld board) (err, board)
      (boardHeld board)) ∨
    (hailoPcieFopsOpen board filp ops).Runs (boardHeld board) (0, opened board filp)
      (boardHeld (opened board filp)) := by
  unfold hailoPcieFopsOpen
  split
  · exact Or.inl ⟨-512, .pure _ _⟩
  · split
    · exact Or.inl ⟨-enomem, .pure _ _⟩
    · cases hpower : if ops.isD0 = true then none else ops.pciSetPowerState with
      | some err =>
        exact Or.inl ⟨err.value, (runs_acquire _ _).bind ((runs_release _ _).bind (.pure _ _))⟩
      | none =>
        by_cases hconnected : ops.deviceConnected = true
        · cases henabled : board.interruptsEnabled with
          | true =>
            rcases fileContextInit_runs h filp ops (.fileContext filp ::ₘ boardHeld board) with
              ⟨err, _, hinit⟩ | hinit
            · refine Or.inl ⟨err, (runs_acquire _ _).bind ?_⟩
              rw [hconnected]
              refine Ledgered.Runs.bind (.pure _ _) (hinit.bind ?_)
              exact Ledgered.Runs.bind (runs_release _ _) (.pure _ _)
            · have hheld : boardHeld (opened board filp) =
                  waitHeld board.pcieResources.acceleratorType filp +
                    .fileContext filp ::ₘ boardHeld board := by
                rw [boardHeld_opened, boardHeld, henabled]
                simp only [← Multiset.singleton_add]
                abel
              refine Or.inr ((runs_acquire _ _).bind ?_)
              rw [hconnected, hheld]
              refine Ledgered.Runs.bind (.pure _ _) (hinit.bind ?_)
              rw [opened, waiting, ← henabled]
              exact .pure _ _
          | false =>
            have hheld : BoardResource.fileContext filp ::ₘ boardHeld board =
                .fileContext filp ::ₘ .board ::ₘ (deviceHeld board +
                  filesHeld board.pcieResources.acceleratorType board.openFilesList) := by
              rw [boardHeld, henabled, interruptsHeld_false, zero_add]
            rcases hailoEnableInterrupts_runs ops.toInterruptOps
                (.fileContext filp ::ₘ boardHeld board) with ⟨err, hneg, henable⟩ | henable
            · refine Or.inl ⟨err, (runs_acquire _ _).bind ?_⟩
              rw [hconnected]
              refine Ledgered.Runs.bind henable ?_
              simp only
              rw [if_pos hneg]
              exact (runs_release _ _).bind (.pure _ _)
            · rcases fileContextInit_runs h filp ops
                (interruptsHeld true + .fileContext filp ::ₘ boardHeld board) with
                ⟨err, hneg, hinit⟩ | hinit
              · refine Or.inl ⟨err, (runs_acquire _ _).bind ?_⟩
                rw [hconnected]
                refine Ledgered.Runs.bind henable (hinit.bind ?_)
                have hdisable := @hailoDisableInterrupts_runs board.pDev true (fun _ => hdevice)
                  (.fileContext filp ::ₘ boardHeld board)
                exact Ledgered.Runs.bind hdisable ((runs_release _ _).bind (.pure _ _))
              · refine Or.inr ((runs_acquire _ _).bind ?_)
                rw [boardHeld_opened, ← hheld, hconnected]
                exact Ledgered.Runs.bind henable (hinit.bind (.pure _ _))
        · rw [Bool.not_eq_true] at hconnected
          rw [hconnected]
          exact Or.inl ⟨_, (runs_acquire _ _).bind ((runs_release _ _).bind (.pure _ _))⟩

theorem clearNotificationWaitList_absent {filp : Nat} {waits : List Nat} (h : filp ∉ waits)
    (held : Multiset BoardResource) :
    (clearNotificationWaitList filp waits).Runs held waits held := by
  induction waits with
  | nil => exact .pure _ _
  | cons cur next ih =>
    obtain ⟨hcur, hnext⟩ := not_or.mp (List.mem_cons.not.mp h)
    rw [clearNotificationWaitList, if_neg (Ne.symm hcur)]
    exact (ih hnext).bind (.pure _ _)

theorem clearNotificationWaitList_runs {filp : Nat} {waits : List Nat} (h : filp ∈ waits)
    (hnodup : waits.Nodup) (held : Multiset BoardResource) :
    (clearNotificationWaitList filp waits).Runs (.notificationWait filp ::ₘ held)
      (waits.erase filp) held := by
  induction waits with
  | nil => cases h
  | cons cur next ih =>
    obtain ⟨hcur, hnext⟩ := List.nodup_cons.mp hnodup
    rw [clearNotificationWaitList]
    split
    · next heq =>
      subst heq
      rw [List.erase_cons_head]
      exact (runs_release _ _).bind (clearNotificationWaitList_absent hcur held)
    · next hne =>
      rw [List.erase_cons_tail (by simpa using hne)]
      have hmem : filp ∈ next := (List.mem_cons.mp h).resolve_left fun heq => hne heq.symm
      exact (ih hmem hnext).bind (.pure _ _)

/-- The board without a file, before it is looked whether it was the last. -/
def closed (board : HailoPcieBoard) (filp : Nat) : HailoPcieBoard :=
  { board with
    refCount := board.refCount - 1
    openFilesList := board.openFilesList.erase filp
    notificationWaitList :=
      waitsOf board.pcieResources.acceleratorType (board.openFilesList.erase filp) }

theorem fileContextFinalize_runs (h : Consistent board) {filp : Nat}
    (hfilp : filp ∈ board.openFilesList) (held : Multiset BoardResource) :
    (fileContextFinalize board filp).Runs
      (waitHeld board.pcieResources.acceleratorType filp + held)
      { board with
        notificationWaitList :=
          waitsOf board.pcieResources.acceleratorType (board.openFilesList.erase filp) }
      held := by
  have hwaits := h.waits
  unfold fileContextFinalize
  cases htype : board.pcieResources.acceleratorType with
  | soc =>
    rw [htype, waitsOf] at hwaits
    rw [waitHeld, zero_add, waitsOf, ← hwaits]
    exact .pure _ _
  | nnc =>
    rw [htype, waitsOf] at hwaits
    rw [hwaits, waitHeld, Multiset.singleton_add]
    exact (clearNotificationWaitList_runs hfilp h.nodup held).bind (.pure _ _)

theorem consistent_of_interrupts (h : Consistent board) {interruptsEnabled : Bool}
    (himp : interruptsEnabled = true → board.pDev = true) :
    Consistent { board with interruptsEnabled := interruptsEnabled } :=
  ⟨h.mapped, himp, h.refCount, h.nodup, h.waits, h.kept⟩

theorem consistent_closed (h : Consistent board) {filp : Nat} (hfilp : filp ∈ board.openFilesList)
    (hkept : board.pDev = false → board.openFilesList.erase filp ≠ []) :
    Consistent (closed board filp) where
  mapped := h.mapped
  interrupts := h.interrupts
  refCount := by rw [closed, h.refCount, List.length_erase_of_mem hfilp]
  nodup := h.nodup.erase filp
  waits := rfl
  kept := hkept

/-- Releasing a file gives back what it had, and the last file of a removed board the board. -/
theorem hailoPcieFopsRelease_runs (h : Consistent board) {filp : Nat}
    (hfilp : filp ∈ board.openFilesList) :
    ∃ left, (hailoPcieFopsRelease board filp).Runs (boardHeld board) left (leftHeld left) ∧
      ∀ other ∈ left, Consistent other := by
  have hheld : boardHeld board = waitHeld board.pcieResources.acceleratorType filp +
      .fileContext filp ::ₘ (interruptsHeld board.interruptsEnabled + .board ::ₘ (deviceHeld board +
        filesHeld board.pcieResources.acceleratorType (board.openFilesList.erase filp))) := by
    rw [boardHeld, filesHeld_erase _ hfilp]
    simp only [← Multiset.singleton_add]
    abel
  have hcount : board.refCount - 1 = (board.openFilesList.erase filp).length := by
    rw [h.refCount, List.length_erase_of_mem hfilp]
  have hfinalize := fileContextFinalize_runs h hfilp
  rw [hheld]
  unfold hailoPcieFopsRelease
  by_cases hlast : board.refCount - 1 = 0
  · have hnil : board.openFilesList.erase filp = [] :=
      List.eq_nil_of_length_eq_zero (hcount.symm.trans hlast)
    have hdisable := fun held => @hailoDisableInterrupts_runs board.pDev board.interruptsEnabled
      h.interrupts held
    cases hdevice : board.pDev with
    | false =>
      rw [hdevice] at hdisable
      refine ⟨none, (hfinalize _).bind ((runs_release _ _).bind ?_), by simp⟩
      rw [if_pos hlast, deviceHeld_of_removed hdevice, hnil, zero_add, filesHeld, heldBy_nil,
        hdevice]
      exact (hdisable _).bind ((runs_release _ _).bind (.pure _ _))
    | true =>
      refine ⟨some { closed board filp with interruptsEnabled := false },
        (hfinalize _).bind ((runs_release _ _).bind ?_), ?_⟩
      · rw [if_pos hlast]
        refine (hdisable _).bind ?_
        rw [leftHeld, Option.elim_some, boardHeld_disabled, if_neg (by rw [hdevice]; decide)]
        exact .pure _ _
      · rintro other hother
        cases hother
        have hclosed := consistent_closed h hfilp fun hremoved =>
          absurd (hdevice.symm.trans hremoved) (by decide)
        exact consistent_of_interrupts hclosed fun henabled => absurd henabled Bool.false_ne_true
  · refine ⟨some (closed board filp), (hfinalize _).bind ((runs_release _ _).bind ?_), ?_⟩
    · rw [if_neg hlast, Multiset.add_cons]
      exact .pure _ _
    · rintro other hother
      cases hother
      exact consistent_closed h hfilp fun _ hnil => hlast (by rw [hcount, hnil, List.length_nil])

theorem hailoPcieSuspend_runs (h : Consistent board) :
    (hailoPcieSuspend board).Runs (boardHeld board) { board with interruptsEnabled := false }
      (boardHeld { board with interruptsEnabled := false }) := by
  have hdisable := @hailoDisableInterrupts_runs board.pDev board.interruptsEnabled h.interrupts
    (.board ::ₘ (deviceHeld board +
      filesHeld board.pcieResources.acceleratorType board.openFilesList))
  rw [Multiset.add_cons] at hdisable
  rw [boardHeld_disabled]
  exact hdisable.bind (.pure _ _)

theorem hailoPcieResume_runs (p : ModuleParams) (board : HailoPcieBoard) (ops : ActivationOps) :
    (hailoPcieResume p board ops).Runs (boardHeld board) board (boardHeld board) := by
  obtain ⟨err, hactivate⟩ :=
    hailoActivateBoard_runs p ops board.interruptsEnabled (boardHeld board)
  exact hactivate.bind (.pure _ _)

end HailortDrivers.BoardResources
