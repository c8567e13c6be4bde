import HailortDrivers.BoardInsertion
import HailortDrivers.BoardResources

/-!
The module from its insertion into the kernel to its removal (`pcie.c`): boards are probed,
opened, suspended and removed in any order, and each call takes and gives back what it needs.
-/
namespace HailortDrivers.ModuleLife
open ResourceLedger LedgerFrames ProbeResources BoardResources
open BufferMapping (Errno)
open BoardInsertion (ChrdevClass)

inductive ModuleResource
  | chrdev
  | pciDriver
  | chrdevClass
  | ofBoard (pBoard : Nat) (resource : BoardResource)
deriving DecidableEq

abbrev ModuleLedger := Ledgered ModuleResource

/-- The boards that exist, by their addresses. `g_hailo_add_board_mutex` is held between calls
only after an insertion that could not create the class. -/
structure ModuleState where
  chrdevClass : ChrdevClass
  addBoardMutexHeld : Bool
  boards : List (Nat × HailoPcieBoard)

inductive ModuleEvent
  | probe (pBoard : Nat) (ops : ProbeOps)
  | fopsOpen (pBoard filp : Nat) (ops : OpenOps)
  | fopsRelease (pBoard filp : Nat)
  | suspend (pBoard : Nat)
  | resume (pBoard : Nat) (ops : ActivationOps)
  | remove (pBoard : Nat)

structure ModuleOps where
  registerChrdev : Option Errno
  pciRegisterDriver : Option Errno

def ModuleState.findBoard (s : ModuleState) (pBoard : Nat) : Option (Nat × HailoPcieBoard) :=
  s.boards.find? fun entry => entry.1 = pBoard

/-- The state after a call that leaves this of a board. -/
def ModuleState.setBoard (s : ModuleState) (pBoard : Nat) (left : Option HailoPcieBoard) :
    ModuleState :=
  { s with
    boards := (left.toList.map fun board => (pBoard, board)) ++
      s.boards.eraseP fun entry => entry.1 = pBoard }

def ofBoard {α : Type} (pBoard : Nat) (call : BoardLedger α) : ModuleLedger α :=
  rename (.ofBoard pBoard) call

section Calls
variable (p : ModuleParams) (s : ModuleState) (pBoard : Nat)

/-- `hailo_pcie_insert_board` from where there is a class, and the device node. -/
def insertBoard (ops : ProbeOps) (board : HailoPcieBoard) : ModuleLedger ModuleState := do
  ofBoard pBoard (acquire .listed)
  match ops.deviceCreate with
  | some _ =>
    ofBoard pBoard (release .listed)
    ofBoard pBoard (probeReleasePcieResources board.pcieResources [.engines])
    return s
  | none =>
    ofBoard pBoard (acquire .deviceNode)
    return { s with boards := (pBoard, board) :: s.boards }

/-- A call that cannot be made, or that waits for ever for `g_hailo_add_board_mutex`, has no
state after it. A board gets an address that is free. -/
def hailoPcieProbe (ops : ProbeOps) : ModuleLedger (Option ModuleState) :=
  if (s.findBoard pBoard).isSome then return none
  else do
    match ← ofBoard pBoard (prepareBoard p ops) with
    | .error _ => return some s
    | .ok board =>
      if s.addBoardMutexHeld then return none
      else if s.chrdevClass = .null then
        match ops.classCreate with
        | some _ =>
          ofBoard pBoard (probeReleasePcieResources board.pcieResources [.engines])
          return some { s with chrdevClass := .error, addBoardMutexHeld := true }
        | none =>
          acquire .chrdevClass
          let s ← insertBoard { s with chrdevClass := .created } pBoard ops board
          return some s
      else
        let s ← insertBoard s pBoard ops board
        return some s

/-- A call on a board that exists and for which it can be made. -/
def onBoard (allowed : HailoPcieBoard → Bool)
    (call : HailoPcieBoard → BoardLedger (Option HailoPcieBoard)) :
    ModuleLedger (Option ModuleState) :=
  match s.findBoard pBoard with
  | none => return none
  | some entry =>
    if allowed entry.2 then do
      let left ← ofBoard pBoard (call entry.2)
      return some (s.setBoard pBoard left)
    else return none

/-- Opening and removing take `g_hailo_add_board_mutex`. -/
def step : ModuleEvent → ModuleLedger (Option ModuleState)
  | .probe pBoard ops => hailoPcieProbe p s pBoard ops
  | .fopsOpen pBoard filp ops =>
    onBoard s pBoard
      (fun board => !s.addBoardMutexHeld && board.pDev && filp ∉ board.openFilesList)
      fun board => do
        let (_, board) ← hailoPcieFopsOpen board filp ops
        return some board
  | .fopsRelease pBoard filp =>
    onBoard s pBoard (fun board => filp ∈ board.openFilesList)
      fun board => hailoPcieFopsRelease board filp
  | .suspend pBoard =>
    onBoard s pBoard (fun board => board.pDev) fun board => do
      let board ← hailoPcieSuspend board
      return some board
  | .resume pBoard ops =>
    onBoard s pBoard (fun board => board.pDev) fun board => do
      let board ← hailoPcieResume p board ops
      return some board
  | .remove pBoard =>
    onBoard s pBoard (fun board => !s.addBoardMutexHeld && board.pDev) hailoPcieRemove

end Calls

def run (p : ModuleParams) : ModuleState → List ModuleEvent → ModuleLedger (Option ModuleState)
  | s, [] => return some s
  | s, event :: events => do
    match ← step p s event with
    | none => return none
    | some s => run p s events

/-- `class_destroy` leaves an error pointer alone. -/
def hailoPcieUnregisterChrdev (chrdevClass : ChrdevClass) : ModuleLedger Unit :=
  match chrdevClass with
  | .null => return ()
  | .created => do
    release .chrdevClass
    release .chrdev
  | .error => release .chrdev

/-- The kernel does not unload a module that has a file open. -/
def hailoPcieModuleExit (s : ModuleState) : ModuleLedger (Option Unit) :=
  if s.boards.any fun entry => !entry.2.openFilesList.isEmpty then return none
  else if s.addBoardMutexHeld && !s.boards.isEmpty then return none
  else do
    freeAll (fun entry => do
      let _ ← ofBoard entry.1 (hailoPcieRemove entry.2)
      return ()) s.boards
    release .pciDriver
    hailoPcieUnregisterChrdev s.chrdevClass
    return some ()

def loaded : ModuleState := ⟨.null, false, []⟩

/-- `hailo_pcie_module_init`, what happens to the module, and `hailo_pcie_module_exit`. -/
def moduleLife (p : ModuleParams) (ops : ModuleOps) (events : List ModuleEvent) :
    ModuleLedger (Option Unit) :=
  match ops.registerChrdev with
  | some _ => return some ()
  | none => do
    acquire .chrdev
    match ops.pciRegisterDriver with
    | some _ =>
      hailoPcieUnregisterChrdev .null
      return some ()
    | none =>
      acquire .pciDriver
      match ← run p loaded events with
      | none => return none
      | some s => hailoPcieModuleExit s

def reachesInsertion (p : ModuleParams) : ModuleEvent → Bool
  | .probe _ ops => (prepareBoard p ops).value.isOk
  | _ => false

section Held
variable {p : ModuleParams} {s s' : ModuleState}

structure Inv (s : ModuleState) : Prop where
  boards : ∀ entry ∈ s.boards, Consistent entry.2
  created : s.boards ≠ [] → s.chrdevClass = .created
  mutex : s.chrdevClass = .error → s.addBoardMutexHeld = true

def entryHeld (entry : Nat × HailoPcieBoard) : Multiset ModuleResource :=
  (boardHeld entry.2).map (.ofBoard entry.1)

def classHeld (chrdevClass : ChrdevClass) : Multiset ModuleResource :=
  if chrdevClass = .created then {.chrdevClass} else 0

def chrdevHeld (registered : Bool) : Multiset ModuleResource :=
  if registered then {.chrdev} else 0

def stateHeld (s : ModuleState) : Multiset ModuleResource :=
  classHeld s.chrdevClass + heldBy entryHeld s.boards

theorem ofBoard_runs {α : Type} {call : BoardLedger α} {held held' : Multiset BoardResource}
    {a : α} (pBoard : Nat) (h : call.Runs held a held') (rest : Multiset ModuleResource) :
    (ofBoard pBoard call).Runs (held.map (.ofBoard pBoard) + rest) a
      (held'.map (.ofBoard pBoard) + rest) :=
  Runs.frame (Runs.rename (fun _ _ heq => (ModuleResource.ofBoard.inj heq).2) h) rest

@[simp] theorem classHeld_null : classHeld .null = 0 := rfl

@[simp] theorem classHeld_created : classHeld .created = {.chrdevClass} := rfl

@[simp] theorem classHeld_error : classHeld .error = 0 := rfl

/-- A call on a board changes what is held for that board only. -/
theorem onBoard_runs (h : Inv s) (pBoard : Nat) {allowed : HailoPcieBoard → Bool}
    {call : HailoPcieBoard → BoardLedger (Option HailoPcieBoard)}
    (hcall : ∀ board, Consistent board → allowed board = true →
      ∃ left, (call board).Runs (boardHeld board) left (leftHeld left) ∧
        ∀ other ∈ left, Consistent other) :
    (onBoard s pBoard allowed call).value = none ∨
      ∃ s', (onBoard s pBoard allowed call).Runs (stateHeld s) (some s') (stateHeld s') ∧
        Inv s' ∧ s'.chrdevClass = s.chrdevClass := by
  unfold onBoard
  cases hfind : s.findBoard pBoard with
  | none => exact Or.inl rfl
  | some entry =>
    obtain ⟨address, board⟩ := entry
    have hmem := List.mem_of_find?_eq_some hfind
    have haddress : address = pBoard := by simpa using List.find?_some hfind
    subst haddress
    by_cases hallowed : allowed board = true
    · right
      obtain ⟨left, hruns, hleft⟩ := hcall board (h.boards _ hmem) hallowed
      refine ⟨s.setBoard address left, ?_, ?_, rfl⟩
      · simp only
        rw [if_pos hallowed]
        have hheld : stateHeld s = (boardHeld board).map (.ofBoard address) +
            (classHeld s.chrdevClass +
              heldBy entryHeld (s.boards.eraseP fun entry => entry.1 = address)) := by
          rw [stateHeld, heldBy_eraseP entryHeld hfind, add_left_comm]
          rfl
        have hheld' : stateHeld (s.setBoard address left) =
            (leftHeld left).map (.ofBoard address) + (classHeld s.chrdevClass +
              heldBy entryHeld (s.boards.eraseP fun entry => entry.1 = address)) := by
          cases left with
          | none => exact (zero_add _).symm
          | some other =>
            rw [add_left_comm]
            rfl
        rw [hheld, hheld']
        exact (ofBoard_runs address hruns _).bind (.pure _ _)
      · refine ⟨?_, fun _ => h.created (List.ne_nil_of_mem hmem), h.mutex⟩
        intro entry hentry
        rcases List.mem_append.mp hentry with hnew | hold
        · obtain ⟨other, hother, rfl⟩ := List.mem_map.mp hnew
          exact hleft other (Option.mem_toList.mp hother)
        · exact h.boards entry (List.mem_of_mem_eraseP hold)
    · left
      simp only
      rw [if_neg hallowed]
      rfl

theorem consistent_of_prepared {board : HailoPcieBoard} (h : board.Prepared) :
    Consistent board where
  mapped := h.mapped
  interrupts := fun _ => h.pDev
  refCount := by rw [h.refCount, h.openFilesList, List.length_nil]
  nodup := by
    rw [h.openFilesList]
    exact List.nodup_nil
  waits := by
    rw [h.openFilesList, h.notificationWaitList]
    cases board.pcieResources.acceleratorType with
    | soc => rfl
    | nnc => rfl
  kept := fun hremoved => absurd (h.pDev.symm.trans hremoved) (by decide)

theorem boardHeld_prepared {board : HailoPcieBoard} (h : board.Prepared) :
    boardHeld board =
      .deviceNode ::ₘ .listed ::ₘ .engines ::ₘ board.pcieResources.probeHeld := by
  rw [boardHeld, deviceHeld, h.interruptsEnabled, h.pDev, if_pos rfl, interruptsHeld_false,
    zero_add, h.openFilesList, filesHeld, heldBy_nil, add_zero, PcieResources.probeHeld]
  simp only [Multiset.cons_swap]

theorem probeReleased_runs {resources : PcieResources} (h : resources.Mapped) (pBoard : Nat)
    (rest : Multiset ModuleResource) :
    (ofBoard pBoard (probeReleasePcieResources resources [.engines])).Runs
      ((BoardResource.engines ::ₘ resources.probeHeld).map (.ofBoard pBoard) + rest) () rest := by
  have hruns := probeReleasePcieResources_runs h [.engines] 0
  rw [add_zero, Multiset.coe_singleton, Multiset.singleton_add] at hruns
  have hboard := ofBoard_runs pBoard hruns rest
  rwa [Multiset.map_zero, zero_add] at hboard

theorem insertBoard_runs (h : Inv s) (hclass : s.chrdevClass = .created) (pBoard : Nat)
    (ops : ProbeOps) {board : HailoPcieBoard} (hboard : board.Prepared) :
    ∃ s', (insertBoard s pBoard ops board).Runs
        ((BoardResource.engines ::ₘ board.pcieResources.probeHeld).map (.ofBoard pBoard) +
          stateHeld s) s' (stateHeld s') ∧
      Inv s' ∧ s'.chrdevClass = .created := by
  have hlisted := ofBoard_runs pBoard
    (runs_acquire BoardResource.listed (.engines ::ₘ board.pcieResources.probeHeld)) (stateHeld s)
  have hreleased := ofBoard_runs pBoard
    (runs_release BoardResource.listed (.engines ::ₘ board.pcieResources.probeHeld)) (stateHeld s)
  unfold insertBoard
  cases ops.deviceCreate with
  | some err =>
    refine ⟨s, hlisted.bind (hreleased.bind ?_), h, hclass⟩
    exact (probeReleased_runs hboard.mapped pBoard _).bind (.pure _ _)
  | none =>
    refine ⟨{ s with boards := (pBoard, board) :: s.boards }, hlisted.bind ?_, ?_, hclass⟩
    · have hnode := ofBoard_runs pBoard (runs_acquire BoardResource.deviceNode
        (.listed ::ₘ .engines ::ₘ board.pcieResources.probeHeld)) (stateHeld s)
      rw [← boardHeld_prepared hboard] at hnode
      have hheld : stateHeld { s with boards := (pBoard, board) :: s.boards } =
          (boardHeld board).map (.ofBoard pBoard) + stateHeld s := add_left_comm _ _ _
      rw [hheld]
      exact hnode.bind (.pure _ _)
    · refine ⟨fun entry hentry => ?_, fun _ => hclass, h.mutex⟩
      rcases List.mem_cons.mp hentry with rfl | hold
      · exact consistent_of_prepared hboard
      · exact h.boards entry hold

theorem hailoPcieProbe_runs (p : ModuleParams) (h : Inv s) (pBoard : Nat) (ops : ProbeOps) :
    (hailoPcieProbe p s pBoard ops).value = none ∨
      ∃ s', (hailoPcieProbe p s pBoard ops).Runs (stateHeld s) (some s') (stateHeld s') ∧
        Inv s' ∧ (s'.chrdevClass ≠ .null ↔
          s.chrdevClass ≠ .null ∨ reachesInsertion p (.probe pBoard ops) = true) := by
  unfold hailoPcieProbe
  split
  · exact Or.inl rfl
  · rcases prepareBoard_runs p ops 0 with ⟨err, hruns⟩ | ⟨board, hboard, hruns⟩
    · have hprepare := ofBoard_runs pBoard hruns (stateHeld s)
      rw [Multiset.map_zero, zero_add] at hprepare
      refine Or.inr ⟨s, hprepare.bind (.pure _ _), h, ?_⟩
      rw [reachesInsertion, hruns.value]
      simp [Except.isOk, Except.toBool]
    · have hprepare := ofBoard_runs pBoard hruns (stateHeld s)
      rw [Multiset.map_zero, zero_add, add_zero] at hprepare
      have hreaches : reachesInsertion p (.probe pBoard ops) = true := by
        rw [reachesInsertion, hruns.value]
        rfl
      by_cases hmutex : s.addBoardMutexHeld = true
      · left
        rw [value_bind, hprepare.value]
        simp only
        rw [if_pos hmutex]
        rfl
      · right
        cases hclass : s.chrdevClass with
        | error => exact absurd (h.mutex hclass) hmutex
        | null =>
          cases hcreate : ops.classCreate with
          | some err =>
            have hempty : s.boards = [] := by
              by_contra hboards
              exact absurd (hclass.symm.trans (h.created hboards)) (by decide)
            refine ⟨{ s with chrdevClass := .error, addBoardMutexHeld := true },
              hprepare.bind ?_, ⟨h.boards, fun hboards => absurd hempty hboards, fun _ => rfl⟩, ?_⟩
            · simp only
              rw [if_neg hmutex, if_pos trivial]
              have hheld : stateHeld s = stateHeld ⟨.error, true, s.boards⟩ := by
                rw [stateHeld, hclass]
                rfl
              rw [hheld]
              exact (probeReleased_runs hboard.mapped pBoard _).bind (.pure _ _)
            · simp [hreaches]
          | none =>
            have hinv : Inv { s with chrdevClass := .created } :=
              ⟨h.boards, fun _ => rfl, fun herror => by cases herror⟩
            obtain ⟨s', hinsert, hinv', hclass'⟩ := insertBoard_runs hinv rfl pBoard ops hboard
            refine ⟨s', hprepare.bind ?_, hinv', ?_⟩
            · simp only
              rw [if_neg hmutex, if_pos trivial]
              have hheld : stateHeld { s with chrdevClass := .created } =
                  .chrdevClass ::ₘ stateHeld s := by
                rw [stateHeld, stateHeld, hclass, classHeld_created, classHeld_null,
                  Multiset.singleton_add, zero_add]
              rw [hheld, Multiset.add_cons] at hinsert
              exact (runs_acquire _ _).bind (hinsert.bind (.pure _ _))
            · simp [hreaches, hclass']
        | created =>
          obtain ⟨s', hinsert, hinv', hclass'⟩ := insertBoard_runs h hclass pBoard ops hboard
          refine ⟨s', hprepare.bind ?_, hinv', ?_⟩
          · simp only
            rw [if_neg hmutex, if_neg (by decide)]
            exact hinsert.bind (.pure _ _)
          · simp [hreaches, hclass']

/-- What a call leaves held is what the state after it tells. -/
theorem step_runs (p : ModuleParams) (h : Inv s) (event : ModuleEvent) :
    (step p s event).value = none ∨
      ∃ s', (step p s event).Runs (stateHeld s) (some s') (stateHeld s') ∧ Inv s' ∧
        (s'.chrdevClass ≠ .null ↔ s.chrdevClass ≠ .null ∨ reachesInsertion p event = true) := by
  have hclass : ∀ {x : ModuleLedger (Option ModuleState)}, reachesInsertion p event = false →
      (x.value = none ∨ ∃ s', x.Runs (stateHeld s) (some s') (stateHeld s') ∧ Inv s' ∧
        s'.chrdevClass = s.chrdevClass) →
      (x.value = none ∨ ∃ s', x.Runs (stateHeld s) (some s') (stateHeld s') ∧ Inv s' ∧
        (s'.chrdevClass ≠ .null ↔
          s.chrdevClass ≠ .null ∨ reachesInsertion p event = true)) := by
    rintro x hreaches (hnone | ⟨s', hruns, hinv, heq⟩)
    · exact Or.inl hnone
    · exact Or.inr ⟨s', hruns, hinv, by simp [heq, hreaches]⟩
  cases event with
  | probe pBoard ops => exact hailoPcieProbe_runs p h pBoard ops
  | fopsOpen pBoard filp ops =>
    refine hclass rfl (onBoard_runs h pBoard fun board hboard hallowed => ?_)
    simp only [Bool.and_eq_true, decide_eq_true_eq] at hallowed
    rcases hailoPcieFopsOpen_runs hboard hallowed.1.2 filp ops with ⟨err, hruns⟩ | hruns
    · refine ⟨some board, hruns.bind (.pure _ _), ?_⟩
      rintro other hother
      cases hother
      exact hboard
    · refine ⟨some (opened board filp), hruns.bind (.pure _ _), ?_⟩
      rintro other hother
      cases hother
      exact consistent_opened hboard hallowed.1.2 hallowed.2
  | fopsRelease pBoard filp =>
    refine hclass rfl (onBoard_runs h pBoard fun board hboard hallowed => ?_)
    exact hailoPcieFopsRelease_runs hboard (of_decide_eq_true hallowed)
  | suspend pBoard =>
    refine hclass rfl (onBoard_runs h pBoard fun board hboard hallowed => ?_)
    refine ⟨_, (hailoPcieSuspend_runs hboard).bind (.pure _ _), ?_⟩
    rintro other hother
    cases hother
    exact consistent_of_interrupts hboard fun henabled => absurd henabled Bool.false_ne_true
  | resume pBoard ops =>
    refine hclass rfl (onBoard_runs h pBoard fun board hboard hallowed => ?_)
    refine ⟨some board, (hailoPcieResume_runs p board ops).bind (.pure _ _), ?_⟩
    rintro other hother
    cases hother
    exact hboard
  | remove pBoard =>
    refine hclass rfl (onBoard_runs h pBoard fun board hboard hallowed => ?_)
    rw [Bool.and_eq_true] at hallowed
    obtain ⟨left, hruns, hleft, -⟩ := hailoPcieRemove_runs hboard hallowed.2
    exact ⟨left, hruns, hleft⟩

theorem run_runs (p : ModuleParams) (h : Inv s) (events : List ModuleEvent) :
    (run p s events).value = none ∨
      ∃ s', (run p s events).Runs (stateHeld s) (some s') (stateHeld s') ∧ Inv s' ∧
        (s'.chrdevClass ≠ .null ↔
          s.chrdevClass ≠ .null ∨ events.any (reachesInsertion p) = true) := by
  induction events generalizing s with
  | nil => exact Or.inr ⟨s, .pure _ _, h, by simp⟩
  | cons event events ih =>
    rw [run]
    rcases step_runs p h event with hnone | ⟨between, hruns, hinv, hclass⟩
    · left
      rw [value_bind, hnone]
      rfl
    · rcases ih hinv with hnone | ⟨s', hruns', hinv', hclass'⟩
      · left
        rw [value_bind, hruns.value]
        exact hnone
      · refine Or.inr ⟨s', hruns.bind hruns', hinv', ?_⟩
        rw [hclass', hclass, List.any_cons, Bool.or_eq_true, or_assoc]

theorem inv_loaded : Inv loaded where
  boards := fun _ hentry => absurd hentry List.not_mem_nil
  created := fun hboards => absurd rfl hboards
  mutex := fun herror => by cases herror

/-- Without a class nothing is destroyed and nothing unregistered. -/
theorem hailoPcieUnregisterChrdev_runs (chrdevClass : ChrdevClass) :
    (hailoPcieUnregisterChrdev chrdevClass).Runs (.chrdev ::ₘ classHeld chrdevClass) ()
      (chrdevHeld (chrdevClass = .null)) := by
  cases chrdevClass with
  | null => exact .pure _ _
  | created =>
    have hpair : (.chrdev ::ₘ {.chrdevClass} : Multiset ModuleResource) =
        .chrdevClass ::ₘ .chrdev ::ₘ 0 := Multiset.pair_comm _ _
    rw [classHeld_created, hpair]
    exact (runs_release _ _).bind (runs_release _ _)
  | error => exact runs_release _ _

/-- Unloading gives back the boards, the driver and, if there is a class or was an attempt at
one, the character device. -/
theorem hailoPcieModuleExit_runs (h : Inv s) :
    (hailoPcieModuleExit s).value = none ∨
      (hailoPcieModuleExit s).Runs (.chrdev ::ₘ .pciDriver ::ₘ stateHeld s) (some ())
        (chrdevHeld (s.chrdevClass = .null)) := by
  unfold hailoPcieModuleExit
  split
  · exact Or.inl rfl
  · next hfiles =>
    split
    · exact Or.inl rfl
    · right
      have hfree : ∀ entry ∈ s.boards, (do
          let _ ← ofBoard entry.1 (hailoPcieRemove entry.2)
          return () : ModuleLedger Unit).Runs (entryHeld entry) () 0 := by
        intro entry hentry
        have hboard := h.boards entry hentry
        have hempty : entry.2.openFilesList = [] := by
          by_contra hopen
          exact hfiles (List.any_eq_true.mpr ⟨entry, hentry, by simpa using hopen⟩)
        have hdevice : entry.2.pDev = true := by
          by_contra hremoved
          exact hboard.kept (Bool.eq_false_of_not_eq_true hremoved) hempty
        obtain ⟨left, hruns, -, hgone⟩ := hailoPcieRemove_runs hboard hdevice
        rw [hgone hempty] at hruns
        have hremove := ofBoard_runs entry.1 hruns 0
        rw [add_zero, add_zero] at hremove
        exact hremove.bind (.pure _ _)
      have hheld : .chrdev ::ₘ .pciDriver ::ₘ stateHeld s = heldBy entryHeld s.boards +
          .pciDriver ::ₘ .chrdev ::ₘ classHeld s.chrdevClass := by
        rw [stateHeld]
        simp only [← Multiset.singleton_add]
        abel
      rw [hheld]
      refine (freeAll_runs hfree _).bind ((runs_release _ _).bind ?_)
      exact (hailoPcieUnregisterChrdev_runs s.chrdevClass).bind (.pure _ _)

end Held

/-- Loaded and unloaded, the module has given back whatever its boards took, in any order of
calls and with any of them failing. Its character device stays registered if no probe came as
far as the list of boards. -/
theorem moduleLife_takes {p : ModuleParams} {ops : ModuleOps} {events : List ModuleEvent}
    (h : (moduleLife p ops events).value = some ()) :
    (moduleLife p ops events).Takes 0 (chrdevHeld (ops.registerChrdev.isNone &&
      !(ops.pciRegisterDriver.isNone && events.any (reachesInsertion p)))) := by
  unfold moduleLife at h ⊢
  cases hchrdev : ops.registerChrdev with
  | some err => exact (Ledgered.Runs.pure _ _).takes
  | none =>
    rw [hchrdev] at h
    cases hdriver : ops.pciRegisterDriver with
    | some err =>
      exact ((runs_acquire _ _).bind
        (Ledgered.Runs.bind (.pure _ _) (.pure (some ()) _))).takes
    | none =>
      rw [hdriver] at h
      rcases run_runs p inv_loaded events with hnone | ⟨s, hruns, hinv, hclass⟩
      · simp only [value_bind, hnone] at h
        cases h
      · have hframed := Runs.frame hruns (.chrdev ::ₘ {.pciDriver})
        rw [show stateHeld loaded = 0 from rfl, zero_add, Multiset.add_cons, add_comm (stateHeld s),
          Multiset.singleton_add] at hframed
        have hstart : (.pciDriver ::ₘ .chrdev ::ₘ 0 : Multiset ModuleResource) =
            .chrdev ::ₘ {.pciDriver} := Multiset.pair_comm _ _
        rcases hailoPcieModuleExit_runs hinv with hexit | hexit
        · simp only [value_bind, hruns.value] at h
          rw [hexit] at h
          cases h
        · have hend : decide (s.chrdevClass = .null) = !events.any (reachesInsertion p) := by
            have hnull : loaded.chrdevClass = .null := rfl
            rw [hnull] at hclass
            simp only [ne_eq, not_true_eq_false, false_or] at hclass
            rw [Bool.eq_iff_iff, decide_eq_true_iff, Bool.not_eq_true', ← Bool.not_eq_true,
              ← hclass, not_not]
          rw [hend] at hexit
          refine Ledgered.Runs.takes (a := some ())
            ((runs_acquire _ _).bind ((runs_acquire _ _).bind ?_))
          rw [hstart]
          exact hframed.bind hexit

/-- A board that nothing fails for. -/
def workingProbe : ProbeOps where
  kzalloc := true
  pciEnableDevice := none
  boardType := .hailo8
  pciRequestRegions := none
  pciResourceLen := fun _ => 4096
  pciIomap := fun _ => 1
  iomap_empty := fun _ hlen => absurd hlen (by decide)
  deviceConnected := true
  readDevctl := .ok 0x2000
  devmKmallocArray := true
  dmaSetMaskAndCoherent := fun _ => none
  dmaMask := true
  kmalloc := true
  isDmaCapable := true
  activation := ⟨⟨none, none⟩, none, none⟩
  classCreate := none
  deviceCreate := none

/-- Unloaded without a board, and after a board that is removed while a file of it is open. -/
theorem moduleLife_takes_unusedAndUsed :
    (moduleLife ⟨0, 0, false, true⟩ ⟨none, none⟩ []).Takes 0 {.chrdev} ∧
    (moduleLife ⟨0, 0, false, true⟩ ⟨none, none⟩
      [.probe 7 workingProbe, .fopsOpen 7 3 ⟨⟨none, none⟩, true, true, true, none, true, true⟩,
        .remove 7, .fopsRelease 7 3]).Takes 0 0 :=
  ⟨moduleLife_takes rfl, moduleLife_takes rfl⟩

end HailortDrivers.ModuleLife
