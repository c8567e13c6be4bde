import HailortDrivers.BoardMutex

/-!
Runs of any number of threads in the entry points of a board. The board mutex is balanced in
all of them. The lists of a file are read and changed under it as long as no firmware control
looks up the handles of a translation table.
-/
namespace HailortDrivers.BoardMutexRuns
open SemaphorePrograms LockInvariants FirmwareImage BoardPrograms BoardMutex EventRuns

variable {T F V : Type}

abbrev BoardMachine (T F V : Type) :=
  Machine T Mutex (ListAction F V) (Found V) Unit (BoardLists F V)

/-- A call returns without the mutex, gives up only what it holds, and finds the count as the
`BUG_ON` expects it. -/
structure MutexBalanced (m : BoardMachine T F V) : Prop where
  count : (m.locks .board).count = 0 ∨ (m.locks .board).count = 1
  releasedByHolder : ∀ t next, m.calls t = some (.up .board next) → m.owner .board = some t
  returned : ∀ t, m.calls t = none ∨ m.calls t = some (.done ()) → m.owner .board ≠ some t
  bugOn : m.bugged = false

/-- The step reads or changes a list of a file, or uses an element of one. -/
def OnLists : ListAction F V → Prop
  | .findFileContext _ | .createFileContext _ | .releaseFileContext _ => False
  | _ => True

/-- Whoever is at a list holds the mutex, and what it reads is allocated. -/
def ListsGuarded (m : BoardMachine T F V) : Prop :=
  ∀ t action next, m.calls t = some (.act action next) → OnLists action →
    m.owner .board = some t ∧ SafeAction action m.shared

variable [DecidableEq T] [DecidableEq F] {m : BoardMachine T F V}

theorem mutexBalanced_of_sound {unlocked : Prop}
    (h : Sound (listDiscipline F V unlocked) m) : MutexBalanced m where
  count := by
    rw [show (m.locks .board).count = if (m.owner .board).isNone then 1 else 0 from h.count]
    split
    · exact Or.inr rfl
    · exact Or.inl rfl
  releasedByHolder := fun _ _ hcall => h.owner_of_up hcall
  returned := by
    rintro t (hidle | hdone)
    · exact h.idle t hidle
    · exact owner_ne_of_view (h.verified t _ hdone)
  bugOn := h.quiet

/-- The steps of a run in which only some calls are made. -/
abbrev BoardRun (acceleratorType : HailoAcceleratorType) (Admitted : BoardCall F V → Prop)
    (m : BoardMachine T F V) : Prop :=
  Relation.ReflTransGen (Steps (boardProgram acceleratorType) applyAction Admitted)
    (idle noFiles) m

/-- `0` opens file `0`, where everything succeeds. -/
def openEvents : List (Event Nat (BoardCall Nat Unit)) :=
  .start 0 (.open 0) :: List.replicate 12 (.run 0 true)

/-- Whatever succeeds, fails or is interrupted, the mutex is balanced. -/
theorem mutexBalanced_of_run {acceleratorType : HailoAcceleratorType}
    (hrun : BoardRun acceleratorType (fun _ => True) m) : MutexBalanced m := by
  refine mutexBalanced_of_sound (sound_of_run (d := listDiscipline F V True) ?_ hrun
    (sound_idle listsOwned_noFiles))
  intro call _
  refine verified_boardProgram True acceleratorType ?_
  cases call with
  | ioctl filp cmd =>
    cases cmd with
    | fwControl => exact Or.inl trivial
    | _ => trivial
  | _ => trivial

/-- `0` waits for interrupts of a channel, is woken, and is interrupted in its sleep on the mutex
that `1` holds in suspend. -/
theorem mutexBalanced_of_run_interruptedWait :
    ∃ m : BoardMachine Nat Nat Unit, m.calls 0 = none ∧ m.owner .board = some 1 ∧
      MutexBalanced m := by
  obtain ⟨m, hrun, hreturned, howner⟩ : ∃ m : BoardMachine Nat Nat Unit,
      BoardRun .nnc (fun _ => True) m ∧ m.calls 0 = none ∧ m.owner .board = some 1 :=
    ⟨_, steps_of_events _ _ (openEvents ++
        .start 0 (.ioctl 0 .vdmaInterruptsWait) :: List.replicate 8 (.run 0 true) ++
        [.start 1 .suspend, .run 1 true, .run 0 true, .interrupt 0, .run 0 true])
      (fun _ _ _ => trivial) rfl, rfl, rfl⟩
  exact ⟨m, hreturned, howner, mutexBalanced_of_run hrun⟩

/-- A call on the lists, not one that follows pointers which the channels keep, and no firmware
control that looks up handles. -/
def KeepsToMutex (acceleratorType : HailoAcceleratorType) : BoardCall F V → Prop
  | .ioctl _ .vdmaEnableChannels | .ioctl _ .vdmaDisableChannels
  | .ioctl _ .vdmaInterruptsWait => False
  | .ioctl _ (.fwControl opcode handles) =>
    acceleratorType = .nnc → ¬ TranslatesHandles opcode handles
  | _ => True

theorem listsGuarded_of_run {acceleratorType : HailoAcceleratorType}
    (hrun : BoardRun acceleratorType (KeepsToMutex acceleratorType) m) : ListsGuarded m := by
  have hsound : Sound (listDiscipline F V False) m := by
    refine sound_of_run (fun call hcall => ?_) hrun (sound_idle listsOwned_noFiles)
    refine verified_boardProgram False acceleratorType ?_
    cases call with
    | ioctl filp cmd =>
      cases cmd with
      | fwControl => exact Or.inr hcall
      | _ => trivial
    | _ => trivial
  intro t action next hcall _
  exact hsound.owner_of_act hcall fun hfree => hfree.1

/-- `0` opens file `0` and creates a descriptors list on it. -/
def createEvents : List (Event Nat (BoardCall Nat Unit)) :=
  openEvents ++ .start 0 (.ioctl 0 (.descListCreate 4096 ())) :: List.replicate 10 (.run 0 true)

/-- `1` launches a transfer over the list. -/
theorem listsGuarded_of_run_launch :
    ∃ (m : BoardMachine Nat Nat Unit) (next : Found Unit → BoardProgram Nat Unit Unit),
      m.calls 1 = some (.act (.follow ⟨0, 4096, ()⟩) next) ∧ ListsGuarded m := by
  obtain ⟨m, hrun, next, hcall⟩ : ∃ m : BoardMachine Nat Nat Unit,
      BoardRun .nnc (KeepsToMutex .nnc) m ∧ ∃ next : Found Unit → BoardProgram Nat Unit Unit,
        m.calls 1 = some (.act (.follow ⟨0, 4096, ()⟩) next) := by
    refine ⟨_, steps_of_events _ _ (createEvents ++
        .start 1 (.ioctl 0 (.vdmaLaunchTransfer 4096 [])) :: List.replicate 7 (.run 1 true))
      (fun t call hmem => ?_) rfl, _, rfl⟩
    simp [createEvents, openEvents] at hmem
    rcases hmem with ⟨-, rfl⟩ | ⟨-, rfl⟩ | ⟨-, rfl⟩ <;> trivial
  exact ⟨m, next, hcall, listsGuarded_of_run hrun⟩

/-- `1` looks a handle up for the firmware without the mutex. Before it reads the `dma_address`
of the element it found, `0` has released that. -/
theorem translatedHandle_readAfterRelease :
    ∃ (m : BoardMachine Nat Nat Unit) (next : Found Unit → BoardProgram Nat Unit Unit),
      BoardRun .nnc (fun _ => True) m ∧
      m.calls 1 = some (.act (.follow ⟨0, 4096, ()⟩) next) ∧ m.owner .board ≠ some 1 ∧
      m.shared.allocated 0 = none ∧ ¬ ListsGuarded m := by
  obtain ⟨m, hrun, next, hcall, howner, hreleased⟩ : ∃ m : BoardMachine Nat Nat Unit,
      BoardRun .nnc (fun _ => True) m ∧ ∃ next : Found Unit → BoardProgram Nat Unit Unit,
        m.calls 1 = some (.act (.follow ⟨0, 4096, ()⟩) next) ∧ m.owner .board = none ∧
          m.shared.allocated 0 = none :=
    ⟨_, steps_of_events _ _ (createEvents ++
        .start 1 (.ioctl 0 (.fwControl 33 [4096])) :: List.replicate 9 (.run 1 true) ++
        .start 0 (.ioctl 0 (.descListRelease 4096)) :: List.replicate 10 (.run 0 true))
      (fun _ _ _ => trivial) rfl, _, rfl, rfl, rfl⟩
  have hnot : m.owner .board ≠ some 1 := by
    rw [howner]
    intro heq
    cases heq
  exact ⟨m, next, hrun, hcall, hnot, hreleased, fun h => hnot (h 1 _ next hcall trivial).1⟩

end HailortDrivers.BoardMutexRuns
