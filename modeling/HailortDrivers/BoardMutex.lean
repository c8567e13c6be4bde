import HailortDrivers.BoardPrograms
import HailortDrivers.LockInvariants
import HailortDrivers.OwnedObjects

/-!
The entry points against `board->mutex`: whoever holds it sees lists of allocated objects
that are nowhere listed twice, and leaves such lists. Each handler says rightly whether it
still holds the mutex.
-/
namespace HailortDrivers.BoardMutex
open SemaphorePrograms LockInvariants LockInvariants.Discipline OwnedObjects FirmwareImage
  BoardPrograms
open FirmwareControl hiding hailoFwControlPreprocess
open SemaphorePrograms.Program (acquire acquireInterruptible release bugOn perform outcome)

variable {F V : Type}

/-- Every element of the list is allocated. -/
def Intact (s : BoardLists F V) (filp : F) (list : FileList) : Prop :=
  ∀ element ∈ s.lists (filp, list), (s.allocated element.object).isSome = true

/-- The step reads or frees no object that was freed before. -/
def SafeAction : ListAction F V → BoardLists F V → Prop
  | .find filp list _, s => Intact s filp list
  | .follow element, s => (s.allocated element.object).isSome = true
  | .create filp list _ _, s => Intact s filp list
  | .remove filp list element, s => Intact s filp list ∧ element ∈ s.lists (filp, list)
  | .clear filp list, s => Intact s filp list
  | _, _ => True

/-- A traversal or a use of what it found. -/
def ReadsList : ListAction F V → Prop
  | .find _ _ _ | .follow _ => True
  | _ => False

structure ListsOwned (s : BoardLists F V) : Prop where
  owned : Owned (fun _ => True) s.allocated fun k => (s.lists k).map ListElement.object
  fresh : ∀ object, s.objects ≤ object → s.allocated object = none

theorem ListsOwned.intact {s : BoardLists F V} (h : ListsOwned s) (filp : F) (list : FileList) :
    Intact s filp list := by
  intro element hmem
  obtain ⟨_, hsome, -⟩ := h.owned.present (filp, list) _ (List.mem_map_of_mem hmem)
  exact Option.isSome_iff_exists.mpr ⟨_, hsome⟩

theorem listsOwned_noFiles : ListsOwned (noFiles : BoardLists F V) :=
  ⟨owned_nothing, fun _ _ => rfl⟩

variable [DecidableEq F]

/-- With `unlocked`, lists may be read without the mutex. -/
def listDiscipline (F V : Type) [DecidableEq F] (unlocked : Prop) :
    Discipline Mutex (ListAction F V) (Found V) (BoardLists F V) where
  guard := .board
  apply := applyAction
  Safe := SafeAction
  Free := fun action => unlocked ∧ ReadsList action
  Inv := ListsOwned
  apply_free := by
    intro action s hfree
    cases action with
    | find => rfl
    | follow => rfl
    | _ => exact hfree.2.elim

section Actions
variable {s : BoardLists F V} {filp : F} {list : FileList}

theorem ListsOwned.setFile (h : ListsOwned s) (filp : F) (isOpen : Bool) :
    ListsOwned (s.setFile filp isOpen) := ⟨h.owned, h.fresh⟩

theorem map_object_update (lists : F × FileList → List (ListElement V)) (k : F × FileList)
    (elements : List (ListElement V)) :
    (fun k' => (Function.update lists k elements k').map ListElement.object) =
      Function.update (fun k' => (lists k').map ListElement.object) k
        (elements.map ListElement.object) := by
  funext k'
  by_cases hk : k' = k
  · rw [hk, Function.update_self, Function.update_self]
  · rw [Function.update_of_ne hk, Function.update_of_ne hk]

theorem ListsOwned.add (h : ListsOwned s) (filp : F) (list : FileList) (handle : UInt64)
    (value : V) : ListsOwned (s.add filp list handle value) where
  owned := by
    have halloc := h.owned.alloc (h.fresh _ (Nat.le_refl _)) (filp, list) (v := ()) trivial
    rw [← List.map_cons (f := ListElement.object) (a := ⟨s.objects, handle, value⟩),
      ← map_object_update] at halloc
    exact halloc
  fresh := by
    intro object hobject
    have hne : object ≠ s.objects := Nat.ne_of_gt hobject
    exact (Function.update_of_ne hne _ _).trans (h.fresh object (Nat.le_of_succ_le hobject))

theorem ListsOwned.keep (h : ListsOwned s) {kept : List (ListElement V)} {freed : Nat → Bool}
    (hkept : kept.Sublist (s.lists (filp, list)))
    (hfreed : ∀ object, freed object = true →
      object ∈ (s.lists (filp, list)).map ListElement.object ∧
        object ∉ kept.map ListElement.object) : ListsOwned (s.keep filp list kept freed) where
  owned := by
    have hshrink : Owned (fun _ => True) (s.keep filp list kept freed).allocated
        (Function.update (fun k => (s.lists k).map ListElement.object) (filp, list)
          (kept.map ListElement.object)) := by
      refine h.owned.shrink (fun k => ?_) fun k object hmem => ?_
      · by_cases hk : k = (filp, list)
        · rw [hk, Function.update_self]
          exact hkept.map _
        · rw [Function.update_of_ne hk]
      · refine if_neg fun hfree => ?_
        obtain ⟨hlisted, hgone⟩ := hfreed object hfree
        by_cases hk : k = (filp, list)
        · rw [hk, Function.update_self] at hmem
          exact hgone hmem
        · rw [Function.update_of_ne hk] at hmem
          exact hk (h.owned.disjoint k (filp, list) object hmem hlisted)
    rw [← map_object_update] at hshrink
    exact hshrink
  fresh := by
    intro object hobject
    change (if freed object = true then none else s.allocated object) = none
    rw [h.fresh object hobject, ite_self]

theorem ListsOwned.remove (h : ListsOwned s) {element : ListElement V}
    (hmem : element ∈ s.lists (filp, list)) :
    ListsOwned (applyAction (.remove filp list element) s).1 := by
  refine h.keep List.filter_sublist fun object hobject => ?_
  rw [decide_eq_true_eq] at hobject
  subst hobject
  refine ⟨List.mem_map_of_mem hmem, fun hkept => ?_⟩
  obtain ⟨other, hother, heq⟩ := List.mem_map.mp hkept
  simp [heq] at hother

theorem ListsOwned.clear (h : ListsOwned s) :
    ListsOwned (applyAction (.clear filp list) s).1 := by
  refine h.keep (List.nil_sublist _) fun object hobject => ⟨?_, List.not_mem_nil⟩
  obtain ⟨element, hmem, heq⟩ := List.any_eq_true.mp hobject
  exact List.mem_map.mpr ⟨element, hmem, of_decide_eq_true heq⟩

end Actions

/-- Whether the handler still has the mutex, and so leaves the `up` to its caller. -/
def Holding (shouldUpBoardMutex : Bool) (view : Option (BoardLists F V)) : Prop :=
  if shouldUpBoardMutex then ∃ s, view = some s ∧ ListsOwned s else view = none

omit [DecidableEq F] in
theorem holding_true {s : BoardLists F V} (h : ListsOwned s) : Holding true (some s) :=
  ⟨s, rfl, h⟩

section Rules
variable {unlocked : Prop} {α : Type} {s : BoardLists F V} {view : Option (BoardLists F V)}
  {Q : α → Option (BoardLists F V) → Prop}

theorem verified_outcome_bind {next : Bool → BoardProgram F V α}
    (h : ∀ answer, (listDiscipline F V unlocked).Verified (next answer) view Q) :
    (listDiscipline F V unlocked).Verified (outcome >>= next) view Q :=
  (verified_outcome view).bind fun answer _ hview => hview ▸ h answer

/-- A failed check ends one way, a passed one goes on. -/
theorem verified_check {failed next : BoardProgram F V α}
    (hfailed : (listDiscipline F V unlocked).Verified failed view Q)
    (hnext : (listDiscipline F V unlocked).Verified next view Q) :
    (listDiscipline F V unlocked).Verified
      (outcome >>= fun ok => if (!ok) = true then failed else next) view Q := by
  refine verified_outcome_bind fun ok => ?_
  cases ok with
  | false => exact hfailed
  | true => exact hnext

theorem verified_perform_bind {action : ListAction F V} {next : Found V → BoardProgram F V α}
    (hsafe : SafeAction action s)
    (hnext : (listDiscipline F V unlocked).Verified (next (applyAction action s).2)
      (some (applyAction action s).1) Q) :
    (listDiscipline F V unlocked).Verified (perform action >>= next) (some s) Q := by
  have hperform : (listDiscipline F V unlocked).Verified (perform action) (some s)
      fun result after => result = (applyAction action s).2 ∧
        after = some (applyAction action s).1 := verified_perform hsafe
  refine hperform.bind ?_
  rintro result after ⟨rfl, rfl⟩
  exact hnext

theorem verified_run {action : ListAction F V} {next : BoardProgram F V α}
    (hsafe : SafeAction action s)
    (hnext : (listDiscipline F V unlocked).Verified next (some (applyAction action s).1) Q) :
    (listDiscipline F V unlocked).Verified (run action >>= fun _ => next) (some s) Q :=
  verified_perform_bind hsafe hnext

theorem verified_findElement (h : ListsOwned s) {filp : F} {list : FileList}
    {wanted : ListElement V → Bool} {next : Option (ListElement V) → BoardProgram F V α}
    (hnone : (listDiscipline F V unlocked).Verified (next none) (some s) Q)
    (hsome : ∀ element ∈ s.lists (filp, list),
      (listDiscipline F V unlocked).Verified (next (some element)) (some s) Q) :
    (listDiscipline F V unlocked).Verified (findElement filp list wanted >>= next) (some s) Q := by
  refine verified_perform_bind (h.intact filp list) ?_
  change (listDiscipline F V unlocked).Verified (next ((s.lists (filp, list)).find? wanted))
    (some s) Q
  cases hcase : (s.lists (filp, list)).find? wanted with
  | none => exact hnone
  | some element => exact hsome element (List.mem_of_find?_eq_some hcase)

theorem verified_findFileContext {filp : F} {next : Bool → BoardProgram F V α}
    (hnext : ∀ found, (listDiscipline F V unlocked).Verified (next found) (some s) Q) :
    (listDiscipline F V unlocked).Verified (findFileContext filp >>= next) (some s) Q :=
  verified_perform_bind trivial (hnext _)

theorem verified_up (unlocked : Prop) (h : ListsOwned s) :
    (listDiscipline F V unlocked).Verified (release .board : BoardProgram F V Unit) (some s)
      Ends := verified_release rfl h

theorem verified_releaseBoard (h : ListsOwned s) {next : BoardProgram F V α}
    (hnext : (listDiscipline F V unlocked).Verified next none Q) :
    (listDiscipline F V unlocked).Verified (release .board >>= fun _ => next) (some s) Q :=
  (verified_release (d := listDiscipline F V unlocked) rfl h).bind fun _ _ hview => hview ▸ hnext

theorem verified_acquireBoard {interrupted next : BoardProgram F V α}
    (hinterrupted : (listDiscipline F V unlocked).Verified interrupted none Q)
    (hnext : ∀ s, ListsOwned s → (listDiscipline F V unlocked).Verified next (some s) Q) :
    (listDiscipline F V unlocked).Verified
      (acquireInterruptible .board >>= fun got => if (!got) = true then interrupted else next)
      none Q := by
  refine (verified_acquireInterruptible (d := listDiscipline F V unlocked) rfl).bind
    fun got view hgot => ?_
  cases got with
  | false => exact hgot ▸ hinterrupted
  | true =>
    obtain ⟨s, rfl, hs⟩ := hgot
    exact hnext s hs

end Rules

/-- A handler takes over the mutex with the lists in order, and says whether it still has it. -/
def VerifiedHandler (unlocked : Prop) (handler : BoardProgram F V Bool) : Prop :=
  ∀ s, ListsOwned s → (listDiscipline F V unlocked).Verified handler (some s) Holding

section Handlers
variable (unlocked : Prop) (filp : F)

theorem verified_plainIoctl : VerifiedHandler unlocked (plainIoctl : BoardProgram F V Bool) :=
  fun _ hs => verified_outcome_bind fun _ => holding_true hs

theorem verified_interruptsWait :
    VerifiedHandler unlocked (hailoVdmaInterruptsWaitIoctl : BoardProgram F V Bool) := by
  intro s hs
  refine verified_check (holding_true hs) (verified_releaseBoard hs ?_)
  refine verified_check rfl (verified_acquireBoard rfl fun s' hs' => ?_)
  exact verified_plainIoctl unlocked s' hs'

theorem verified_readNotification :
    VerifiedHandler unlocked (hailoReadNotificationIoctl : BoardProgram F V Bool) := by
  intro s hs
  refine verified_check (holding_true hs) (verified_releaseBoard hs ?_)
  refine verified_check rfl (verified_acquireBoard rfl fun s' hs' => ?_)
  exact verified_plainIoctl unlocked s' hs'

theorem verified_bufferMap (allocatedBufferHandle mappedHandle : UInt64) (value : V) :
    VerifiedHandler unlocked
      (hailoVdmaBufferMapIoctl filp allocatedBufferHandle mappedHandle value) := by
  intro s hs
  have hmap : (listDiscipline F V unlocked).Verified (do
      if !(← outcome) then return true
      if !(← outcome) then return true
      run (.create filp .mappedUserBufferList mappedHandle value)
      return true) (some s) Holding := by
    refine verified_check (holding_true hs) (verified_check (holding_true hs) ?_)
    refine verified_run (hs.intact filp _) ?_
    exact holding_true (hs.add filp _ mappedHandle value)
  refine verified_check (holding_true hs) (verified_findElement hs hmap fun element hmem => ?_)
  exact verified_run (hs.intact filp _ element hmem) hmap

theorem verified_remove (list : FileList) (handle : UInt64) :
    VerifiedHandler unlocked (removeIoctl filp list handle : BoardProgram F V Bool) := by
  intro s hs
  refine verified_check (holding_true hs)
    (verified_findElement hs (holding_true hs) fun element hmem => ?_)
  refine verified_run ⟨hs.intact filp list, hmem⟩ ?_
  exact holding_true (hs.remove hmem)

theorem verified_create (list : FileList) (handle : UInt64) (value : V) :
    VerifiedHandler unlocked (createIoctl filp list handle value) := by
  intro s hs
  have hadd := hs.add filp list handle value
  refine verified_check (holding_true hs) ?_
  refine verified_perform_bind (hs.intact filp list) (verified_outcome_bind fun copied => ?_)
  cases copied with
  | true => exact holding_true hadd
  | false =>
    have hmem : (⟨s.objects, handle, value⟩ : ListElement V) ∈
        (s.add filp list handle value).lists (filp, list) := by
      simp [BoardLists.add]
    exact verified_run ⟨hadd.intact filp list, hmem⟩ (holding_true (hadd.remove hmem))

theorem verified_bufferSync (handle : UInt64) :
    VerifiedHandler unlocked (hailoVdmaBufferSyncIoctl filp handle : BoardProgram F V Bool) := by
  intro s hs
  refine verified_check (holding_true hs)
    (verified_findElement hs (holding_true hs) fun element hmem => ?_)
  exact verified_run (hs.intact filp _ element hmem) (holding_true hs)

theorem verified_followBoth (list list' : FileList) (handle handle' : UInt64) :
    VerifiedHandler unlocked
      (followBoth filp list handle list' handle' : BoardProgram F V Bool) := by
  intro s hs
  refine verified_check (holding_true hs) ?_
  refine verified_findElement hs ?_ fun element hmem => ?_
  · exact verified_findElement hs (holding_true hs) fun _ _ => holding_true hs
  · refine verified_findElement hs (holding_true hs) fun element' hmem' => ?_
    refine verified_run (hs.intact filp list element hmem) ?_
    exact verified_run (hs.intact filp list' element' hmem') (holding_true hs)

/-- The loops over found elements leave the lists as they are. -/
theorem verified_mapTransferBuffers (buffers : List (ListElement V → Bool))
    {s : BoardLists F V} (hs : ListsOwned s) :
    (listDiscipline F V unlocked).Verified (mapTransferBuffers filp buffers) (some s)
      fun _ after => after = some s := by
  induction buffers with
  | nil => exact verified_pure rfl
  | cons wanted buffers ih =>
    refine verified_findElement hs (verified_pure rfl) fun element hmem => ?_
    exact verified_run (hs.intact filp _ element hmem) ih

theorem verified_launchTransfer (descHandle : UInt64) (buffers : List (ListElement V → Bool)) :
    VerifiedHandler unlocked (hailoVdmaLaunchTransferIoctl filp descHandle buffers) := by
  intro s hs
  refine verified_check (holding_true hs)
    (verified_findElement hs (holding_true hs) fun element hmem => ?_)
  refine (verified_mapTransferBuffers unlocked filp buffers hs).bind ?_
  rintro mapped after rfl
  cases mapped with
  | true => exact verified_run (hs.intact filp _ element hmem) (holding_true hs)
  | false => exact holding_true hs

/-- The request is a context info with handles, which are looked up without the mutex. -/
def TranslatesHandles (opcode : Nat) (handles : List UInt64) : Prop :=
  opcode = hailoControlOpcodeContextSwitchSetContextInfo ∧ handles ≠ [] ∧
    handles.length ≤ controlProtocolMaxVdmaChannelsPerEngine

theorem verified_translateHandles (hunlocked : unlocked) (handles : List UInt64) :
    (listDiscipline F V unlocked).Verified (translateHandles filp handles : BoardProgram F V Bool)
      none fun _ after => after = none := by
  induction handles with
  | nil => exact verified_pure rfl
  | cons handle handles ih =>
    refine ⟨⟨hunlocked, trivial⟩, fun result => ?_⟩
    cases result with
    | nothing => exact verified_pure rfl
    | context found => exact verified_pure rfl
    | element element =>
      cases element with
      | none => exact verified_pure rfl
      | some element => exact ⟨⟨hunlocked, trivial⟩, fun _ => ih⟩

theorem verified_preprocess {opcode : Nat} {handles : List UInt64}
    (h : unlocked ∨ ¬ TranslatesHandles opcode handles) :
    (listDiscipline F V unlocked).Verified
      (hailoFwControlPreprocess filp opcode handles : BoardProgram F V Bool) none
      fun _ after => after = none := by
  rw [hailoFwControlPreprocess]
  split_ifs with hopcode hlength
  · exact verified_pure rfl
  · exact verified_pure rfl
  · rcases h with hunlocked | hnot
    · exact verified_translateHandles unlocked filp hunlocked handles
    · cases handles with
      | nil => exact verified_pure rfl
      | cons handle handles =>
        exact absurd ⟨not_not.mp hopcode, List.cons_ne_nil _ _, Nat.le_of_not_lt hlength⟩ hnot

theorem verified_fwControl {opcode : Nat} {handles : List UInt64}
    (h : unlocked ∨ ¬ TranslatesHandles opcode handles) :
    VerifiedHandler unlocked (hailoFwControl filp opcode handles : BoardProgram F V Bool) := by
  have hfwControl : Mutex.fwControl ≠ (listDiscipline F V unlocked).guard := by
    intro heq
    cases heq
  intro s hs
  refine verified_releaseBoard hs ?_
  refine (verified_acquireInterruptible_other hfwControl none).bind ?_
  rintro got after rfl
  cases got with
  | false => exact verified_pure rfl
  | true =>
    have hlast : (listDiscipline F V unlocked).Verified
        (release .fwControl >>= fun _ => pure false : BoardProgram F V Bool) none Holding := by
      refine (verified_release_other hfwControl none).bind ?_
      rintro _ after rfl
      exact verified_pure rfl
    refine verified_outcome_bind fun copied => ?_
    cases copied with
    | false => exact hlast
    | true =>
      refine (verified_preprocess unlocked filp h).bind ?_
      rintro processed after rfl
      cases processed with
      | false => exact hlast
      | true => exact verified_outcome_bind fun _ => hlast

end Handlers

section Calls
variable (unlocked : Prop) (acceleratorType : HailoAcceleratorType) (filp : F)

/-- No handle is looked up without the mutex, or lists may be read without it. -/
def IoctlAdmitted : BoardIoctl V → Prop
  | .fwControl opcode handles =>
    unlocked ∨ (acceleratorType = .nnc → ¬ TranslatesHandles opcode handles)
  | _ => True

theorem verified_handleIoctl {cmd : BoardIoctl V}
    (h : IoctlAdmitted unlocked acceleratorType cmd) :
    VerifiedHandler unlocked (handleIoctl acceleratorType filp cmd) := by
  have hplain := verified_plainIoctl (F := F) (V := V) unlocked
  cases cmd with
  | vdmaInterruptsWait => exact verified_interruptsWait unlocked
  | vdmaBufferMap => exact verified_bufferMap unlocked filp _ _ _
  | vdmaBufferUnmap => exact verified_remove unlocked filp _ _
  | vdmaBufferSync => exact verified_bufferSync unlocked filp _
  | descListCreate => exact verified_create unlocked filp _ _ _
  | descListRelease => exact verified_remove unlocked filp _ _
  | descListProgram => exact verified_followBoth unlocked filp _ _ _ _
  | vdmaLowMemoryBufferAlloc => exact verified_create unlocked filp _ _ _
  | vdmaLowMemoryBufferFree => exact verified_remove unlocked filp _ _
  | vdmaContinuousBufferAlloc => exact verified_create unlocked filp _ _ _
  | vdmaContinuousBufferFree => exact verified_remove unlocked filp _ _
  | vdmaLaunchTransfer => exact verified_launchTransfer unlocked filp _ _
  | socConnect =>
    rw [handleIoctl]
    split
    · exact fun s hs => holding_true hs
    · exact verified_followBoth unlocked filp _ _ _ _
  | fwControl =>
    rw [handleIoctl]
    split
    · exact fun s hs => holding_true hs
    · next hnnc => exact verified_fwControl unlocked filp (h.imp_right fun h => h (not_not.mp hnnc))
  | readNotification =>
    rw [handleIoctl]
    split
    · exact fun s hs => holding_true hs
    · exact verified_readNotification unlocked
  | _ => exact hplain

/-- Without a file context, or with an invalid one, the call gives the mutex back. -/
theorem verified_context {s : BoardLists F V} (hs : ListsOwned s)
    {next : BoardProgram F V Unit}
    (hnext : (listDiscipline F V unlocked).Verified next (some s) Ends) :
    (listDiscipline F V unlocked).Verified (do
      if !(← findFileContext filp) then
        release .board
        return
      if !(← outcome) then
        release .board
        return
      next) (some s) Ends := by
  have hup : (listDiscipline F V unlocked).Verified
      (release .board >>= fun _ => pure () : BoardProgram F V Unit) (some s) Ends :=
    verified_releaseBoard hs (verified_pure rfl)
  refine verified_findFileContext fun found => ?_
  cases found with
  | false => exact hup
  | true => exact verified_check hup hnext

theorem verified_ioctl {cmd : BoardIoctl V} (h : IoctlAdmitted unlocked acceleratorType cmd) :
    (listDiscipline F V unlocked).Verified (hailoPcieFopsUnlockedioctl acceleratorType filp cmd)
      none Ends := by
  refine verified_check (verified_pure rfl)
    (verified_acquireBoard (verified_pure rfl) fun s hs => ?_)
  refine (verified_bugOn (d := listDiscipline F V unlocked) rfl s).bind ?_
  rintro _ after rfl
  refine verified_context unlocked filp hs ?_
  refine (verified_handleIoctl unlocked acceleratorType filp h s hs).bind ?_
  rintro shouldUp after hholding
  cases shouldUp with
  | true =>
    obtain ⟨s', rfl, hs'⟩ := hholding
    exact verified_releaseBoard hs' (verified_pure rfl)
  | false => exact verified_pure hholding

theorem verified_mmap (vdmaHandle : UInt64) :
    (listDiscipline F V unlocked).Verified
      (hailoPcieFopsMmap filp vdmaHandle : BoardProgram F V Unit) none Ends := by
  refine verified_check (verified_pure rfl)
    (verified_acquireBoard (verified_pure rfl) fun s hs => ?_)
  refine verified_context unlocked filp hs ?_
  have hmmap : (listDiscipline F V unlocked).Verified
      (hailoVdmaMmap filp vdmaHandle : BoardProgram F V Unit) (some s)
      fun _ after => after = some s := by
    refine verified_findElement hs ?_ fun element hmem => ?_
    · refine verified_findElement hs (verified_pure rfl) fun element hmem => ?_
      exact verified_run (hs.intact filp _ element hmem) (verified_pure rfl)
    · exact verified_run (hs.intact filp _ element hmem) (verified_pure rfl)
  refine hmmap.bind ?_
  rintro _ after rfl
  exact verified_releaseBoard hs (verified_pure rfl)

theorem verified_getBoardIndex {next : Bool → BoardProgram F V Unit}
    (hnext : ∀ found, (listDiscipline F V unlocked).Verified (next found) none Ends) :
    (listDiscipline F V unlocked).Verified (hailoPcieGetBoardIndex >>= next) none Ends := by
  have haddBoard : Mutex.addBoard ≠ (listDiscipline F V unlocked).guard := by
    intro heq
    cases heq
  have hindex : (listDiscipline F V unlocked).Verified
      (hailoPcieGetBoardIndex : BoardProgram F V Bool) none fun _ after => after = none := by
    refine (verified_acquire_other haddBoard none).bind ?_
    rintro _ after rfl
    refine verified_outcome_bind fun found => ?_
    refine (verified_release_other haddBoard none).bind ?_
    rintro _ after rfl
    exact verified_pure rfl
  refine hindex.bind ?_
  rintro found after rfl
  exact hnext found

theorem verified_open :
    (listDiscipline F V unlocked).Verified
      (hailoPcieFopsOpen filp : BoardProgram F V Unit) none Ends := by
  refine verified_getBoardIndex unlocked fun found => ?_
  cases found with
  | false => exact verified_pure rfl
  | true =>
    refine verified_acquireBoard (verified_pure rfl) fun s hs => ?_
    refine verified_check (verified_releaseBoard hs (verified_pure rfl)) ?_
    refine verified_run trivial ?_
    have hopened := hs.setFile filp true
    have hfailed : (listDiscipline F V unlocked).Verified (do
        run (.releaseFileContext filp)
        release .board : BoardProgram F V Unit) (some (s.setFile filp true)) Ends :=
      verified_run trivial (verified_up unlocked (hopened.setFile filp false))
    refine verified_outcome_bind fun powered => ?_
    cases powered with
    | false => exact hfailed
    | true =>
      refine verified_outcome_bind fun connected => ?_
      cases connected with
      | false => exact hfailed
      | true =>
        refine verified_outcome_bind fun enabled => ?_
        cases enabled with
        | false => exact hfailed
        | true =>
          refine verified_outcome_bind fun initialized => ?_
          cases initialized with
          | false => exact hfailed
          | true => exact verified_releaseBoard hopened (verified_pure rfl)

theorem verified_clear {s : BoardLists F V} (hs : ListsOwned s) (list : FileList)
    {next : BoardProgram F V Unit} {Q : Unit → Option (BoardLists F V) → Prop}
    (hnext : ∀ s, ListsOwned s → (listDiscipline F V unlocked).Verified next (some s) Q) :
    (listDiscipline F V unlocked).Verified (run (.clear filp list) >>= fun _ => next) (some s) Q :=
  verified_run (hs.intact filp list) (hnext _ hs.clear)

theorem verified_fopsRelease :
    (listDiscipline F V unlocked).Verified
      (hailoPcieFopsRelease filp : BoardProgram F V Unit) none Ends := by
  refine (verified_acquire (d := listDiscipline F V unlocked) rfl).bind ?_
  rintro _ after ⟨s, rfl, hs⟩
  refine verified_findFileContext fun found => ?_
  cases found with
  | false => exact verified_releaseBoard hs (verified_pure rfl)
  | true =>
    refine verified_outcome_bind fun _ => ?_
    have hfinalize : (listDiscipline F V unlocked).Verified
        (hailoVdmaFileContextFinalize filp : BoardProgram F V Unit) (some s)
        fun _ after => ∃ s, after = some s ∧ ListsOwned s := by
      refine verified_clear unlocked filp hs _ fun s hs => ?_
      refine verified_clear unlocked filp hs _ fun s hs => ?_
      refine verified_clear unlocked filp hs _ fun s hs => ?_
      exact verified_run (hs.intact filp _) (verified_pure ⟨_, rfl, hs.clear⟩)
    refine hfinalize.bind ?_
    rintro _ after ⟨s, rfl, hs⟩
    refine verified_run trivial ?_
    have hup := verified_up unlocked (hs.setFile filp false)
    refine verified_outcome_bind fun last => ?_
    cases last with
    | false => exact hup
    | true =>
      refine verified_outcome_bind fun _ => verified_outcome_bind fun gone => ?_
      cases gone with
      | false => exact hup
      | true => exact hup

theorem verified_driverDown :
    (listDiscipline F V unlocked).Verified (driverDownLocked : BoardProgram F V Unit) none
      Ends := by
  refine (verified_acquire (d := listDiscipline F V unlocked) rfl).bind ?_
  rintro _ after ⟨s, rfl, hs⟩
  have hup := verified_up unlocked hs
  refine verified_outcome_bind fun used => ?_
  cases used with
  | false => exact hup
  | true => exact verified_outcome_bind fun _ => hup

def CallAdmitted : BoardCall F V → Prop
  | .ioctl _ cmd => IoctlAdmitted unlocked acceleratorType cmd
  | _ => True

theorem verified_boardProgram {call : BoardCall F V}
    (h : CallAdmitted unlocked acceleratorType call) :
    (listDiscipline F V unlocked).Verified (boardProgram acceleratorType call) none Ends := by
  cases call with
  | «open» filp => exact verified_open unlocked filp
  | release filp => exact verified_fopsRelease unlocked filp
  | ioctl filp cmd => exact verified_ioctl unlocked acceleratorType filp h
  | mmap filp vdmaHandle => exact verified_mmap unlocked filp vdmaHandle
  | suspend => exact verified_driverDown unlocked
  | resetPrepare => exact verified_driverDown unlocked

end Calls

end HailortDrivers.BoardMutex
