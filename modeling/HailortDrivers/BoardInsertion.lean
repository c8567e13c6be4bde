import HailortDrivers.BoardNumbers
import HailortDrivers.SemaphorePrograms

/-!
Inserting boards while others are probed, opened and removed. Each call takes
`g_hailo_add_board_mutex`; an insertion that finds no class creates one while it has the mutex, and
returns without giving it back if that fails.
-/
namespace HailortDrivers.BoardInsertion
open SemaphorePrograms BoardNumbers EventRuns

/-- `g_chrdev_class`: `NULL`, a class, or the error pointer of `class_create`. -/
inductive ChrdevClass
  | null
  | created
  | error
deriving DecidableEq

inductive BoardCall
  | insert (pBoard : Nat)
  | remove (pBoard : Nat)
  | get (index : UInt32)
deriving DecidableEq

/-- Asleep in `down`, behind it, or in front of `up`. -/
inductive CallState
  | asleep (call : BoardCall)
  | entered (call : BoardCall)
  | leaving
deriving DecidableEq

structure BoardSystem (T : Type) where
  boards : List ListedBoard
  chrdevClass : ChrdevClass
  addBoardMutex : Semaphore T
  calls : T → Option CallState

/-- A thread makes a call, gets its answer from `class_create`, does what it has the mutex for, or
gives it back. -/
inductive Event (T : Type)
  | call (t : T) (call : BoardCall)
  | createClass (t : T) (created : Bool)
  | update (t : T)
  | up (t : T)

/-- The driver as it is loaded. -/
def loaded (T : Type) : BoardSystem T where
  boards := []
  chrdevClass := .null
  addBoardMutex := ⟨1, []⟩
  calls := fun _ => none

variable {T : Type}

def wake : Option CallState → Option CallState
  | some (.asleep call) => some (.entered call)
  | state => state

/-- The list after a call, which an insertion changes once there is a class. A board is removed
that was inserted before. -/
def updatedBoards (s : BoardSystem T) : BoardCall → Option (List ListedBoard)
  | .insert pBoard =>
    if s.chrdevClass = .null then none else some (hailoPcieInsertBoard pBoard s.boards).2
  | .remove pBoard =>
    if s.boards.any (fun listed => listed.board = pBoard) then
      some (hailoPcieRemoveBoard pBoard s.boards)
    else none
  | .get index => some (hailoPcieGetBoardIndex index s.boards).2

/-- The thread has the mutex and is in the call that it will give it back in. -/
def Holds (s : BoardSystem T) (t : T) : Prop :=
  (∃ call, s.calls t = some (.entered call)) ∨ s.calls t = some .leaving

/-- The mutex is free or will be, and there is no error pointer in the place of the class. -/
structure Usable (s : BoardSystem T) : Prop where
  chrdevClass : s.chrdevClass ≠ .error
  mutex : s.addBoardMutex.count = 1 ∨ ∃ t, Holds s t

/-- The mutex is free and nobody waits, or one thread has it and the others sleep. -/
structure Inv (s : BoardSystem T) : Prop where
  chrdevClass : s.chrdevClass ≠ .error
  mutex : (s.addBoardMutex.count = 1 ∧ s.addBoardMutex.waitList = [] ∧ ∀ t, ¬ Holds s t) ∨
    s.addBoardMutex.count = 0 ∧ ∃ t, ∀ t', Holds s t' ↔ t' = t
  asleep : ∀ t ∈ s.addBoardMutex.waitList, ∃ call, s.calls t = some (.asleep call)
  nodup : s.addBoardMutex.waitList.Nodup

theorem Inv.usable {s : BoardSystem T} (h : Inv s) : Usable s := by
  refine ⟨h.chrdevClass, ?_⟩
  rcases h.mutex with ⟨hcount, -, -⟩ | ⟨-, t, ht⟩
  · exact Or.inl hcount
  · exact Or.inr ⟨t, (ht t).mpr rfl⟩

theorem inv_loaded : Inv (loaded T) := by
  refine ⟨(nomatch ·), Or.inl ⟨rfl, rfl, fun t ht => ?_⟩, fun t ht => absurd ht List.not_mem_nil,
    List.nodup_nil⟩
  rcases ht with ⟨call, hcall⟩ | hleaving
  · cases hcall
  · cases hleaving

section Calls
variable {s : BoardSystem T} {t t' : T} {state : Option CallState}

theorem holds_congr {s' : BoardSystem T} (h : s'.calls t = s.calls t) :
    Holds s' t ↔ Holds s t := by
  rw [Holds, Holds, h]

theorem not_holds_asleep {call : BoardCall} (h : s.calls t = some (.asleep call)) :
    ¬ Holds s t := by
  rintro (⟨call', hentered⟩ | hleaving)
  · cases h.symm.trans hentered
  · cases h.symm.trans hleaving

theorem not_holds_none (h : s.calls t = none) : ¬ Holds s t := by
  rintro (⟨call', hentered⟩ | hleaving)
  · cases h.symm.trans hentered
  · cases h.symm.trans hleaving

/-- A step of the thread that has the mutex, which it keeps. -/
theorem Inv.keep {s' : BoardSystem T} (h : Inv s) (hclass : s'.chrdevClass ≠ .error)
    (hmutex : s'.addBoardMutex = s.addBoardMutex) (hholds : Holds s t) (hkept : Holds s' t)
    (hothers : ∀ t', t' ≠ t → s'.calls t' = s.calls t') : Inv s' := by
  have hsame : ∀ t', Holds s' t' ↔ Holds s t' := by
    intro t'
    by_cases heq : t' = t
    · rw [heq]
      exact iff_of_true hkept hholds
    · exact holds_congr (hothers t' heq)
  refine ⟨hclass, ?_, fun t' ht' => ?_, hmutex ▸ h.nodup⟩
  · rw [hmutex]
    rcases h.mutex with ⟨-, -, hnone⟩ | ⟨hcount, owner, howner⟩
    · exact absurd hholds (hnone t)
    · exact Or.inr ⟨hcount, owner, fun t' => (hsame t').trans (howner t')⟩
  · rw [hmutex] at ht'
    obtain ⟨call, hcall⟩ := h.asleep t' ht'
    have hne : t' ≠ t := by
      rintro rfl
      exact not_holds_asleep hcall hholds
    exact ⟨call, (hothers t' hne).trans hcall⟩

end Calls

section Steps
variable [DecidableEq T]

/-- `down(&g_hailo_add_board_mutex)` -/
def down (s : BoardSystem T) (t : T) (call : BoardCall) : BoardSystem T :=
  if 0 < s.addBoardMutex.count then
    { s with
      addBoardMutex := ⟨s.addBoardMutex.count - 1, s.addBoardMutex.waitList⟩
      calls := Function.update s.calls t (some (.entered call)) }
  else
    { s with
      addBoardMutex := ⟨s.addBoardMutex.count, s.addBoardMutex.waitList ++ [t]⟩
      calls := Function.update s.calls t (some (.asleep call)) }

/-- `up(&g_hailo_add_board_mutex)`: the first that waits has the mutex then. -/
def up (s : BoardSystem T) : BoardSystem T :=
  match s.addBoardMutex.waitList with
  | [] => { s with addBoardMutex := ⟨s.addBoardMutex.count + 1, []⟩ }
  | w :: ws =>
    { s with
      addBoardMutex := ⟨s.addBoardMutex.count, ws⟩
      calls := Function.update s.calls w (wake (s.calls w)) }

def step (s : BoardSystem T) : Event T → Option (BoardSystem T)
  | .call t call => if s.calls t = none then some (down s t call) else none
  | .createClass t created =>
    match s.calls t with
    | some (.entered (.insert _)) =>
      if s.chrdevClass = .null then
        if created then some { s with chrdevClass := .created }
        -- the error is stored, and the call returns with the mutex
        else some { s with chrdevClass := .error, calls := Function.update s.calls t none }
      else none
    | _ => none
  | .update t =>
    match s.calls t with
    | some (.entered call) =>
      (updatedBoards s call).map fun boards =>
        { s with boards := boards, calls := Function.update s.calls t (some .leaving) }
    | _ => none
  | .up t =>
    if s.calls t = some .leaving then some (up { s with calls := Function.update s.calls t none })
    else none

variable {s : BoardSystem T} {t : T}

theorem Inv.down (h : Inv s) (hidle : s.calls t = none) (call : BoardCall) :
    Inv (down s t call) := by
  have hne : ∀ t' ∈ s.addBoardMutex.waitList, t' ≠ t := by
    rintro t' ht' rfl
    obtain ⟨call', hcall⟩ := h.asleep t' ht'
    cases hidle.symm.trans hcall
  rcases h.mutex with ⟨hcount, hwait, hnone⟩ | ⟨hcount, owner, howner⟩
  · rw [BoardInsertion.down, if_pos (by omega)]
    refine ⟨h.chrdevClass, Or.inr ⟨by simp only [hcount], t, fun t' => ?_⟩, ?_, h.nodup⟩
    · by_cases heq : t' = t
      · subst heq
        exact iff_of_true (Or.inl ⟨call, Function.update_self _ _ _⟩) rfl
      · exact iff_of_false
          (fun hholds => hnone t' ((holds_congr (Function.update_of_ne heq _ _)).mp hholds)) heq
    · simp only [hwait]
      exact fun t' ht' => absurd ht' List.not_mem_nil
  · rw [BoardInsertion.down, if_neg (by omega)]
    refine ⟨h.chrdevClass, Or.inr ⟨hcount, owner, fun t' => ?_⟩, fun t' ht' => ?_, ?_⟩
    · by_cases heq : t' = t
      · have hself : t' ≠ owner := fun howns =>
          not_holds_none (heq ▸ hidle) ((howner t').mpr howns)
        subst heq
        exact iff_of_false (not_holds_asleep (Function.update_self _ _ _)) hself
      · exact (holds_congr (Function.update_of_ne heq _ _)).trans (howner t')
    · rcases List.mem_append.mp ht' with hold | hnew
      · obtain ⟨call', hcall⟩ := h.asleep t' hold
        exact ⟨call', (Function.update_of_ne (hne t' hold) _ _).trans hcall⟩
      · obtain rfl := List.mem_singleton.mp hnew
        exact ⟨call, Function.update_self _ _ _⟩
    · refine List.nodup_append.mpr
        ⟨h.nodup, List.pairwise_singleton _ _, fun t' ht' t'' hsingle => ?_⟩
      obtain rfl := List.mem_singleton.mp hsingle
      exact hne t' ht'

/-- The mutex goes to the first that waits, or becomes free. -/
theorem Inv.up (h : Inv s) (hleaving : s.calls t = some .leaving) :
    Inv (up { s with calls := Function.update s.calls t none }) := by
  have hholds : Holds s t := Or.inr hleaving
  obtain ⟨hcount, howner⟩ : s.addBoardMutex.count = 0 ∧ ∀ t', Holds s t' ↔ t' = t := by
    rcases h.mutex with ⟨-, -, hnone⟩ | ⟨hcount, owner, howner⟩
    · exact absurd hholds (hnone t)
    · obtain rfl := (howner t).mp hholds
      exact ⟨hcount, howner⟩
  have hne : ∀ t' ∈ s.addBoardMutex.waitList, t' ≠ t := by
    rintro t' ht' rfl
    obtain ⟨call, hcall⟩ := h.asleep t' ht'
    exact not_holds_asleep hcall hholds
  rw [BoardInsertion.up]
  cases hwait : s.addBoardMutex.waitList with
  | nil =>
    refine ⟨h.chrdevClass, Or.inl ⟨by simp only [hcount], rfl, fun t' ht' => ?_⟩,
      fun t' ht' => absurd ht' List.not_mem_nil, List.nodup_nil⟩
    by_cases heq : t' = t
    · subst heq
      exact not_holds_none (Function.update_self _ _ _) ht'
    · exact heq ((howner t').mp ((holds_congr (Function.update_of_ne heq _ _)).mp ht'))
  | cons w ws =>
    have hmem : w ∈ s.addBoardMutex.waitList := hwait ▸ List.mem_cons_self
    obtain ⟨hw, hws⟩ := List.nodup_cons.mp (hwait ▸ h.nodup)
    obtain ⟨call, hcall⟩ := h.asleep w hmem
    have hold : ∀ t', t' ≠ w → t' ≠ t →
        Function.update (Function.update s.calls t none) w
          (wake (Function.update s.calls t none w)) t' = s.calls t' := fun t' hw' ht' => by
      rw [Function.update_of_ne hw', Function.update_of_ne ht']
    refine ⟨h.chrdevClass, Or.inr ⟨hcount, w, fun t' => ?_⟩, fun t' ht' => ?_, hws⟩
    · by_cases heq : t' = w
      · subst heq
        refine iff_of_true (Or.inl ⟨call, ?_⟩) rfl
        simp only [Function.update_self, Function.update_of_ne (hne t' hmem), hcall]
        rfl
      · refine iff_of_false (fun ht' => ?_) heq
        by_cases hself : t' = t
        · subst hself
          refine not_holds_none ?_ ht'
          simp only [Function.update_of_ne heq, Function.update_self]
        · exact hself ((howner t').mp ((holds_congr (hold t' heq hself)).mp ht'))
    · have hmem' : t' ∈ s.addBoardMutex.waitList := hwait ▸ List.mem_cons_of_mem w ht'
      obtain ⟨call', hcall'⟩ := h.asleep t' hmem'
      have hw' : t' ≠ w := fun heq => hw (heq ▸ ht')
      exact ⟨call', (hold t' hw' (hne t' hmem')).trans hcall'⟩

/-- Everything but a failed class creation keeps the mutex with a thread that gives it back. -/
theorem inv_step (event : Event T) (s' : BoardSystem T) (h : Inv s)
    (hallowed : ∀ t, event ≠ .createClass t false) (hstep : step s event = some s') : Inv s' := by
  cases event with
  | call t call =>
    rw [step] at hstep
    split at hstep
    · next hidle =>
      cases hstep
      exact h.down hidle call
    · cases hstep
  | createClass t created =>
    cases created with
    | false => exact absurd rfl (hallowed t)
    | true =>
      rw [step] at hstep
      split at hstep
      · next pBoard hcall =>
        split at hstep
        · rw [if_pos rfl] at hstep
          cases hstep
          exact h.keep (nomatch ·) rfl (Or.inl ⟨_, hcall⟩) (Or.inl ⟨_, hcall⟩) fun _ _ => rfl
        · cases hstep
      · cases hstep
  | update t =>
    rw [step] at hstep
    split at hstep
    · next call hcall =>
      obtain ⟨boards, -, rfl⟩ := Option.map_eq_some_iff.mp hstep
      exact h.keep h.chrdevClass rfl (Or.inl ⟨_, hcall⟩) (Or.inr (Function.update_self _ _ _))
        fun t' ht' => Function.update_of_ne ht' _ _
    · cases hstep
  | up t =>
    rw [step] at hstep
    split at hstep
    · next hleaving =>
      cases hstep
      exact h.up hleaving
    · cases hstep

/-- A class creation that fails is a step of an insertion, and it stores the error. -/
theorem createClass_failed {s' : BoardSystem T} (hstep : step s (.createClass t false) = some s') :
    s' = { s with chrdevClass := .error, calls := Function.update s.calls t none } := by
  rw [step] at hstep
  split at hstep
  · split at hstep
    · rw [if_neg Bool.false_ne_true] at hstep
      exact (Option.some.inj hstep).symm
    · cases hstep
  · cases hstep

/-- In a run, each insertion that returns an error has put everything back, and the mutex can be
had at all times, with no error pointer as the class. -/
structure NoTrace (events : List (Event T)) : Prop where
  restored : ∀ earlier t s s', earlier ++ [.createClass t false] <+: events →
    earlier.foldlM step (loaded T) = some s → step s (.createClass t false) = some s' →
      s'.boards = s.boards ∧ s'.chrdevClass = s.chrdevClass ∧
        s'.addBoardMutex = (up s).addBoardMutex
  usable : ∀ earlier s, earlier <+: events → earlier.foldlM step (loaded T) = some s → Usable s

/-- A run leaves no trace of a failed insertion if and only if no insertion fails in it. -/
theorem noTrace_iff {events : List (Event T)} {s : BoardSystem T}
    (hrun : events.foldlM step (loaded T) = some s) :
    NoTrace events ↔ ∀ event ∈ events, ∀ t, event ≠ .createClass t false := by
  have hallowed := @allowed_iff_of_prefixes (BoardSystem T) (Event T) step Inv Usable
    (fun event => ∀ t, event ≠ .createClass t false) (fun _ => Inv.usable)
    (fun s event s' => inv_step event s') (fun s event s' _ hfails hstep husable => ?_)
    events (loaded T) s hrun inv_loaded
  · refine ⟨fun h => hallowed.mp h.usable, fun h => ⟨?_, hallowed.mpr h⟩⟩
    intro earlier t _ _ hinit
    exact absurd rfl (h _ (hinit.subset (List.mem_append_right earlier List.mem_cons_self)) t)
  · obtain ⟨t, hevent⟩ := not_forall.mp hfails
    obtain rfl := not_not.mp hevent
    rw [createClass_failed hstep] at husable
    exact husable.chrdevClass rfl

/-- Two boards, of which the first makes the class. -/
theorem noTrace_iff_twoBoards :
    NoTrace [.call 0 (.insert 5), .call 1 (.insert 6), .createClass 0 true, .update (0 : Nat),
        .up 0] ↔
      ∀ event ∈ [Event.call 0 (.insert 5), .call 1 (.insert 6), .createClass 0 true,
        .update (0 : Nat), .up 0], ∀ t, event ≠ .createClass t false :=
  noTrace_iff (s := ⟨[⟨5, 0, 0⟩], .created, ⟨0, []⟩,
    Function.update (Function.update (Function.update (Function.update (Function.update
      (fun _ => none) 0 (some (.entered (.insert 5)))) 1 (some (.asleep (.insert 6))))
      0 (some .leaving)) 0 none) 1 (some (.entered (.insert 6)))⟩) rfl

/-- The first insertion fails, and the second thread sleeps for ever: the mutex is taken, and no
thread is in a call that gives it back. -/
theorem failedClass_leaves :
    (∃ s, [Event.call 0 (.insert 5), .createClass (0 : Nat) false, .call 1 (.get 0)].foldlM step
        (loaded Nat) = some s ∧ s.chrdevClass = .error ∧ s.addBoardMutex = ⟨0, [1]⟩ ∧
          ∀ t, ¬ Holds s t) ∧
      ¬ NoTrace [Event.call 0 (.insert 5), .createClass (0 : Nat) false, .call 1 (.get 0)] := by
  refine ⟨⟨⟨[], .error, ⟨0, [1]⟩, Function.update (Function.update (Function.update (fun _ => none)
    0 (some (.entered (.insert 5)))) 0 none) 1 (some (.asleep (.get 0)))⟩, rfl, rfl, rfl,
    fun t ht => ?_⟩, fun h => ?_⟩
  · by_cases hsecond : t = 1
    · subst hsecond
      exact not_holds_asleep rfl ht
    · refine not_holds_none ((Function.update_of_ne hsecond _ _).trans ?_) ht
      by_cases hfirst : t = 0
      · rw [hfirst, Function.update_self]
      · rw [Function.update_of_ne hfirst, Function.update_of_ne hfirst]
  · exact (h.usable _ _ (List.prefix_refl _) rfl).chrdevClass rfl

end Steps

end HailortDrivers.BoardInsertion
