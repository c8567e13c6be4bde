import Mathlib.Logic.Function.Basic
import Mathlib.Logic.Relation
import Mathlib.Tactic.Common

/-! Calls written down as programs: operations on the kernel's counting semaphores,
steps on a state that the calls share, and outcomes that the environment decides. Any number
of threads run such calls, one operation at a time and in any order. -/
namespace HailortDrivers.SemaphorePrograms

/-- `L` names the semaphores, `A` the steps on the shared state and `B` what they return. -/
inductive Program (L A B α : Type)
  | done (a : α)
  | down (lock : L) (interruptible : Bool) (next : Bool → Program L A B α)
  | up (lock : L) (next : Program L A B α)
  | bugOnCount (lock : L) (next : Program L A B α)
  | act (action : A) (next : B → Program L A B α)
  | ask (next : Bool → Program L A B α)

variable {L A B α β : Type}

namespace Program

protected def bind : Program L A B α → (α → Program L A B β) → Program L A B β
  | done a, f => f a
  | down lock interruptible next, f => down lock interruptible fun got => (next got).bind f
  | up lock next, f => up lock (next.bind f)
  | bugOnCount lock next, f => bugOnCount lock (next.bind f)
  | act action next, f => act action fun result => (next result).bind f
  | ask next, f => ask fun answer => (next answer).bind f

instance : Monad (Program L A B) where
  pure := done
  bind := Program.bind

/-- `down` sleeps until it gets the semaphore. -/
def acquire (lock : L) : Program L A B Unit := down lock false fun _ => done ()

/-- `down_interruptible`: whether it got the semaphore -/
def acquireInterruptible (lock : L) : Program L A B Bool := down lock true done

def release (lock : L) : Program L A B Unit := up lock (done ())

/-- `BUG_ON(lock.count != 0)` -/
def bugOn (lock : L) : Program L A B Unit := bugOnCount lock (done ())

def perform (action : A) : Program L A B B := act action done

/-- A wait, a copy, an allocation or an answer of the device that comes out either way. -/
def outcome : Program L A B Bool := ask done

end Program

/-- The kernel's `struct semaphore` -/
structure Semaphore (T : Type) where
  count : Nat
  waitList : List T

/-- A thread in a call has the rest of its program in `calls`. `owner` is the thread whose
`down` succeeded last with no `up` after it, and `bugged` says that a `BUG_ON` fired. -/
structure Machine (T L A B α σ : Type) where
  locks : L → Semaphore T
  owner : L → Option T
  shared : σ
  calls : T → Option (Program L A B α)
  bugged : Bool

variable {T C σ : Type}

namespace Machine

section
variable [DecidableEq T]

def setCall (m : Machine T L A B α σ) (t : T) (call : Option (Program L A B α)) :
    Machine T L A B α σ :=
  { m with calls := Function.update m.calls t call }

/-- The first waiter finds itself owner of the semaphore. -/
def resume : Option (Program L A B α) → Option (Program L A B α)
  | some (.down _ _ next) => some (next true)
  | call => call

variable [DecidableEq L]

def setLock (m : Machine T L A B α σ) (lock : L) (s : Semaphore T) (owner : Option T) :
    Machine T L A B α σ :=
  { m with
    locks := Function.update m.locks lock s
    owner := Function.update m.owner lock owner }

/-- `up`: the semaphore goes to the first waiter, without a change of its count. -/
def wakeUp (m : Machine T L A B α σ) (lock : L) : Machine T L A B α σ :=
  match (m.locks lock).waitList with
  | [] => m.setLock lock ⟨(m.locks lock).count + 1, []⟩ none
  | w :: ws =>
    (m.setLock lock ⟨(m.locks lock).count, ws⟩ (some w)).setCall w (resume (m.calls w))

/-- `down`: get the semaphore, or join its wait list. -/
def tryDown (m : Machine T L A B α σ) (t : T) (lock : L)
    (next : Bool → Program L A B α) : Machine T L A B α σ :=
  if 0 < (m.locks lock).count then
    (m.setLock lock ⟨(m.locks lock).count - 1, (m.locks lock).waitList⟩ (some t)).setCall t
      (some (next true))
  else
    m.setLock lock ⟨(m.locks lock).count, (m.locks lock).waitList ++ [t]⟩ (m.owner lock)

end

def setShared (m : Machine T L A B α σ) (s : σ) : Machine T L A B α σ := { m with shared := s }

def setBugged (m : Machine T L A B α σ) (bugged : Bool) : Machine T L A B α σ :=
  { m with bugged := bugged }

section
variable [DecidableEq T] (m : Machine T L A B α σ) (t : T) (call : Option (Program L A B α))

@[simp] theorem setCall_locks : (m.setCall t call).locks = m.locks := rfl
@[simp] theorem setCall_owner : (m.setCall t call).owner = m.owner := rfl
@[simp] theorem setCall_shared : (m.setCall t call).shared = m.shared := rfl
@[simp] theorem setCall_bugged : (m.setCall t call).bugged = m.bugged := rfl
@[simp] theorem setCall_calls_self : (m.setCall t call).calls t = call :=
  Function.update_self _ _ _

theorem setCall_calls_of_ne {t' : T} (h : t' ≠ t) : (m.setCall t call).calls t' = m.calls t' :=
  Function.update_of_ne h _ _

end

section
variable [DecidableEq L] (m : Machine T L A B α σ) (lock : L) (s : Semaphore T)
  (owner : Option T)

@[simp] theorem setLock_calls : (m.setLock lock s owner).calls = m.calls := rfl
@[simp] theorem setLock_shared : (m.setLock lock s owner).shared = m.shared := rfl
@[simp] theorem setLock_bugged : (m.setLock lock s owner).bugged = m.bugged := rfl
@[simp] theorem setLock_locks_self : (m.setLock lock s owner).locks lock = s :=
  Function.update_self _ _ _
@[simp] theorem setLock_owner_self : (m.setLock lock s owner).owner lock = owner :=
  Function.update_self _ _ _

theorem setLock_locks_of_ne {other : L} (h : other ≠ lock) :
    (m.setLock lock s owner).locks other = m.locks other := Function.update_of_ne h _ _

theorem setLock_owner_of_ne {other : L} (h : other ≠ lock) :
    (m.setLock lock s owner).owner other = m.owner other := Function.update_of_ne h _ _

end

@[simp] theorem setShared_locks (m : Machine T L A B α σ) (s : σ) :
    (m.setShared s).locks = m.locks := rfl
@[simp] theorem setShared_owner (m : Machine T L A B α σ) (s : σ) :
    (m.setShared s).owner = m.owner := rfl
@[simp] theorem setShared_calls (m : Machine T L A B α σ) (s : σ) :
    (m.setShared s).calls = m.calls := rfl
@[simp] theorem setShared_shared (m : Machine T L A B α σ) (s : σ) :
    (m.setShared s).shared = s := rfl
@[simp] theorem setShared_bugged (m : Machine T L A B α σ) (s : σ) :
    (m.setShared s).bugged = m.bugged := rfl

end Machine

/-- A thread starts a call, does the next operation of its call, where `answer` is the outcome
if it is one, or is interrupted in its sleep. -/
inductive Event (T C : Type)
  | start (thread : T) (call : C)
  | run (thread : T) (answer : Bool)
  | interrupt (thread : T)

section Step
variable [DecidableEq T] [DecidableEq L] (program : C → Program L A B α)
  (apply : A → σ → σ × B)

/-- The next operation of a call; a thread on a wait list sleeps. -/
def runCall (m : Machine T L A B α σ) (t : T) (answer : Bool) :
    Program L A B α → Option (Machine T L A B α σ)
  | .done _ => some (m.setCall t none)
  | .down lock _ next =>
    if t ∈ (m.locks lock).waitList then none else some (m.tryDown t lock next)
  | .up lock next => some ((m.setCall t (some next)).wakeUp lock)
  | .bugOnCount lock next =>
    some ((m.setBugged (m.bugged || decide ((m.locks lock).count ≠ 0))).setCall t (some next))
  | .act action next =>
    some ((m.setShared (apply action m.shared).1).setCall t
      (some (next (apply action m.shared).2)))
  | .ask next => some (m.setCall t (some (next answer)))

/-- A signal takes a thread that sleeps interruptibly off the wait list. -/
def interruptCall (m : Machine T L A B α σ) (t : T) :
    Program L A B α → Option (Machine T L A B α σ)
  | .down lock true next =>
    if t ∈ (m.locks lock).waitList then
      some ((m.setLock lock ⟨(m.locks lock).count, (m.locks lock).waitList.erase t⟩
        (m.owner lock)).setCall t (some (next false)))
    else none
  | _ => none

def step (m : Machine T L A B α σ) : Event T C → Option (Machine T L A B α σ)
  | .start t call =>
    if (m.calls t).isNone then some (m.setCall t (some (program call))) else none
  | .run t answer => (m.calls t).bind (runCall apply m t answer)
  | .interrupt t => (m.calls t).bind (interruptCall m t)

/-- A step, where calls are started under a condition. -/
def Steps (Admitted : C → Prop) (m m' : Machine T L A B α σ) : Prop :=
  ∃ event : Event T C, (∀ t call, event = .start t call → Admitted call) ∧
    step program apply m event = some m'

/-- Events that can be taken one after the other make a run. -/
theorem steps_of_events {Admitted : C → Prop} (events : List (Event T C))
    {m m' : Machine T L A B α σ}
    (hadmitted : ∀ t call, Event.start t call ∈ events → Admitted call)
    (h : events.foldlM (step program apply) m = some m') :
    Relation.ReflTransGen (Steps (T := T) program apply Admitted) m m' := by
  induction events generalizing m with
  | nil =>
    cases h
    exact .refl
  | cons event events ih =>
    rw [List.foldlM_cons] at h
    obtain ⟨m₁, hfirst, hrest⟩ := Option.bind_eq_some_iff.mp h
    refine .head ⟨event, fun t call heq => hadmitted t call ?_, hfirst⟩
      (ih (fun t call hmem => ?_) hrest)
    · exact heq ▸ List.mem_cons_self
    · exact hadmitted t call (List.mem_cons_of_mem _ hmem)

end Step

/-- No call under way, and every semaphore free. -/
def idle (s : σ) : Machine T L A B α σ where
  locks := fun _ => ⟨1, []⟩
  owner := fun _ => none
  shared := s
  calls := fun _ => none
  bugged := false

end HailortDrivers.SemaphorePrograms
