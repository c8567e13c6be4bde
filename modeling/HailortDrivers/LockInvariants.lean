import HailortDrivers.SemaphorePrograms
import HailortDrivers.EventRuns

/-!
A semaphore that protects the state which calls share. A program is verified when it
brackets its steps with that semaphore, leaves the state well formed when it gives it up, and
ends without it. Calls of verified programs stay so in every interleaving.
-/
namespace HailortDrivers.LockInvariants
open SemaphorePrograms EventRuns

/-- The semaphore, what the steps do, when a step is safe, and what holds of the state while
nobody has the semaphore. A free step needs no semaphore, as it changes nothing. -/
structure Discipline (L A B σ : Type) where
  guard : L
  apply : A → σ → σ × B
  Safe : A → σ → Prop
  Free : A → Prop
  Inv : σ → Prop
  apply_free : ∀ action s, Free action → (apply action s).1 = s

variable {T L A B C σ α β : Type} {d : Discipline L A B σ}

namespace Discipline

/-- With the semaphore, a program sees the state, and the view is `some`; without, nothing. -/
def Verified (d : Discipline L A B σ) :
    Program L A B α → Option σ → (α → Option σ → Prop) → Prop
  | .done a, view, Q => Q a view
  | .down lock interruptible next, view, Q =>
    (lock = d.guard → view = none ∧ ∀ s, d.Inv s → d.Verified (next true) (some s) Q) ∧
      (lock ≠ d.guard → d.Verified (next true) view Q) ∧
      (interruptible = true → d.Verified (next false) view Q)
  | .up lock next, view, Q =>
    (lock = d.guard → ∃ s, view = some s ∧ d.Inv s ∧ d.Verified next none Q) ∧
      (lock ≠ d.guard → d.Verified next view Q)
  | .bugOnCount lock next, view, Q =>
    lock = d.guard ∧ view.isSome = true ∧ d.Verified next view Q
  | .act action next, some s, Q =>
    d.Safe action s ∧ d.Verified (next (d.apply action s).2) (some (d.apply action s).1) Q
  | .act action next, none, Q => d.Free action ∧ ∀ result, d.Verified (next result) none Q
  | .ask next, view, Q => ∀ answer, d.Verified (next answer) view Q

/-- The program gives the semaphore up before it ends. -/
def Ends (_ : α) (view : Option σ) : Prop := view = none

theorem Verified.bind {p : Program L A B α} {f : α → Program L A B β} {view : Option σ}
    {Q : α → Option σ → Prop} {R : β → Option σ → Prop} (hp : d.Verified p view Q)
    (hf : ∀ a view, Q a view → d.Verified (f a) view R) : d.Verified (p >>= f) view R := by
  change d.Verified (p.bind f) view R
  induction p generalizing view with
  | done a => exact hf a view hp
  | down lock interruptible next ih =>
    obtain ⟨hguard, hother, hinterrupted⟩ := hp
    refine ⟨fun hlock => ⟨(hguard hlock).1, fun s hs => ?_⟩, fun hlock => ?_, fun hi => ?_⟩
    · exact ih true ((hguard hlock).2 s hs)
    · exact ih true (hother hlock)
    · exact ih false (hinterrupted hi)
  | up lock next ih =>
    obtain ⟨hguard, hother⟩ := hp
    refine ⟨fun hlock => ?_, fun hlock => ih (hother hlock)⟩
    obtain ⟨s, hview, hs, hnext⟩ := hguard hlock
    exact ⟨s, hview, hs, ih hnext⟩
  | bugOnCount lock next ih => exact ⟨hp.1, hp.2.1, ih hp.2.2⟩
  | act action next ih =>
    cases view with
    | none => exact ⟨hp.1, fun result => ih result (hp.2 result)⟩
    | some s => exact ⟨hp.1, ih _ hp.2⟩
  | ask next ih => exact fun answer => ih answer (hp answer)

section Rules
variable {view : Option σ} {s : σ} {Q : α → Option σ → Prop}

theorem verified_pure {a : α} (h : Q a view) :
    d.Verified (pure a : Program L A B α) view Q := h

theorem verified_acquire {lock : L} (hlock : lock = d.guard) :
    d.Verified (Program.acquire lock : Program L A B Unit) none
      fun _ view => ∃ s, view = some s ∧ d.Inv s :=
  ⟨fun _ => ⟨rfl, fun s hs => ⟨s, rfl, hs⟩⟩, fun hne => absurd hlock hne, fun h => by cases h⟩

theorem verified_acquireInterruptible {lock : L} (hlock : lock = d.guard) :
    d.Verified (Program.acquireInterruptible lock : Program L A B Bool) none
      fun got view => if got then ∃ s, view = some s ∧ d.Inv s else view = none :=
  ⟨fun _ => ⟨rfl, fun s hs => ⟨s, rfl, hs⟩⟩, fun hne => absurd hlock hne, fun _ => rfl⟩

theorem verified_release {lock : L} (hlock : lock = d.guard) (hs : d.Inv s) :
    d.Verified (Program.release lock : Program L A B Unit) (some s) fun _ view => view = none :=
  ⟨fun _ => ⟨s, rfl, hs, rfl⟩, fun hne => absurd hlock hne⟩

/-- A semaphore that does not protect the state. -/
theorem verified_acquire_other {lock : L} (hlock : lock ≠ d.guard) (view : Option σ) :
    d.Verified (Program.acquire lock : Program L A B Unit) view fun _ after => after = view :=
  ⟨fun h => absurd h hlock, fun _ => rfl, fun h => by cases h⟩

theorem verified_acquireInterruptible_other {lock : L} (hlock : lock ≠ d.guard)
    (view : Option σ) :
    d.Verified (Program.acquireInterruptible lock : Program L A B Bool) view
      fun _ after => after = view :=
  ⟨fun h => absurd h hlock, fun _ => rfl, fun _ => rfl⟩

theorem verified_release_other {lock : L} (hlock : lock ≠ d.guard) (view : Option σ) :
    d.Verified (Program.release lock : Program L A B Unit) view fun _ after => after = view :=
  ⟨fun h => absurd h hlock, fun _ => rfl⟩

theorem verified_bugOn {lock : L} (hlock : lock = d.guard) (s : σ) :
    d.Verified (Program.bugOn lock : Program L A B Unit) (some s) fun _ after => after = some s :=
  ⟨hlock, rfl, rfl⟩

theorem verified_perform {action : A} (hsafe : d.Safe action s) :
    d.Verified (Program.perform action : Program L A B B) (some s)
      fun result after => result = (d.apply action s).2 ∧ after = some (d.apply action s).1 :=
  ⟨hsafe, rfl, rfl⟩

theorem verified_outcome (view : Option σ) :
    d.Verified (Program.outcome : Program L A B Bool) view fun _ after => after = view :=
  fun _ => rfl

end Rules

/-- What a thread sees of the state. -/
def view [DecidableEq T] (d : Discipline L A B σ) (m : Machine T L A B α σ) (t : T) : Option σ :=
  if m.owner d.guard = some t then some m.shared else none

end Discipline

open Discipline

/-- Who is on a wait list sleeps in that `down`, and no `BUG_ON` fired. -/
structure Queued (m : Machine T L A B α σ) : Prop where
  sleeping : ∀ lock, ∀ t ∈ (m.locks lock).waitList, ∃ interruptible next,
    m.calls t = some (.down lock interruptible next)
  nodup : ∀ lock, (m.locks lock).waitList.Nodup
  quiet : m.bugged = false

structure Sound [DecidableEq T] (d : Discipline L A B σ) (m : Machine T L A B α σ) : Prop
    extends Queued m where
  verified : ∀ t p, m.calls t = some p → d.Verified p (d.view m t) Ends
  idle : ∀ t, m.calls t = none → m.owner d.guard ≠ some t
  free : m.owner d.guard = none → d.Inv m.shared
  count : (m.locks d.guard).count = if (m.owner d.guard).isNone then 1 else 0
  waits : m.owner d.guard = none → (m.locks d.guard).waitList = []

section
variable [DecidableEq T] {m m' : Machine T L A B α σ} {t : T} {p : Program L A B α}

theorem view_congr (howner : m'.owner d.guard = m.owner d.guard) (hshared : m'.shared = m.shared)
    (t : T) : d.view m' t = d.view m t := by
  rw [Discipline.view, Discipline.view, howner, hshared]

theorem view_of_owner (h : m.owner d.guard = some t) : d.view m t = some m.shared := if_pos h

theorem view_of_ne (h : m.owner d.guard ≠ some t) : d.view m t = none := if_neg h

/-- Who sees the state owns the semaphore. -/
theorem owner_of_view {s : σ} (h : d.view m t = some s) :
    m.owner d.guard = some t ∧ m.shared = s := by
  rw [Discipline.view] at h
  split at h
  · next howner => exact ⟨howner, Option.some.inj h⟩
  · cases h

theorem owner_ne_of_view (h : d.view m t = none) : m.owner d.guard ≠ some t := by
  intro howner
  rw [view_of_owner howner] at h
  cases h

theorem sound_idle {s : σ} (hs : d.Inv s) : Sound d (idle s : Machine T L A B α σ) where
  verified := fun _ _ h => by cases h
  idle := fun _ _ h => by cases h
  free := fun _ => hs
  count := rfl
  waits := fun _ => rfl
  sleeping := fun _ _ h => absurd h List.not_mem_nil
  nodup := fun _ => List.nodup_nil
  quiet := rfl

omit [DecidableEq T] in
theorem Queued.awake (h : Queued m) (hcall : m.calls t = some p)
    (hp : ∀ lock interruptible next, p ≠ .down lock interruptible next) (lock : L) :
    t ∉ (m.locks lock).waitList := by
  intro hmem
  obtain ⟨interruptible, next, hdown⟩ := h.sleeping lock t hmem
  exact hp lock interruptible next (Option.some.inj (hcall.symm.trans hdown))

theorem Queued.setCall (h : Queued m) (hawake : ∀ lock, t ∉ (m.locks lock).waitList)
    (call : Option (Program L A B α)) : Queued (m.setCall t call) where
  sleeping := by
    intro lock t' hmem
    have ht : t' ≠ t := by
      rintro rfl
      exact hawake lock hmem
    rw [m.setCall_calls_of_ne _ _ ht]
    exact h.sleeping lock t' hmem
  nodup := h.nodup
  quiet := h.quiet

omit [DecidableEq T] in
/-- Who sleeps, sleeps on one semaphore. -/
theorem Queued.lock_of_mem (h : Queued m) {lock other : L} {interruptible : Bool}
    {next : Bool → Program L A B α} (hcall : m.calls t = some (.down lock interruptible next))
    (hmem : t ∈ (m.locks other).waitList) : other = lock := by
  obtain ⟨_, _, hdown⟩ := h.sleeping other t hmem
  cases hcall.symm.trans hdown
  rfl

/-- A thread that is awake goes on with a program that is verified for what it sees. -/
theorem Sound.setCall (h : Sound d m) (hawake : ∀ lock, t ∉ (m.locks lock).waitList)
    {call : Option (Program L A B α)}
    (hverified : ∀ p, call = some p → d.Verified p (d.view m t) Ends)
    (hidle : call = none → d.view m t = none) : Sound d (m.setCall t call) where
  verified := by
    intro t' p hcall
    rw [show d.view (m.setCall t call) t' = d.view m t' from view_congr rfl rfl t']
    by_cases ht : t' = t
    · subst ht
      rw [m.setCall_calls_self] at hcall
      exact hverified p hcall
    · rw [m.setCall_calls_of_ne _ _ ht] at hcall
      exact h.verified t' p hcall
  idle := by
    intro t' hcall
    by_cases ht : t' = t
    · subst ht
      rw [m.setCall_calls_self] at hcall
      exact owner_ne_of_view (hidle hcall)
    · rw [m.setCall_calls_of_ne _ _ ht] at hcall
      exact h.idle t' hcall
  free := h.free
  count := h.count
  waits := h.waits
  toQueued := h.toQueued.setCall hawake call

/-- Nobody sees the state while the semaphore is free. -/
theorem Sound.verified_none (h : Sound d m) {t' : T} (hne : m.owner d.guard ≠ some t')
    (hcall : m.calls t' = some p) : d.Verified p none Ends := by
  have hverified := h.verified t' p hcall
  rwa [view_of_ne hne] at hverified

variable [DecidableEq L]

omit [DecidableEq T] in
theorem Queued.setLock (h : Queued m) (lock : L) (s : Semaphore T) (owner : Option T)
    (hsleeping : ∀ t ∈ s.waitList, ∃ interruptible next,
      m.calls t = some (.down lock interruptible next))
    (hnodup : s.waitList.Nodup) : Queued (m.setLock lock s owner) where
  sleeping := by
    intro other t hmem
    by_cases hlock : other = lock
    · subst hlock
      rw [m.setLock_locks_self] at hmem
      exact hsleeping t hmem
    · rw [m.setLock_locks_of_ne _ _ _ hlock] at hmem
      exact h.sleeping other t hmem
  nodup := by
    intro other
    by_cases hlock : other = lock
    · subst hlock
      rw [m.setLock_locks_self]
      exact hnodup
    · rw [m.setLock_locks_of_ne _ _ _ hlock]
      exact h.nodup other
  quiet := h.quiet

/-- Another semaphore changes, or the wait list of this one. -/
theorem Sound.setLock (h : Sound d m) (lock : L) (s : Semaphore T) (owner : Option T)
    (hguard : lock = d.guard → s.count = (m.locks lock).count ∧ owner = m.owner lock ∧
      (owner = none → s.waitList = []))
    (hsleeping : ∀ t ∈ s.waitList, ∃ interruptible next,
      m.calls t = some (.down lock interruptible next))
    (hnodup : s.waitList.Nodup) : Sound d (m.setLock lock s owner) := by
  have howner : (m.setLock lock s owner).owner d.guard = m.owner d.guard := by
    by_cases hlock : d.guard = lock
    · rw [hlock, m.setLock_owner_self]
      exact (hguard hlock.symm).2.1
    · exact m.setLock_owner_of_ne _ _ _ hlock
  refine ⟨h.toQueued.setLock lock s owner hsleeping hnodup, fun t p hcall => ?_, ?_, ?_, ?_, ?_⟩
  · rw [view_congr howner rfl]
    exact h.verified t p hcall
  · rw [howner]
    exact h.idle
  · rw [howner]
    exact h.free
  · rw [howner, ← h.count]
    by_cases hlock : d.guard = lock
    · rw [hlock, m.setLock_locks_self]
      exact (hguard hlock.symm).1
    · rw [m.setLock_locks_of_ne _ _ _ hlock]
  · by_cases hlock : d.guard = lock
    · rw [hlock, m.setLock_owner_self, m.setLock_locks_self]
      exact (hguard hlock.symm).2.2
    · rw [howner, m.setLock_locks_of_ne _ _ _ hlock]
      exact h.waits

/-- The semaphore gets a new owner, who goes on with a program that is verified for the state
as it is. Nobody else sees the state. -/
theorem Queued.pass (h : Queued m) {ws : List T} (hawake : ∀ lock, lock ≠ d.guard →
      t ∉ (m.locks lock).waitList)
    (hothers : ∀ t' p, m.calls t' = some p → t' ≠ t → d.Verified p none Ends)
    (hp : d.Verified p (some m.shared) Ends) (ht : t ∉ ws) (hnodup : ws.Nodup)
    (hsleeping : ∀ t' ∈ ws, ∃ interruptible next,
      m.calls t' = some (.down d.guard interruptible next)) :
    Sound d ((m.setLock d.guard ⟨0, ws⟩ (some t)).setCall t (some p)) := by
  have hqueued := h.setLock d.guard ⟨0, ws⟩ (some t) hsleeping hnodup
  have howner : ((m.setLock d.guard ⟨0, ws⟩ (some t)).setCall t (some p)).owner d.guard = some t :=
    m.setLock_owner_self d.guard ⟨0, ws⟩ (some t)
  have hlocks : ((m.setLock d.guard ⟨0, ws⟩ (some t)).setCall t (some p)).locks d.guard = ⟨0, ws⟩ :=
    m.setLock_locks_self d.guard ⟨0, ws⟩ (some t)
  refine ⟨hqueued.setCall (fun lock => ?_) _, fun t' p' hcall => ?_, fun t' hcall => ?_,
    fun hnone => ?_, ?_, fun hnone => ?_⟩
  · by_cases hlock : lock = d.guard
    · rw [hlock, m.setLock_locks_self]
      exact ht
    · rw [m.setLock_locks_of_ne _ _ _ hlock]
      exact hawake lock hlock
  · by_cases ht' : t' = t
    · subst ht'
      rw [Machine.setCall_calls_self] at hcall
      cases hcall
      rw [view_of_owner howner]
      exact hp
    · rw [Machine.setCall_calls_of_ne _ _ _ ht'] at hcall
      rw [view_of_ne (by rw [howner]; exact fun heq => ht' (Option.some.inj heq).symm)]
      exact hothers t' p' hcall ht'
  · rw [howner]
    rintro heq
    cases heq
    rw [Machine.setCall_calls_self] at hcall
    cases hcall
  · cases howner.symm.trans hnone
  · rw [howner, hlocks]
    rfl
  · cases howner.symm.trans hnone

theorem Sound.tryDown (h : Sound d m) {lock : L} {interruptible : Bool}
    {next : Bool → Program L A B α} (hcall : m.calls t = some (.down lock interruptible next))
    (hawake : t ∉ (m.locks lock).waitList) : Sound d (m.tryDown t lock next) := by
  obtain ⟨hguard, hother, -⟩ := h.verified t _ hcall
  have hasleep : ∀ other, t ∉ (m.locks other).waitList :=
    fun other hmem => hawake (h.lock_of_mem hcall hmem ▸ hmem)
  rw [Machine.tryDown]
  split
  · next hcount =>
    by_cases hlock : lock = d.guard
    · subst hlock
      have hfree : m.owner d.guard = none := by
        by_contra howner
        rw [h.count, if_neg (by rwa [Option.isNone_iff_eq_none])] at hcount
        exact absurd hcount (by decide)
      have hzero : (m.locks d.guard).count - 1 = 0 := by rw [h.count, hfree]; rfl
      have hempty := h.waits hfree
      rw [hzero, hempty]
      refine h.toQueued.pass (fun lock _ => hasleep lock) (fun t' p hcall' _ => ?_)
        ((hguard rfl).2 _ (h.free hfree)) List.not_mem_nil List.nodup_nil
        fun t' hmem => absurd hmem List.not_mem_nil
      exact h.verified_none (by rw [hfree]; exact fun heq => by cases heq) hcall'
    · have hset := h.setLock lock
        ⟨(m.locks lock).count - 1, (m.locks lock).waitList⟩ (some t)
        (fun heq => absurd heq hlock) (h.sleeping lock) (h.nodup lock)
      refine hset.setCall (fun other => ?_) (fun p hp => ?_) fun hnone => by cases hnone
      · by_cases heq : other = lock
        · rw [heq, Machine.setLock_locks_self]
          exact hawake
        · rw [Machine.setLock_locks_of_ne _ _ _ _ heq]
          exact hasleep other
      · cases hp
        rw [view_congr (Machine.setLock_owner_of_ne _ _ _ _ (Ne.symm hlock)) rfl]
        exact hother hlock
  · next hcount =>
    refine h.setLock _ _ _ (fun hlock => ⟨rfl, rfl, fun hnone => ?_⟩) (fun t' hmem => ?_) ?_
    · subst hlock
      rw [h.count, hnone] at hcount
      exact absurd Nat.one_pos hcount
    · rcases List.mem_append.mp hmem with hmem | hmem
      · exact h.sleeping lock t' hmem
      · rw [List.mem_singleton.mp hmem]
        exact ⟨interruptible, next, hcall⟩
    · exact List.nodup_append.mpr ⟨h.nodup lock,
        List.nodup_cons.mpr ⟨List.not_mem_nil, List.nodup_nil⟩, by
        rintro a ha b hb rfl
        exact hawake (List.mem_singleton.mp hb ▸ ha)⟩

theorem Sound.wakeUp_guard (h : Sound d m) (howner : m.owner d.guard = some t)
    (hawake : ∀ lock, t ∉ (m.locks lock).waitList) (hs : d.Inv m.shared)
    (hp : d.Verified p none Ends) : Sound d ((m.setCall t (some p)).wakeUp d.guard) := by
  have hcount : (m.locks d.guard).count = 0 := by rw [h.count, howner]; rfl
  have hothers : ∀ t' p', (m.setCall t (some p)).calls t' = some p' →
      d.Verified p' none Ends := by
    intro t' p' hcall
    by_cases ht : t' = t
    · rw [ht, Machine.setCall_calls_self] at hcall
      cases hcall
      exact hp
    · rw [Machine.setCall_calls_of_ne _ _ _ ht] at hcall
      exact h.verified_none (by rw [howner]; exact fun heq => ht (Option.some.inj heq).symm) hcall
  have hqueued := h.toQueued.setCall hawake (some p)
  rw [Machine.wakeUp]
  split
  · next hempty =>
    have hnone := (m.setCall t (some p)).setLock_owner_self d.guard
      ⟨(m.locks d.guard).count + 1, []⟩ none
    refine ⟨hqueued.setLock _ _ _ (fun t' hmem => absurd hmem List.not_mem_nil) List.nodup_nil,
      fun t' p' hcall => ?_, fun t' _ => ?_, fun _ => hs, ?_, fun _ => ?_⟩
    · rw [view_of_ne (by rw [Machine.setCall_locks, hnone]; exact fun heq => by cases heq)]
      exact hothers t' p' hcall
    · rw [Machine.setCall_locks, hnone]
      exact fun heq => by cases heq
    · rw [Machine.setCall_locks, hnone, Machine.setLock_locks_self, hcount]
      rfl
    · rw [Machine.setLock_locks_self]
  · next w ws hwaiters =>
    have hnodup := hqueued.nodup d.guard
    rw [hwaiters] at hnodup
    obtain ⟨interruptible, next, hdown⟩ := hqueued.sleeping d.guard w
      (by rw [hwaiters]; exact List.mem_cons_self)
    obtain ⟨hguard, -, -⟩ := hothers w _ hdown
    rw [Machine.setCall_locks, hcount, hdown]
    refine hqueued.pass (fun lock hlock hmem => ?_) (fun t' p' hcall _ => hothers t' p' hcall)
      ((hguard rfl).2 _ hs) (List.nodup_cons.mp hnodup).1 (List.nodup_cons.mp hnodup).2
      fun t' hmem => ?_
    · exact hlock (hqueued.lock_of_mem hdown hmem)
    · exact hqueued.sleeping d.guard t' (by rw [hwaiters]; exact List.mem_cons_of_mem _ hmem)

theorem Sound.wakeUp_other (h : Sound d m) {lock : L} (hlock : lock ≠ d.guard) :
    Sound d (m.wakeUp lock) := by
  rw [Machine.wakeUp]
  split
  · exact h.setLock _ _ _ (fun heq => absurd heq hlock)
      (fun t' hmem => absurd hmem List.not_mem_nil) List.nodup_nil
  · next w ws hwaiters =>
    have hnodup := h.nodup lock
    have hsleeping := h.sleeping lock
    rw [hwaiters] at hnodup hsleeping
    obtain ⟨hw, hws⟩ := List.nodup_cons.mp hnodup
    obtain ⟨interruptible, next, hdown⟩ := hsleeping w List.mem_cons_self
    obtain ⟨-, hother, -⟩ := h.verified w _ hdown
    have hset := h.setLock lock ⟨(m.locks lock).count, ws⟩ (some w)
      (fun heq => absurd heq hlock) (fun t' hmem => hsleeping t' (List.mem_cons_of_mem _ hmem)) hws
    rw [hdown]
    refine hset.setCall (fun other => ?_) (fun p' hp' => ?_) fun hnone => by cases hnone
    · by_cases heq : other = lock
      · rw [heq, Machine.setLock_locks_self]
        exact hw
      · rw [Machine.setLock_locks_of_ne _ _ _ _ heq]
        exact fun hmem => heq (h.lock_of_mem hdown hmem)
    · cases hp'
      rw [view_congr (Machine.setLock_owner_of_ne _ _ _ _ (Ne.symm hlock)) rfl]
      exact hother hlock

omit [DecidableEq L] in
/-- The owner's step changes the state under the eyes of nobody else. -/
theorem Sound.act (h : Sound d m) {action : A} {next : B → Program L A B α}
    (hcall : m.calls t = some (.act action next)) :
    Sound d ((m.setShared (d.apply action m.shared).1).setCall t
      (some (next (d.apply action m.shared).2))) := by
  have hverified := h.verified t _ hcall
  have hawake := h.awake hcall fun _ _ _ heq => by cases heq
  have hqueued : Queued (m.setShared (d.apply action m.shared).1) :=
    ⟨h.sleeping, h.nodup, h.quiet⟩
  by_cases howner : m.owner d.guard = some t
  · rw [view_of_owner howner] at hverified
    refine ⟨hqueued.setCall hawake _, fun t' p' hcall' => ?_, fun t' hcall' heq => ?_,
      fun hnone => ?_, h.count, fun hnone => ?_⟩
    · by_cases ht : t' = t
      · subst ht
        rw [Machine.setCall_calls_self] at hcall'
        cases hcall'
        rw [view_of_owner (m := (m.setShared _).setCall t' _) howner]
        exact hverified.2
      · rw [Machine.setCall_calls_of_ne _ _ _ ht] at hcall'
        have hne : m.owner d.guard ≠ some t' := by
          rw [howner]
          exact fun heq => ht (Option.some.inj heq).symm
        rw [view_of_ne (m := (m.setShared _).setCall t _) hne]
        exact h.verified_none hne hcall'
    · obtain rfl := Option.some.inj (howner.symm.trans heq)
      rw [Machine.setCall_calls_self] at hcall'
      cases hcall'
    · cases howner.symm.trans hnone
    · cases howner.symm.trans hnone
  · rw [view_of_ne howner] at hverified
    obtain ⟨hfree, hnext⟩ := hverified
    have hsame : m.setShared (d.apply action m.shared).1 = m := by
      rw [d.apply_free action m.shared hfree]
      rfl
    rw [hsame]
    refine h.setCall hawake (fun p' hp' => ?_) fun hnone => by cases hnone
    cases hp'
    rw [view_of_ne howner]
    exact hnext _

/-- One operation of one thread. -/
theorem Sound.runCall (h : Sound d m) (hcall : m.calls t = some p) {answer : Bool}
    (hrun : runCall d.apply m t answer p = some m') : Sound d m' := by
  have hverified := h.verified t p hcall
  cases p with
  | done a =>
    cases hrun
    exact h.setCall (h.awake hcall fun _ _ _ heq => by cases heq) (fun _ heq => by cases heq)
      fun _ => hverified
  | down lock interruptible next =>
    rw [SemaphorePrograms.runCall] at hrun
    split at hrun
    · cases hrun
    · next hawake =>
      cases hrun
      exact h.tryDown hcall hawake
  | up lock next =>
    cases hrun
    have hawake := h.awake hcall fun _ _ _ heq => by cases heq
    by_cases hlock : lock = d.guard
    · obtain ⟨s, hview, hs, hnext⟩ := hverified.1 hlock
      obtain ⟨howner, rfl⟩ := owner_of_view hview
      exact hlock ▸ h.wakeUp_guard howner hawake hs hnext
    · refine Sound.wakeUp_other (h.setCall hawake (fun p' hp' => ?_) fun hnone => ?_) hlock
      · cases hp'
        exact hverified.2 hlock
      · cases hnone
  | bugOnCount lock next =>
    cases hrun
    obtain ⟨rfl, hview, hnext⟩ := hverified
    obtain ⟨s, hs⟩ := Option.isSome_iff_exists.mp hview
    have hcount : (m.locks d.guard).count = 0 := by
      rw [h.count, (owner_of_view hs).1]
      rfl
    have hsame : m.setBugged (m.bugged || decide ((m.locks d.guard).count ≠ 0)) = m := by
      rw [hcount, decide_eq_false (not_not.mpr rfl), Bool.or_false]
      rfl
    rw [hsame]
    refine h.setCall (h.awake hcall fun _ _ _ heq => by cases heq) (fun p' hp' => ?_)
      fun hnone => by cases hnone
    cases hp'
    exact hnext
  | act action next =>
    cases hrun
    exact h.act hcall
  | ask next =>
    cases hrun
    refine h.setCall (h.awake hcall fun _ _ _ heq => by cases heq) (fun p' hp' => ?_)
      fun hnone => by cases hnone
    cases hp'
    exact hverified answer

theorem Sound.interruptCall (h : Sound d m) (hcall : m.calls t = some p)
    (hrun : interruptCall m t p = some m') : Sound d m' := by
  unfold SemaphorePrograms.interruptCall at hrun
  split at hrun
  · next lock next =>
    split at hrun
    · cases hrun
      have hset := h.setLock lock
        ⟨(m.locks lock).count, (m.locks lock).waitList.erase t⟩ (m.owner lock)
        (fun hlock => ⟨rfl, rfl, fun hnone => ?_⟩)
        (fun t' hmem => h.sleeping lock t' (List.mem_of_mem_erase hmem))
        ((h.nodup lock).erase t)
      · refine hset.setCall (fun other => ?_) (fun p' hp' => ?_) fun hnone => by cases hnone
        · by_cases heq : other = lock
          · rw [heq, Machine.setLock_locks_self]
            exact (h.nodup lock).not_mem_erase
          · rw [Machine.setLock_locks_of_ne _ _ _ _ heq]
            exact fun hmem => heq (h.lock_of_mem hcall hmem)
        · cases hp'
          have howner : (m.setLock lock ⟨(m.locks lock).count, (m.locks lock).waitList.erase t⟩
              (m.owner lock)).owner d.guard = m.owner d.guard := by
            by_cases heq : d.guard = lock
            · rw [heq, Machine.setLock_owner_self]
            · rw [Machine.setLock_owner_of_ne _ _ _ _ heq]
          rw [view_congr howner rfl]
          exact (h.verified t _ hcall).2.2 rfl
      · subst hlock
        rw [h.waits hnone]
        rfl
    · cases hrun
  · cases hrun

variable {program : C → Program L A B α}

theorem sound_step (h : Sound d m) {event : Event T C}
    (hstart : ∀ t call, event = .start t call → d.Verified (program call) none Ends)
    (hstep : step program d.apply m event = some m') : Sound d m' := by
  cases event with
  | start t call =>
    rw [step] at hstep
    split at hstep
    · next hidle =>
      cases hstep
      rw [Option.isNone_iff_eq_none] at hidle
      have hview := view_of_ne (d := d) (h.idle t hidle)
      refine h.setCall (fun lock hmem => ?_) (fun p hp => ?_) fun hnone => by cases hnone
      · obtain ⟨_, _, hdown⟩ := h.sleeping lock t hmem
        cases hidle.symm.trans hdown
      · cases hp
        rw [hview]
        exact hstart t call rfl
    · cases hstep
  | run t answer =>
    obtain ⟨p, hcall, hrun⟩ := Option.bind_eq_some_iff.mp hstep
    exact h.runCall hcall hrun
  | interrupt t =>
    obtain ⟨p, hcall, hrun⟩ := Option.bind_eq_some_iff.mp hstep
    exact h.interruptCall hcall hrun

theorem sound_of_run {Admitted : C → Prop}
    (hprograms : ∀ call, Admitted call → d.Verified (program call) none Ends)
    (hrun : Relation.ReflTransGen (Steps program d.apply Admitted) m m') (h : Sound d m) :
    Sound d m' := by
  refine inv_of_run (fun m m' hm hstep => ?_) hrun h
  obtain ⟨event, hadmitted, hstep⟩ := hstep
  exact sound_step hm (fun t call heq => hprograms call (hadmitted t call heq)) hstep

end

section
variable [DecidableEq T] {m : Machine T L A B α σ} {t : T}

theorem Sound.owner_of_up (h : Sound d m) {next : Program L A B α}
    (hcall : m.calls t = some (.up d.guard next)) : m.owner d.guard = some t := by
  obtain ⟨s, hview, -⟩ := (h.verified t _ hcall).1 rfl
  exact (owner_of_view hview).1

/-- A step that is not free is taken by the owner, and is safe. -/
theorem Sound.owner_of_act (h : Sound d m) {action : A} {next : B → Program L A B α}
    (hcall : m.calls t = some (.act action next)) (hfree : ¬ d.Free action) :
    m.owner d.guard = some t ∧ d.Safe action m.shared := by
  have hverified := h.verified t _ hcall
  by_cases howner : m.owner d.guard = some t
  · rw [view_of_owner howner] at hverified
    exact ⟨howner, hverified.1⟩
  · rw [view_of_ne howner] at hverified
    exact absurd hverified.1 hfree

end

end HailortDrivers.LockInvariants
