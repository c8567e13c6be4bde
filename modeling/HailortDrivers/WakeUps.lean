import HailortDrivers.EngineSteps
import HailortDrivers.WaitQueues

/-!
Who sleeps for interrupts and who wakes them (`ioctl.c`, `vdma.c`). A wait is over once one of its
channels is interrupted or disabled. The interrupt handler and the disabling of channels wake
everybody at their end, and what they change before is seen engine by engine.
-/
namespace HailortDrivers.WakeUps
open KernelExec VdmaTypes VdmaEngine EngineSteps WaitQueues
open LaunchSteps (idleChannel)

variable {n : Nat}

def hailoVdmaEngineGotInterrupt (engine : HailoVdmaEngine) (channelsBitmap : UInt32) : Bool :=
  let anyInterrupt := decide (0 ≠ channelsBitmap &&& engine.interruptedChannels)
  let anyDisabled := decide (channelsBitmap ≠ channelsBitmap &&& engine.enabledChannels)
  anyDisabled || anyInterrupt

def gotInterrupt (engines : Fin n → HailoVdmaEngine) (channelsBitmapPerEngine : Fin n → UInt32) :
    Bool :=
  (List.finRange n).any fun e =>
    hailoVdmaEngineGotInterrupt (engines e) (channelsBitmapPerEngine e)

/-- A step of a call that a waiter can see; nobody waits for what is in the channels. -/
inductive Action (n : Nat)
  | enableChannels (e : Fin n) (bitmap : UInt32)
  | disableChannels (e : Fin n) (bitmap : UInt32)
  | setChannelInterrupts (e : Fin n) (bitmap : UInt32)
  | clearChannelInterrupts (e : Fin n) (bitmap : UInt32)
  | readInterrupts (e : Fin n) (bitmap : UInt32)
  | wakeUpAll
deriving DecidableEq

def Action.apply (engines : Fin n → HailoVdmaEngine) : Action n → Fin n → HailoVdmaEngine
  | .enableChannels e bitmap =>
    Function.update engines e (hailoVdmaEngineEnableChannels (engines e) bitmap false)
  | .disableChannels e bitmap =>
    Function.update engines e
      { engines e with enabledChannels := (engines e).enabledChannels &&& ~~~bitmap }
  | .setChannelInterrupts e bitmap =>
    Function.update engines e (hailoVdmaEngineSetChannelInterrupts (engines e) bitmap)
  | .clearChannelInterrupts e bitmap =>
    Function.update engines e (hailoVdmaEngineClearChannelInterrupts (engines e) bitmap)
  | .readInterrupts e bitmap =>
    Function.update engines e (hailoVdmaEngineReadInterrupts (engines e) bitmap).2
  | .wakeUpAll => engines

/-- Giving up the transfers of the channels changes nothing for a waiter. -/
theorem gotInterrupt_disableChannels {engine engine' : HailoVdmaEngine}
    {heap heap' : DescListHeap} {bitmap : UInt32}
    (h : hailoVdmaEngineDisableChannels engine bitmap heap = .ok (engine', heap'))
    (channelsBitmap : UInt32) :
    hailoVdmaEngineGotInterrupt engine' channelsBitmap = hailoVdmaEngineGotInterrupt
      { engine with enabledChannels := engine.enabledChannels &&& ~~~bitmap } channelsBitmap := by
  refine disableChannels_inv (I := fun e _ => hailoVdmaEngineGotInterrupt e channelsBitmap =
    hailoVdmaEngineGotInterrupt
      { engine with enabledChannels := engine.enabledChannels &&& ~~~bitmap } channelsBitmap)
    ?_ h rfl
  intro e heap i channel heap' hinv _ _
  exact hinv

/-- `hailo_vdma_wakeup_interrupts` is what the interrupt handlers call. -/
inductive Call (n : Nat)
  | wakeupInterrupts (e : Fin n) (channelsBitmap : UInt32)
  | enableChannelsIoctl (channelsBitmapPerEngine : Fin n → UInt32)
  | disableChannelsIoctl (channelsBitmapPerEngine : Fin n → UInt32)
  | interruptsWaitIoctl (channelsBitmapPerEngine : Fin n → UInt32)
  | fileContextFinalize (enabledChannelsBitmap : Fin n → UInt32)

/-- The actions of a call; those of a wait come once it is over. -/
def Call.program : Call n → List (Action n)
  | .wakeupInterrupts e bitmap => [.setChannelInterrupts e bitmap] ++ [.wakeUpAll]
  | .enableChannelsIoctl bitmaps => (List.finRange n).map fun e => .enableChannels e (bitmaps e)
  | .disableChannelsIoctl bitmaps =>
    ((List.finRange n).flatMap fun e =>
      [.disableChannels e (bitmaps e), .clearChannelInterrupts e (bitmaps e)]) ++ [.wakeUpAll]
  | .interruptsWaitIoctl bitmaps => (List.finRange n).map fun e => .readInterrupts e (bitmaps e)
  | .fileContextFinalize bitmaps =>
    ((List.finRange n).filter fun e => bitmaps e ≠ 0).flatMap fun e =>
      [.disableChannels e (bitmaps e), .clearChannelInterrupts e (bitmaps e)]

inductive ThreadState (n : Nat)
  | running (call : Call n) (left : List (Action n)) (suffix : left <:+ call.program)
  | waiting (w : Waiter (Fin n → UInt32))

structure InterruptSystem (n : Nat) (T : Type) where
  engines : Fin n → HailoVdmaEngine
  threads : T → Option (ThreadState n)

inductive Event (n : Nat) (T : Type)
  | call (t : T) (call : Call n)
  | run (t : T)
  | signal (t : T)

section Steps
variable {T : Type} [DecidableEq T]

def wokenThread : Option (ThreadState n) → Option (ThreadState n)
  | some (.waiting w) => some (.waiting w.woken)
  | state => state

def startThread : Call n → Option (ThreadState n)
  | .interruptsWaitIoctl bitmaps =>
    if ∀ e, bitmaps e = 0 then none else some (.waiting (.entering bitmaps))
  | call => some (.running call call.program (List.suffix_refl _))

/-- A thread whose wait is over goes on to read the interrupts. -/
def waitStep (engines : Fin n → HailoVdmaEngine) (w : Waiter (Fin n → UInt32)) :
    ThreadState n :=
  match w.next (gotInterrupt engines) with
  | some w' => .waiting w'
  | none =>
    let call := .interruptsWaitIoctl w.condition
    .running call call.program (List.suffix_refl _)

def runAction (s : InterruptSystem n T) (t : T) (action : Action n)
    (state : ThreadState n) : InterruptSystem n T where
  engines := action.apply s.engines
  threads := Function.update
    (if action = .wakeUpAll then fun t' => wokenThread (s.threads t') else s.threads) t (some state)

def step (s : InterruptSystem n T) : Event n T → Option (InterruptSystem n T)
  | .call t call =>
    match s.threads t with
    | none => some { s with threads := Function.update s.threads t (startThread call) }
    | some _ => none
  | .run t =>
    match s.threads t with
    | none => none
    | some (.waiting w) =>
      some { s with threads := Function.update s.threads t (some (waitStep s.engines w)) }
    | some (.running _ [] _) => some { s with threads := Function.update s.threads t none }
    | some (.running call (action :: left) suffix) =>
      some (runAction s t action (.running call left ((List.suffix_cons action left).trans suffix)))
  | .signal t =>
    match s.threads t with
    | some (.waiting _) => some { s with threads := Function.update s.threads t none }
    | _ => none

/-- A call is about to wake everybody. -/
def OwesWakeUp (s : InterruptSystem n T) : Prop :=
  ∃ t call left suffix, s.threads t = some (.running call left suffix) ∧ .wakeUpAll ∈ left

def asWaiter : Option (ThreadState n) → Option (Waiter (Fin n → UInt32))
  | some (.waiting w) => some w
  | _ => none

def interruptWaits (n : Nat) (T : Type) [DecidableEq T] :
    WaitSystem (InterruptSystem n T) (Event n T) T (Fin n → UInt32) where
  step := step
  waiter := fun s t => asWaiter (s.threads t)
  holds := fun s => gotInterrupt s.engines
  Owes := OwesWakeUp

/-- The next step of the event's thread disables one of the channels, as the file that had it
enabled is closed. -/
def ClosesChannel (s : InterruptSystem n T) (event : Event n T)
    (channelsBitmapPerEngine : Fin n → UInt32) : Prop :=
  ∃ t bitmaps e left suffix, event = .run t ∧
    s.threads t = some (.running (.fileContextFinalize bitmaps)
      (.disableChannels e (bitmaps e) :: left) suffix) ∧
    channelsBitmapPerEngine e &&& bitmaps e ≠ 0

/-- One of the channels is interrupted or is not enabled. -/
theorem hailoVdmaEngineGotInterrupt_iff {engine : HailoVdmaEngine} {bitmap : UInt32} :
    hailoVdmaEngineGotInterrupt engine bitmap = true ↔
      ∃ pos, hailoTestBit pos bitmap = true ∧
        (hailoTestBit pos engine.interruptedChannels = true ∨
          hailoTestBit pos engine.enabledChannels = false) := by
  have hdisabled : bitmap ≠ bitmap &&& engine.enabledChannels ↔ ∃ pos,
      hailoTestBit pos bitmap = true ∧ hailoTestBit pos engine.enabledChannels = false := by
    rw [ne_comm, ne_eq, ← not_forall_not, not_iff_not]
    constructor
    · intro h pos hpos
      rw [← h, hailoTestBit_and, hpos.2, Bool.and_false] at hpos
      exact Bool.false_ne_true hpos.1
    · intro h
      refine eq_of_hailoTestBit fun pos => ?_
      rw [hailoTestBit_and]
      cases hbit : hailoTestBit pos bitmap with
      | false => rfl
      | true => simpa using fun hoff => h pos ⟨hbit, hoff⟩
  have hinterrupt : 0 ≠ bitmap &&& engine.interruptedChannels ↔ ∃ pos,
      hailoTestBit pos bitmap = true ∧ hailoTestBit pos engine.interruptedChannels = true := by
    rw [ne_comm, ne_eq, and_eq_zero_iff]
    simp
  rw [hailoVdmaEngineGotInterrupt, Bool.or_eq_true, decide_eq_true_eq, decide_eq_true_eq,
    hdisabled, hinterrupt, ← exists_or]
  exact exists_congr fun pos => (and_or_left.trans or_comm).symm

/-- Fewer interrupts and more enabled channels do not end a wait. -/
theorem gotInterrupt_of_less {engine engine' : HailoVdmaEngine} {bitmap : UInt32}
    (h : hailoVdmaEngineGotInterrupt engine' bitmap = true)
    (hinterrupted : ∀ pos, hailoTestBit pos engine'.interruptedChannels = true →
      hailoTestBit pos engine.interruptedChannels = true)
    (henabled : ∀ pos, hailoTestBit pos bitmap = true →
      hailoTestBit pos engine'.enabledChannels = false →
      hailoTestBit pos engine.enabledChannels = false) :
    hailoVdmaEngineGotInterrupt engine bitmap = true := by
  obtain ⟨pos, hpos, hend⟩ := hailoVdmaEngineGotInterrupt_iff.mp h
  exact hailoVdmaEngineGotInterrupt_iff.mpr
    ⟨pos, hpos, hend.imp (hinterrupted pos) (henabled pos hpos)⟩

theorem gotInterrupt_iff {engines : Fin n → HailoVdmaEngine} {bitmaps : Fin n → UInt32} :
    gotInterrupt engines bitmaps = true ↔
      ∃ e, hailoVdmaEngineGotInterrupt (engines e) (bitmaps e) = true := by
  rw [gotInterrupt, List.any_eq_true]
  exact ⟨fun ⟨e, _, h⟩ => ⟨e, h⟩, fun ⟨e, h⟩ => ⟨e, List.mem_finRange e, h⟩⟩

/-- What a waiter waits for comes about by an interrupt or by disabling one of its channels. -/
theorem apply_of_gotInterrupt {engines : Fin n → HailoVdmaEngine} {action : Action n}
    {bitmaps : Fin n → UInt32} (hbefore : gotInterrupt engines bitmaps = false)
    (hafter : gotInterrupt (action.apply engines) bitmaps = true) :
    (∃ e bitmap, action = .setChannelInterrupts e bitmap) ∨
      ∃ e bitmap, action = .disableChannels e bitmap ∧ bitmaps e &&& bitmap ≠ 0 := by
  have hfalse := fun e (h : hailoVdmaEngineGotInterrupt (engines e) (bitmaps e) = true) =>
    Bool.false_ne_true (hbefore.symm.trans (gotInterrupt_iff.mpr ⟨e, h⟩))
  have hupdate : ∀ {e : Fin n} {engine : HailoVdmaEngine},
      gotInterrupt (Function.update engines e engine) bitmaps = true →
      hailoVdmaEngineGotInterrupt engine (bitmaps e) = true := by
    intro e engine h
    obtain ⟨e', he'⟩ := gotInterrupt_iff.mp h
    by_cases heq : e' = e
    · rwa [heq, Function.update_self] at he'
    · rw [Function.update_of_ne heq] at he'
      exact absurd he' (hfalse e')
  cases action with
  | enableChannels e bitmap =>
    have hgot := hupdate hafter
    refine (hfalse e (gotInterrupt_of_less hgot (fun _ h => h) ?_)).elim
    intro pos _ hoff
    rw [hailoVdmaEngineEnableChannels, hailoTestBit_or, Bool.or_eq_false_iff] at hoff
    exact hoff.1
  | setChannelInterrupts e bitmap => exact Or.inl ⟨e, bitmap, rfl⟩
  | clearChannelInterrupts e bitmap =>
    have hgot := hupdate hafter
    refine (hfalse e (gotInterrupt_of_less hgot ?_ fun _ _ h => h)).elim
    intro pos hset
    rw [hailoVdmaEngineClearChannelInterrupts, hailoTestBit_and_not, Bool.and_eq_true] at hset
    exact hset.1
  | readInterrupts e bitmap =>
    have hgot := hupdate hafter
    refine (hfalse e (gotInterrupt_of_less hgot ?_ fun _ _ h => h)).elim
    intro pos hset
    rw [hailoVdmaEngineReadInterrupts, hailoVdmaEngineClearChannelInterrupts,
      hailoTestBit_and_not, Bool.and_eq_true] at hset
    exact hset.1
  | disableChannels e bitmap =>
    refine Or.inr ⟨e, bitmap, rfl, fun hdisjoint => ?_⟩
    have hgot := hupdate hafter
    refine (hfalse e (gotInterrupt_of_less hgot (fun _ h => h) ?_)).elim
    intro pos hpos hoff
    rw [hailoTestBit_and_not, and_eq_zero_iff.mp hdisjoint pos hpos, Bool.not_false,
      Bool.and_true] at hoff
    exact hoff
  | wakeUpAll => exact absurd hafter (by rw [Action.apply, hbefore]; decide)

/-- The last step of a call is still to come after one that is not the last. -/
theorem mem_of_suffix {a b : Action n} {left actions : List (Action n)}
    (h : a :: left <:+ actions ++ [b]) (hne : a ≠ b) : b ∈ left := by
  obtain ⟨before, hbefore⟩ := h
  rcases List.eq_nil_or_concat left with rfl | ⟨earlier, last, rfl⟩
  · exact absurd (List.singleton_inj.mp (List.append_inj' hbefore rfl).2) hne
  · rw [List.concat_eq_append] at hbefore ⊢
    rw [← List.cons_append, ← List.append_assoc] at hbefore
    rw [List.singleton_inj.mp (List.append_inj' hbefore rfl).2]
    exact List.mem_append_right earlier List.mem_cons_self

/-- A step that can end a wait is followed by a wake-up in its call, except in a close. -/
theorem owes_or_closes {call : Call n} {action : Action n} {left : List (Action n)}
    {bitmaps : Fin n → UInt32} (suffix : action :: left <:+ call.program)
    (h : (∃ e bitmap, action = .setChannelInterrupts e bitmap) ∨
      ∃ e bitmap, action = .disableChannels e bitmap ∧ bitmaps e &&& bitmap ≠ 0) :
    .wakeUpAll ∈ left ∨ ∃ enabled e, call = .fileContextFinalize enabled ∧
      action = .disableChannels e (enabled e) ∧ bitmaps e &&& enabled e ≠ 0 := by
  have hne : action ≠ .wakeUpAll := by
    rcases h with ⟨e, bitmap, rfl⟩ | ⟨e, bitmap, rfl, -⟩
    · exact fun heq => by cases heq
    · exact fun heq => by cases heq
  have hmem : action ∈ call.program := suffix.mem List.mem_cons_self
  cases call with
  | wakeupInterrupts e bitmap => exact Or.inl (mem_of_suffix suffix hne)
  | disableChannelsIoctl disabled => exact Or.inl (mem_of_suffix suffix hne)
  | enableChannelsIoctl enabled =>
    obtain ⟨e, -, rfl⟩ := List.mem_map.mp hmem
    rcases h with ⟨e', bitmap, h⟩ | ⟨e', bitmap, h, -⟩
    · cases h
    · cases h
  | interruptsWaitIoctl requested =>
    obtain ⟨e, -, rfl⟩ := List.mem_map.mp hmem
    rcases h with ⟨e', bitmap, h⟩ | ⟨e', bitmap, h, -⟩
    · cases h
    · cases h
  | fileContextFinalize enabled =>
    obtain ⟨e, -, he⟩ := List.mem_flatMap.mp hmem
    rcases h with ⟨e', bitmap, rfl⟩ | ⟨e', bitmap, rfl, hcommon⟩
    · simp at he
    · simp only [List.mem_cons, Action.disableChannels.injEq, reduceCtorEq, List.not_mem_nil,
        or_false] at he
      obtain ⟨rfl, rfl⟩ := he
      exact Or.inr ⟨enabled, e', rfl, rfl, hcommon⟩

variable {s s' : InterruptSystem n T} {event : Event n T} {t : T} {c : Fin n → UInt32}

theorem asWaiter_eq_some {state : Option (ThreadState n)} {w : Waiter (Fin n → UInt32)}
    (h : asWaiter state = some w) : state = some (.waiting w) := by
  rw [asWaiter.eq_def] at h
  split at h
  · cases h
    rfl
  · cases h

/-- Only the thread that made the step can have begun to count on a wake-up. -/
theorem relies_update (engines : Fin n → HailoVdmaEngine) {engines' : Fin n → HailoVdmaEngine}
    {threads : T → Option (ThreadState n)} {t' : T} {state : Option (ThreadState n)}
    (h : (interruptWaits n T).Relies ⟨engines', Function.update threads t' state⟩ t c) :
    (t = t' ∧ ∃ w, state = some (.waiting w) ∧ w.relies = some c) ∨
      (interruptWaits n T).Relies ⟨engines, threads⟩ t c := by
  obtain ⟨w, hw, hrelies⟩ := h
  by_cases ht : t = t'
  · subst ht
    have hstate : Function.update threads t state t = some (.waiting w) := asWaiter_eq_some hw
    rw [Function.update_self] at hstate
    exact Or.inl ⟨rfl, w, hstate, hrelies⟩
  · refine Or.inr ⟨w, ?_, hrelies⟩
    rw [← hw]
    exact congrArg asWaiter (Function.update_of_ne ht state threads).symm

/-- Nobody who was woken counts on a wake-up. -/
theorem not_relies_woken {engines : Fin n → HailoVdmaEngine}
    {threads : T → Option (ThreadState n)} :
    ¬ (interruptWaits n T).Relies ⟨engines, fun t' => wokenThread (threads t')⟩ t c := by
  rintro ⟨w, hw, hrelies⟩
  have hstate : wokenThread (threads t) = some (.waiting w) := asWaiter_eq_some hw
  rw [wokenThread.eq_def] at hstate
  split at hstate
  · cases hstate
    rw [Waiter.relies_woken] at hrelies
    cases hrelies
  · next hother => exact hother w hstate

theorem relies_startThread {call : Call n} {w : Waiter (Fin n → UInt32)}
    (h : startThread call = some (.waiting w)) : w.relies = none := by
  rw [startThread.eq_def] at h
  split at h
  · split at h
    · cases h
    · cases h
      rfl
  · cases h

theorem relies_waitStep {engines : Fin n → HailoVdmaEngine} {w w' : Waiter (Fin n → UInt32)}
    (h : waitStep engines w = .waiting w') (hrelies : w'.relies = some c) :
    w.relies = some c ∨ gotInterrupt engines c = false := by
  rw [waitStep] at h
  split at h
  · next hnext =>
    cases h
    exact Waiter.relies_next hnext hrelies
  · cases h

theorem relies_step (h : step s event = some s') (hrelies : (interruptWaits n T).Relies s' t c) :
    (interruptWaits n T).Relies s t c ∨ gotInterrupt s'.engines c = false := by
  cases event with
  | call t' call =>
    rw [step] at h
    split at h
    · cases h
      rcases relies_update s.engines hrelies with ⟨-, w, hstate, hw⟩ | hsame
      · rw [relies_startThread hstate] at hw
        cases hw
      · exact Or.inl hsame
    · cases h
  | run t' =>
    rw [step] at h
    split at h
    · cases h
    · next w hstate =>
      cases h
      rcases relies_update s.engines hrelies with ⟨rfl, w', hnext, hw'⟩ | hsame
      · refine (relies_waitStep (Option.some.inj hnext) hw').imp (fun hw => ⟨w, ?_, hw⟩) id
        exact congrArg asWaiter hstate
      · exact Or.inl hsame
    · cases h
      rcases relies_update s.engines hrelies with ⟨-, w, hnone, -⟩ | hsame
      · cases hnone
      · exact Or.inl hsame
    · next call action left suffix hstate =>
      cases h
      rcases relies_update s.engines hrelies with ⟨-, w, hrunning, -⟩ | hsame
      · cases hrunning
      · split at hsame
        · exact absurd hsame not_relies_woken
        · exact Or.inl hsame
  | signal t' =>
    rw [step] at h
    split at h
    · cases h
      rcases relies_update s.engines hrelies with ⟨-, w, hnone, -⟩ | hsame
      · cases hnone
      · exact Or.inl hsame
    · cases h

theorem owes_step (h : step s event = some s') (hrelies : (interruptWaits n T).Relies s' t c)
    (howes : OwesWakeUp s) : OwesWakeUp s' := by
  obtain ⟨t₁, call₁, left₁, suffix₁, hstate₁, hmem⟩ := howes
  have hkeep : ∀ {engines : Fin n → HailoVdmaEngine} {t' : T} {state : Option (ThreadState n)},
      t₁ ≠ t' → OwesWakeUp ⟨engines, Function.update s.threads t' state⟩ := fun hne =>
    ⟨t₁, call₁, left₁, suffix₁, (Function.update_of_ne hne _ _).trans hstate₁, hmem⟩
  cases event with
  | call t' call =>
    rw [step] at h
    split at h
    · next hidle =>
      cases h
      exact hkeep fun heq => by rw [heq, hidle] at hstate₁; cases hstate₁
    · cases h
  | run t' =>
    rw [step] at h
    split at h
    · cases h
    · next w hstate =>
      cases h
      exact hkeep fun heq => by rw [heq, hstate] at hstate₁; cases hstate₁
    · next call suffix hstate =>
      cases h
      refine hkeep fun heq => ?_
      rw [heq, hstate] at hstate₁
      cases hstate₁
      cases hmem
    · next call action left suffix hstate =>
      cases h
      by_cases hwake : action = .wakeUpAll
      · rcases relies_update s.engines hrelies with ⟨-, w, hrunning, -⟩ | hsame
        · cases hrunning
        · rw [if_pos hwake] at hsame
          exact absurd hsame not_relies_woken
      · rw [runAction, if_neg hwake]
        by_cases ht : t₁ = t'
        · rw [ht, hstate] at hstate₁
          cases hstate₁
          refine ⟨t', _, _, _, Function.update_self _ _ _, ?_⟩
          exact (List.mem_cons.mp hmem).resolve_left (Ne.symm hwake)
        · exact hkeep ht
  | signal t' =>
    rw [step] at h
    split at h
    · next w hstate =>
      cases h
      exact hkeep fun heq => by rw [heq, hstate] at hstate₁; cases hstate₁
    · cases h

theorem silent_step (h : step s event = some s') (hbefore : gotInterrupt s.engines c = false)
    (hafter : gotInterrupt s'.engines c = true) : OwesWakeUp s' ∨ ClosesChannel s event c := by
  have hsame : s'.engines ≠ s.engines := fun heq => by
    rw [heq, hbefore] at hafter
    cases hafter
  cases event with
  | call t' call =>
    rw [step] at h
    split at h
    · cases h
      exact absurd rfl hsame
    · cases h
  | run t' =>
    rw [step] at h
    split at h
    · cases h
    · cases h
      exact absurd rfl hsame
    · cases h
      exact absurd rfl hsame
    · next call action left suffix hstate =>
      cases h
      rcases owes_or_closes suffix (apply_of_gotInterrupt hbefore hafter) with
        hmem | ⟨enabled, e, rfl, rfl, hcommon⟩
      · exact Or.inl ⟨t', call, left, _, Function.update_self _ _ _, hmem⟩
      · exact Or.inr ⟨t', enabled, e, left, suffix, rfl, hstate, hcommon⟩
  | signal t' =>
    rw [step] at h
    split at h
    · cases h
      exact absurd rfl hsame
    · cases h

theorem interruptWaits_disciplined :
    (interruptWaits n T).Disciplined (ClosesChannel (n := n) (T := T)) where
  relies := relies_step
  owes := owes_step
  silent := silent_step

/-- The controller with no call under way. -/
def idle (engines : Fin n → HailoVdmaEngine) : InterruptSystem n T := ⟨engines, fun _ => none⟩

/-- A thread that sleeps through the end of its wait, with nobody about to wake it, does so because
a file was closed that had one of its channels enabled: neither an interrupt nor the disabling of
channels goes unnoticed. -/
theorem unnoticed_of_close {engines : Fin n → HailoVdmaEngine} {events : List (Event n T)}
    (hrun : events.foldlM step (idle engines) = some s)
    (hunseen : (interruptWaits n T).Unseen s t c) :
    ∃ before event after s₁, events = before ++ event :: after ∧
      before.foldlM step (idle engines) = some s₁ ∧ (interruptWaits n T).Relies s₁ t c ∧
        gotInterrupt s₁.engines c = false ∧ ClosesChannel s₁ event c := by
  refine (interruptWaits_disciplined.blames hrun hunseen).resolve_left fun hstart => ?_
  obtain ⟨w, hw, -⟩ := hstart.relies
  cases hw

end Steps

/-- One thread waits for a channel that another thread's file has enabled, and the file is
closed. -/
def closedWhileWaiting : List (Event 1 Bool) :=
  [.call false (.enableChannelsIoctl fun _ => 1), .run false, .run false,
    .call true (.interruptsWaitIoctl fun _ => 1), .run true, .run true, .run true,
    .call false (.fileContextFinalize fun _ => 1), .run false, .run false, .run false]

theorem unnoticed_of_close_closedWhileWaiting :
    ∃ s, closedWhileWaiting.foldlM step (idle fun _ => ⟨0, 0, 0, fun _ => idleChannel⟩) = some s ∧
      ∃ before event after s₁, closedWhileWaiting = before ++ event :: after ∧
        before.foldlM step (idle fun _ => ⟨0, 0, 0, fun _ => idleChannel⟩) = some s₁ ∧
        (interruptWaits 1 Bool).Relies s₁ true (fun _ => 1) ∧
        gotInterrupt s₁.engines (fun _ => 1) = false ∧ ClosesChannel s₁ event fun _ => 1 := by
  refine ⟨_, rfl, ?_⟩
  refine unnoticed_of_close rfl ⟨⟨.asleep fun _ => 1, ?_, rfl⟩, ?_, ?_⟩
  · rfl
  · rfl
  · rintro ⟨t, call, left, suffix, hstate, -⟩
    cases t with
    | false => cases hstate
    | true => cases hstate

end HailortDrivers.WakeUps
