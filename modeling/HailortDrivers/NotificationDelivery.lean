import HailortDrivers.HeldReferences
import HailortDrivers.NewestMailbox
import HailortDrivers.NotificationReads

/-!
Seen from one open file, the notifications of the board are a mailbox that keeps the newest
of them: the handler owes the file a signal until it completes its wait, and a read that was
woken has taken one.
-/
namespace HailortDrivers.NotificationDelivery
open ResourceAccess HeldReferences NewestMailbox NotificationReads

variable {F C σ : Type}

/-- The handler is going to complete the wait of the file. -/
def handlerOwes (handler : HandlerPhase F) (registered : F → Bool) (f : F) : Bool :=
  match handler with
  | .idle => false
  | .cached => registered f
  | .completing pending => pending f

/-- A read of the file was woken and has not yet returned. -/
def InRead (f : F) : ReaderPhase F → Prop
  | .idle | .waits _ => False
  | .woken g | .holds g | .reinited g => g = f

theorem InRead.filp_eq {f : F} {phase : ReaderPhase F} (h : InRead f phase) :
    phase.filp = some f := by
  cases phase with
  | idle => exact h.elim
  | waits g => exact h.elim
  | woken g => exact congrArg some h
  | holds g => exact congrArg some h
  | reinited g => exact congrArg some h

/-- A read is on one file. -/
theorem not_inRead_of_ne {f g : F} {phase : ReaderPhase F} (h : InRead g phase) (hfg : f ≠ g) :
    InRead f .idle ↔ InRead f phase :=
  ⟨False.elim, fun hf => hfg (Option.some.inj (hf.filp_eq.symm.trans h.filp_eq))⟩

/-- Whether the read of a file is under way does not change with its reinit. -/
theorem inRead_reinited {s : NotificationSystem F C σ} {g : F} {t : C}
    (hphase : s.readers t = .holds g) (f : F) :
    InRead f (.reinited g) ↔ InRead f (s.readers t) := by
  rw [hphase]
  rfl

def isRegistered (s : NotificationSystem F C σ) (f : F) : Bool := (s.notificationWaitList f).isSome

/-- The notifications of the board as one file sees them. -/
def view (s : NotificationSystem F C σ) (f : F) (wait : HailoNotificationWait) : Mailbox C where
  accepted := s.accepted.length
  since := s.since f
  owed := handlerOwes s.handler (isRegistered s) f
  signals := wait.completion
  readers := {t | InRead f (s.readers t)}
  returned := (s.returned f).map Returned.number

/-- A registered, not disabled file with its wait. -/
structure Listens (s : NotificationSystem F C σ) (f : F) (wait : HailoNotificationWait) :
    Prop where
  wait_eq : s.notificationWaitList f = some wait
  enabled : wait.isDisabled = false

theorem handlerOwes_congr {registered registered' : F → Bool} {f : F} (handler : HandlerPhase F)
    (h : registered f = registered' f) :
    handlerOwes handler registered f = handlerOwes handler registered' f := by
  cases handler with
  | idle => rfl
  | cached => exact h
  | completing pending => rfl

section
variable [DecidableEq F] {s s' : NotificationSystem F C σ} {f g : F}
  {wait wait' : HailoNotificationWait} {w : Option HailoNotificationWait}

@[simp] theorem setWait_self :
    (s.setWait f w).notificationWaitList f = w := Function.update_self _ _ _

theorem setWait_of_ne (h : f ≠ g) :
    (s.setWait g w).notificationWaitList f = s.notificationWaitList f :=
  Function.update_of_ne h _ _

theorem isRegistered_setWait_of_ne (h : f ≠ g) :
    isRegistered (s.setWait g w) f = isRegistered s f :=
  congrArg Option.isSome (setWait_of_ne h)

theorem isRegistered_setWait
    (hw : f = g → w.isSome = true) (h : isRegistered s f = true) :
    isRegistered (s.setWait g w) f = true := by
  by_cases hfg : f = g
  · subst hfg
    rw [isRegistered, setWait_self]
    exact hw rfl
  · rwa [isRegistered_setWait_of_ne hfg]

theorem isRegistered_setWait_self (hwait : s.notificationWaitList f = some wait) :
    isRegistered (s.setWait f (some wait')) f = isRegistered s f := by
  simp [isRegistered, hwait]

theorem view_setWait_of_ne (h : f ≠ g) : view (s.setWait g w) f wait = view s f wait :=
  Mailbox.ext rfl rfl (handlerOwes_congr _ (isRegistered_setWait_of_ne h)) rfl rfl rfl

def completeWait (s : NotificationSystem F C σ) (filp : F) (pending : F → Bool) :
    NotificationSystem F C σ :=
  (s.setWait filp ((s.notificationWaitList filp).map HailoNotificationWait.complete)).setHandler
    (.completing (Function.update pending filp false))

theorem view_completeWait {pending : F → Bool} :
    view (completeWait s f pending) f wait.complete = (view s f wait).signal :=
  Mailbox.ext rfl rfl (Function.update_self _ _ _) rfl rfl rfl

theorem view_completeWait_of_ne {pending : F → Bool} (hhandler : s.handler = .completing pending)
    (hfg : f ≠ g) :
    view (completeWait s g pending) f wait = view s f wait := by
  refine Mailbox.ext rfl rfl ?_ rfl rfl rfl
  rw [view, view, hhandler]
  exact Function.update_of_ne hfg _ _

theorem opened_register {owner : Nat} (hnobody : ∀ t, ¬ InRead f (s.readers t)) :
    Opened (view (s.register f owner) f ⟨owner, false, 0⟩) where
  since := Function.update_self _ _ _
  signals := rfl
  readers := Set.eq_empty_iff_forall_notMem.mpr hnobody
  returned := by
    show (Function.update s.returned f [] f).map Returned.number = []
    rw [Function.update_self, List.map_nil]

theorem view_register_of_ne (hfg : f ≠ g) (owner : Nat) :
    view (s.register g owner) f wait = view s f wait :=
  Mailbox.ext rfl (Function.update_of_ne hfg _ _)
    (handlerOwes_congr _ (isRegistered_setWait_of_ne hfg)) rfl rfl
    (congrArg (List.map Returned.number) (Function.update_of_ne hfg _ _))

theorem Listens.of_ne (hlistens : Listens s' f wait) (h : f ≠ g)
    (hlist : s'.notificationWaitList = Function.update s.notificationWaitList g w) :
    Listens s f wait := by
  have hwait := hlistens.wait_eq
  rw [hlist, Function.update_of_ne h] at hwait
  exact ⟨hwait, hlistens.enabled⟩

theorem Listens.eq_of_self {list : F → Option HailoNotificationWait} (hlistens : Listens s f wait)
    (hlist : s.notificationWaitList = Function.update list f w) : w = some wait := by
  have hwait := hlistens.wait_eq
  rwa [hlist, Function.update_self] at hwait

end

section
variable [DecidableEq C] {s : NotificationSystem F C σ} {f g : F} {t : C}
  {wait : HailoNotificationWait} {phase : ReaderPhase F}

@[simp] theorem setReader_self :
    (s.setReader t phase).readers t = phase := Function.update_self _ _ _

theorem setReader_of_ne {t' : C} (h : t' ≠ t) :
    (s.setReader t phase).readers t' = s.readers t' :=
  Function.update_of_ne h _ _

theorem filp_of_setReader {t' : C}
    (h : ((s.setReader t phase).readers t').filp = some f) :
    phase.filp = some f ∨ (s.readers t').filp = some f := by
  by_cases ht : t' = t
  · subst ht
    rw [setReader_self] at h
    exact .inl h
  · rw [setReader_of_ne ht] at h
    exact .inr h

theorem view_setReader (hiff : InRead f phase ↔ InRead f (s.readers t)) :
    view (s.setReader t phase) f wait = view s f wait := by
  refine Mailbox.ext rfl rfl rfl rfl ?_ rfl
  ext t'
  by_cases ht : t' = t
  · subst ht
    simp [view, hiff]
  · simp [view, setReader_of_ne ht]

theorem readers_of_inRead (hin : InRead f phase) :
    (view (s.setReader t phase) f wait).readers = insert t (view s f wait).readers :=
  holders_update_of_holds hin

theorem view_setReader_of_not (hout : ¬ InRead f phase) :
    view (s.setReader t phase) f wait = (view s f wait).drop t :=
  Mailbox.ext rfl rfl rfl rfl (holders_update_of_not hout) rfl

def finish (s : NotificationSystem F C σ) (thread : C) : NotificationSystem F C σ :=
  (s.setMutex none).setReader thread .idle

theorem view_finish (s : NotificationSystem F C σ) (t : C) (f : F)
    (wait : HailoNotificationWait) : view (finish s t) f wait = (view s f wait).drop t :=
  view_setReader_of_not id

theorem view_finish_of_ne (hin : InRead g (s.readers t)) (hfg : f ≠ g) :
    view (finish s t) f wait = view s f wait :=
  view_setReader (s := s.setMutex none) (not_inRead_of_ne hin hfg)

end

/-- A read of the file would wait. -/
structure Settled (s : NotificationSystem F C σ) (f : F) (wait : HailoNotificationWait) :
    Prop where
  owed : handlerOwes s.handler (isRegistered s) f = false
  completion : wait.completion = 0
  nobody : ∀ t, ¬ InRead f (s.readers t)

section
variable (io : Mmio σ) (fwAccess : HailoResource) (details buffer : Nat)

/-- The interrupt finds a notification that the device offers. -/
def Accepts (s : NotificationSystem F C σ) : Prop :=
  ¬ (hailoPcieReadFirmwareNotification io fwAccess details buffer s.notificationCache s.device).1
    < 0

/-- A step as a listening file sees it: the file was just opened, or its mailbox moves. -/
inductive Follows (s : NotificationSystem F C σ) (event : Event F C σ)
    (s' : NotificationSystem F C σ) (f : F) (wait' : HailoNotificationWait) : Prop
  | opened (h : Opened (view s' f wait'))
  | moves (wait : HailoNotificationWait) (hlistens : Listens s f wait) (move : Move C)
      (h : Moves (view s f wait) move (view s' f wait'))
      (haccept : move = .accept →
        event = .notificationIrq ∧ Accepts io fwAccess details buffer s)
      (hdrop : ∀ t, move = .drop t →
        event = .downInterrupted t ∧ s.readers t = .woken f ∨
          event = .copy t false ∧ s.readers t = .reinited f)

variable {io fwAccess details buffer} {s s' : NotificationSystem F C σ} {event : Event F C σ}
  {f : F} {wait : HailoNotificationWait}

theorem follows_of_view_eq (hlistens : Listens s f wait) (hview : view s' f wait = view s f wait) :
    Follows io fwAccess details buffer s event s' f wait :=
  .moves wait hlistens .stay (hview ▸ .stay) (fun h => nomatch h) fun _ h => nomatch h

/-- A read of the file that ends without a notification. -/
theorem follows_drop {t : C} (hlistens : Listens s f wait) (hin : InRead f (s.readers t))
    (hview : view s' f wait = (view s f wait).drop t)
    (hreason : event = .downInterrupted t ∧ s.readers t = .woken f ∨
      event = .copy t false ∧ s.readers t = .reinited f) :
    Follows io fwAccess details buffer s event s' f wait := by
  refine .moves wait hlistens (.drop t) ?_ (fun h => nomatch h) ?_
  · rw [hview]
    exact .drop t hin
  · rintro t' ⟨⟩
    exact hreason

end

section
variable [DecidableEq F] [DecidableEq C]

def wakeReader (s : NotificationSystem F C σ) (thread : C) (filp : F)
    (wait : HailoNotificationWait) : NotificationSystem F C σ :=
  (s.setWait filp (some wait.consume)).setReader thread (.woken filp)

def reinitReader (s : NotificationSystem F C σ) (thread : C) (filp : F)
    (wait : HailoNotificationWait) : NotificationSystem F C σ :=
  (s.setWait filp (some wait.reinit)).setReader thread (.reinited filp)

variable (io : Mmio σ) (fwAccess : HailoResource) (details buffer : Nat) (tgid : C → Nat)

/-- What one step can do. -/
inductive Effect (s : NotificationSystem F C σ) (event : Event F C σ) :
    NotificationSystem F C σ → Prop
  | quiet (device : σ) (handler : HandlerPhase F)
      (howes : handlerOwes handler (isRegistered s) = handlerOwes s.handler (isRegistered s))
      (hhandler : handler ≠ .idle → s.handler ≠ .idle) :
      Effect s event ((s.setDevice device).setHandler handler)
  | accepts (device : σ) (notification : HailoD2hNotification) (hidle : s.handler = .idle)
      (hevent : event = .notificationIrq) (haccepts : Accepts io fwAccess details buffer s) :
      Effect s event (((s.setDevice device).accept notification).setHandler .cached)
  | completes (f : F) (pending : F → Bool) (hhandler : s.handler = .completing pending)
      (hpending : pending f = true) :
      Effect s event (completeWait s f pending)
  | registers (f : F) (owner : Nat) (hfree : s.notificationWaitList f = none) :
      Effect s event (s.register f owner)
  | releases (f : F) (hnobody : ∀ t, (s.readers t).filp ≠ some f) :
      Effect s event (s.setWait f none)
  | disables (f : F) (wait : HailoNotificationWait) (hwait : s.notificationWaitList f = some wait) :
      Effect s event (s.setWait f (some wait.disable))
  | moves (t : C) (phase : ReaderPhase F) (owner : Option C)
      (hin : ∀ f, InRead f phase ↔ InRead f (s.readers t))
      (hfilp : ∀ f, phase.filp = some f →
        (s.readers t).filp = some f ∨ isRegistered s f = true) :
      Effect s event ((s.setMutex owner).setReader t phase)
  | wakes (t : C) (f : F) (wait : HailoNotificationWait) (hphase : s.readers t = .waits f)
      (hwait : s.notificationWaitList f = some wait) (hpos : 0 < wait.completion) :
      Effect s event (wakeReader s t f wait)
  | interrupted (t : C) (f : F) (hphase : s.readers t = .woken f)
      (hevent : event = .downInterrupted t) : Effect s event (s.setReader t .idle)
  | cancelled (t : C) (f : F) (wait : HailoNotificationWait) (hphase : s.readers t = .holds f)
      (hwait : s.notificationWaitList f = some wait) (hdisabled : wait.isDisabled = true) :
      Effect s event (finish s t)
  | reinits (t : C) (f : F) (wait : HailoNotificationWait) (hphase : s.readers t = .holds f)
      (hwait : s.notificationWaitList f = some wait) :
      Effect s event (reinitReader s t f wait)
  | returns (t : C) (f : F) (hphase : s.readers t = .reinited f) :
      Effect s event (finish (s.copyCache.giveBack f) t)
  | fails (t : C) (f : F) (hphase : s.readers t = .reinited f)
      (hevent : event = .copy t false) : Effect s event (finish s.copyCache t)

variable {io fwAccess details buffer tgid} {s s' : NotificationSystem F C σ}
  {event : Event F C σ}

theorem effect_unchanged : Effect io fwAccess details buffer s event s :=
  .quiet s.device s.handler rfl id

theorem effect_of_step (hallowed : KernelAllows s event)
    (h : step io fwAccess details buffer tgid s event = some s') :
    Effect io fwAccess details buffer s event s' := by
  cases event with
  | firmware device =>
    cases h
    exact .quiet device s.handler rfl id
  | notificationIrq =>
    rw [step] at h
    split at h
    · next hidle =>
      cases h
      rw [firmwareNotificationIrqHandler]
      split
      · exact .quiet _ s.handler rfl id
      · next haccepts => exact .accepts _ _ hidle rfl haccepts
    · cases h
  | traverse =>
    rw [step] at h
    split at h
    · next hcached =>
      cases h
      refine .quiet s.device _ ?_ fun _ hidle => nomatch hcached.symm.trans hidle
      rw [hcached]
      rfl
    · cases h
  | complete filp =>
    rw [step] at h
    split at h
    · next pending hcompleting =>
      split at h
      · next hpending =>
        cases h
        exact .completes filp pending hcompleting hpending
      · cases h
    · cases h
  | handled =>
    rw [step] at h
    split at h
    · next pending hcompleting =>
      cases h
      refine .quiet s.device .idle ?_ fun hidle => absurd rfl hidle
      rw [hcompleting]
      funext f
      exact (hallowed pending hcompleting f).symm
    · cases h
  | openFile filp owner =>
    rw [step] at h
    split at h
    · next hfree =>
      cases h
      rw [Bool.and_eq_true, Option.isNone_iff_eq_none, Option.isNone_iff_eq_none] at hfree
      exact .registers filp owner hfree.2
    · cases h
  | closeFile filp =>
    rw [step] at h
    split at h
    · cases h
      exact .releases filp hallowed.1
    · cases h
  | disableNotification thread filp =>
    rw [step] at h
    split at h
    · split at h
      · next wait hwait =>
        split at h
        · cases h
          exact .disables filp wait hwait
        · cases h
          exact effect_unchanged
      · cases h
        exact effect_unchanged
    · cases h
  | readNotification thread filp =>
    rw [step] at h
    split at h
    · next hidle hfree =>
      split at h
      · next wait hwait =>
        split at h
        · cases h
          refine .moves thread (.waits filp) s.mutex (fun f => ?_) fun f hf => .inr ?_
          · rw [hidle]
            exact Iff.rfl
          · cases hf
            exact Option.isSome_of_eq_some hwait
        · cases h
          exact effect_unchanged
      · cases h
        exact effect_unchanged
    · cases h
  | waitInterrupted thread =>
    rw [step] at h
    split at h
    · next f hwaits =>
      cases h
      refine .moves thread .idle s.mutex (fun g => ?_) fun g hg => nomatch hg
      rw [hwaits]
      exact Iff.rfl
    · cases h
  | wake thread =>
    rw [step] at h
    split at h
    · next f hwaits =>
      split at h
      · next wait hwait =>
        split at h
        · next hpos =>
          cases h
          exact .wakes thread f wait hwaits hwait hpos
        · cases h
      · cases h
    · cases h
  | downInterrupted thread =>
    rw [step] at h
    split at h
    · next f hwoken =>
      cases h
      exact .interrupted thread f hwoken rfl
    · cases h
  | down thread =>
    rw [step] at h
    split at h
    · next f hwoken hfree =>
      cases h
      refine .moves thread (.holds f) (some thread) (fun g => ?_) fun g hg => .inl ?_
      · rw [hwoken]
        exact Iff.rfl
      · rw [hwoken]
        exact hg
    · cases h
  | reinit thread =>
    rw [step] at h
    split at h
    · next f hholds =>
      split at h
      · next wait hwait =>
        split at h
        · next hdisabled =>
          cases h
          exact .cancelled thread f wait hholds hwait hdisabled
        · cases h
          exact .reinits thread f wait hholds hwait
      · cases h
    · cases h
  | copy thread copied =>
    rw [step] at h
    split at h
    · next f hreinited =>
      cases copied with
      | true =>
        cases h
        exact .returns thread f hreinited
      | false =>
        cases h
        exact .fails thread f hreinited rfl
    · cases h

section
variable {f g : F} {t : C} {wait wait' : HailoNotificationWait} {pending : F → Bool}

theorem view_wakeReader (hwait : s.notificationWaitList f = some wait) :
    view (wakeReader s t f wait) f wait.consume = (view s f wait).take t :=
  Mailbox.ext rfl rfl (handlerOwes_congr _ (isRegistered_setWait_self hwait)) rfl
    (readers_of_inRead rfl) rfl

theorem view_wakeReader_of_ne (hphase : s.readers t = .waits g) (hfg : f ≠ g)
    (wait' : HailoNotificationWait) :
    view (wakeReader s t g wait') f wait = view s f wait := by
  refine (view_setReader ?_).trans (view_setWait_of_ne hfg)
  show g = f ↔ InRead f (s.readers t)
  rw [hphase]
  exact ⟨fun h => hfg h.symm, False.elim⟩

theorem view_reinitReader (hphase : s.readers t = .holds f)
    (hwait : s.notificationWaitList f = some wait) :
    view (reinitReader s t f wait) f wait.reinit = (view s f wait).clear :=
  (view_setReader (s := s.setWait f (some wait.reinit)) (inRead_reinited hphase f)).trans
    (Mailbox.ext rfl rfl (handlerOwes_congr _ (isRegistered_setWait_self hwait)) rfl rfl rfl)

theorem view_reinitReader_of_ne (hphase : s.readers t = .holds g) (hfg : f ≠ g)
    (wait' : HailoNotificationWait) :
    view (reinitReader s t g wait') f wait = view s f wait :=
  (view_setReader (s := s.setWait g (some wait'.reinit)) (inRead_reinited hphase f)).trans
    (view_setWait_of_ne hfg)

theorem view_returned (s : NotificationSystem F C σ) (t : C) (f : F)
    (wait : HailoNotificationWait) :
    view (finish (s.copyCache.giveBack f) t) f wait = (view s f wait).give t := by
  refine (view_finish _ t f wait).trans (Mailbox.ext rfl rfl rfl rfl rfl ?_)
  show (Function.update s.returned f _ f).map Returned.number = _
  rw [Function.update_self, List.map_append]
  rfl

theorem view_returned_of_ne (hin : InRead g (s.readers t)) (hfg : f ≠ g) :
    view (finish (s.copyCache.giveBack g) t) f wait = view s f wait := by
  refine (view_finish_of_ne (s := s.copyCache.giveBack g) hin hfg).trans
    (Mailbox.ext rfl rfl rfl rfl rfl ?_)
  exact congrArg (List.map Returned.number) (Function.update_of_ne hfg _ _)

theorem follows_of_effect
    (hcalls : ∀ t f, (s.readers t).filp = some f → isRegistered s f = true)
    (h : Effect io fwAccess details buffer s event s') (hlistens : Listens s' f wait') :
    Follows io fwAccess details buffer s event s' f wait' := by
  cases h with
  | quiet device handler howes hhandler =>
    exact follows_of_view_eq ⟨hlistens.wait_eq, hlistens.enabled⟩
      (Mailbox.ext rfl rfl (congrFun howes f) rfl rfl rfl)
  | accepts device notification hidle hevent haccepts =>
    have howed : (view s f wait').owed = false := by
      rw [view, hidle]
      rfl
    refine .moves wait' ⟨hlistens.wait_eq, hlistens.enabled⟩ .accept ?_
      (fun _ => ⟨hevent, haccepts⟩) fun _ h => nomatch h
    have hview : view (((s.setDevice device).accept notification).setHandler .cached) f wait' =
        (view s f wait').accept :=
      Mailbox.ext List.length_append rfl (Option.isSome_of_eq_some hlistens.wait_eq) rfl rfl rfl
    rw [hview]
    exact .accept howed
  | completes g pending hhandler hpending =>
    by_cases hfg : f = g
    · subst hfg
      obtain ⟨wait, hwait, rfl⟩ := Option.map_eq_some_iff.mp (hlistens.eq_of_self rfl)
      have howed : (view s f wait).owed = true := by
        rw [view, hhandler]
        exact hpending
      refine .moves wait ⟨hwait, hlistens.enabled⟩ .signal ?_ (fun h => nomatch h)
        fun _ h => nomatch h
      rw [view_completeWait]
      exact .signal howed
    · exact follows_of_view_eq (hlistens.of_ne hfg rfl) (view_completeWait_of_ne hhandler hfg)
  | registers g owner hfree =>
    by_cases hfg : f = g
    · subst hfg
      have hnobody : ∀ t, ¬ InRead f (s.readers t) := by
        intro t hin
        have hregistered := hcalls t f hin.filp_eq
        rw [isRegistered, hfree] at hregistered
        exact nomatch hregistered
      have hwait : some ⟨owner, false, 0⟩ = some wait' := hlistens.eq_of_self rfl
      cases hwait
      exact .opened (opened_register hnobody)
    · exact follows_of_view_eq (hlistens.of_ne hfg rfl) (view_register_of_ne hfg owner)
  | releases g hnobody =>
    by_cases hfg : f = g
    · subst hfg
      exact nomatch hlistens.eq_of_self rfl
    · exact follows_of_view_eq (hlistens.of_ne hfg rfl) (view_setWait_of_ne hfg)
  | disables g wait hwait =>
    by_cases hfg : f = g
    · subst hfg
      cases hlistens.eq_of_self rfl
      exact nomatch hlistens.enabled
    · exact follows_of_view_eq (hlistens.of_ne hfg rfl) (view_setWait_of_ne hfg)
  | moves t phase owner hin hfilp =>
    exact follows_of_view_eq ⟨hlistens.wait_eq, hlistens.enabled⟩ (view_setReader (hin f))
  | wakes t g wait hphase hwait hpos =>
    by_cases hfg : f = g
    · subst hfg
      cases hlistens.eq_of_self rfl
      have hout : t ∉ (view s f wait).readers := by
        show ¬ InRead f (s.readers t)
        rw [hphase]
        exact id
      refine .moves wait ⟨hwait, hlistens.enabled⟩ (.take t) ?_ (fun h => nomatch h)
        fun _ h => nomatch h
      rw [view_wakeReader hwait]
      exact .take t hpos hout
    · exact follows_of_view_eq (hlistens.of_ne hfg rfl) (view_wakeReader_of_ne hphase hfg wait)
  | interrupted t g hphase hevent =>
    have hin : InRead g (s.readers t) := by
      rw [hphase]
      rfl
    by_cases hfg : f = g
    · subst hfg
      exact follows_drop ⟨hlistens.wait_eq, hlistens.enabled⟩ hin (view_setReader_of_not id)
        (.inl ⟨hevent, hphase⟩)
    · exact follows_of_view_eq ⟨hlistens.wait_eq, hlistens.enabled⟩
        (view_setReader (not_inRead_of_ne hin hfg))
  | cancelled t g wait hphase hwait hdisabled =>
    have hin : InRead g (s.readers t) := by
      rw [hphase]
      rfl
    have hfg : f ≠ g := by
      rintro rfl
      cases hlistens.wait_eq.symm.trans hwait
      exact nomatch hlistens.enabled.symm.trans hdisabled
    exact follows_of_view_eq ⟨hlistens.wait_eq, hlistens.enabled⟩ (view_finish_of_ne hin hfg)
  | reinits t g wait hphase hwait =>
    by_cases hfg : f = g
    · subst hfg
      cases hlistens.eq_of_self rfl
      refine .moves wait ⟨hwait, hlistens.enabled⟩ (.clear t) ?_ (fun h => nomatch h)
        fun _ h => nomatch h
      rw [view_reinitReader hphase hwait]
      exact .clear t ((inRead_reinited hphase f).mp rfl)
    · exact follows_of_view_eq (hlistens.of_ne hfg rfl) (view_reinitReader_of_ne hphase hfg wait)
  | returns t g hphase =>
    have hin : InRead g (s.readers t) := by
      rw [hphase]
      rfl
    by_cases hfg : f = g
    · subst hfg
      refine .moves wait' ⟨hlistens.wait_eq, hlistens.enabled⟩ (.give t) ?_ (fun h => nomatch h)
        fun _ h => nomatch h
      rw [view_returned]
      exact .give t hin
    · exact follows_of_view_eq ⟨hlistens.wait_eq, hlistens.enabled⟩ (view_returned_of_ne hin hfg)
  | fails t g hphase hevent =>
    have hin : InRead g (s.readers t) := by
      rw [hphase]
      rfl
    by_cases hfg : f = g
    · subst hfg
      exact follows_drop ⟨hlistens.wait_eq, hlistens.enabled⟩ hin
        (view_finish s.copyCache t f wait') (.inr ⟨hevent, hphase⟩)
    · exact follows_of_view_eq ⟨hlistens.wait_eq, hlistens.enabled⟩
        (view_finish_of_ne (s := s.copyCache) hin hfg)

end

end

end HailortDrivers.NotificationDelivery
