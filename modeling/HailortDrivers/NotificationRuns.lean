import HailortDrivers.EventRuns
import HailortDrivers.NotificationDelivery

/-!
What the reads of a file return over a run: notifications in the order they came, the
newest one always, and each exactly once where they come one at a time.
-/
namespace HailortDrivers.NotificationRuns
open ResourceAccess EventRuns NewestMailbox NotificationReads NotificationDelivery

variable {F C σ : Type}

structure Linked (s : NotificationSystem F C σ) : Prop where
  calls : ∀ t f, (s.readers t).filp = some f → isRegistered s f = true
  handling : s.handler ≠ .idle → 0 < s.accepted.length
  cache : 0 < s.accepted.length →
    s.accepted[s.accepted.length - 1]? = some s.notificationCache.content
  contents : ∀ f wait, Listens s f wait → ∀ r ∈ s.returned f,
    s.accepted[r.number]? = some r.content
  sound : ∀ f wait, Listens s f wait → Sound (view s f wait)

structure LinkedNewest (f : F) (s : NotificationSystem F C σ) : Prop where
  linked : Linked s
  newest : ∀ wait, Listens s f wait → KeepsNewest (view s f wait)

structure LinkedOnce (f : F) (s : NotificationSystem F C σ) : Prop where
  linked : Linked s
  once : ∀ wait, Listens s f wait → Once (view s f wait)

/-- What the reads of a listening file returned, in any run. -/
structure InOrder (s : NotificationSystem F C σ) (f : F) : Prop where
  ordered : (s.returned f).Pairwise (fun r r' => r.number ≤ r'.number)
  contents : ∀ r ∈ s.returned f, s.accepted[r.number]? = some r.content
  length_le : (s.returned f).length ≤ s.accepted.length - s.since f + 1

/-- The last notification since the file was opened is among those its reads returned. -/
def NewestReturned (s : NotificationSystem F C σ) (f : F) : Prop :=
  s.since f < s.accepted.length → ∃ r ∈ s.returned f, r.number + 1 = s.accepted.length

/-- No notification came back twice, and each that came while the file was open came back;
of the last this holds once the reads are done with it. -/
structure ReturnedOnce (s : NotificationSystem F C σ) (f : F) (wait : HailoNotificationWait) :
    Prop where
  ordered : (s.returned f).Pairwise (fun r r' => r.number < r'.number)
  complete : ∀ n, s.since f ≤ n → n < s.accepted.length →
    n + 1 < s.accepted.length ∨ Settled s f wait → ∃ r ∈ s.returned f, r.number = n

/-- No read of the listening file fails once it was woken. -/
def Undisturbed (f : F) (s : NotificationSystem F C σ) : Event F C σ → Prop
  | .downInterrupted t => s.readers t = .woken f → ∀ wait, ¬ Listens s f wait
  | .copy t copied => s.readers t = .reinited f → copied = true
  | _ => True

section
variable (io : Mmio σ) (fwAccess : HailoResource) (details buffer : Nat)

/-- And a notification is accepted only when the reads of the file are done with the one
before. -/
def SpacedOut (f : F) (s : NotificationSystem F C σ) : Event F C σ → Prop
  | .notificationIrq =>
    Accepts io fwAccess details buffer s → ∀ wait, Listens s f wait → Settled s f wait
  | event => Undisturbed f s event

variable {io fwAccess details buffer} in
theorem undisturbed_of_spacedOut {f : F} {s : NotificationSystem F C σ} {event : Event F C σ}
    (h : SpacedOut io fwAccess details buffer f s event) :
    Undisturbed f s event := by
  cases event with
  | notificationIrq => trivial
  | _ => exact h

theorem not_drop_of_undisturbed {f : F} {s : NotificationSystem F C σ} {event : Event F C σ}
    {t : C} {wait : HailoNotificationWait}
    (hlistens : Listens s f wait) (hundisturbed : Undisturbed f s event) :
    ¬ (event = .downInterrupted t ∧ s.readers t = .woken f ∨
      event = .copy t false ∧ s.readers t = .reinited f) := by
  rintro (⟨rfl, hwoken⟩ | ⟨rfl, hreinited⟩)
  · exact hundisturbed hwoken wait hlistens
  · exact nomatch hundisturbed hreinited

end

theorem linked_initial (device : σ) :
    Linked (initialSystem device : NotificationSystem F C σ) where
  calls _ _ h := nomatch h
  handling h := absurd rfl h
  cache h := absurd h (Nat.lt_irrefl 0)
  contents _ _ h := nomatch h.wait_eq
  sound _ _ h := nomatch h.wait_eq

section
variable {s s' : NotificationSystem F C σ} {f : F} {wait : HailoNotificationWait}

theorem handler_of_owes (h : handlerOwes s.handler (isRegistered s) f = true) :
    s.handler ≠ .idle := by
  intro hidle
  rw [hidle] at h
  exact nomatch h

theorem settled_iff (hsound : Sound (view s f wait)) :
    Settled s f wait ↔ (view s f wait).pending = 0 := by
  rw [pending_eq_zero_iff hsound.finite]
  exact ⟨fun h => ⟨h.owed, h.completion, h.nobody⟩, fun h => ⟨h.1, h.2.1, h.2.2⟩⟩

theorem inOrder_of_linked (hs : Linked s) (hlistens : Listens s f wait) : InOrder s f := by
  have hsound := hs.sound f wait hlistens
  have hcredit := hsound.credit
  refine ⟨List.pairwise_map.mp hsound.ordered, hs.contents f wait hlistens, ?_⟩
  simp only [view, List.length_map] at hcredit
  omega

theorem newestReturned_of_keepsNewest (hnewest : KeepsNewest (view s f wait))
    (hsound : Sound (view s f wait)) (hsettled : Settled s f wait) : NewestReturned s f := by
  intro hlt
  have hzero := (settled_iff hsound).mp hsettled
  rcases hnewest hlt with hmem | hpending
  · obtain ⟨r, hr, hnumber⟩ := List.mem_map.mp hmem
    exact ⟨r, hr, by rw [hnumber]; exact Nat.sub_one_add_one_eq_of_pos (Nat.zero_lt_of_lt hlt)⟩
  · exact absurd hzero hpending.ne'

theorem returnedOnce_of_once (honce : Once (view s f wait)) (hsound : Sound (view s f wait)) :
    ReturnedOnce s f wait := by
  refine ⟨List.pairwise_map.mp honce.ordered, fun n hle hlt hdone => ?_⟩
  rcases honce.complete n hle hlt with hmem | ⟨hlast, hpending⟩
  · exact List.mem_map.mp hmem
  · rcases hdone with hbefore | hsettled
    · exact absurd hlast hbefore.ne
    · exact absurd ((settled_iff hsound).mp hsettled) hpending.ne'

end

section
variable [DecidableEq F] [DecidableEq C] {io : Mmio σ} {fwAccess : HailoResource}
  {details buffer : Nat} {tgid : C → Nat} {s s' : NotificationSystem F C σ} {event : Event F C σ}

/-- A read is on a file that was registered before the step. -/
theorem registered_before (hcalls : ∀ t f, (s.readers t).filp = some f → isRegistered s f = true)
    (h : Effect io fwAccess details buffer s event s') {t : C} {f : F}
    (hfilp : (s'.readers t).filp = some f) : isRegistered s f = true := by
  cases h with
  | moves t' phase owner hin hphase =>
    rcases filp_of_setReader hfilp with hmoved | hsame
    · exact (hphase f hmoved).elim (hcalls t' f) id
    · exact hcalls t f hsame
  | wakes t' g wait hphase hwait hpos =>
    rcases filp_of_setReader hfilp with hmoved | hsame
    · cases hmoved
      exact Option.isSome_of_eq_some hwait
    · exact hcalls t f hsame
  | reinits t' g wait hphase hwait =>
    rcases filp_of_setReader hfilp with hmoved | hsame
    · cases hmoved
      exact Option.isSome_of_eq_some hwait
    · exact hcalls t f hsame
  | interrupted t' g hphase hevent =>
    exact hcalls t f ((filp_of_setReader hfilp).resolve_left fun h => nomatch h)
  | cancelled t' g wait hphase hwait hdisabled =>
    exact hcalls t f ((filp_of_setReader hfilp).resolve_left fun h => nomatch h)
  | returns t' g hphase =>
    exact hcalls t f ((filp_of_setReader hfilp).resolve_left fun h => nomatch h)
  | fails t' g hphase hevent =>
    exact hcalls t f ((filp_of_setReader hfilp).resolve_left fun h => nomatch h)
  | _ => exact hcalls t f hfilp

theorem calls_step (hcalls : ∀ t f, (s.readers t).filp = some f → isRegistered s f = true)
    (h : Effect io fwAccess details buffer s event s') :
    ∀ t f, (s'.readers t).filp = some f → isRegistered s' f = true := by
  intro t f hfilp
  have hbefore := registered_before hcalls h hfilp
  cases h with
  | completes g pending hhandler hpending =>
    refine isRegistered_setWait (fun hfg => ?_) hbefore
    rw [Option.isSome_map, ← hfg]
    exact hbefore
  | registers g owner hfree => exact isRegistered_setWait (fun _ => rfl) hbefore
  | releases g hnobody =>
    exact isRegistered_setWait (fun hfg => absurd (hfg ▸ hfilp) (hnobody t)) hbefore
  | disables g wait hwait => exact isRegistered_setWait (fun _ => rfl) hbefore
  | wakes t' g wait hphase hwait hpos => exact isRegistered_setWait (fun _ => rfl) hbefore
  | reinits t' g wait hphase hwait => exact isRegistered_setWait (fun _ => rfl) hbefore
  | _ => exact hbefore

theorem handling_step (hhandling : s.handler ≠ .idle → 0 < s.accepted.length)
    (h : Effect io fwAccess details buffer s event s') :
    s'.handler ≠ .idle → 0 < s'.accepted.length := by
  cases h with
  | quiet device handler howes hhandler => exact fun hbusy => hhandling (hhandler hbusy)
  | accepts =>
    simp [NotificationSystem.setHandler, NotificationSystem.accept]
  | completes g pending hhandler hpending =>
    exact fun _ => hhandling fun hidle => nomatch hhandler.symm.trans hidle
  | _ => exact hhandling

theorem cache_step
    (hcache : 0 < s.accepted.length →
      s.accepted[s.accepted.length - 1]? = some s.notificationCache.content)
    (h : Effect io fwAccess details buffer s event s') :
    0 < s'.accepted.length →
      s'.accepted[s'.accepted.length - 1]? = some s'.notificationCache.content := by
  cases h with
  | accepts => simp [NotificationSystem.setHandler, NotificationSystem.accept]
  | _ => exact hcache

theorem accepted_grows (h : Effect io fwAccess details buffer s event s') :
    s.accepted <+: s'.accepted := by
  cases h with
  | accepts device notification => exact List.prefix_append _ _
  | _ => exact List.prefix_refl _

/-- What a step adds to the reads of a file that stays open is the cache of the board. -/
theorem returned_step (h : Effect io fwAccess details buffer s event s') (f : F) :
    s'.returned f = [] ∨ s'.returned f = s.returned f ∨
      ∃ t, InRead f (s.readers t) ∧ s'.returned f =
        s.returned f ++ [⟨s.accepted.length - 1, s.notificationCache.content⟩] := by
  cases h with
  | registers g owner hfree =>
    by_cases hfg : f = g
    · subst hfg
      exact .inl (Function.update_self _ _ _)
    · exact .inr (.inl (Function.update_of_ne hfg _ _))
  | returns t g hphase =>
    by_cases hfg : f = g
    · subst hfg
      refine .inr (.inr ⟨t, ?_, ?_⟩)
      · rw [hphase]
        rfl
      · rw [← content_store s.notificationToUser _ (length_content_le s.notificationCache)]
        exact Function.update_self f _ s.returned
    · exact .inr (.inl (Function.update_of_ne hfg _ _))
  | _ => exact .inr (.inl rfl)

theorem linked_step (hs : Linked s) (h : Effect io fwAccess details buffer s event s') :
    Linked s' := by
  have hhandling := handling_step hs.handling h
  refine ⟨calls_step hs.calls h, hhandling, cache_step hs.cache h, ?_, ?_⟩
  · intro f wait' hlistens r hr
    cases follows_of_effect hs.calls h hlistens with
    | opened hopened =>
      rw [List.map_eq_nil_iff.mp hopened.returned] at hr
      exact nomatch hr
    | moves wait hbefore =>
      have hcontent : s.accepted[r.number]? = some r.content := by
        rcases returned_step h f with hreturned | hreturned | ⟨t, hin, hreturned⟩
        · rw [hreturned] at hr
          exact nomatch hr
        · exact hs.contents f wait hbefore r (hreturned ▸ hr)
        · rw [hreturned] at hr
          rcases List.mem_append.mp hr with hr | hr
          · exact hs.contents f wait hbefore r hr
          · rw [List.mem_singleton.mp hr]
            have hsound := hs.sound f wait hbefore
            exact hs.cache (hsound.some_accepted (pending_pos hsound.finite (a := t) hin))
      obtain ⟨hlt, hsame⟩ := List.getElem?_eq_some_iff.mp hcontent
      rw [List.prefix_iff_getElem?.mp (accepted_grows h) _ hlt, hsame]
  · intro f wait' hlistens
    cases follows_of_effect hs.calls h hlistens with
    | opened hopened =>
      exact sound_of_opened hopened fun howed => hhandling (handler_of_owes howed)
    | moves wait hbefore move hmoves => exact sound_step (hs.sound f wait hbefore) hmoves

theorem run_mono {Admitted Admitted' : NotificationSystem F C σ → Event F C σ → Prop}
    (h : ∀ s event, Admitted s event → Admitted' s event)
    (hrun : Relation.ReflTransGen (Steps io fwAccess details buffer tgid Admitted) s s') :
    Relation.ReflTransGen (Steps io fwAccess details buffer tgid Admitted') s s' := by
  refine Relation.ReflTransGen.mono ?_ _ _ hrun
  rintro s s' ⟨event, hallowed, hadmitted, hstep⟩
  exact ⟨event, hallowed, h s event hadmitted, hstep⟩

theorem linked_of_run {Admitted : NotificationSystem F C σ → Event F C σ → Prop} {device : σ}
    (hrun : Relation.ReflTransGen (Steps io fwAccess details buffer tgid Admitted)
      (initialSystem device) s) : Linked s := by
  refine inv_of_run ?_ hrun (linked_initial device)
  rintro s s' hs ⟨event, hallowed, -, hstep⟩
  exact linked_step hs (effect_of_step hallowed hstep)

theorem linkedNewest_step {f : F} (hs : LinkedNewest f s) (hundisturbed : Undisturbed f s event)
    (h : Effect io fwAccess details buffer s event s') : LinkedNewest f s' := by
  refine ⟨linked_step hs.linked h, fun wait' hlistens => ?_⟩
  cases follows_of_effect hs.linked.calls h hlistens with
  | opened hopened => exact keepsNewest_of_opened hopened
  | moves wait hbefore move hmoves haccept hdrop =>
    exact keepsNewest_step (hs.linked.sound f wait hbefore) (hs.newest wait hbefore) hmoves
      fun t ht => not_drop_of_undisturbed hbefore hundisturbed (hdrop t ht)

theorem linkedOnce_step {f : F} (hs : LinkedOnce f s)
    (hspaced : SpacedOut io fwAccess details buffer f s event)
    (h : Effect io fwAccess details buffer s event s') : LinkedOnce f s' := by
  refine ⟨linked_step hs.linked h, fun wait' hlistens => ?_⟩
  cases follows_of_effect hs.linked.calls h hlistens with
  | opened hopened => exact once_of_opened hopened
  | moves wait hbefore move hmoves haccept hdrop =>
    have hsound := hs.linked.sound f wait hbefore
    refine once_step hsound (hs.once wait hbefore) hmoves ?_ fun t ht =>
      not_drop_of_undisturbed hbefore (undisturbed_of_spacedOut hspaced) (hdrop t ht)
    intro hmove
    obtain ⟨rfl, haccepts⟩ := haccept hmove
    exact (settled_iff hsound).mp (hspaced haccepts wait hbefore)

theorem linkedNewest_of_run {f : F} {device : σ} (hrun : Relation.ReflTransGen
    (Steps io fwAccess details buffer tgid (Undisturbed f)) (initialSystem device) s) :
    LinkedNewest f s := by
  refine inv_of_run ?_ hrun ⟨linked_initial device, fun _ h => nomatch h.wait_eq⟩
  rintro s s' hs ⟨event, hallowed, hundisturbed, hstep⟩
  exact linkedNewest_step hs hundisturbed (effect_of_step hallowed hstep)

theorem linkedOnce_of_run {f : F} {device : σ} (hrun : Relation.ReflTransGen
    (Steps io fwAccess details buffer tgid (SpacedOut io fwAccess details buffer f))
      (initialSystem device) s) : LinkedOnce f s := by
  refine inv_of_run ?_ hrun ⟨linked_initial device, fun _ h => nomatch h.wait_eq⟩
  rintro s s' hs ⟨event, hallowed, hspaced, hstep⟩
  exact linkedOnce_step hs hspaced (effect_of_step hallowed hstep)

/-- In any order of steps the reads of a listening file return notifications in the order
they came, as they came. The newest is never lost to it while none of its woken reads fails,
and each comes back exactly once while they come one at a time. -/
theorem delivery_of_run {f : F} {wait : HailoNotificationWait} {device : σ}
    (hrun : Relation.ReflTransGen
      (Steps io fwAccess details buffer tgid fun _ _ => True) (initialSystem device) s)
    (hlistens : Listens s f wait) :
    InOrder s f ∧
      (Relation.ReflTransGen (Steps io fwAccess details buffer tgid (Undisturbed f))
        (initialSystem device) s → Settled s f wait → NewestReturned s f) ∧
      (Relation.ReflTransGen
        (Steps io fwAccess details buffer tgid (SpacedOut io fwAccess details buffer f))
          (initialSystem device) s → ReturnedOnce s f wait) := by
  have hlinked := linked_of_run hrun
  have hsound := hlinked.sound f wait hlistens
  refine ⟨inOrder_of_linked hlinked hlistens, fun hundisturbed hsettled => ?_, fun hspaced => ?_⟩
  · have hnewest := (linkedNewest_of_run hundisturbed).newest wait hlistens
    exact newestReturned_of_keepsNewest hnewest hsound hsettled
  · exact returnedOnce_of_once ((linkedOnce_of_run hspaced).once wait hlistens) hsound

end

/-- A device with the header of its notification and one word of it. -/
def headerAndWord : Mmio (UInt32 × UInt32) where
  ioread32 address device :=
    (if address = pcieD2hNotificationSramOffset then device.1 else device.2, device)
  iowrite32 value address device :=
    if address = pcieD2hNotificationSramOffset then (value, device.2) else device

def sram : HailoResource := ⟨0, 4096⟩

/-- The device offers a notification of one byte. -/
def offering (b : UInt8) : UInt32 × UInt32 := (0x10001, b.toUInt32)

/-- File `()` is opened, a notification comes and a read returns it. -/
theorem delivery_of_run_oneRead :
    ∃ s : NotificationSystem Unit Unit (UInt32 × UInt32), s.accepted = [[5]] ∧
      s.returned () = [⟨0, [5]⟩] ∧ InOrder s () ∧ NewestReturned s () ∧
      ReturnedOnce s () ⟨7, false, 0⟩ := by
  obtain ⟨s, hspaced, hlistens, hsettled, haccepted, hreturned⟩ :
      ∃ s : NotificationSystem Unit Unit (UInt32 × UInt32), Relation.ReflTransGen
        (Steps headerAndWord sram 0 0 (fun _ => 7) (SpacedOut headerAndWord sram 0 0 ()))
          (initialSystem (offering 5)) s ∧ Listens s () ⟨7, false, 0⟩ ∧
        Settled s () ⟨7, false, 0⟩ ∧ s.accepted = [[5]] ∧ s.returned () = [⟨0, [5]⟩] := by
    refine ⟨_, .head ⟨.openFile () 7, trivial, trivial, rfl⟩ <|
      .head ⟨.notificationIrq, trivial, fun _ wait hlistens => ?_, rfl⟩ <|
      .head ⟨.traverse, trivial, trivial, rfl⟩ <|
      .head ⟨.complete (), trivial, trivial, rfl⟩ <|
      .head ⟨.handled, ?_, trivial, rfl⟩ <|
      .head ⟨.readNotification () (), trivial, trivial, rfl⟩ <|
      .head ⟨.wake (), trivial, trivial, rfl⟩ <|
      .head ⟨.down (), trivial, trivial, rfl⟩ <|
      .head ⟨.reinit (), trivial, trivial, rfl⟩ <|
      .single ⟨.copy () true, trivial, fun _ => rfl, rfl⟩, ⟨rfl, rfl⟩, ⟨rfl, rfl, fun _ => id⟩,
      rfl, rfl⟩
    · cases hlistens.wait_eq
      exact ⟨rfl, rfl, fun _ => id⟩
    · rintro _ ⟨⟩ ⟨⟩
      rfl
  have hundisturbed := run_mono (fun _ _ => undisturbed_of_spacedOut) hspaced
  have hrun := run_mono (fun _ _ _ => trivial) hspaced
  obtain ⟨horder, hnewest, honce⟩ := delivery_of_run hrun hlistens
  exact ⟨s, haccepted, hreturned, horder, hnewest hundisturbed hsettled, honce hspaced⟩

/-- Two notifications before a read: it returns the second, the first is lost. And a
notification between the reinit of a read and its copy: this read and the next return it. -/
theorem lateRead_loses_earlyReinit_repeats :
    (∃ s : NotificationSystem Unit Unit (UInt32 × UInt32), Relation.ReflTransGen
      (Steps headerAndWord sram 0 0 (fun _ => 7) fun _ _ => True) (initialSystem (offering 5)) s ∧
        Listens s () ⟨7, false, 0⟩ ∧ s.since () = 0 ∧ s.accepted = [[5], [6]] ∧
        Settled s () ⟨7, false, 0⟩ ∧ s.returned () = [⟨1, [6]⟩] ∧
        ¬ ReturnedOnce s () ⟨7, false, 0⟩) ∧
    ∃ s : NotificationSystem Unit Unit (UInt32 × UInt32), Relation.ReflTransGen
      (Steps headerAndWord sram 0 0 (fun _ => 7) fun _ _ => True) (initialSystem (offering 5)) s ∧
        Listens s () ⟨7, false, 0⟩ ∧ s.since () = 0 ∧ s.accepted = [[5], [6]] ∧
        Settled s () ⟨7, false, 0⟩ ∧ s.returned () = [⟨1, [6]⟩, ⟨1, [6]⟩] ∧
        ¬ ReturnedOnce s () ⟨7, false, 0⟩ := by
  constructor
  · obtain ⟨s, hrun, hlistens, hsince, haccepted, hsettled, hreturned⟩ :
        ∃ s : NotificationSystem Unit Unit (UInt32 × UInt32), Relation.ReflTransGen
          (Steps headerAndWord sram 0 0 (fun _ => 7) fun _ _ => True)
            (initialSystem (offering 5)) s ∧ Listens s () ⟨7, false, 0⟩ ∧ s.since () = 0 ∧
          s.accepted = [[5], [6]] ∧ Settled s () ⟨7, false, 0⟩ ∧ s.returned () = [⟨1, [6]⟩] := by
      refine ⟨_, .head ⟨.openFile () 7, trivial, trivial, rfl⟩ <|
        .head ⟨.notificationIrq, trivial, trivial, rfl⟩ <|
        .head ⟨.traverse, trivial, trivial, rfl⟩ <|
        .head ⟨.complete (), trivial, trivial, rfl⟩ <|
        .head ⟨.handled, ?_, trivial, rfl⟩ <|
        .head ⟨.firmware (offering 6), trivial, trivial, rfl⟩ <|
        .head ⟨.notificationIrq, trivial, trivial, rfl⟩ <|
        .head ⟨.traverse, trivial, trivial, rfl⟩ <|
        .head ⟨.complete (), trivial, trivial, rfl⟩ <|
        .head ⟨.handled, ?_, trivial, rfl⟩ <|
        .head ⟨.readNotification () (), trivial, trivial, rfl⟩ <|
        .head ⟨.wake (), trivial, trivial, rfl⟩ <|
        .head ⟨.down (), trivial, trivial, rfl⟩ <|
        .head ⟨.reinit (), trivial, trivial, rfl⟩ <|
        .single ⟨.copy () true, trivial, trivial, rfl⟩, ⟨rfl, rfl⟩, rfl, rfl,
        ⟨rfl, rfl, fun _ => id⟩, rfl⟩
      · rintro _ ⟨⟩ ⟨⟩
        rfl
      · rintro _ ⟨⟩ ⟨⟩
        rfl
    refine ⟨s, hrun, hlistens, hsince, haccepted, hsettled, hreturned, fun honce => ?_⟩
    obtain ⟨r, hr, hnumber⟩ := honce.complete 0 hsince.le (by simp [haccepted]) (.inr hsettled)
    rw [hreturned, List.mem_singleton] at hr
    rw [hr] at hnumber
    exact nomatch hnumber
  · obtain ⟨s, hrun, hlistens, hsince, haccepted, hsettled, hreturned⟩ :
        ∃ s : NotificationSystem Unit Unit (UInt32 × UInt32), Relation.ReflTransGen
          (Steps headerAndWord sram 0 0 (fun _ => 7) fun _ _ => True)
            (initialSystem (offering 5)) s ∧ Listens s () ⟨7, false, 0⟩ ∧ s.since () = 0 ∧
          s.accepted = [[5], [6]] ∧ Settled s () ⟨7, false, 0⟩ ∧
          s.returned () = [⟨1, [6]⟩, ⟨1, [6]⟩] := by
      refine ⟨_, .head ⟨.openFile () 7, trivial, trivial, rfl⟩ <|
        .head ⟨.notificationIrq, trivial, trivial, rfl⟩ <|
        .head ⟨.traverse, trivial, trivial, rfl⟩ <|
        .head ⟨.complete (), trivial, trivial, rfl⟩ <|
        .head ⟨.handled, ?_, trivial, rfl⟩ <|
        .head ⟨.readNotification () (), trivial, trivial, rfl⟩ <|
        .head ⟨.wake (), trivial, trivial, rfl⟩ <|
        .head ⟨.down (), trivial, trivial, rfl⟩ <|
        .head ⟨.reinit (), trivial, trivial, rfl⟩ <|
        .head ⟨.firmware (offering 6), trivial, trivial, rfl⟩ <|
        .head ⟨.notificationIrq, trivial, trivial, rfl⟩ <|
        .head ⟨.copy () true, trivial, trivial, rfl⟩ <|
        .head ⟨.traverse, trivial, trivial, rfl⟩ <|
        .head ⟨.complete (), trivial, trivial, rfl⟩ <|
        .head ⟨.handled, ?_, trivial, rfl⟩ <|
        .head ⟨.readNotification () (), trivial, trivial, rfl⟩ <|
        .head ⟨.wake (), trivial, trivial, rfl⟩ <|
        .head ⟨.down (), trivial, trivial, rfl⟩ <|
        .head ⟨.reinit (), trivial, trivial, rfl⟩ <|
        .single ⟨.copy () true, trivial, trivial, rfl⟩, ⟨rfl, rfl⟩, rfl, rfl,
        ⟨rfl, rfl, fun _ => id⟩, rfl⟩
      · rintro _ ⟨⟩ ⟨⟩
        rfl
      · rintro _ ⟨⟩ ⟨⟩
        rfl
    refine ⟨s, hrun, hlistens, hsince, haccepted, hsettled, hreturned, fun honce => ?_⟩
    have hordered := honce.ordered
    rw [hreturned] at hordered
    exact Nat.lt_irrefl 1 (List.rel_of_pairwise_cons hordered (List.mem_singleton.mpr rfl))

end HailortDrivers.NotificationRuns
