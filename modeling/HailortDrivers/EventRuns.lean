import Mathlib.Logic.Relation

/-! Runs of a step relation: what one step keeps holds after every run, and a run may be
given by the list of its events. -/
namespace HailortDrivers.EventRuns

variable {S : Type} {Step : S → S → Prop}

theorem inv_of_run {Inv : S → Prop} {s s' : S}
    (hstep : ∀ s s', Inv s → Step s s' → Inv s') (h : Relation.ReflTransGen Step s s')
    (hs : Inv s) : Inv s' := by
  induction h with
  | refl => exact hs
  | tail _ hlast ih => exact hstep _ _ ih hlast

/-- Events that can be taken one after the other make a run. -/
theorem run_of_events {E : Type} {step : S → E → Option S}
    (hstep : ∀ s event s', step s event = some s' → Step s s') {events : List E} {s s' : S}
    (h : events.foldlM step s = some s') : Relation.ReflTransGen Step s s' := by
  induction events generalizing s with
  | nil =>
    cases h
    exact .refl
  | cons event events ih =>
    rw [List.foldlM_cons] at h
    obtain ⟨s₁, hfirst, hrest⟩ := Option.bind_eq_some_iff.mp h
    exact .head (hstep s event s₁ hfirst) (ih hrest)

/-- An invariant of the steps that some events make holds after every run of such events. -/
theorem inv_of_events {E : Type} {step : S → E → Option S} {Inv : S → Prop} {Allowed : E → Prop}
    (hstep : ∀ s event s', Inv s → Allowed event → step s event = some s' → Inv s')
    {events : List E} (hallowed : ∀ event ∈ events, Allowed event) {s s' : S}
    (h : events.foldlM step s = some s') (hs : Inv s) : Inv s' := by
  induction events generalizing s with
  | nil =>
    cases h
    exact hs
  | cons event events ih =>
    rw [List.foldlM_cons] at h
    obtain ⟨s₁, hfirst, hrest⟩ := Option.bind_eq_some_iff.mp h
    exact ih (fun event hevent => hallowed event (List.mem_cons_of_mem _ hevent)) hrest
      (hstep s event s₁ hs (hallowed event List.mem_cons_self) hfirst)

/-- Where allowed events keep an invariant that makes states good, and any other event leads from
it to a state that is not, a run stays good if and only if its events are allowed. -/
theorem allowed_iff_of_prefixes {E : Type} {step : S → E → Option S} {Inv Good : S → Prop}
    {Allowed : E → Prop} (hgood : ∀ s, Inv s → Good s)
    (hstep : ∀ s event s', Inv s → Allowed event → step s event = some s' → Inv s')
    (hbad : ∀ s event s', Inv s → ¬ Allowed event → step s event = some s' → ¬ Good s')
    {events : List E} {s s' : S} (hrun : events.foldlM step s = some s') (hs : Inv s) :
    (∀ earlier s₁, earlier <+: events → earlier.foldlM step s = some s₁ → Good s₁) ↔
      ∀ event ∈ events, Allowed event := by
  constructor
  · intro hall
    induction events generalizing s with
    | nil => exact fun _ hevent => absurd hevent List.not_mem_nil
    | cons event events ih =>
      rw [List.foldlM_cons] at hrun
      obtain ⟨s₁, hfirst, hrest⟩ := Option.bind_eq_some_iff.mp hrun
      have hcons (earlier : List E) :
          (event :: earlier).foldlM step s = earlier.foldlM step s₁ := by
        rw [List.foldlM_cons, hfirst]
        rfl
      have hallowed : Allowed event := by
        refine Classical.byContradiction fun hnot => ?_
        refine hbad s event s₁ hs hnot hfirst (hall [event] s₁ ⟨events, rfl⟩ ?_)
        rw [hcons]
        rfl
      have htail := ih hrest (hstep s event s₁ hs hallowed hfirst) fun earlier s₂ hinit hearlier =>
        hall (event :: earlier) s₂ ((List.prefix_cons_inj event).mpr hinit)
          ((hcons earlier).trans hearlier)
      intro event' hevent'
      cases List.mem_cons.mp hevent' with
      | inl heq => rwa [heq]
      | inr hmem => exact htail event' hmem
  · intro hallowed earlier s₁ hinit hearlier
    exact hgood s₁ (inv_of_events hstep (fun event hevent => hallowed event (hinit.subset hevent))
      hearlier hs)

end HailortDrivers.EventRuns
