import Mathlib.Data.List.Basic
import Mathlib.Logic.Relation

/-! Systems whose events have outputs, and an observer who sees some of the events. Where the
other events change nothing that the seen ones depend on, a run without them gives the seen ones
the same outputs. -/
namespace HailortDrivers.Unwinding

variable {S E O F : Type}

/-- A state, and the events on the way to it with their outputs. -/
structure Recorded (S E O : Type) where
  state : S
  log : List (E × O)

/-- An event that does not fault is recorded with its output. -/
def Records (step : S → E → Except F (O × S)) (Admitted : S → E → Prop)
    (r r' : Recorded S E O) : Prop :=
  ∃ event output, Admitted r.state event ∧ step r.state event = .ok (output, r'.state) ∧
    r'.log = r.log ++ [(event, output)]

/-- What the observer sees of a log. -/
def seenLog (seen : E → Bool) (log : List (E × O)) : List (E × O) :=
  log.filter fun entry => seen entry.1

theorem seenLog_snoc {seen : E → Bool} {event : E} (log : List (E × O)) (output : O) :
    seenLog seen (log ++ [(event, output)]) =
      seenLog seen log ++ if seen event then [(event, output)] else [] := by
  rw [seenLog, List.filter_append, seenLog, List.filter_singleton, cond_eq_ite]

variable {step : S → E → Except F (O × S)} {Admitted Admitted' : S → E → Prop}
  {r : Recorded S E O}

/-- A relation between the state of a run and that of the run without the unseen events is enough:
seen events have the same output on both sides and keep it, and unseen events keep it. -/
theorem purged_of_run {seen : E → Bool} {Alike : S → S → Prop}
    (hseen : ∀ s a event output s', Alike s a → seen event = true → Admitted s event →
      step s event = .ok (output, s') →
      Admitted' a event ∧ ∃ a', step a event = .ok (output, a') ∧ Alike s' a')
    (hunseen : ∀ s a event output s', Alike s a → seen event = false → Admitted s event →
      step s event = .ok (output, s') → Alike s' a)
    {s a : S} (hrun : Relation.ReflTransGen (Records step Admitted) ⟨s, []⟩ r)
    (halike : Alike s a) :
    ∃ a', Relation.ReflTransGen (Records step Admitted') ⟨a, []⟩ ⟨a', seenLog seen r.log⟩ ∧
      Alike r.state a' := by
  induction hrun with
  | refl => exact ⟨a, .refl, halike⟩
  | @tail r₁ r₂ _ hlast ih =>
    obtain ⟨a₁, hrun₁, halike₁⟩ := ih
    obtain ⟨event, output, hadmitted, hstep, hlog⟩ := hlast
    rw [hlog, seenLog_snoc]
    cases hevent : seen event with
    | true =>
      obtain ⟨hadmitted', a₂, hstep', halike₂⟩ :=
        hseen _ _ _ _ _ halike₁ hevent hadmitted hstep
      exact ⟨a₂, hrun₁.tail ⟨event, output, hadmitted', hstep', rfl⟩, halike₂⟩
    | false =>
      rw [if_neg Bool.false_ne_true, List.append_nil]
      exact ⟨a₁, hrun₁, hunseen _ _ _ _ _ halike₁ hevent hadmitted hstep⟩

end HailortDrivers.Unwinding
