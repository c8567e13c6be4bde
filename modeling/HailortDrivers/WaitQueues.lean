import HailortDrivers.EventRuns
import Mathlib.Data.List.Induction

/-! Threads that wait for a condition on a wait queue. A waiter enrolls before it tests its
condition, so a wake-up after the test keeps it from sleeping. Whoever makes conditions true
owes a wake-up; a condition that a sleeper does not see was made true by a step that owes none. -/
namespace HailortDrivers.WaitQueues

/-- The rounds of a wait: to enroll, to test and to sleep. A wake-up takes waiters off the queue. -/
inductive Waiter (C : Type)
  | entering (c : C)
  | testing (c : C) (enrolled : Bool)
  | tested (c : C) (enrolled : Bool)
  | asleep (c : C)
deriving DecidableEq

namespace Waiter
variable {C : Type}

def condition : Waiter C → C
  | .entering c | .testing c _ | .tested c _ | .asleep c => c

def woken : Waiter C → Waiter C
  | .entering c => .entering c
  | .testing c _ => .testing c false
  | .tested c _ => .tested c false
  | .asleep c => .entering c

/-- What a waiter whose test failed counts on being woken for. -/
def relies : Waiter C → Option C
  | .tested c true => some c
  | .asleep c => some c
  | _ => none

/-- The step that a waiter takes by itself; its wait is over on `none`. -/
def next (holds : C → Bool) : Waiter C → Option (Waiter C)
  | .entering c => some (.testing c true)
  | .testing c enrolled => if holds c then none else some (.tested c enrolled)
  | .tested c enrolled => some (if enrolled then .asleep c else .entering c)
  | .asleep c => some (.asleep c)

@[simp] theorem relies_woken (w : Waiter C) : w.woken.relies = none := by
  cases w with
  | entering c => rfl
  | testing c enrolled => rfl
  | tested c enrolled => rfl
  | asleep c => rfl

/-- A waiter that starts to count on a wake-up has just found its condition false. -/
theorem relies_next {holds : C → Bool} {w w' : Waiter C} {c : C} (h : w.next holds = some w')
    (hrelies : w'.relies = some c) : w.relies = some c ∨ holds c = false := by
  cases w with
  | entering c' =>
    cases h
    cases hrelies
  | testing c' enrolled =>
    rw [next] at h
    split at h
    · cases h
    · next hfalse =>
      cases h
      cases enrolled with
      | false => cases hrelies
      | true =>
        cases hrelies
        exact Or.inr (eq_false_of_ne_true hfalse)
  | tested c' enrolled =>
    cases h
    cases enrolled with
    | false => cases hrelies
    | true => exact Or.inl hrelies
  | asleep c' =>
    cases h
    exact Or.inl hrelies

end Waiter

structure WaitSystem (S E T C : Type) where
  step : S → E → Option S
  waiter : S → T → Option (Waiter C)
  holds : S → C → Bool
  Owes : S → Prop

namespace WaitSystem
variable {S E T C : Type} (sys : WaitSystem S E T C)

def Relies (s : S) (t : T) (c : C) : Prop := ∃ w, sys.waiter s t = some w ∧ w.relies = some c

/-- A waiter counts on a wake-up for a condition that holds, and nobody owes one. -/
structure Unseen (s : S) (t : T) (c : C) : Prop where
  relies : sys.Relies s t c
  holds : sys.holds s c = true
  owes : ¬ sys.Owes s

/-- The steps test before they count on a wake-up, and wake-ups are owed until all are woken.
Only the silent steps make a condition true and owe nothing. -/
structure Disciplined (Silent : S → E → C → Prop) : Prop where
  relies : ∀ {s event s' t c}, sys.step s event = some s' → sys.Relies s' t c →
    sys.Relies s t c ∨ sys.holds s' c = false
  owes : ∀ {s event s' t c}, sys.step s event = some s' → sys.Relies s' t c → sys.Owes s →
    sys.Owes s'
  silent : ∀ {s event s' c}, sys.step s event = some s' → sys.holds s c = false →
    sys.holds s' c = true → sys.Owes s' ∨ Silent s event c

variable {sys}

/-- The step to blame: it was silent, and made the condition true that the waiter had found
false and was counting on. -/
theorem Disciplined.blames {Silent : S → E → C → Prop} (h : sys.Disciplined Silent)
    {events : List E} {s s' : S} (hrun : events.foldlM sys.step s = some s') {t : T} {c : C}
    (hunseen : sys.Unseen s' t c) :
    sys.Unseen s t c ∨ ∃ before event after s₁, events = before ++ event :: after ∧
      before.foldlM sys.step s = some s₁ ∧ sys.Relies s₁ t c ∧ sys.holds s₁ c = false ∧
        Silent s₁ event c := by
  induction events using List.reverseRecOn generalizing s' with
  | nil =>
    cases hrun
    exact Or.inl hunseen
  | append_singleton events event ih =>
    rw [List.foldlM_append] at hrun
    obtain ⟨s₁, hbefore, hlast⟩ := Option.bind_eq_some_iff.mp hrun
    have hstep : sys.step s₁ event = some s' := by
      rw [List.foldlM_cons] at hlast
      obtain ⟨s₂, hstep, hend⟩ := Option.bind_eq_some_iff.mp hlast
      cases hend
      exact hstep
    have hrelies : sys.Relies s₁ t c := by
      refine (h.relies hstep hunseen.relies).resolve_right fun hfalse => ?_
      exact Bool.false_ne_true (hfalse.symm.trans hunseen.holds)
    have howes : ¬ sys.Owes s₁ := fun howes =>
      hunseen.owes (h.owes hstep hunseen.relies howes)
    cases hholds : sys.holds s₁ c with
    | true =>
      rcases ih hbefore ⟨hrelies, hholds, howes⟩ with hstart | ⟨before, e, after, s₂, heq, hrest⟩
      · exact Or.inl hstart
      · refine Or.inr ⟨before, e, after ++ [event], s₂, ?_, hrest⟩
        rw [heq, List.append_assoc, List.cons_append]
    | false =>
      have hsilent := (h.silent hstep hholds hunseen.holds).resolve_left hunseen.owes
      exact Or.inr ⟨events, event, [], s₁, rfl, hbefore, hrelies, hholds, hsilent⟩

end WaitSystem

end HailortDrivers.WaitQueues
