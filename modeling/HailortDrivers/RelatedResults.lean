import Mathlib.Tactic.Common

/-! Two computations side by side: they fail in the same way, or return results that a
relation holds of. The rules follow a program from its first operation to its last. -/
namespace HailortDrivers.RelatedResults

variable {ε α β γ δ X : Type}

inductive Related (R : α → β → Prop) : Except ε α → Except ε β → Prop
  | ok {a : α} {b : β} (h : R a b) : Related R (.ok a) (.ok b)
  | error (e : ε) : Related R (.error e) (.error e)

variable {R : α → β → Prop} {S : γ → δ → Prop} {x : Except ε α} {y : Except ε β}

theorem Related.bind {f : α → Except ε γ} {g : β → Except ε δ} (h : Related R x y)
    (hnext : ∀ a b, R a b → Related S (f a) (g b)) : Related S (x >>= f) (y >>= g) := by
  cases h with
  | ok h => exact hnext _ _ h
  | error e => exact .error e

/-- The rest may use what the first operation came to. -/
theorem Related.bind_ok {f : α → Except ε γ} {g : β → Except ε δ} (h : Related R x y)
    (hnext : ∀ a b, x = .ok a → R a b → Related S (f a) (g b)) :
    Related S (x >>= f) (y >>= g) := by
  cases h with
  | ok h => exact hnext _ _ rfl h
  | error e => exact .error e

/-- Both sides begin with the same operation. -/
theorem Related.same_bind (x : Except ε X) {f : X → Except ε γ} {g : X → Except ε δ}
    (hnext : ∀ a, Related S (f a) (g a)) : Related S (x >>= f) (x >>= g) := by
  cases x with
  | ok a => exact hnext a
  | error e => exact .error e

/-- Both sides take the same branch. -/
theorem Related.ite {c c' : Prop} [Decidable c] [Decidable c'] {x' : Except ε α}
    {y' : Except ε β} (hc : c ↔ c') (hpos : c → Related R x y) (hneg : ¬ c → Related R x' y') :
    Related R (if c then x else x') (if c' then y else y') := by
  by_cases h : c
  · rw [if_pos h, if_pos (hc.mp h)]
    exact hpos h
  · rw [if_neg h, if_neg fun h' => h (hc.mpr h')]
    exact hneg h

theorem Related.map_eq {f : α → X} {g : β → X} (h : Related R x y)
    (hfg : ∀ a b, R a b → f a = g b) : x.map f = y.map g := by
  cases h with
  | ok h => exact congrArg Except.ok (hfg _ _ h)
  | error e => rfl

end HailortDrivers.RelatedResults
