import Mathlib.Algebra.BigOperators.Group.List.Basic
import Mathlib.Data.Nat.ModEq
import Mathlib.Tactic.Common

/-! Counters that only grow, of which a ring sees the remainder. Within a window
of one ring length the remainder determines the counter, cyclic order is the
order of the counters, and entries that lie one after the other do not meet. -/
namespace HailortDrivers.ModularWindow

theorem eq_of_mod_eq {N s a b : ℕ} (ha : s ≤ a) (ha' : a < s + N) (hb : s ≤ b)
    (hb' : b < s + N) (h : a % N = b % N) : a = b := by
  obtain ⟨i, rfl⟩ := Nat.exists_eq_add_of_le ha
  obtain ⟨j, rfl⟩ := Nat.exists_eq_add_of_le hb
  have hmod : i ≡ j [MOD N] := Nat.ModEq.add_left_cancel' s h
  rw [Nat.ModEq, Nat.mod_eq_of_lt (by omega), Nat.mod_eq_of_lt (by omega)] at hmod
  rw [hmod]

theorem add_mod_ne {N s i j : ℕ} (hi : i < N) (hj : j < N) (hne : i ≠ j) :
    (s + i) % N ≠ (s + j) % N := by
  intro h
  have := eq_of_mod_eq (s := s) (by omega) (by omega) (by omega) (by omega) h
  omega

/-- Where a counter lies within a window of one ring length, in terms of remainders. -/
theorem mod_eq_of_window {N s a : ℕ} (hs : s ≤ a) (ha : a < s + N) :
    a % N = if s % N + (a - s) < N then s % N + (a - s) else s % N + (a - s) - N := by
  have hN : 0 < N := by omega
  have hlt := Nat.mod_lt s hN
  have hsum : a % N = (s % N + (a - s)) % N := by
    rw [Nat.mod_add_mod, Nat.add_sub_cancel' hs]
  rw [hsum]
  split
  · next h => exact Nat.mod_eq_of_lt h
  · next h => rw [Nat.mod_eq_sub_mod (by omega), Nat.mod_eq_of_lt (by omega)]

/-- `x` is met on the way round from `b` to just before `e`. -/
def CyclicBetween (b e x : ℕ) : Prop := if b < e then b ≤ x ∧ x < e else x < e ∨ b ≤ x

theorem cyclicBetween_mod_iff {N s p x : ℕ} (hp : s < p) (hp' : p < s + N) (hx : s ≤ x)
    (hx' : x < s + N) : CyclicBetween (s % N) (p % N) (x % N) ↔ x < p := by
  have hlt := Nat.mod_lt s (show 0 < N by omega)
  rw [CyclicBetween, mod_eq_of_window (Nat.le_of_lt hp) hp', mod_eq_of_window hx hx']
  split_ifs <;> omega

theorem sub_mod_window {N s a : ℕ} (hs : s ≤ a) (ha : a < s + N) :
    (a % N + N - s % N) % N = a - s := by
  have hlt := Nat.mod_lt s (show 0 < N by omega)
  rw [mod_eq_of_window hs ha]
  split
  · rw [show s % N + (a - s) + N - s % N = a - s + N by omega, Nat.add_mod_right]
    exact Nat.mod_eq_of_lt (by omega)
  · rw [show s % N + (a - s) - N + N - s % N = a - s by omega]
    exact Nat.mod_eq_of_lt (by omega)

section Laid
variable {α : Type*} (N : ℕ) (first last : α → ℕ)

/-- Entries that take the counter from `b` to `e` one after the other, each given
with the counter after its last place. The ring knows its first and last place. -/
inductive Laid : ℕ → List (α × ℕ) → ℕ → Prop
  | nil (b : ℕ) : Laid b [] b
  | cons {a : α} {b m e : ℕ} {xs : List (α × ℕ)} (hlt : b < m) (hfirst : first a = b % N)
      (hlast : last a = (m - 1) % N) (hrest : Laid m xs e) : Laid b ((a, m) :: xs) e

/-- The number of places from the first to the last, going round. -/
def held (a : α) : ℕ := (last a + N - first a) % N + 1

def Holds (a : α) (x : ℕ) : Prop := ∃ j < held N first last a, (first a + j) % N = x

variable {N first last} {xs ys : List (α × ℕ)} {b m e : ℕ}

theorem Laid.le (h : Laid N first last b xs e) : b ≤ e := by
  induction h with
  | nil b => exact Nat.le_refl b
  | cons hlt hfirst hlast hrest ih => exact Nat.le_trans (Nat.le_of_lt hlt) ih

theorem Laid.append (h : Laid N first last b xs m) (h' : Laid N first last m ys e) :
    Laid N first last b (xs ++ ys) e := by
  induction h with
  | nil b => exact h'
  | cons hlt hfirst hlast hrest ih => exact .cons hlt hfirst hlast (ih h')

theorem Laid.split (h : Laid N first last b (xs ++ ys) e) :
    ∃ m, Laid N first last b xs m ∧ Laid N first last m ys e := by
  induction xs generalizing b with
  | nil => exact ⟨b, .nil b, h⟩
  | cons x xs ih =>
    cases h with
    | cons hlt hfirst hlast hrest =>
      obtain ⟨m, hxs, hys⟩ := ih hrest
      exact ⟨m, .cons hlt hfirst hlast hxs, hys⟩

theorem Laid.end_le (h : Laid N first last b xs e) {x : α × ℕ} (hx : x ∈ xs) : x.2 ≤ e := by
  induction h with
  | nil b => cases hx
  | cons hlt hfirst hlast hrest ih =>
    rcases List.mem_cons.mp hx with rfl | hx
    · exact hrest.le
    · exact ih hx

theorem Laid.lt_end (h : Laid N first last b xs e) {x : α × ℕ} (hx : x ∈ xs) : b < x.2 := by
  induction h with
  | nil b => cases hx
  | cons hlt hfirst hlast hrest ih =>
    rcases List.mem_cons.mp hx with rfl | hx
    · exact hlt
    · exact hlt.trans (ih hx)

theorem held_eq {a : α} (hlt : b < m) (hfit : m ≤ b + N) (hfirst : first a = b % N)
    (hlast : last a = (m - 1) % N) : held N first last a = m - b := by
  rw [held, hfirst, hlast, sub_mod_window (by omega) (by omega)]
  omega

/-- An entry holds the places its stretch of the counter goes over. -/
theorem holds_iff {a : α} {x : ℕ} (hlt : b < m) (hfit : m ≤ b + N) (hfirst : first a = b % N)
    (hlast : last a = (m - 1) % N) :
    Holds N first last a x ↔ ∃ p, b ≤ p ∧ p < m ∧ p % N = x := by
  rw [Holds, held_eq hlt hfit hfirst hlast, hfirst]
  constructor
  · rintro ⟨j, hj, rfl⟩
    exact ⟨b + j, by omega, by omega, by rw [Nat.mod_add_mod]⟩
  · rintro ⟨p, hp, hp', rfl⟩
    exact ⟨p - b, by omega, by rw [Nat.mod_add_mod, Nat.add_sub_cancel' hp]⟩

theorem Laid.holds (h : Laid N first last b xs e) (hfit : e ≤ b + N) {a : α}
    (ha : a ∈ xs.map Prod.fst) {x : ℕ} (hx : Holds N first last a x) :
    ∃ p, b ≤ p ∧ p < e ∧ p % N = x := by
  induction h with
  | nil b => cases ha
  | cons hlt hfirst hlast hrest ih =>
    have hle := hrest.le
    rcases List.mem_cons.mp ha with rfl | ha
    · obtain ⟨p, hp, hp', rfl⟩ := (holds_iff hlt (by omega) hfirst hlast).mp hx
      exact ⟨p, hp, by omega, rfl⟩
    · obtain ⟨p, hp, hp', rfl⟩ := ih (by omega) ha
      exact ⟨p, by omega, hp', rfl⟩

/-- Within one ring length no place is held twice. -/
theorem Laid.pairwise (h : Laid N first last b xs e) (hfit : e ≤ b + N) :
    (xs.map Prod.fst).Pairwise fun t u =>
      ∀ x, ¬ (Holds N first last t x ∧ Holds N first last u x) := by
  induction h with
  | nil b => exact .nil
  | @cons a b m e xs hlt hfirst hlast hrest ih =>
    have hle := hrest.le
    refine List.pairwise_cons.mpr ⟨?_, ih (by omega)⟩
    rintro u hu x ⟨hx, hx'⟩
    obtain ⟨p, hp, hp', rfl⟩ := (holds_iff hlt (by omega) hfirst hlast).mp hx
    obtain ⟨q, hq, hq', heq⟩ := hrest.holds (by omega) hu hx'
    have := eq_of_mod_eq (s := b) (by omega) (by omega) (by omega) (by omega) heq
    omega

theorem Laid.sum_held (h : Laid N first last b xs e) (hfit : e ≤ b + N) :
    ((xs.map Prod.fst).map (held N first last)).sum = e - b := by
  induction h with
  | nil b => simp
  | cons hlt hfirst hlast hrest ih =>
    have hle := hrest.le
    rw [List.map_cons, List.map_cons, List.sum_cons, ih (by omega),
      held_eq hlt (by omega) hfirst hlast]
    omega

end Laid

end HailortDrivers.ModularWindow
