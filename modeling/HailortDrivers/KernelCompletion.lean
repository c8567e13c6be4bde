import Mathlib.Tactic.Common

/-! The kernel's `struct completion`: a counter of signals that a wait takes one of. -/
namespace HailortDrivers.KernelCompletion

def uintMax : UInt32 := 0xFFFFFFFF

structure Completion where
  done : UInt32
deriving DecidableEq

namespace Completion

def init : Completion := ⟨0⟩

def reinit (_ : Completion) : Completion := ⟨0⟩

def complete (x : Completion) : Completion := if x.done = uintMax then x else ⟨x.done + 1⟩

def completeAll (_ : Completion) : Completion := ⟨uintMax⟩

/-- What a wait leaves when it finds a signal; it sleeps on `none`. -/
def tryWait (x : Completion) : Option Completion :=
  if x.done = 0 then none
  else if x.done = uintMax then some x
  else some ⟨x.done - 1⟩

@[simp] theorem reinit_done (x : Completion) : x.reinit.done = 0 := rfl

theorem complete_done_ne_zero (x : Completion) : x.complete.done ≠ 0 := by
  rw [complete]
  split
  · next h => rw [h]; decide
  · next h =>
    intro hzero
    apply h
    have hsucc : x.done = 0 - 1 := by rw [← hzero, UInt32.add_sub_cancel]
    rw [hsucc]
    decide

theorem tryWait_isSome (x : Completion) : x.tryWait.isSome = true ↔ x.done ≠ 0 := by
  rw [tryWait]
  split
  · next h => simp [h]
  · next h =>
    split
    · simp [h]
    · simp [h]

theorem done_ne_zero_of_tryWait {x y : Completion} (h : x.tryWait = some y) : x.done ≠ 0 :=
  x.tryWait_isSome.mp (by rw [h]; rfl)

end Completion

end HailortDrivers.KernelCompletion
