import Mathlib.Algebra.Ring.Nat
import Mathlib.Logic.Function.Basic
import Mathlib.Tactic.Common

/-! What the kernel's C leaves undefined, made a fault, and the bit macros of
`driver_utils.h`. A run that divides by zero, follows a null or freed pointer or
hits a `BUG_ON` has no result, and no theorem is told what it would return. -/
namespace HailortDrivers.KernelExec

inductive ObjectKind
  | descriptorsList
  | mappedBuffer
deriving DecidableEq

inductive Fault
  | divideError
  | nullDereference
  | bugOn
  | usedAfterFree (kind : ObjectKind) (address : Nat)
deriving DecidableEq

abbrev Exec := Except Fault

def umod (a b : UInt32) : Exec UInt32 :=
  if b = 0 then .error .divideError else .ok (a % b)

def udiv (a b : UInt32) : Exec UInt32 :=
  if b = 0 then .error .divideError else .ok (a / b)

/-- `DIV_ROUND_UP` -/
def divRoundUp (n d : UInt32) : Exec UInt32 := udiv (n + d - 1) d

/-- `hailo_test_bit`, on the bit positions a 32-bit word has -/
def hailoTestBit (pos : Nat) (bits : UInt32) : Bool := bits.toNat.testBit pos

/-- `READ_BITS_AT_OFFSET` -/
def readBitsAtOffset (amountBits offset initialValue : Nat) : Nat :=
  (initialValue >>> offset) &&& ((1 <<< amountBits) - 1)

/-- `WRITE_BITS_AT_OFFSET`, on a 32-bit word -/
def writeBitsAtOffset (amountBits offset initialValue value : UInt32) : UInt32 :=
  (initialValue &&& ~~~(((1 <<< amountBits) - 1) <<< offset)) |||
    ((value &&& ((1 <<< amountBits) - 1)) <<< offset)

@[simp] theorem hailoTestBit_zero (pos : Nat) : hailoTestBit pos 0 = false :=
  Nat.zero_testBit pos

theorem hailoTestBit_and (pos : Nat) (a b : UInt32) :
    hailoTestBit pos (a &&& b) = (hailoTestBit pos a && hailoTestBit pos b) := by
  rw [hailoTestBit, UInt32.toNat_and, Nat.testBit_and, hailoTestBit, hailoTestBit]

@[simp] theorem hailoTestBit_or (pos : Nat) (a b : UInt32) :
    hailoTestBit pos (a ||| b) = (hailoTestBit pos a || hailoTestBit pos b) := by
  rw [hailoTestBit, UInt32.toNat_or, Nat.testBit_or, hailoTestBit, hailoTestBit]

/-- A word has no bits from position 32 on. -/
theorem hailoTestBit_lt {pos : Nat} {a : UInt32} (h : hailoTestBit pos a = true) : pos < 32 := by
  by_contra hpos
  have hlt : a.toNat < 2 ^ pos :=
    Nat.lt_of_lt_of_le a.toNat_lt (Nat.pow_le_pow_right (by decide) (Nat.not_lt.mp hpos))
  rw [hailoTestBit, Nat.testBit_lt_two_pow hlt] at h
  cases h

@[simp] theorem hailoTestBit_and_not (pos : Nat) (a b : UInt32) :
    hailoTestBit pos (a &&& ~~~b) = (hailoTestBit pos a && !hailoTestBit pos b) := by
  rw [hailoTestBit_and]
  cases ha : hailoTestBit pos a with
  | false => rfl
  | true =>
    have hpos := hailoTestBit_lt ha
    rw [Bool.true_and, Bool.true_and, hailoTestBit, hailoTestBit, ← UInt32.toNat_toBitVec,
      ← UInt32.toNat_toBitVec, UInt32.toBitVec_not, ← BitVec.getLsbD, ← BitVec.getLsbD,
      BitVec.getLsbD_not, decide_eq_true hpos, Bool.true_and]

theorem eq_of_hailoTestBit {a b : UInt32} (h : ∀ pos, hailoTestBit pos a = hailoTestBit pos b) :
    a = b := UInt32.toNat_inj.mp (Nat.eq_of_testBit_eq h)

theorem and_eq_zero_iff {a b : UInt32} :
    a &&& b = 0 ↔ ∀ pos, hailoTestBit pos a = true → hailoTestBit pos b = false := by
  constructor
  · intro h pos ha
    have hand := hailoTestBit_and pos a b
    rw [h, hailoTestBit_zero, ha, Bool.true_and] at hand
    exact hand.symm
  · intro h
    refine eq_of_hailoTestBit fun pos => ?_
    rw [hailoTestBit_and, hailoTestBit_zero]
    cases ha : hailoTestBit pos a with
    | false => rfl
    | true => rw [h pos ha, Bool.true_and]

theorem umod_of_ne {a b : UInt32} (h : b ≠ 0) : umod a b = .ok (a % b) := if_neg h

theorem udiv_of_ne {a b : UInt32} (h : b ≠ 0) : udiv a b = .ok (a / b) := if_neg h

theorem divRoundUp_of_ne {n d : UInt32} (h : d ≠ 0) :
    divRoundUp n d = .ok ((n + d - 1) / d) := udiv_of_ne h

theorem umod_ok {a b r : UInt32} (h : umod a b = .ok r) : b ≠ 0 ∧ r = a % b := by
  unfold umod at h
  split at h
  · cases h
  · next hb => exact ⟨hb, (Except.ok.inj h).symm⟩

theorem divRoundUp_ok {n d r : UInt32} (h : divRoundUp n d = .ok r) :
    d ≠ 0 ∧ r = (n + d - 1) / d := by
  unfold divRoundUp udiv at h
  split at h
  · cases h
  · next hd => exact ⟨hd, (Except.ok.inj h).symm⟩

/-- A sequence of two kernel steps ended well only if both did. -/
theorem bind_ok {α β : Type} {x : Exec α} {f : α → Exec β} {b : β}
    (h : x >>= f = .ok b) : ∃ a, x = .ok a ∧ f a = .ok b := by
  cases x with
  | error e => cases h
  | ok a => exact ⟨a, rfl, h⟩

@[simp] theorem ok_bind {α β : Type} (a : α) (f : α → Exec β) :
    ((Except.ok a : Exec α) >>= f) = f a := rfl

end HailortDrivers.KernelExec
