import Mathlib.Algebra.Ring.Nat
import Mathlib.Tactic.Common

/-! Unsigned machine words read as natural numbers where nothing wraps, and the
two's complement reading of a 32-bit word. -/
namespace HailortDrivers.MachineWord

theorem toNat_ofNat_of_lt {n : Nat} (h : n < 2 ^ 32) : (UInt32.ofNat n).toNat = n := by
  rw [UInt32.toNat_ofNat', Nat.mod_eq_of_lt h]

theorem toNat_add_of_lt {a b : UInt32} (h : a.toNat + b.toNat < 2 ^ 32) :
    (a + b).toNat = a.toNat + b.toNat := by
  rw [UInt32.toNat_add, Nat.mod_eq_of_lt h]

theorem toNat_add_sub_one {a b : UInt32} (hlt : a.toNat + b.toNat < 2 ^ 32)
    (hpos : 0 < a.toNat + b.toNat) : (a + b - 1).toNat = a.toNat + b.toNat - 1 := by
  have hone : (1 : UInt32).toNat = 1 := rfl
  rw [UInt32.toNat_sub, toNat_add_of_lt hlt, hone]
  omega

theorem toNat_pos_iff {a : UInt32} : 0 < a.toNat ↔ a ≠ 0 := by
  rw [Nat.pos_iff_ne_zero, ne_eq, ne_eq, ← UInt32.toNat_inj]
  rfl

/-- Rounding up a division stays exact while the sum fits in the word. -/
theorem toNat_ceilDiv {n d : UInt32} (hd : 0 < d.toNat) (h : n.toNat + d.toNat < 2 ^ 32) :
    ((n + d - 1) / d).toNat = (n.toNat + d.toNat - 1) / d.toNat := by
  rw [UInt32.toNat_div, toNat_add_sub_one h (by omega)]

theorem toInt_toInt32_of_lt {x : UInt32} (h : x.toNat < 2 ^ 31) :
    x.toInt32.toInt = x.toNat := by
  simp only [Int32.toInt, UInt32.toBitVec_toInt32, BitVec.toInt_eq_toNat_cond,
    UInt32.toNat_toBitVec]
  omega

theorem toInt_toInt32_neg {x : UInt32} (h : 2 ^ 31 ≤ x.toNat) : x.toInt32.toInt < 0 := by
  have hx := x.toNat_lt
  simp only [Int32.toInt, UInt32.toBitVec_toInt32, BitVec.toInt_eq_toNat_cond,
    UInt32.toNat_toBitVec]
  omega

theorem toInt32_nonneg_iff {x : UInt32} : 0 ≤ x.toInt32.toInt ↔ x.toNat < 2 ^ 31 := by
  constructor
  · intro h
    by_contra hge
    have := toInt_toInt32_neg (x := x) (by omega)
    omega
  · intro h
    rw [toInt_toInt32_of_lt h]
    omega

theorem toUInt32_toNat_of_nonneg {r : Int32} (h : 0 ≤ r.toInt) :
    (r.toUInt32.toNat : Int) = r.toInt := by
  have hr : r.toUInt32.toInt32 = r := Int32.toInt32_toUInt32 r
  have hlt : r.toUInt32.toNat < 2 ^ 31 := toInt32_nonneg_iff.mp (hr ▸ h)
  rw [← toInt_toInt32_of_lt hlt, hr]

/-- Masking with one less than a power of two is the remainder. -/
theorem toNat_and_mask {x m : UInt32} {k : Nat} (hm : m.toNat + 1 = 2 ^ k) :
    (x &&& m).toNat = x.toNat % (m.toNat + 1) := by
  have hsub : m.toNat = 2 ^ k - 1 := by omega
  rw [hm, UInt32.toNat_and, hsub]
  exact Nat.and_two_pow_sub_one_eq_mod _ k

end HailortDrivers.MachineWord
