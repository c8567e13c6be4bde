import HailortDrivers.KernelExec

/-! The bit fields of a register: what `READ_BITS_AT_OFFSET` reads after
`WRITE_BITS_AT_OFFSET` wrote the same field or another one. -/
namespace HailortDrivers.RegisterBits
open KernelExec

theorem hailoTestBit_shiftLeft {a : UInt32} {k o : Nat} (hk : k < 32) (ho : o < 32) :
    hailoTestBit k (a <<< UInt32.ofNat o) = (decide (o ≤ k) && hailoTestBit (k - o) a) := by
  have hshift : (UInt32.ofNat o).toNat % 32 = o := by
    rw [UInt32.toNat_ofNat']
    omega
  rw [hailoTestBit, UInt32.toNat_shiftLeft, hshift, Nat.testBit_mod_two_pow,
    Nat.testBit_shiftLeft, decide_eq_true hk, Bool.true_and, hailoTestBit]

theorem hailoTestBit_ones {n : Nat} (hn : n < 32) (k : Nat) :
    hailoTestBit k (((1 : UInt32) <<< UInt32.ofNat n) - 1) = decide (k < n) := by
  have hpow : 2 ^ n < 2 ^ 32 := Nat.pow_lt_pow_right (by decide) hn
  have hpos := Nat.two_pow_pos n
  have hone : (1 : UInt32).toNat = 1 := rfl
  have hshift : ((1 : UInt32) <<< UInt32.ofNat n).toNat = 2 ^ n := by
    have hmod : (UInt32.ofNat n).toNat % 32 = n := by
      rw [UInt32.toNat_ofNat']
      omega
    rw [UInt32.toNat_shiftLeft, hmod, hone, Nat.shiftLeft_eq, Nat.one_mul, Nat.mod_eq_of_lt hpow]
  have hsub : (((1 : UInt32) <<< UInt32.ofNat n) - 1).toNat = 2 ^ n - 1 := by
    rw [UInt32.toNat_sub, hshift, hone]
    omega
  rw [hailoTestBit, hsub]
  exact Nat.testBit_two_pow_sub_one n k

section
variable {n o n' o' : Nat} {w v : UInt32}

/-- Writing a field replaces its own bits and no others. -/
theorem hailoTestBit_writeBits (hn : n < 32) (hfit : o + n ≤ 32) (k : Nat) :
    hailoTestBit k (writeBitsAtOffset (UInt32.ofNat n) (UInt32.ofNat o) w v) =
      if o ≤ k ∧ k < o + n then hailoTestBit (k - o) v else hailoTestBit k w := by
  rcases Nat.lt_or_ge k 32 with hk | hk
  · rcases Nat.lt_or_ge o 32 with ho | ho
    · rw [writeBitsAtOffset, hailoTestBit_or, hailoTestBit_and_not, hailoTestBit_shiftLeft hk ho,
        hailoTestBit_shiftLeft hk ho, hailoTestBit_and, hailoTestBit_ones hn]
      split
      · next hin =>
        have hlt : k - o < n := by omega
        simp [hin.1, hlt]
      · next hout =>
        have hnot : o ≤ k → ¬ k - o < n := by omega
        by_cases hle : o ≤ k
        · simp [hle, hnot hle]
        · simp [hle]
    · obtain ⟨rfl, rfl⟩ : o = 32 ∧ n = 0 := by omega
      have hfull : writeBitsAtOffset (UInt32.ofNat 0) (UInt32.ofNat 32) w v = w := by
        simp [writeBitsAtOffset]
      rw [hfull, if_neg (by omega)]
  · have hzero {a : UInt32} : hailoTestBit k a = false := by
      by_contra h
      exact absurd (hailoTestBit_lt (Bool.not_eq_false _ ▸ h)) (Nat.not_lt.mpr hk)
    rw [hzero, hzero, if_neg (by omega)]

theorem testBit_readBits (n o x k : Nat) :
    (readBitsAtOffset n o x).testBit k = (decide (k < n) && x.testBit (o + k)) := by
  have hmask : 1 <<< n - 1 = 2 ^ n - 1 := by rw [Nat.shiftLeft_eq, Nat.one_mul]
  rw [readBitsAtOffset, hmask, Nat.testBit_and, Nat.testBit_shiftRight,
    Nat.testBit_two_pow_sub_one, Bool.and_comm]

theorem readBits_eq (n o x : Nat) : readBitsAtOffset n o x = x / 2 ^ o % 2 ^ n := by
  have hmask : 1 <<< n - 1 = 2 ^ n - 1 := by rw [Nat.shiftLeft_eq, Nat.one_mul]
  rw [readBitsAtOffset, hmask, Nat.and_two_pow_sub_one_eq_mod, Nat.shiftRight_eq_div_pow]

/-- A field reads back as what was written to it. -/
theorem readBits_writeBits (hn : n < 32) (hfit : o + n ≤ 32) :
    readBitsAtOffset n o (writeBitsAtOffset (UInt32.ofNat n) (UInt32.ofNat o) w v).toNat =
      v.toNat % 2 ^ n := by
  apply Nat.eq_of_testBit_eq
  intro k
  have hwrite := hailoTestBit_writeBits (w := w) (v := v) hn hfit (o + k)
  rw [hailoTestBit] at hwrite
  rw [testBit_readBits, hwrite, Nat.testBit_mod_two_pow]
  by_cases hk : k < n
  · rw [if_pos ⟨Nat.le_add_right o k, by omega⟩, Nat.add_sub_cancel_left, hailoTestBit]
  · rw [decide_eq_false hk, Bool.false_and, Bool.false_and]

/-- A field that lies apart from the one written reads as before. -/
theorem readBits_writeBits_of_disjoint (hn : n < 32) (hfit : o + n ≤ 32)
    (hapart : o' + n' ≤ o ∨ o + n ≤ o') :
    readBitsAtOffset n' o' (writeBitsAtOffset (UInt32.ofNat n) (UInt32.ofNat o) w v).toNat =
      readBitsAtOffset n' o' w.toNat := by
  apply Nat.eq_of_testBit_eq
  intro k
  have hwrite := hailoTestBit_writeBits (w := w) (v := v) hn hfit (o' + k)
  simp only [hailoTestBit] at hwrite
  rw [testBit_readBits, testBit_readBits, hwrite]
  by_cases hk : k < n'
  · rw [if_neg (by omega)]
  · rw [decide_eq_false hk, Bool.false_and, Bool.false_and]

end

end HailortDrivers.RegisterBits
