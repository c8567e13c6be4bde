import HailortDrivers.VdmaTypes
import HailortDrivers.MachineWord

/-! Creating a descriptors list (`hailo_desc_list_create` in `memory.c` and the
powers of two of `driver_utils.h`), and the index mask that every created list
carries: masking stands for the remainder wherever the driver masks. -/
namespace HailortDrivers.DescriptorsListCreation
open MachineWord VdmaTypes

def powerOf2Error : UInt32 := -1

def isPowerof2 (v : UInt64) : Bool := v &&& (v - 1) == 0

/-- The `while` loop of `get_nearest_powerof_2`. -/
def doubleWhileBelow (value : UInt32) : Nat → UInt32 → UInt32
  | 0, powerOf2 => powerOf2
  | n + 1, powerOf2 =>
    if value > powerOf2 then doubleWhileBelow value n (powerOf2 <<< 1) else powerOf2

/-- From 1, no more than 31 doublings reach the largest value that enters the loop. -/
def getNearestPowerof2 (value : UInt32) : UInt32 :=
  if value > maxPowerOf2Value then powerOf2Error else doubleWhileBelow value 32 1

/-- `memory` is what `dma_alloc_coherent` returned. -/
def hailoDescListCreate (descriptorsCount : UInt32) (descPageSize : UInt16) (isCircular : Bool)
    (memory : Option (Nat → HailoVdmaDescriptor)) : Except Int32 HailoVdmaDescriptorsList :=
  if maxPowerOf2Value < descriptorsCount then .error (-einval)
  else
    match memory with
    | none => .error (-enobufs)
    | some descList => .ok
        { descList := descList
          descCount := descriptorsCount
          descCountMask := if isCircular then descriptorsCount - 1
            else getNearestPowerof2 descriptorsCount - 1
          descPageSize := descPageSize
          isCircular := isCircular }

/-- What `vdma_common.h` asks of a descriptors list. -/
structure WellFormed (l : HailoVdmaDescriptorsList) : Prop where
  count_le : l.descCount ≤ maxPowerOf2Value
  circular : l.isCircular = true → l.descCount ≠ 0 → l.descCount.toNat.isPowerOfTwo
  mask : l.descCountMask = if l.isCircular then l.descCount - 1
    else getNearestPowerof2 l.descCount - 1

theorem WellFormed.withDescs {l : HailoVdmaDescriptorsList} (h : WellFormed l)
    (descs : Nat → HailoVdmaDescriptor) : WellFormed (l.withDescs descs) :=
  ⟨h.count_le, h.circular, h.mask⟩

theorem isPowerof2_iff {v : UInt64} (hv : v ≠ 0) :
    isPowerof2 v = true ↔ v.toNat.isPowerOfTwo := by
  have hpos : v.toNat ≠ 0 := fun h => hv (UInt64.toNat_inj.mp h)
  have hsub : (v - 1).toNat = v.toNat - 1 := by
    rw [UInt64.toNat_sub_of_le _ _ (by rw [UInt64.le_iff_toNat_le, UInt64.toNat_one]; omega)]
    rfl
  rw [isPowerof2, beq_iff_eq, ← UInt64.toNat_inj, UInt64.toNat_and, hsub]
  exact Nat.and_sub_one_eq_zero_iff_isPowerOfTwo hpos

/-- The checks of the create ioctl make every list it creates well formed. -/
theorem hailoDescListCreate_wellFormed {descCount : UInt64} {descPageSize : UInt16}
    {isCircular : Bool} {memory : Option (Nat → HailoVdmaDescriptor)}
    {l : HailoVdmaDescriptorsList}
    (hcheck : isCircular = true → isPowerof2 descCount = true)
    (h : hailoDescListCreate descCount.toUInt32 descPageSize isCircular memory = .ok l) :
    WellFormed l := by
  unfold hailoDescListCreate at h
  split at h
  · cases h
  · next hle =>
    cases memory with
    | none => cases h
    | some descList =>
      cases h
      refine ⟨UInt32.not_lt.mp hle, ?_, rfl⟩
      intro hcircular hne
      have hne64 : descCount ≠ 0 := by
        rintro rfl
        exact hne rfl
      obtain ⟨k, hk⟩ := (isPowerof2_iff hne64).mp (hcheck hcircular)
      have hnat : descCount.toUInt32.toNat = 2 ^ k % 2 ^ 32 := by
        rw [UInt64.toNat_toUInt32, hk]
      by_cases hlt : k < 32
      · exact ⟨k, by rw [hnat, Nat.mod_eq_of_lt (Nat.pow_lt_pow_right (by decide) hlt)]⟩
      · have hzero : descCount.toUInt32.toNat = 0 := by
          rw [hnat]
          exact Nat.mod_eq_zero_of_dvd (Nat.pow_dvd_pow 2 (Nat.not_lt.mp hlt))
        exact absurd (UInt32.toNat_inj.mp hzero) hne

/-- A circular list of four descriptors of 64 bytes, all at the default word. -/
def ringOfFour : HailoVdmaDescriptorsList where
  descList := fun _ => ⟨0x4002, 0, 0, 0⟩
  descCount := 4
  descCountMask := 3
  descPageSize := 64
  isCircular := true

theorem ringOfFour_created :
    hailoDescListCreate (4 : UInt64).toUInt32 64 true (some ringOfFour.descList) =
      .ok ringOfFour := rfl

theorem ringOfFour_wellFormed : WellFormed ringOfFour :=
  hailoDescListCreate_wellFormed (fun _ => rfl) ringOfFour_created

theorem doubleWhileBelow_spec {value : UInt32} (hvalue : value ≤ maxPowerOf2Value) (n i : Nat)
    {p : UInt32} (hp : p.toNat = 2 ^ i) (hi : i < 32) (hn : i + n = 32)
    (hleast : ∀ j, value.toNat ≤ 2 ^ j → i ≤ j) :
    ∃ k < 32, (doubleWhileBelow value n p).toNat = 2 ^ k ∧ value.toNat ≤ 2 ^ k ∧
      ∀ j, value.toNat ≤ 2 ^ j → k ≤ j := by
  induction n generalizing i p with
  | zero => omega
  | succ n ih =>
    rw [doubleWhileBelow]
    split
    · next hlt =>
      rw [gt_iff_lt, UInt32.lt_iff_toNat_lt, hp] at hlt
      have hle : value.toNat ≤ 2 ^ 31 := UInt32.le_iff_toNat_le.mp hvalue
      have hnext : i + 1 < 32 := by
        by_contra hge
        have : i = 31 := by omega
        subst this
        omega
      refine ih (i + 1) ?_ hnext (by omega) ?_
      · have hpow : 2 ^ (i + 1) < 2 ^ 32 := Nat.pow_lt_pow_right (by decide) hnext
        rw [UInt32.toNat_shiftLeft, hp]
        simp only [UInt32.toNat_one, Nat.shiftLeft_eq, Nat.one_mod, ← Nat.pow_succ]
        exact Nat.mod_eq_of_lt hpow
      · intro j hj
        exact (Nat.pow_lt_pow_iff_right (by decide : 1 < 2)).mp (Nat.lt_of_lt_of_le hlt hj)
    · next hge =>
      rw [gt_iff_lt, UInt32.lt_iff_toNat_lt, Nat.not_lt, hp] at hge
      exact ⟨i, hi, hp, hge, hleast⟩

theorem getNearestPowerof2_spec {value : UInt32} (h : value ≤ maxPowerOf2Value) :
    ∃ k < 32, (getNearestPowerof2 value).toNat = 2 ^ k ∧ value.toNat ≤ 2 ^ k ∧
      ∀ j, value.toNat ≤ 2 ^ j → k ≤ j := by
  rw [getNearestPowerof2, if_neg (UInt32.not_lt.mpr h)]
  exact doubleWhileBelow_spec h 32 0 rfl (by decide) rfl fun j _ => Nat.zero_le j

theorem WellFormed.mask_succ {l : HailoVdmaDescriptorsList} (h : WellFormed l)
    (hcount : l.descCount ≠ 0) :
    ∃ k, l.descCountMask.toNat + 1 = 2 ^ k ∧ l.descCount.toNat ≤ 2 ^ k ∧
      (l.descCount.toNat.isPowerOfTwo → l.descCount.toNat = 2 ^ k) := by
  have hpred {x : UInt32} (hx : x ≠ 0) : (x - 1).toNat + 1 = x.toNat := by
    have hpos := toNat_pos_iff.mpr hx
    rw [UInt32.toNat_sub_of_le _ _ (by rw [UInt32.le_iff_toNat_le, UInt32.toNat_one]; omega),
      UInt32.toNat_one]
    omega
  cases hc : l.isCircular with
  | true =>
    obtain ⟨k, hk⟩ := h.circular hc hcount
    refine ⟨k, ?_, Nat.le_of_eq hk, fun _ => hk⟩
    rw [h.mask, if_pos hc, hpred hcount, hk]
  | false =>
    obtain ⟨k, -, hk, hle, hleast⟩ := getNearestPowerof2_spec h.count_le
    refine ⟨k, ?_, hle, ?_⟩
    · rw [h.mask, if_neg (by simp [hc]), hpred, hk]
      rw [← toNat_pos_iff, hk]
      exact Nat.two_pow_pos k
    · rintro ⟨j, hj⟩
      have hkj := Nat.pow_le_pow_right (by decide : 0 < 2) (hleast j (Nat.le_of_eq hj))
      omega

/-- Masking an index stands for the remainder, on a list of a power of two for
every index and on another for the indices below its count. -/
theorem WellFormed.masked_of_isPowerOfTwo {l : HailoVdmaDescriptorsList} (h : WellFormed l)
    (hcount : l.descCount ≠ 0) {q : UInt32}
    (hq : l.descCount.toNat.isPowerOfTwo ∨ q.toNat < l.descCount.toNat) :
    (q &&& l.descCountMask).toNat = q.toNat % l.descCount.toNat := by
  obtain ⟨k, hmask, hle, hpower⟩ := h.mask_succ hcount
  rw [toNat_and_mask hmask, hmask]
  rcases hq with hp | hq
  · rw [hpower hp]
  · rw [Nat.mod_eq_of_lt (Nat.lt_of_lt_of_le hq hle), Nat.mod_eq_of_lt hq]

theorem WellFormed.masked {l : HailoVdmaDescriptorsList} (h : WellFormed l)
    (hcount : l.descCount ≠ 0) {q : UInt32}
    (hq : l.isCircular = true ∨ q.toNat < l.descCount.toNat) :
    (q &&& l.descCountMask).toNat = q.toNat % l.descCount.toNat :=
  h.masked_of_isPowerOfTwo hcount (hq.imp_left fun hc => h.circular hc hcount)

end HailortDrivers.DescriptorsListCreation
