import Mathlib.Algebra.Order.Floor.Div
import Mathlib.Algebra.Order.Floor.Semiring
import Mathlib.Data.List.Basic
import Mathlib.GroupTheory.GroupAction.Ring
import Mathlib.Tactic.Ring
import Mathlib.Tactic.Common

/-! Lists of address runs, read as lists of byte addresses: cutting an interval
of bytes out of such a list, and cutting a run into pages of one size. Nothing
here depends on what the addresses are, only that they can be advanced. -/
namespace HailortDrivers.SegmentSlicing

class ByteAddress (A : Type*) where
  advance : A → ℕ → A
  advance_zero : ∀ a, advance a 0 = a
  advance_advance : ∀ a m n, advance (advance a m) n = advance a (m + n)

open ByteAddress

structure Segment (A : Type*) where
  base : A
  len : ℕ

variable {A : Type*}

def totalLen (ss : List (Segment A)) : ℕ := (ss.map Segment.len).sum

/-- How many pages of `P` bytes the segments need when no page spans two of them. -/
def pageCount (P : ℕ) (ss : List (Segment A)) : ℕ := (ss.map fun s => s.len ⌈/⌉ P).sum

@[simp] theorem totalLen_nil : totalLen ([] : List (Segment A)) = 0 := rfl

@[simp] theorem totalLen_cons (s : Segment A) (ss : List (Segment A)) :
    totalLen (s :: ss) = s.len + totalLen ss := rfl

@[simp] theorem pageCount_nil (P : ℕ) : pageCount P ([] : List (Segment A)) = 0 := rfl

@[simp] theorem pageCount_cons (P : ℕ) (s : Segment A) (ss : List (Segment A)) :
    pageCount P (s :: ss) = s.len ⌈/⌉ P + pageCount P ss := rfl

variable [ByteAddress A]

def Segment.bytes (s : Segment A) : List A := (List.range s.len).map (advance s.base)

def allBytes (ss : List (Segment A)) : List A := ss.flatMap Segment.bytes

/-- The part of a segment that starts `skip` bytes into it and is `n` bytes long. -/
def Segment.sub (s : Segment A) (skip n : ℕ) : Segment A := ⟨advance s.base skip, n⟩

@[simp] theorem Segment.length_bytes (s : Segment A) : s.bytes.length = s.len := by
  simp [Segment.bytes]

theorem Segment.getElem?_bytes {s : Segment A} {i : ℕ} (hi : i < s.len) :
    s.bytes[i]? = some (advance s.base i) := by
  rw [Segment.bytes, List.getElem?_map, List.getElem?_range hi, Option.map_some]

theorem Segment.bytes_sub (s : Segment A) (skip n : ℕ) (h : skip + n ≤ s.len) :
    (s.sub skip n).bytes = (s.bytes.drop skip).take n := by
  apply List.ext_getElem
  · simp only [Segment.length_bytes, List.length_take, List.length_drop, Segment.sub]
    omega
  · intro i _ _
    simp [Segment.bytes, Segment.sub, advance_advance]

@[simp] theorem allBytes_nil : allBytes ([] : List (Segment A)) = [] := rfl

@[simp] theorem allBytes_cons (s : Segment A) (ss : List (Segment A)) :
    allBytes (s :: ss) = s.bytes ++ allBytes ss := rfl

theorem allBytes_append (ss ts : List (Segment A)) :
    allBytes (ss ++ ts) = allBytes ss ++ allBytes ts := by
  simp [allBytes]

theorem length_allBytes (ss : List (Segment A)) : (allBytes ss).length = totalLen ss := by
  induction ss with
  | nil => rfl
  | cons s ss ih => simp [ih]

/-- The segments that hold bytes `skip ..< skip + take`, empty ones left out. -/
def slice : List (Segment A) → ℕ → ℕ → List (Segment A)
  | [], _, _ => []
  | s :: ss, skip, take =>
    if s.len ≤ skip then slice ss (skip - s.len) take
    else if take = 0 then []
    else s.sub skip (min take (s.len - skip)) ::
      slice ss 0 (take - min take (s.len - skip))

theorem slice_cons_skip {s : Segment A} {skip : ℕ} (h : s.len ≤ skip) (ss : List (Segment A))
    (take : ℕ) : slice (s :: ss) skip take = slice ss (skip - s.len) take := by
  rw [slice, if_pos h]

theorem slice_cons_cut {s : Segment A} {skip take n : ℕ} (h : skip < s.len) (htake : 0 < take)
    (hn : n = min take (s.len - skip)) (ss : List (Segment A)) :
    slice (s :: ss) skip take = s.sub skip n :: slice ss 0 (take - n) := by
  rw [slice, if_neg (by omega), if_neg (by omega), hn]

theorem slice_zero (ss : List (Segment A)) (skip : ℕ) : slice ss skip 0 = [] := by
  induction ss generalizing skip with
  | nil => rfl
  | cons s ss ih =>
    rw [slice, ih]
    split <;> simp

theorem allBytes_slice (ss : List (Segment A)) (skip take : ℕ) :
    allBytes (slice ss skip take) = ((allBytes ss).drop skip).take take := by
  induction ss generalizing skip take with
  | nil => simp [slice]
  | cons s ss ih =>
    rw [slice, allBytes_cons, List.drop_append, Segment.length_bytes]
    by_cases hskip : s.len ≤ skip
    · have hdrop : s.bytes.drop skip = [] := List.drop_of_length_le (by simpa using hskip)
      rw [if_pos hskip, ih, hdrop, List.nil_append]
    · rw [if_neg hskip]
      by_cases htake : take = 0
      · simp [htake]
      · rw [if_neg htake, allBytes_cons, ih, Segment.bytes_sub s _ _ (by omega),
          Nat.sub_eq_zero_of_le (by omega : skip ≤ s.len), List.drop_zero, List.take_append,
          List.length_drop, Segment.length_bytes]
        congr 1
        · apply List.take_eq_take_iff.mpr
          simp only [List.length_drop, Segment.length_bytes]
          omega
        · congr 1
          omega

theorem totalLen_slice (ss : List (Segment A)) (skip take : ℕ) :
    totalLen (slice ss skip take) = min take (totalLen ss - skip) := by
  rw [← length_allBytes, allBytes_slice, List.length_take, List.length_drop, length_allBytes]

theorem len_pos_of_mem_slice {ss : List (Segment A)} {skip take : ℕ} {s : Segment A}
    (h : s ∈ slice ss skip take) : 0 < s.len := by
  induction ss generalizing skip take with
  | nil => simp [slice] at h
  | cons t ss ih =>
    rw [slice] at h
    split at h
    · exact ih h
    · split at h
      · cases h
      · rcases List.mem_cons.mp h with rfl | h
        · simp only [Segment.sub]
          omega
        · exact ih h

/-- The pages of at most `P` bytes that a segment is cut into, from its start. -/
def Segment.paginate (P : ℕ) (s : Segment A) : List (Segment A) :=
  (List.range (s.len ⌈/⌉ P)).map fun j => s.sub (j * P) (min P (s.len - j * P))

def allPages (P : ℕ) (ss : List (Segment A)) : List (Segment A) := ss.flatMap (Segment.paginate P)

@[simp] theorem Segment.length_paginate (P : ℕ) (s : Segment A) :
    (s.paginate P).length = s.len ⌈/⌉ P := by
  simp [Segment.paginate]

@[simp] theorem allPages_nil (P : ℕ) : allPages P ([] : List (Segment A)) = [] := rfl

@[simp] theorem allPages_cons (P : ℕ) (s : Segment A) (ss : List (Segment A)) :
    allPages P (s :: ss) = s.paginate P ++ allPages P ss := rfl

theorem length_allPages (P : ℕ) (ss : List (Segment A)) :
    (allPages P ss).length = pageCount P ss := by
  induction ss with
  | nil => rfl
  | cons s ss ih => simp [ih]

theorem Segment.bytes_firstPages (P : ℕ) (s : Segment A) (n : ℕ) (hn : n ≤ s.len ⌈/⌉ P)
    (hP : 0 < P) :
    allBytes ((List.range n).map fun j => s.sub (j * P) (min P (s.len - j * P))) =
      s.bytes.take (n * P) := by
  induction n with
  | zero => simp
  | succ n ih =>
    have hlt : n * P < s.len := by
      by_contra h
      have hle : s.len ⌈/⌉ P ≤ n := by
        rw [ceilDiv_le_iff_le_mul hP, mul_comm]
        omega
      omega
    rw [List.range_succ, List.map_append, allBytes_append, ih (by omega), List.map_singleton,
      allBytes_cons, allBytes_nil, List.append_nil, Segment.bytes_sub s _ _ (by omega),
      Nat.succ_mul, List.take_add]
    congr 1
    apply List.take_eq_take_iff.mpr
    simp only [List.length_drop, Segment.length_bytes]
    omega

/-- Cutting a segment into pages loses and repeats no byte. -/
theorem Segment.bytes_paginate (P : ℕ) (s : Segment A) (hP : 0 < P) :
    allBytes (s.paginate P) = s.bytes := by
  rw [Segment.paginate, s.bytes_firstPages P _ le_rfl hP]
  apply List.take_of_length_le
  rw [Segment.length_bytes, mul_comm]
  exact (ceilDiv_le_iff_le_mul hP).mp le_rfl

theorem allBytes_allPages (P : ℕ) (ss : List (Segment A)) (hP : 0 < P) :
    allBytes (allPages P ss) = allBytes ss := by
  induction ss with
  | nil => rfl
  | cons s ss ih => rw [allPages_cons, allBytes_append, s.bytes_paginate P hP, ih, allBytes_cons]

theorem Segment.mem_paginate_full {P : ℕ} (hP : 0 < P) {s p : Segment A} (hdvd : P ∣ s.len)
    (hp : p ∈ s.paginate P) : p.len = P := by
  obtain ⟨k, hk⟩ := hdvd
  obtain ⟨j, hj, rfl⟩ := List.mem_map.mp hp
  have hlt : j < k := by
    rw [List.mem_range, hk] at hj
    exact hj.trans_le (ceilDiv_le_iff_le_mul hP |>.mpr le_rfl)
  have hle : (j + 1) * P ≤ P * k := by
    rw [mul_comm P k]
    exact Nat.mul_le_mul_right P hlt
  rw [Nat.succ_mul] at hle
  simp only [Segment.sub, hk]
  omega

theorem Segment.paginate_eq_concat {P : ℕ} (hP : 0 < P) {s : Segment A} (hs : 0 < s.len) :
    ∃ init last, s.paginate P = init ++ [last] ∧ (∀ p ∈ init, p.len = P) ∧
      0 < last.len ∧ last.len ≤ P := by
  have hne : s.len ⌈/⌉ P ≠ 0 := by
    intro h0
    have hle := (ceilDiv_le_iff_le_mul hP).mp h0.le
    omega
  obtain ⟨n, hn⟩ := Nat.exists_eq_succ_of_ne_zero hne
  have hbound : ∀ j, j < n + 1 → j * P < s.len := by
    intro j hj
    by_contra hge
    have hle : s.len ⌈/⌉ P ≤ j := by
      rw [ceilDiv_le_iff_le_mul hP, mul_comm]
      omega
    omega
  refine ⟨(List.range n).map fun j => s.sub (j * P) (min P (s.len - j * P)),
    s.sub (n * P) (min P (s.len - n * P)), ?_, ?_, ?_, ?_⟩
  · rw [Segment.paginate, hn, List.range_succ, List.map_append, List.map_singleton]
  · intro p hp
    obtain ⟨j, hj, rfl⟩ := List.mem_map.mp hp
    have hnext := hbound (j + 1) (by simpa using hj)
    rw [Nat.succ_mul] at hnext
    simp only [Segment.sub]
    omega
  · have hlast := hbound n (by omega)
    simp only [Segment.sub]
    omega
  · exact Nat.min_le_left _ _

/-- Every segment but the last is a whole number of pages. -/
def AlignedButLast (P : ℕ) (ss : List (Segment A)) : Prop := ∀ s ∈ ss.dropLast, P ∣ s.len

omit [ByteAddress A] in
theorem AlignedButLast.tail {P : ℕ} {s : Segment A} {ss : List (Segment A)}
    (h : AlignedButLast P (s :: ss)) : AlignedButLast P ss := by
  intro t ht
  cases ss with
  | nil => cases ht
  | cons u us => exact h t (List.mem_cons_of_mem s ht)

omit [ByteAddress A] in
theorem AlignedButLast.head {P : ℕ} {s t : Segment A} {ss : List (Segment A)}
    (h : AlignedButLast P (s :: t :: ss)) : P ∣ s.len := h s (by simp)

theorem slice_aligned {P : ℕ} {ss : List (Segment A)} (h : AlignedButLast P ss)
    {skip : ℕ} (hskip : P ∣ skip) (take : ℕ) : AlignedButLast P (slice ss skip take) := by
  induction ss generalizing skip take with
  | nil => simp [slice, AlignedButLast]
  | cons s ss ih =>
    rw [slice]
    by_cases hle : s.len ≤ skip
    · rw [if_pos hle]
      cases ss with
      | nil => simp [slice, AlignedButLast]
      | cons t ts => exact ih h.tail ((Nat.dvd_sub hskip h.head)) take
    · rw [if_neg hle]
      by_cases htake : take = 0
      · simp [htake, AlignedButLast]
      · rw [if_neg htake]
        have hrest := ih h.tail (dvd_zero P) (take - min take (s.len - skip))
        intro u hu
        -- The cut is not the last one, so it ran to the end of its segment.
        cases hmore : slice ss 0 (take - min take (s.len - skip)) with
        | nil => simp [hmore] at hu
        | cons v vs =>
          rw [hmore, List.dropLast_cons_cons] at hu
          rcases List.mem_cons.mp hu with rfl | hu
          · have hfull : ¬ take ≤ s.len - skip := by
              intro hge
              rw [Nat.min_eq_left hge, Nat.sub_self, slice_zero] at hmore
              cases hmore
            cases ss with
            | nil => cases hmore
            | cons t ts =>
              simp only [Segment.sub, Nat.min_eq_right (Nat.le_of_not_le hfull)]
              exact Nat.dvd_sub h.head hskip
          · exact hrest u (by rwa [hmore])

theorem allPages_eq_concat {P : ℕ} (hP : 0 < P) {ss : List (Segment A)} (hne : ss ≠ [])
    (h : AlignedButLast P ss) (hpos : ∀ s ∈ ss, 0 < s.len) :
    ∃ init last, allPages P ss = init ++ [last] ∧ (∀ p ∈ init, p.len = P) ∧
      0 < last.len ∧ last.len ≤ P := by
  induction ss with
  | nil => exact absurd rfl hne
  | cons s ss ih =>
    cases ss with
    | nil =>
      rw [allPages_cons, allPages_nil, List.append_nil]
      exact Segment.paginate_eq_concat hP (hpos s List.mem_cons_self)
    | cons t ts =>
      obtain ⟨init, last, heq, hinit, hlast⟩ :=
        ih (by simp) h.tail fun u hu => hpos u (List.mem_cons_of_mem s hu)
      refine ⟨s.paginate P ++ init, last, ?_, ?_, hlast⟩
      · rw [allPages_cons, heq, List.append_assoc]
      · intro p hp
        rcases List.mem_append.mp hp with hp | hp
        · exact Segment.mem_paginate_full hP h.head hp
        · exact hinit p hp

theorem totalLen_allPages {P : ℕ} (hP : 0 < P) (ss : List (Segment A)) :
    totalLen (allPages P ss) = totalLen ss := by
  rw [← length_allBytes, allBytes_allPages P ss hP, length_allBytes]

omit [ByteAddress A] in
theorem totalLen_append (ss ts : List (Segment A)) :
    totalLen (ss ++ ts) = totalLen ss + totalLen ts := by
  simp [totalLen]

omit [ByteAddress A] in
theorem totalLen_const {P : ℕ} {ss : List (Segment A)} (h : ∀ s ∈ ss, s.len = P) :
    totalLen ss = ss.length * P := by
  induction ss with
  | nil => simp
  | cons s ss ih =>
    rw [totalLen_cons, h s List.mem_cons_self, ih fun t ht => h t (List.mem_cons_of_mem s ht),
      List.length_cons, Nat.succ_mul, Nat.add_comm]

/-- Aligned segments need no more pages than one run of the same length. -/
theorem pageCount_aligned {P : ℕ} (hP : 0 < P) {ss : List (Segment A)} (hne : ss ≠ [])
    (h : AlignedButLast P ss) (hpos : ∀ s ∈ ss, 0 < s.len) :
    pageCount P ss = totalLen ss ⌈/⌉ P := by
  obtain ⟨init, last, heq, hinit, hlast, hle⟩ := allPages_eq_concat hP hne h hpos
  have hlen : pageCount P ss = init.length + 1 := by
    rw [← length_allPages, heq, List.length_append, List.length_singleton]
  have htotal : totalLen ss = init.length * P + last.len := by
    rw [← totalLen_allPages hP, heq, totalLen_append, totalLen_const hinit, totalLen_cons,
      totalLen_nil, Nat.add_zero]
  rw [hlen, htotal, Nat.ceilDiv_eq_add_pred_div, Nat.add_assoc, Nat.add_sub_assoc (by omega),
    Nat.mul_comm, Nat.mul_add_div hP]
  congr 1
  symm
  apply Nat.div_eq_of_lt_le <;> omega

omit [ByteAddress A] in
theorem pageCount_le_totalLen {P : ℕ} (hP : 0 < P) (ss : List (Segment A)) :
    pageCount P ss ≤ totalLen ss := by
  induction ss with
  | nil => exact le_rfl
  | cons s ss ih =>
    have hs : s.len ⌈/⌉ P ≤ s.len := by
      rw [ceilDiv_le_iff_le_mul hP]
      exact Nat.le_mul_of_pos_left _ hP
    rw [pageCount_cons, totalLen_cons]
    omega

omit [ByteAddress A] in
theorem totalLen_le_mul_pageCount {P : ℕ} (hP : 0 < P) (ss : List (Segment A)) :
    totalLen ss ≤ P * pageCount P ss := by
  induction ss with
  | nil => exact Nat.zero_le _
  | cons s ss ih =>
    have hs : s.len ≤ P * (s.len ⌈/⌉ P) := (ceilDiv_le_iff_le_mul hP).mp le_rfl
    rw [pageCount_cons, totalLen_cons, Nat.mul_add]
    omega

section Bases
variable {Q : A → Prop} {d : ℕ}

/-- A property of addresses that steps of `d` bytes keep holds of the bases in a
slice that starts at a multiple of `d`. -/
theorem forall_base_slice (hadvance : ∀ a n, Q a → d ∣ n → Q (advance a n))
    {ss : List (Segment A)} (hbase : ∀ s ∈ ss, Q s.base) (h : AlignedButLast d ss) {skip : ℕ}
    (hskip : d ∣ skip) (take : ℕ) : ∀ s ∈ slice ss skip take, Q s.base := by
  induction ss generalizing skip take with
  | nil => simp [slice]
  | cons s ss ih =>
    have htail := fun t ht => hbase t (List.mem_cons_of_mem s ht)
    rw [slice]
    split
    · cases ss with
      | nil => simp [slice]
      | cons t ts => exact ih htail h.tail (Nat.dvd_sub hskip h.head) take
    · split
      · simp
      · intro u hu
        rcases List.mem_cons.mp hu with rfl | hu
        · exact hadvance _ _ (hbase s List.mem_cons_self) hskip
        · exact ih htail h.tail (dvd_zero d) _ u hu

theorem forall_base_allPages (hadvance : ∀ a n, Q a → d ∣ n → Q (advance a n)) {P : ℕ}
    (hP : d ∣ P) {ss : List (Segment A)} (hbase : ∀ s ∈ ss, Q s.base) :
    ∀ p ∈ allPages P ss, Q p.base := by
  intro p hp
  obtain ⟨s, hs, hps⟩ := List.mem_flatMap.mp hp
  obtain ⟨j, -, rfl⟩ := List.mem_map.mp hps
  exact hadvance _ _ (hbase s hs) (Nat.dvd_mul_left_of_dvd hP j)

end Bases

/-- Where all runs but the last have one length, run `j` starts at byte `j * P`. -/
theorem getElem?_allBytes_full {P : ℕ} {ps : List (Segment A)}
    (hfull : ∀ p ∈ ps.dropLast, p.len = P) (hpos : ∀ p ∈ ps, 0 < p.len) {j : ℕ}
    (hj : j < ps.length) : (allBytes ps)[j * P]? = some ps[j].base := by
  induction ps generalizing j with
  | nil => exact absurd hj (Nat.not_lt_zero j)
  | cons p ps ih =>
    rw [allBytes_cons]
    cases j with
    | zero =>
      have hp := hpos p List.mem_cons_self
      rw [Nat.zero_mul, List.getElem?_append_left (by rwa [Segment.length_bytes]),
        Segment.getElem?_bytes hp, advance_zero]
      rfl
    | succ j =>
      cases ps with
      | nil => exact absurd (Nat.lt_of_succ_lt_succ hj) (Nat.not_lt_zero j)
      | cons q qs =>
        have hp : p.len = P := hfull p (by simp)
        rw [Nat.succ_mul, List.getElem?_append_right (by rw [Segment.length_bytes, hp]; omega),
          Segment.length_bytes, hp, Nat.add_sub_cancel]
        exact ih (fun u hu => hfull u (List.mem_cons_of_mem p hu))
          (fun u hu => hpos u (List.mem_cons_of_mem p hu)) (Nat.lt_of_succ_lt_succ hj)

/-- Page `j` of aligned segments holds the bytes from `j * P` on. -/
theorem getElem_allPages_aligned {P : ℕ} (hP : 0 < P) {ss : List (Segment A)} (hne : ss ≠ [])
    (h : AlignedButLast P ss) (hpos : ∀ s ∈ ss, 0 < s.len) {j : ℕ}
    (hj : j < (allPages P ss).length) :
    (allBytes ss)[j * P]? = some (allPages P ss)[j].base ∧
      (allPages P ss)[j].len = min P (totalLen ss - j * P) := by
  obtain ⟨init, last, heq, hinit, hlast, hle⟩ := allPages_eq_concat hP hne h hpos
  have hfull : ∀ p ∈ (allPages P ss).dropLast, p.len = P := by
    rw [heq, List.dropLast_concat]
    exact hinit
  have hpositive : ∀ p ∈ allPages P ss, 0 < p.len := by
    rw [heq]
    intro p hp
    rcases List.mem_append.mp hp with hp | hp
    · rw [hinit p hp]
      exact hP
    · rwa [List.mem_singleton.mp hp]
  have htotal : totalLen ss = init.length * P + last.len := by
    rw [← totalLen_allPages hP, heq, totalLen_append, totalLen_const hinit, totalLen_cons,
      totalLen_nil, Nat.add_zero]
  constructor
  · rw [← allBytes_allPages P ss hP]
    exact getElem?_allBytes_full hfull hpositive hj
  · simp only [heq, List.length_append, List.length_singleton] at hj ⊢
    by_cases hlt : j < init.length
    · have hmul : (j + 1) * P ≤ init.length * P := Nat.mul_le_mul_right P hlt
      rw [Nat.succ_mul] at hmul
      rw [List.getElem_append_left hlt, hinit _ (List.getElem_mem hlt), htotal]
      omega
    · obtain rfl : j = init.length := by omega
      rw [List.getElem_concat_length rfl, htotal, Nat.add_sub_cancel_left, Nat.min_eq_right hle]

/-- Inside a page the addresses of whole-page segments go up one by one. -/
theorem getElem?_allBytes_page {P : ℕ} {ss : List (Segment A)}
    (hdvd : ∀ s ∈ ss, P ∣ s.len) {q o : ℕ} (ho : o < P) :
    (allBytes ss)[q * P + o]? = (allBytes ss)[q * P]?.map fun a => advance a o := by
  induction ss generalizing q with
  | nil => simp
  | cons s ss ih =>
    obtain ⟨m, hm⟩ := hdvd s List.mem_cons_self
    rw [Nat.mul_comm] at hm
    rw [allBytes_cons]
    by_cases hq : q < m
    · have hle : (q + 1) * P ≤ m * P := Nat.mul_le_mul_right P hq
      rw [Nat.succ_mul] at hle
      rw [List.getElem?_append_left (by rw [Segment.length_bytes]; omega),
        List.getElem?_append_left (by rw [Segment.length_bytes]; omega),
        Segment.getElem?_bytes (by omega), Segment.getElem?_bytes (by omega), Option.map_some,
        advance_advance]
    · obtain ⟨r, rfl⟩ := Nat.exists_eq_add_of_le (Nat.le_of_not_lt hq)
      have hle : m * P ≤ (m + r) * P := Nat.mul_le_mul_right P (Nat.le_add_right m r)
      rw [List.getElem?_append_right (by rw [Segment.length_bytes]; omega),
        List.getElem?_append_right (by rw [Segment.length_bytes]; omega), Segment.length_bytes,
        hm, Nat.add_mul, Nat.add_assoc, Nat.add_sub_cancel_left, Nat.add_sub_cancel_left]
      exact ih fun t ht => hdvd t (List.mem_cons_of_mem s ht)

theorem len_le_of_mem_allPages {P : ℕ} {ss : List (Segment A)} {p : Segment A}
    (hp : p ∈ allPages P ss) : p.len ≤ P := by
  obtain ⟨s, -, hps⟩ := List.mem_flatMap.mp hp
  obtain ⟨j, -, rfl⟩ := List.mem_map.mp hps
  exact Nat.min_le_left _ _

end HailortDrivers.SegmentSlicing
