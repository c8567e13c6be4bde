import HailortDrivers.SegmentSlicing

/-!
Where the pages of a list of address runs lie among its bytes. A page begins at its own multiple
of the page size as long as every page before it is whole; a page that is not whole ends its run,
and the next page begins at the base of another.
-/
namespace HailortDrivers.PagePositions
open SegmentSlicing ByteAddress

variable {A : Type*}

/-- No run ends off the page boundaries within the first `m` pages. -/
def OnBoundaries (P : ℕ) (ss : List (Segment A)) (m : ℕ) : Prop :=
  ∀ k, totalLen (ss.take k) ≤ m * P → P ∣ totalLen (ss.take k)

theorem OnBoundaries.nil (P m : ℕ) : OnBoundaries P ([] : List (Segment A)) m := by
  intro k _
  rw [List.take_nil]
  exact Nat.dvd_zero P

/-- Whole pages in front: the rest is on boundaries as the list is. -/
theorem onBoundaries_cons_dvd {P c m : ℕ} {s : Segment A} {ss : List (Segment A)}
    (hs : s.len = c * P) (hm : c ≤ m) :
    OnBoundaries P (s :: ss) m ↔ OnBoundaries P ss (m - c) := by
  have hmul : (m - c) * P = m * P - c * P := Nat.sub_mul m c P
  have hle : c * P ≤ m * P := Nat.mul_le_mul_right P hm
  constructor
  · intro h k hk
    have hdvd := h (k + 1)
    rw [List.take_succ_cons, totalLen_cons, hs] at hdvd
    exact (Nat.dvd_add_right (Nat.dvd_mul_left P c)).mp (hdvd (by omega))
  · intro h k hk
    cases k with
    | zero => exact Nat.dvd_zero P
    | succ k =>
      rw [List.take_succ_cons, totalLen_cons, hs] at hk ⊢
      exact Nat.dvd_add (Nat.dvd_mul_left P c) (h k (by omega))

variable [ByteAddress A]

theorem len_of_mem_paginate {P : ℕ} (hP : 0 < P) {s p : Segment A}
    (hp : p ∈ s.paginate P) : p.len = P ∨ s.len % P ≠ 0 ∧ p.len = s.len % P := by
  obtain ⟨j, hj, rfl⟩ := List.mem_map.mp hp
  have hlt : j * P < s.len := by
    by_contra hge
    have := (ceilDiv_le_iff_le_mul hP).mpr ((Nat.not_lt.mp hge).trans_eq (Nat.mul_comm _ _))
    rw [List.mem_range] at hj
    omega
  simp only [Segment.sub]
  by_cases hfull : P ≤ s.len - j * P
  · exact Or.inl (Nat.min_eq_left hfull)
  · have hmod : s.len % P = s.len - j * P := by
      have hsplit : s.len = s.len - j * P + j * P := by omega
      rw [hsplit, Nat.add_mul_mod_self_right, ← hsplit, Nat.mod_eq_of_lt (by omega)]
    exact Or.inr ⟨by omega, by omega⟩

theorem len_pos_of_mem_allPages {P : ℕ} (hP : 0 < P) {ss : List (Segment A)} {p : Segment A}
    (hp : p ∈ allPages P ss) : 0 < p.len := by
  obtain ⟨s, hs, hps⟩ := List.mem_flatMap.mp hp
  rcases len_of_mem_paginate hP hps with hlen | ⟨hne, hlen⟩
  · omega
  · omega

theorem exists_short_page {P : ℕ} (hP : 0 < P) {s : Segment A} (hmod : s.len % P ≠ 0) :
    ∃ p ∈ s.paginate P, p.len = s.len % P := by
  have hdiv := Nat.div_add_mod' s.len P
  have hlt := Nat.mod_lt s.len hP
  refine ⟨s.sub (s.len / P * P) (min P (s.len - s.len / P * P)), ?_, ?_⟩
  · refine List.mem_map.mpr ⟨s.len / P, List.mem_range.mpr ?_, rfl⟩
    by_contra hge
    have hle := (ceilDiv_le_iff_le_mul hP).mp (Nat.not_lt.mp hge)
    rw [Nat.mul_comm] at hle
    omega
  · simp only [Segment.sub]
    omega

/-- How long the pages are that are not whole, in terms of the runs. -/
theorem pages_le_iff {P t : ℕ} (hP : 0 < P) {ss : List (Segment A)} :
    (∀ p ∈ allPages P ss, p.len = P ∨ p.len ≤ t) ↔ ∀ s ∈ ss, s.len % P ≤ t := by
  constructor
  · intro h s hs
    by_cases hmod : s.len % P = 0
    · omega
    · obtain ⟨p, hp, hlen⟩ := exists_short_page hP hmod
      have hlt := Nat.mod_lt s.len hP
      have := h p (List.mem_flatMap.mpr ⟨s, hs, hp⟩)
      omega
  · intro h p hp
    obtain ⟨s, hs, hps⟩ := List.mem_flatMap.mp hp
    refine (len_of_mem_paginate hP hps).imp_right fun hlen => ?_
    rw [hlen.2]
    exact h s hs

theorem paginate_take_full_iff {P m : ℕ} (hP : 0 < P) {s : Segment A}
    (hmod : ¬ P ∣ s.len) (rest : List (Segment A)) :
    (∀ p ∈ (s.paginate P ++ rest).take m, p.len = P) ↔ m * P < s.len := by
  have hdiv := Nat.div_add_mod' s.len P
  have hlt := Nat.mod_lt s.len hP
  have hne : s.len % P ≠ 0 := fun h0 => hmod (Nat.dvd_of_mod_eq_zero h0)
  have hcount : s.len ⌈/⌉ P = s.len / P + 1 := by
    rw [Nat.ceilDiv_eq_add_pred_div]
    refine Nat.div_eq_of_lt_le ?_ ?_
    · rw [Nat.succ_mul]
      omega
    · rw [Nat.succ_mul, Nat.succ_mul]
      omega
  have hpage (j : ℕ) (hj : j < s.len / P + 1) : (s.paginate P ++ rest)[j]? =
      some (s.sub (j * P) (min P (s.len - j * P))) := by
    rw [List.getElem?_append_left (by rw [Segment.length_paginate, hcount]; exact hj),
      Segment.paginate, List.getElem?_map, List.getElem?_range (hcount ▸ hj), Option.map_some]
  constructor
  · intro h
    by_contra hge
    have hle : s.len / P < m := by
      by_contra hle
      have := Nat.mul_le_mul_right P (Nat.not_lt.mp hle)
      omega
    have hmem : s.sub (s.len / P * P) (min P (s.len - s.len / P * P)) ∈
        (s.paginate P ++ rest).take m := by
      refine List.mem_of_getElem? (i := s.len / P) ?_
      rw [List.getElem?_take_of_lt hle]
      exact hpage _ (Nat.lt_succ_self _)
    have hfull := h _ hmem
    simp only [Segment.sub] at hfull
    omega
  · intro hm p hp
    obtain ⟨j, hj, hget⟩ := List.getElem_of_mem hp
    rw [List.length_take] at hj
    have hjm : j < m := by omega
    have hjP := Nat.mul_le_mul_right P (show j + 1 ≤ m from hjm)
    rw [Nat.succ_mul] at hjP
    have hjdiv : j < s.len / P + 1 := by
      have := (Nat.le_div_iff_mul_le hP).mpr (show m * P ≤ s.len by omega)
      omega
    have hj' := List.getElem?_eq_some_iff.mpr ⟨by rw [List.length_take]; exact hj, hget⟩
    rw [List.getElem?_take_of_lt hjm, hpage j hjdiv] at hj'
    cases hj'
    simp only [Segment.sub]
    omega

/-- The first `m` pages are whole exactly if no run ends off the boundaries there. -/
theorem pages_full_iff {P m : ℕ} (hP : 0 < P) {ss : List (Segment A)}
    (hpos : ∀ s ∈ ss, 0 < s.len) :
    (∀ p ∈ (allPages P ss).take m, p.len = P) ↔ OnBoundaries P ss m := by
  induction ss generalizing m with
  | nil =>
    rw [allPages_nil, List.take_nil]
    exact iff_of_true (fun p hp => absurd hp List.not_mem_nil) (.nil P m)
  | cons s ss ih =>
    have hs := hpos s List.mem_cons_self
    have hrest := fun t ht => hpos t (List.mem_cons_of_mem s ht)
    rw [allPages_cons]
    by_cases hdvd : P ∣ s.len
    · obtain ⟨c, hc⟩ := hdvd
      rw [Nat.mul_comm] at hc
      have hfull (p : Segment A) (hp : p ∈ s.paginate P) : p.len = P :=
        Segment.mem_paginate_full hP ⟨c, by rw [hc, Nat.mul_comm]⟩ hp
      have hlen : (s.paginate P).length = c := by
        rw [Segment.length_paginate, hc, Nat.mul_comm]
        exact smul_ceilDiv hP c
      by_cases hm : c ≤ m
      · rw [onBoundaries_cons_dvd hc hm, ← ih hrest, List.take_append, hlen]
        constructor
        · exact fun h p hp => h p (List.mem_append_right _ hp)
        · intro h p hp
          rcases List.mem_append.mp hp with hp | hp
          · exact hfull p (List.mem_of_mem_take hp)
          · exact h p hp
      · refine iff_of_true (fun p hp => ?_) fun k hk => ?_
        · rw [List.take_append_of_le_length (by omega)] at hp
          exact hfull p (List.mem_of_mem_take hp)
        · cases k with
          | zero => exact Nat.dvd_zero P
          | succ k =>
            have hmc := Nat.mul_le_mul_right P (show m + 1 ≤ c by omega)
            rw [Nat.succ_mul] at hmc
            rw [List.take_succ_cons, totalLen_cons] at hk
            omega
    · rw [paginate_take_full_iff hP hdvd]
      constructor
      · intro hm k hk
        cases k with
        | zero => exact Nat.dvd_zero P
        | succ k =>
          rw [List.take_succ_cons, totalLen_cons] at hk
          omega
      · intro h
        by_contra hle
        have hone := h 1
        rw [List.take_succ_cons, List.take_zero, totalLen_cons, totalLen_nil, Nat.add_zero] at hone
        exact hdvd (hone (Nat.not_lt.mp hle))

/-- Page `i` begins after the bytes of the pages before it. -/
theorem getElem?_allBytes_position {ps : List (Segment A)} {i : ℕ} (hi : i < ps.length)
    (hpos : 0 < ps[i].len) : (allBytes ps)[totalLen (ps.take i)]? = some ps[i].base := by
  induction ps generalizing i with
  | nil => exact absurd hi (Nat.not_lt_zero i)
  | cons p ps ih =>
    rw [allBytes_cons]
    cases i with
    | zero =>
      have hp : 0 < p.len := hpos
      rw [List.take_zero, totalLen_nil, List.getElem?_append_left (by
        rwa [Segment.length_bytes]), Segment.getElem?_bytes hp, advance_zero]
      rfl
    | succ i =>
      rw [List.take_succ_cons, totalLen_cons, List.getElem?_append_right (by
        rw [Segment.length_bytes]; omega), Segment.length_bytes, Nat.add_sub_cancel_left]
      exact ih (Nat.lt_of_succ_lt_succ hi) hpos

omit [ByteAddress A] in
theorem totalLen_take_full {P m i : ℕ} {ps : List (Segment A)}
    (h : ∀ p ∈ ps.take m, p.len = P) (hi : i ≤ m) (hlen : i ≤ ps.length) :
    totalLen (ps.take i) = i * P := by
  rw [totalLen_const fun p hp => h p (List.take_subset_take_left ps hi hp), List.length_take,
    Nat.min_eq_left hlen]

theorem getElem?_paginate {P j : ℕ} {s p : Segment A} (h : (s.paginate P)[j]? = some p) :
    j < s.len ⌈/⌉ P ∧ p = s.sub (j * P) (min P (s.len - j * P)) := by
  obtain ⟨hj, rfl⟩ := List.getElem?_eq_some_iff.mp h
  rw [Segment.length_paginate] at hj
  refine ⟨hj, ?_⟩
  simp only [Segment.paginate, List.getElem_map, List.getElem_range]

/-- A page that is not whole ends its run: the next one begins at the base of a later run. -/
theorem base_after_short {P i : ℕ} (hP : 0 < P) {ss : List (Segment A)}
    (hpos : ∀ s ∈ ss, 0 < s.len) {p q : Segment A} (hp : (allPages P ss)[i]? = some p)
    (hq : (allPages P ss)[i + 1]? = some q) (hshort : p.len ≠ P) :
    ∃ s ∈ ss.tail, q.base = s.base := by
  induction ss generalizing i with
  | nil => cases hp
  | cons s ss ih =>
    have hrest := fun t ht => hpos t (List.mem_cons_of_mem s ht)
    rw [allPages_cons] at hp hq
    rw [List.tail_cons]
    by_cases hi : i < s.len ⌈/⌉ P
    · rw [List.getElem?_append_left (by rwa [Segment.length_paginate])] at hp
      obtain ⟨-, rfl⟩ := getElem?_paginate hp
      have hlast : s.len ⌈/⌉ P = i + 1 := by
        by_contra hne
        have hlt : ¬ s.len ≤ (i + 1) * P := fun hle => by
          have := (ceilDiv_le_iff_le_mul hP).mpr (hle.trans_eq (Nat.mul_comm _ _))
          omega
        rw [Nat.succ_mul] at hlt
        simp only [Segment.sub] at hshort
        omega
      rw [List.getElem?_append_right (by rw [Segment.length_paginate]; omega),
        Segment.length_paginate, hlast, Nat.sub_self] at hq
      cases ss with
      | nil => cases hq
      | cons t ts =>
        have ht := hrest t List.mem_cons_self
        have htpos : 0 < t.len ⌈/⌉ P := by
          by_contra hle
          have := (ceilDiv_le_iff_le_mul hP).mp (Nat.not_lt.mp hle)
          omega
        rw [allPages_cons, List.getElem?_append_left (by rwa [Segment.length_paginate])] at hq
        obtain ⟨-, rfl⟩ := getElem?_paginate hq
        refine ⟨t, List.mem_cons_self, ?_⟩
        rw [Segment.sub, Nat.zero_mul, advance_zero]
    · rw [List.getElem?_append_right (by rw [Segment.length_paginate]; omega),
        Segment.length_paginate] at hp hq
      rw [Nat.sub_add_comm (Nat.not_lt.mp hi)] at hq
      obtain ⟨t, ht, hbase⟩ := ih hrest hp hq
      exact ⟨t, List.mem_of_mem_tail ht, hbase⟩

theorem base_of_mem_slice_zero {ss : List (Segment A)} {take : ℕ} {s : Segment A}
    (h : s ∈ slice ss 0 take) : ∃ t ∈ ss, s.base = t.base := by
  induction ss generalizing take with
  | nil => cases h
  | cons t ss ih =>
    rw [slice] at h
    split at h
    · rw [Nat.zero_sub] at h
      obtain ⟨u, hu, hbase⟩ := ih h
      exact ⟨u, List.mem_cons_of_mem t hu, hbase⟩
    · split at h
      · cases h
      · rcases List.mem_cons.mp h with rfl | h
        · exact ⟨t, List.mem_cons_self, advance_zero t.base⟩
        · obtain ⟨u, hu, hbase⟩ := ih h
          exact ⟨u, List.mem_cons_of_mem t hu, hbase⟩

/-- A slice cuts into its first run only. -/
theorem base_of_mem_slice_tail {ss : List (Segment A)} {skip take : ℕ} {s : Segment A}
    (h : s ∈ (slice ss skip take).tail) : ∃ t ∈ ss, s.base = t.base := by
  induction ss generalizing skip with
  | nil => cases h
  | cons t ss ih =>
    rw [slice] at h
    split at h
    · obtain ⟨u, hu, hbase⟩ := ih h
      exact ⟨u, List.mem_cons_of_mem t hu, hbase⟩
    · split at h
      · cases h
      · rw [List.tail_cons] at h
        obtain ⟨u, hu, hbase⟩ := base_of_mem_slice_zero h
        exact ⟨u, List.mem_cons_of_mem t hu, hbase⟩

end HailortDrivers.PagePositions
