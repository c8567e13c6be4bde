import HailortDrivers.BoundBuffers

/-! The pages that a bound buffer is programmed with are its segments cut into
pages of the list's page size, so they carry the buffer's bytes in order. -/
namespace HailortDrivers.BufferPages
open MachineWord VdmaTypes DescriptorProgramming SegmentSlicing
open DescriptorsListCreation ProgrammedPages BoundBuffers

def pageOfSegment (s : Segment UInt64) : PageEntry := ⟨s.base, UInt32.ofNat s.len⟩

/-- `chunk_addr | masked_channel_id_for_encode_addr` -/
def maskBase (maskedChannelId : UInt64) (s : Segment UInt64) : Segment UInt64 :=
  ⟨s.base ||| maskedChannelId, s.len⟩

theorem chunkPages_eq (pageSize : UInt64) (stride lastSize : UInt32) (n : Nat) (a : UInt64) :
    chunkPages pageSize stride lastSize n a = (List.range (n + 1)).map fun j =>
      ⟨ByteAddress.advance a (j * pageSize.toNat), if j < n then stride else lastSize⟩ := by
  induction n generalizing a with
  | zero =>
    rw [chunkPages, List.range_one, List.map_singleton, Nat.zero_mul, ByteAddress.advance_zero]
    rfl
  | succ n ih =>
    rw [chunkPages, ih, List.range_succ_eq_map (n := n + 1), List.map_cons, List.map_map,
      Nat.zero_mul,
      ByteAddress.advance_zero, if_pos (Nat.succ_pos n)]
    congr 1
    apply List.map_congr_left
    intro j _
    have hpage : a + pageSize = ByteAddress.advance a pageSize.toNat := by
      simp [ByteAddress.advance]
    simp only [Function.comp_apply, hpage, ByteAddress.advance_advance, Nat.succ_mul,
      Nat.add_comm, Nat.succ_eq_add_one, Nat.add_lt_add_iff_right]

/-- What the last page of a run holds. -/
theorem lastPage_len {P len : ℕ} (hP : 0 < P) (hlen : 0 < len) :
    len - (len ⌈/⌉ P - 1) * P = if len % P = 0 then P else len % P := by
  have hdiv := Nat.div_add_mod len P
  have hlt := Nat.mod_lt len hP
  rw [Nat.ceilDiv_eq_add_pred_div]
  split
  · next hzero =>
    have hq : (len + P - 1) / P = len / P := by
      apply Nat.div_eq_of_lt_le
      · rw [Nat.mul_comm]
        omega
      · rw [Nat.succ_mul, Nat.mul_comm]
        omega
    have hqpos : 0 < len / P := Nat.div_pos (Nat.le_of_dvd hlen (Nat.dvd_of_mod_eq_zero hzero)) hP
    rw [hq, Nat.sub_mul, Nat.one_mul, Nat.mul_comm (len / P)]
    have := Nat.le_mul_of_pos_right P hqpos
    omega
  · have hq : (len + P - 1) / P = len / P + 1 := by
      apply Nat.div_eq_of_lt_le
      · rw [Nat.succ_mul, Nat.mul_comm]
        omega
      · rw [Nat.succ_mul, Nat.succ_mul, Nat.mul_comm]
        omega
    rw [hq, Nat.add_sub_cancel, Nat.mul_comm]
    omega

theorem lastChunkSize_eq {pageSize : UInt32} (hP : 0 < pageSize.toNat)
    (hpage : pageSize.toNat < 2 ^ 16) (stride : UInt32) {len : Nat} (hlen : len < 2 ^ 32) :
    lastChunkSize pageSize stride (UInt32.ofNat len) =
      if len % pageSize.toNat = 0 then stride else UInt32.ofNat (len % pageSize.toNat) := by
  have hmod : (UInt32.ofNat len % pageSize).toNat = len % pageSize.toNat := by
    rw [UInt32.toNat_mod, toNat_ofNat_of_lt hlen]
  have hlt := Nat.mod_lt len hP
  have hzero : UInt32.ofNat len % pageSize = 0 ↔ len % pageSize.toNat = 0 := by
    rw [← UInt32.toNat_inj, hmod, UInt32.toNat_zero]
  rw [lastChunkSize]
  split
  · rw [if_pos (hzero.mp ‹_›)]
  · rw [if_neg (mt hzero.mpr ‹_›), ← UInt32.toNat_inj, toNat_ofNat_of_lt (by omega),
      UInt16.toNat_toUInt32, UInt32.toNat_toUInt16, hmod, Nat.mod_eq_of_lt (by omega)]

/-- A page as it is programmed with a stride, which takes the place of a whole page's size. -/
def strideOfSegment (pageSize stride : UInt32) (s : Segment UInt64) : PageEntry :=
  ⟨s.base, if s.len = pageSize.toNat then stride else UInt32.ofNat s.len⟩

theorem strideOfSegment_self (pageSize : UInt32) (s : Segment UInt64) :
    strideOfSegment pageSize pageSize s = pageOfSegment s := by
  rw [strideOfSegment, pageOfSegment]
  split
  · next hlen => rw [hlen, UInt32.ofNat_toNat]
  · rfl

theorem segmentPages_eq {pageSize : UInt32} (hP : 0 < pageSize.toNat)
    (hpage : pageSize.toNat < 2 ^ 16) (stride : UInt32) (maskedChannelId : UInt64)
    {s : Segment UInt64} (hpos : 0 < s.len) (hlen : s.len < 2 ^ 32) :
    segmentPages pageSize stride maskedChannelId s =
      ((maskBase maskedChannelId s).paginate pageSize.toNat).map
        (strideOfSegment pageSize stride) := by
  have hK := ceilDiv_pos hP hpos
  rw [segmentPages, chunkPages_eq, Segment.paginate, List.map_map, maskBase,
    Nat.sub_add_cancel hK, UInt32.toNat_toUInt64, lastChunkSize_eq hP hpage stride hlen]
  apply List.map_congr_left
  intro j hj
  rw [List.mem_range] at hj
  simp only [Function.comp_apply, strideOfSegment, Segment.sub]
  congr 1
  have hle : (s.len ⌈/⌉ pageSize.toNat - 1) * pageSize.toNat < s.len := by
    by_contra hge
    have := (ceilDiv_le_iff_le_mul hP).mpr ((Nat.not_lt.mp hge).trans_eq (Nat.mul_comm _ _))
    omega
  have hmod := Nat.mod_lt s.len hP
  by_cases hlt : j < s.len ⌈/⌉ pageSize.toNat - 1
  · have hmul := Nat.mul_le_mul_right pageSize.toNat (show j + 1 ≤ _ from hlt)
    rw [Nat.succ_mul] at hmul
    rw [if_pos hlt, if_pos (Nat.min_eq_left (by omega))]
  · obtain rfl : j = s.len ⌈/⌉ pageSize.toNat - 1 := by omega
    rw [if_neg hlt, lastPage_len hP hpos]
    split
    · rw [Nat.min_self, if_pos rfl]
    · rw [Nat.min_eq_right hmod.le, if_neg hmod.ne]

theorem slicePages_eq {pageSize : UInt32} (hP : 0 < pageSize.toNat)
    (hpage : pageSize.toNat < 2 ^ 16) (stride : UInt32) (maskedChannelId : UInt64)
    {ss : List (Segment UInt64)} (hpos : ∀ s ∈ ss, 0 < s.len) (hlen : totalLen ss < 2 ^ 32) :
    slicePages pageSize stride maskedChannelId ss =
      (allPages pageSize.toNat (ss.map (maskBase maskedChannelId))).map
        (strideOfSegment pageSize stride) := by
  induction ss with
  | nil => rfl
  | cons s ss ih =>
    rw [totalLen_cons] at hlen
    rw [slicePages_cons, List.map_cons, allPages_cons, List.map_append,
      segmentPages_eq hP hpage stride maskedChannelId (hpos s List.mem_cons_self) (by omega),
      ih (fun t ht => hpos t (List.mem_cons_of_mem s ht)) (by omega)]

section MaskBase
variable (maskedChannelId : UInt64) (ss : List (Segment UInt64)) (P : ℕ)

theorem maskBase_zero (s : Segment UInt64) : maskBase 0 s = s := by
  rw [maskBase, UInt64.or_zero]

theorem totalLen_maskBase : totalLen (ss.map (maskBase maskedChannelId)) = totalLen ss := by
  rw [totalLen, List.map_map]
  rfl

variable {P ss}

theorem alignedButLast_maskBase (h : AlignedButLast P ss) :
    AlignedButLast P (ss.map (maskBase maskedChannelId)) := by
  intro s hs
  rw [← List.map_dropLast] at hs
  obtain ⟨t, ht, rfl⟩ := List.mem_map.mp hs
  exact h t ht

end MaskBase

section Bound
variable {l : HailoVdmaDescriptorsList} {buffer : HailoVdmaMappedTransferBuffer}

theorem boundSegments_pos {s : Segment UInt64} (hs : s ∈ boundSegments buffer) : 0 < s.len :=
  len_pos_of_mem_slice hs

theorem boundSegments_ne_nil (hsize : 0 < buffer.size.toNat)
    (hcov : totalLen (boundSegments buffer) = buffer.size.toNat) : boundSegments buffer ≠ [] := by
  intro hnil
  rw [hnil, totalLen_nil] at hcov
  omega

theorem boundPages_eq (hP : 0 < l.descPageSize.toNat) (vdmaHw : HailoVdmaHw) (channelIndex : UInt8)
    (hcov : totalLen (boundSegments buffer) = buffer.size.toNat) :
    boundPages vdmaHw l channelIndex buffer =
      (allPages l.descPageSize.toNat ((boundSegments buffer).map
        (maskBase (vdmaHw.getMaskedChannelId
          (getChannelId channelIndex))))).map pageOfSegment := by
  have hpage : l.descPageSize.toUInt32.toNat = l.descPageSize.toNat := by simp
  rw [boundPages, slicePages_eq (hpage ▸ hP) (hpage ▸ l.descPageSize.toNat_lt) _ _
    (fun s hs => boundSegments_pos hs) (hcov ▸ buffer.size.toNat_lt), hpage]
  exact List.map_congr_left fun s _ => strideOfSegment_self _ s

theorem length_boundPages (hP : 0 < l.descPageSize.toNat) (vdmaHw : HailoVdmaHw)
    (channelIndex : UInt8) :
    (boundPages vdmaHw l channelIndex buffer).length = descsNeeded l buffer := by
  have hpage : l.descPageSize.toUInt32.toNat = l.descPageSize.toNat := by simp
  rw [boundPages, length_slicePages _ _ (hpage ▸ hP) (fun s hs => boundSegments_pos hs), hpage]
  rfl

/-- A buffer over entries that end on page boundaries takes no more descriptors
than one run of its size. -/
theorem descsNeeded_aligned (hP : 0 < l.descPageSize.toNat) (hsize : 0 < buffer.size.toNat)
    (haligned : AlignedButLast l.descPageSize.toNat (segments buffer.sgTable.sgl))
    (hdvd : l.descPageSize.toNat ∣ buffer.offset.toNat)
    (hcov : totalLen (boundSegments buffer) = buffer.size.toNat) :
    descsNeeded l buffer = buffer.size.toNat ⌈/⌉ l.descPageSize.toNat := by
  rw [descsNeeded, ← hcov]
  exact pageCount_aligned hP (boundSegments_ne_nil hsize hcov) (slice_aligned haligned hdvd _)
    fun s hs => boundSegments_pos hs

theorem boundPages_eq_concat (hP : 0 < l.descPageSize.toNat) (hsize : 0 < buffer.size.toNat)
    (haligned : AlignedButLast l.descPageSize.toNat (segments buffer.sgTable.sgl))
    (hdvd : l.descPageSize.toNat ∣ buffer.offset.toNat)
    (hcov : totalLen (boundSegments buffer) = buffer.size.toNat) (vdmaHw : HailoVdmaHw)
    (channelIndex : UInt8) :
    ∃ init last, boundPages vdmaHw l channelIndex buffer = init ++ [last] ∧
      (∀ p ∈ init, p.size = l.descPageSize.toUInt32) ∧
      last.size.toNat = buffer.size.toNat -
        (descsNeeded l buffer - 1) * l.descPageSize.toNat ∧
      last.size.toNat ≤ l.descPageSize.toNat := by
  have hslice : AlignedButLast l.descPageSize.toNat (boundSegments buffer) :=
    slice_aligned haligned hdvd _
  have hpos (s : Segment UInt64) (hs : s ∈ (boundSegments buffer).map (maskBase
      (vdmaHw.getMaskedChannelId (getChannelId channelIndex)))) :
      0 < s.len := by
    obtain ⟨t, ht, rfl⟩ := List.mem_map.mp hs
    exact (boundSegments_pos ht : 0 < t.len)
  obtain ⟨init, last, heq, hinit, hlast, hle⟩ := allPages_eq_concat hP
    (by simpa using boundSegments_ne_nil hsize hcov) (alignedButLast_maskBase _ hslice) hpos
  have hpage := l.descPageSize.toNat_lt
  have hlastNat : (pageOfSegment last).size.toNat = last.len := toNat_ofNat_of_lt (by omega)
  have hcount : init.length + 1 = descsNeeded l buffer := by
    rw [← length_boundPages hP vdmaHw channelIndex, boundPages_eq hP vdmaHw channelIndex hcov,
      heq, List.length_map, List.length_append, List.length_singleton]
  have htotal : buffer.size.toNat = init.length * l.descPageSize.toNat + last.len := by
    rw [← hcov, ← totalLen_maskBase
      (vdmaHw.getMaskedChannelId (getChannelId channelIndex)),
      ← totalLen_allPages hP, heq, totalLen_append, totalLen_const hinit,
      totalLen_cons, totalLen_nil, Nat.add_zero]
  refine ⟨init.map pageOfSegment, pageOfSegment last, ?_, ?_, ?_, ?_⟩
  · rw [boundPages_eq hP vdmaHw channelIndex hcov, heq, List.map_append,
      List.map_singleton]
  · intro p hp
    obtain ⟨s, hs, rfl⟩ := List.mem_map.mp hp
    rw [pageOfSegment, hinit s hs, ← UInt16.toNat_toUInt32, UInt32.ofNat_toNat]
  · rw [hlastNat, ← hcount, Nat.add_sub_cancel, htotal, Nat.add_sub_cancel_left]
  · rw [hlastNat]
    exact hle

/-- Descriptors outside the ones used keep their content. -/
theorem boundList_frame {vdmaHw : HailoVdmaHw} {startingDesc : UInt32} {channelIndex : UInt8}
    {lastDescInterrupts : HailoVdmaInterruptsDomain} {isDebug : Bool} (hwf : WellFormed l)
    (hP : 0 < l.descPageSize.toNat)
    (hfits : Fits l startingDesc buffer) (hlt : descsNeeded l buffer < 2 ^ 31)
    (hpos : 0 < descsNeeded l buffer) {x : Nat}
    (hx : ∀ j < descsNeeded l buffer, (startingDesc.toNat + j) % l.descCount.toNat ≠ x) :
    (boundList vdmaHw l startingDesc buffer channelIndex lastDescInterrupts isDebug).descList x =
      l.descList x := by
  have hlen : (boundPages vdmaHw l channelIndex buffer).length = descsNeeded l buffer :=
    length_boundPages hP vdmaHw channelIndex
  have hindices := hfits.indicesAt hwf hlt
  have hlast := hx (descsNeeded l buffer - 1) (by omega)
  rw [← Nat.add_sub_assoc (by omega)] at hlast
  have hcount : 0 < l.descCount.toNat := toNat_pos_iff.mpr hfits.descCount_ne
  have hindex := toNat_ofNat_of_lt ((Nat.mod_lt (startingDesc.toNat + descsNeeded l buffer - 1)
    hcount).trans l.descCount.toNat_lt)
  rw [← hlen] at hindices
  rw [boundList, orPageSizeDescControl]
  simp only [HailoVdmaDescriptorsList.store, HailoVdmaDescriptorsList.withDescs_descList, hindex]
  rw [Function.update_of_ne (Ne.symm hlast), writePages_miss hindices (by rwa [hlen])]

end Bound

end HailortDrivers.BufferPages
