import HailortDrivers.BatchOverlap
import HailortDrivers.PagePositions
import HailortDrivers.ScatterGatherCoverage

/-!
Programming with a stride: each descriptor points at a step of one page size and takes `stride`
bytes of it. The check of the stride comes after multiples of the page size were taken for the
page size, and the residue of a contiguous part is programmed in place of the stride.
-/
namespace HailortDrivers.StridedProgramming
open KernelExec MachineWord VdmaTypes DescriptorProgramming SegmentSlicing PagePositions
open DescriptorsListCreation ProgrammedPages BoundBuffers BufferPages DescriptorWords
open ScatterGatherCoverage BatchOverlap

/-- A stride that asks for less than a page of each step. -/
def Narrow (l : HailoVdmaDescriptorsList) (stride : UInt32) : Prop :=
  0 < stride.toNat ∧ stride.toNat < l.descPageSize.toNat

/-- The `n` descriptors take at most a stride each, and follow the buffer page by page. -/
structure StridedPages (l l' : HailoVdmaDescriptorsList) (startingDesc : UInt32)
    (buffer : HailoVdmaMappedTransferBuffer) (stride : UInt32) (n : Int32) : Prop where
  sizes : ∀ i : Nat, (i : Int) < n.toInt → (descriptorPageSize
    (l'.descList ((startingDesc.toNat + i) % l.descCount.toNat))).toNat ≤ stride.toNat
  steps : ∀ i < buffer.size.toNat / l.descPageSize.toNat,
    (allBytes (segments buffer.sgTable.sgl))[buffer.offset.toNat + i * l.descPageSize.toNat]? =
      some (descriptorAddress (l'.descList ((startingDesc.toNat + i) % l.descCount.toNat)))

/-- What a request is told of its stride: it must not exceed the page size, and a smaller one
is the size of each descriptor. -/
structure StrideRespected (l l' : HailoVdmaDescriptorsList) (startingDesc : UInt32)
    (buffer : HailoVdmaMappedTransferBuffer) (stride : UInt32) (n : Int32) : Prop where
  bounded : l.descPageSize.toNat < stride.toNat → n.toInt < 0
  narrow : Narrow l stride → 0 ≤ n.toInt → StridedPages l l' startingDesc buffer stride n

/-- How the contiguous parts of a buffer of whole pages have to lie for a stride: no residue
above it, on page boundaries up to the last page, and pages at addresses of 64 bytes. -/
structure PageLike (l : HailoVdmaDescriptorsList) (buffer : HailoVdmaMappedTransferBuffer)
    (stride : UInt32) : Prop where
  residues : ∀ s ∈ boundSegments buffer, s.len % l.descPageSize.toNat ≤ stride.toNat
  boundaries : OnBoundaries l.descPageSize.toNat (boundSegments buffer)
    (buffer.size.toNat / l.descPageSize.toNat - 1)
  addresses : ∀ i < buffer.size.toNat / l.descPageSize.toNat, ∀ a,
    (allBytes (segments buffer.sgTable.sgl))[buffer.offset.toNat + i * l.descPageSize.toNat]? =
      some a → 64 ∣ a.toNat

structure StrideFits (l : HailoVdmaDescriptorsList) (buffer : HailoVdmaMappedTransferBuffer)
    (stride : UInt32) : Prop where
  notMultiple : l.descPageSize.toNat < stride.toNat → ¬ l.descPageSize.toNat ∣ stride.toNat
  narrow : Narrow l stride → l.descPageSize.toNat ∣ buffer.size.toNat → PageLike l buffer stride

/-- Entries at addresses of 64 bytes, with no byte mapped twice. -/
structure Unaliased (sgTable : SgTable) : Prop where
  aligned : ∀ e ∈ sgTable.sgl, 64 ∣ e.dmaAddress.toNat
  nodup : (allBytes (segments sgTable.sgl)).Nodup

section Bind
variable {vdmaHw : HailoVdmaHw} {l l' : HailoVdmaDescriptorsList} {startingDesc : UInt32}
  {buffer : HailoVdmaMappedTransferBuffer} {channelIndex : UInt8}
  {lastDescInterrupts : HailoVdmaInterruptsDomain} {isDebug : Bool} {stride : UInt32} {n : Int32}

theorem bindFromStart_of_placed (hwf : WellFormed l) (hP : 0 < l.descPageSize.toNat)
    (h : Placed l startingDesc buffer) :
    ∃ n l', bindFromStart vdmaHw l startingDesc buffer channelIndex lastDescInterrupts isDebug
      stride = .ok (n, l') ∧ 0 ≤ n.toInt := by
  have hpage : 0 < l.descPageSize.toUInt32.toNat := by simpa using hP
  have hstart := h.start_lt
  have hcount : l.descCount ≠ 0 := toNat_pos_iff.mp (by omega)
  have hwrap := transfer_noWrap hwf hstart h.inRange
  have hroom := h.inRange
  rw [limit, ← maxDescIndex_succ hstart hwf] at hroom
  obtain ⟨c, hwalk, hdone⟩ : ∃ c, bindSgEntries buffer.offset _ vdmaHw.ddrDataId stride
      (vdmaHw.getMaskedChannelId (getChannelId channelIndex)) buffer.sgTable.sgl
      ⟨0, startingDesc, buffer.size, 0, l⟩ = .ok (.walked c) ∧ c.programSize = 0 :=
    walk_total rfl hpage (rfl : boundSegments buffer = _) h.covered h.total_lt hwrap hroom
  have hstores : Stores l.descPageSize.toUInt32 _ _ vdmaHw.ddrDataId _ _ c (boundSegments buffer) :=
    walk_stores rfl hpage hwalk hdone
  refine ⟨_, _, bindFromStart_walked hwalk hdone hcount, ?_⟩
  have hlt := h.total_lt
  rw [hstores.descProgrammed, Int32.zero_add, toInt32_nonneg_iff]
  rw [transferTotal] at hlt
  rwa [toNat_ofNat_of_lt (by omega)]

theorem bind_nonneg_iff (hwf : WellFormed l)
    (h : bindAndProgramDescriptorsList vdmaHw l startingDesc buffer channelIndex
      lastDescInterrupts isDebug stride = .ok (n, l')) :
    0 ≤ n.toInt ↔ StrideTaken l buffer stride ∧ Placed l startingDesc buffer := by
  have hP := pageSize_pos_of_bind h
  constructor
  · intro hn
    obtain ⟨htaken, hbound⟩ := bind_bound hwf hP hn h
    exact ⟨htaken, hbound.placed⟩
  · rintro ⟨htaken, hplaced⟩
    rw [bind_taken hP hplaced.offset_dvd hplaced.start_lt htaken] at h
    obtain ⟨n', l'', hok, hn⟩ := bindFromStart_of_placed hwf hP hplaced
    cases hok.symm.trans h
    exact hn

theorem dvd_descriptorAddress (d : HailoVdmaDescriptor) : 64 ∣ (descriptorAddress d).toNat := by
  have hshift : UInt64.toNat 32 % 64 = 32 := rfl
  have hmask : descriptorAddrLMask.toNat % 2 ^ 6 = 0 := by decide
  have hhigh : (d.addrH.toUInt64 <<< 32).toNat % 2 ^ 6 = 0 := by
    rw [UInt64.toNat_shiftLeft, hshift, Nat.shiftLeft_eq]
    omega
  apply Nat.dvd_of_mod_eq_zero
  rw [descriptorAddress, UInt64.toNat_or, UInt64.toNat_and, show 64 = 2 ^ 6 from rfl,
    Nat.or_mod_two_pow, Nat.and_mod_two_pow, hmask, hhigh, Nat.and_zero, Nat.or_zero]

theorem getElem?_boundBytes {j : Nat} (hj : j < buffer.size.toNat) :
    (allBytes (boundSegments buffer))[j]? =
      (allBytes (segments buffer.sgTable.sgl))[buffer.offset.toNat + j]? := by
  rw [boundSegments, allBytes_slice, List.getElem?_take_of_lt hj, List.getElem?_drop]

/-- A power of two that a 32-bit size is a multiple of leaves room to round it up. -/
theorem size_add_pageSize_le {size P : Nat} (hlt : size < 2 ^ 32) (hpow : ∃ k < 32, P = 2 ^ k)
    (hdvd : P ∣ size) : size + P ≤ 2 ^ 32 := by
  obtain ⟨k, hk, rfl⟩ := hpow
  have hrest : 2 ^ k ∣ 2 ^ 32 - size := Nat.dvd_sub (pow_dvd_pow 2 hk.le) hdvd
  have hle := Nat.le_of_dvd (by omega) hrest
  omega

/-- Descriptor `i` of a transfer with a stride. -/
theorem stridedList_page (hhw : PlainAddresses vdmaHw) (hwf : WellFormed l)
    (hP : 0 < l.descPageSize.toNat) (hfits : Fits l startingDesc buffer)
    (hlt : descsNeeded l buffer < 2 ^ 31) (hstride : stride.toNat < l.descPageSize.toNat) {i : Nat}
    (hi : i < (allPages l.descPageSize.toNat (boundSegments buffer)).length) :
    ∃ d, (stridedList vdmaHw l startingDesc buffer channelIndex lastDescInterrupts isDebug
        stride).descList ((startingDesc.toNat + i) % l.descCount.toNat) = d ∧
      (descriptorPageSize d).toNat =
        (if ((allPages l.descPageSize.toNat (boundSegments buffer))[i]).len =
          l.descPageSize.toNat then stride.toNat
        else ((allPages l.descPageSize.toNat (boundSegments buffer))[i]).len) ∧
      (64 ∣ ((allPages l.descPageSize.toNat (boundSegments buffer))[i]).base.toNat →
        descriptorAddress d =
          ((allPages l.descPageSize.toNat (boundSegments buffer))[i]).base) := by
  have hpage : l.descPageSize.toUInt32.toNat = l.descPageSize.toNat := by simp
  have hpages : slicePages l.descPageSize.toUInt32 stride
      (vdmaHw.getMaskedChannelId (getChannelId channelIndex)) (boundSegments buffer) =
      (allPages l.descPageSize.toNat (boundSegments buffer)).map
        (strideOfSegment l.descPageSize.toUInt32 stride) := by
    have hplain : (boundSegments buffer).map (maskBase 0) = boundSegments buffer :=
      (List.map_congr_left fun s _ => maskBase_zero s).trans (List.map_id _)
    rw [slicePages_eq (hpage ▸ hP) (hpage ▸ l.descPageSize.toNat_lt) _ _
      (fun s hs => boundSegments_pos hs) (hfits.totalLen_boundSegments ▸ buffer.size.toNat_lt),
      hhw.maskedChannelId, hplain, hpage]
  have hlen : (slicePages l.descPageSize.toUInt32 stride
      (vdmaHw.getMaskedChannelId (getChannelId channelIndex)) (boundSegments buffer)).length =
      descsNeeded l buffer := by
    rw [hpages, List.length_map, length_allPages]
    rfl
  have hindices := hfits.indicesAt hwf hlt
  have hle := hfits.descsNeeded_le
  rw [← hlen] at hindices hle
  have hi' : i < (slicePages l.descPageSize.toUInt32 stride
      (vdmaHw.getMaskedChannelId (getChannelId channelIndex)) (boundSegments buffer)).length := by
    rwa [hpages, List.length_map]
  have hsegment := @descriptorSegment_stridedList vdmaHw l startingDesc buffer channelIndex
    lastDescInterrupts isDebug hhw stride ((startingDesc.toNat + i) % l.descCount.toNat)
  rw [writePages_hit hindices hle hi'] at hsegment
  simp only [hpages, List.getElem_map] at hsegment
  have hlenle := len_le_of_mem_allPages (List.getElem_mem hi)
  have hP16 := l.descPageSize.toNat_lt
  generalize (allPages l.descPageSize.toNat (boundSegments buffer))[i] = p at hsegment hlenle
  have hsize : (strideOfSegment l.descPageSize.toUInt32 stride p).size.toNat =
      if p.len = l.descPageSize.toNat then stride.toNat else p.len := by
    simp only [strideOfSegment, hpage]
    split
    · rfl
    · exact toNat_ofNat_of_lt (by omega)
  refine ⟨_, rfl, ?_, fun hbase => ?_⟩
  · have hsizes := congrArg Segment.len hsegment
    simp only [descriptorSegment] at hsizes
    rw [hsizes, descriptorPageSize_pageDescriptor (by rw [hsize]; split <;> omega), hsize]
  · have haddress := congrArg Segment.base hsegment
    simp only [descriptorSegment] at haddress
    rw [haddress, descriptorAddress_pageDescriptor hhw.ddrDataId hbase]
    rfl

theorem Narrow.not_dvd (h : Narrow l stride) : ¬ l.descPageSize.toNat ∣ stride.toNat := fun hdvd =>
  absurd (Nat.le_of_dvd h.1 hdvd) (Nat.not_le.mpr h.2)

/-- What a run with a stride below the page size has done. -/
theorem strided_run (hwf : WellFormed l) (hpow : ∃ k < 32, l.descPageSize.toNat = 2 ^ k)
    (hnarrow : Narrow l stride) (hsize : 0 < buffer.size.toNat) (hn : 0 ≤ n.toInt)
    (h : bindAndProgramDescriptorsList vdmaHw l startingDesc buffer channelIndex
      lastDescInterrupts isDebug stride = .ok (n, l')) :
    Fits l startingDesc buffer ∧ n.toInt = descsNeeded l buffer ∧
      l' = stridedList vdmaHw l startingDesc buffer channelIndex lastDescInterrupts isDebug
        stride := by
  have hP := pageSize_pos_of_bind h
  obtain ⟨htaken, hbound⟩ := bind_bound hwf hP hn h
  obtain ⟨hdvd, -⟩ := htaken.resolve_left hnarrow.not_dvd
  rw [bind_taken hP hbound.placed.offset_dvd hbound.placed.start_lt htaken,
    if_neg hnarrow.not_dvd] at h
  exact bindFromStart_fits hwf hP hbound.placed.offset_dvd hbound.placed.start_lt hsize
    (size_add_pageSize_le buffer.size.toNat_lt hpow hdvd) hn h

theorem steps_le_pages (hP : 0 < l.descPageSize.toNat) (hfits : Fits l startingDesc buffer) :
    buffer.size.toNat / l.descPageSize.toNat ≤
      (allPages l.descPageSize.toNat (boundSegments buffer)).length := by
  have hle := totalLen_le_mul_pageCount hP (boundSegments buffer)
  rw [hfits.totalLen_boundSegments] at hle
  rw [length_allPages]
  exact Nat.div_le_of_le_mul hle

/-- Buffer byte `i` pages on, where the pages before are whole. -/
theorem page_byte (hP : 0 < l.descPageSize.toNat) {i : Nat}
    (hi : i < buffer.size.toNat / l.descPageSize.toNat)
    (hlen : i < (allPages l.descPageSize.toNat (boundSegments buffer)).length)
    (hfull : ∀ p ∈ (allPages l.descPageSize.toNat (boundSegments buffer)).take i,
      p.len = l.descPageSize.toNat) :
    (allBytes (segments buffer.sgTable.sgl))[buffer.offset.toNat + i * l.descPageSize.toNat]? =
      some ((allPages l.descPageSize.toNat (boundSegments buffer))[i]).base := by
  have hpos := len_pos_of_mem_allPages hP (List.getElem_mem hlen)
  have hbyte := getElem?_allBytes_position hlen hpos
  rw [totalLen_take_full hfull le_rfl hlen.le, allBytes_allPages _ _ hP] at hbyte
  have hmul := (Nat.le_div_iff_mul_le hP).mp (show i + 1 ≤ _ from hi)
  rw [Nat.succ_mul] at hmul
  rwa [getElem?_boundBytes (by omega)] at hbyte

theorem stridedPages_of_pageLike (hhw : PlainAddresses vdmaHw) (hwf : WellFormed l)
    (hpow : ∃ k < 32, l.descPageSize.toNat = 2 ^ k) (hnarrow : Narrow l stride)
    (hsize : 0 < buffer.size.toNat) (hn : 0 ≤ n.toInt)
    (h : bindAndProgramDescriptorsList vdmaHw l startingDesc buffer channelIndex
      lastDescInterrupts isDebug stride = .ok (n, l')) (hlike : PageLike l buffer stride) :
    StridedPages l l' startingDesc buffer stride n := by
  have hP := pageSize_pos_of_bind h
  obtain ⟨hfits, hcount, rfl⟩ := strided_run hwf hpow hnarrow hsize hn h
  have hlt : descsNeeded l buffer < 2 ^ 31 := by
    have := n.toInt_lt
    omega
  constructor
  · intro i hi
    have hpage : i < (allPages l.descPageSize.toNat (boundSegments buffer)).length := by
      rw [length_allPages]
      change i < descsNeeded l buffer
      omega
    obtain ⟨d, rfl, hlen, -⟩ := @stridedList_page vdmaHw l startingDesc buffer channelIndex
      lastDescInterrupts isDebug stride hhw hwf hP hfits hlt hnarrow.2 i hpage
    rw [hlen]
    split
    · exact le_rfl
    · next hshort =>
      exact ((pages_le_iff hP).mpr hlike.residues _ (List.getElem_mem hpage)).resolve_left hshort
  · intro i hi
    have hpage : i < (allPages l.descPageSize.toNat (boundSegments buffer)).length :=
      hi.trans_le (steps_le_pages hP hfits)
    obtain ⟨d, rfl, -, haddress⟩ := @stridedList_page vdmaHw l startingDesc buffer channelIndex
      lastDescInterrupts isDebug stride hhw hwf hP hfits hlt hnarrow.2 i hpage
    have hfull := (pages_full_iff hP fun s hs => boundSegments_pos hs).mpr hlike.boundaries
    have hbyte := page_byte hP hi hpage fun p hp =>
      hfull p (List.take_subset_take_left _ (by omega) hp)
    rw [hbyte, haddress (hlike.addresses i hi _ hbyte)]

theorem pageLike_of_stridedPages (hhw : PlainAddresses vdmaHw) (hwf : WellFormed l)
    (hpow : ∃ k < 32, l.descPageSize.toNat = 2 ^ k) (hnarrow : Narrow l stride)
    (hsize : 0 < buffer.size.toNat) (hn : 0 ≤ n.toInt)
    (h : bindAndProgramDescriptorsList vdmaHw l startingDesc buffer channelIndex
      lastDescInterrupts isDebug stride = .ok (n, l')) (halias : Unaliased buffer.sgTable)
    (hpages : StridedPages l l' startingDesc buffer stride n) : PageLike l buffer stride := by
  have hP := pageSize_pos_of_bind h
  obtain ⟨hfits, hcount, rfl⟩ := strided_run hwf hpow hnarrow hsize hn h
  have hlt : descsNeeded l buffer < 2 ^ 31 := by
    have := n.toInt_lt
    omega
  have hpos := fun s (hs : s ∈ boundSegments buffer) => boundSegments_pos hs
  have hsteps := steps_le_pages hP hfits
  -- By induction on the page: one that is short would put the next one off its step.
  have hfull (i : Nat) (hi : i ≤ buffer.size.toNat / l.descPageSize.toNat - 1) :
      ∀ p ∈ (allPages l.descPageSize.toNat (boundSegments buffer)).take i,
        p.len = l.descPageSize.toNat := by
    induction i with
    | zero => exact fun p hp => absurd hp List.not_mem_nil
    | succ i ih =>
      have hbefore := ih (by omega)
      have hi0 : i < (allPages l.descPageSize.toNat (boundSegments buffer)).length := by omega
      have hi1 : i + 1 < (allPages l.descPageSize.toNat (boundSegments buffer)).length := by omega
      rw [← List.take_concat_get' _ _ hi0]
      intro p hp
      rcases List.mem_append.mp hp with hp | hp
      · exact hbefore p hp
      · rw [List.mem_singleton.mp hp]
        by_contra hshort
        obtain ⟨s, hs, hbase⟩ := base_after_short hP hpos (List.getElem?_eq_getElem hi0)
          (List.getElem?_eq_getElem hi1) hshort
        obtain ⟨t, ht, htail⟩ := base_of_mem_slice_tail hs
        obtain ⟨e, he, rfl⟩ := List.mem_map.mp ht
        have haligned : 64 ∣ ((allPages l.descPageSize.toNat
            (boundSegments buffer))[i + 1]).base.toNat := by
          rw [hbase, htail]
          exact halias.aligned e he
        obtain ⟨d, rfl, -, haddress⟩ := @stridedList_page vdmaHw l startingDesc buffer channelIndex
          lastDescInterrupts isDebug stride hhw hwf hP hfits hlt hnarrow.2 (i + 1) hi1
        have hstep := hpages.steps (i + 1) (by omega)
        rw [haddress haligned] at hstep
        have hposition := getElem?_allBytes_position hi1
          (len_pos_of_mem_allPages hP (List.getElem_mem hi1))
        rw [← List.take_concat_get' _ _ hi0, totalLen_append,
          totalLen_take_full hbefore le_rfl hi0.le, totalLen_cons, totalLen_nil, Nat.add_zero,
          allBytes_allPages _ _ hP, getElem?_boundBytes] at hposition
        · obtain ⟨hb, hgetb⟩ := List.getElem?_eq_some_iff.mp hstep
          obtain ⟨hc, hgetc⟩ := List.getElem?_eq_some_iff.mp hposition
          have hsame := (@List.Nodup.getElem_inj_iff _ _ halias.nodup _ hb _ hc).mp
            (hgetb.trans hgetc.symm)
          rw [Nat.succ_mul] at hsame
          omega
        · have hle := len_le_of_mem_allPages (List.getElem_mem hi0)
          have hmul := Nat.mul_le_mul_right l.descPageSize.toNat
            (show i + 2 ≤ buffer.size.toNat / l.descPageSize.toNat by omega)
          have hdiv := Nat.div_mul_le_self buffer.size.toNat l.descPageSize.toNat
          rw [Nat.add_mul] at hmul
          omega
  refine ⟨(pages_le_iff hP).mp fun p hp => ?_, (pages_full_iff hP hpos).mp (hfull _ le_rfl), ?_⟩
  · obtain ⟨i, hi, rfl⟩ := List.getElem_of_mem hp
    obtain ⟨d, rfl, hlen, -⟩ := @stridedList_page vdmaHw l startingDesc buffer channelIndex
      lastDescInterrupts isDebug stride hhw hwf hP hfits hlt hnarrow.2 i hi
    have hindex : (i : Int) < n.toInt := by
      rw [length_allPages] at hi
      rw [hcount]
      exact Int.ofNat_lt.mpr hi
    have hle := hpages.sizes i hindex
    rw [hlen] at hle
    by_cases hwhole : ((allPages l.descPageSize.toNat (boundSegments buffer))[i]).len =
        l.descPageSize.toNat
    · exact Or.inl hwhole
    · rw [if_neg hwhole] at hle
      exact Or.inr hle
  · intro i hi a ha
    rw [hpages.steps i hi] at ha
    cases ha
    exact dvd_descriptorAddress _

theorem boundSegments_empty (hsize : buffer.size.toNat = 0) : boundSegments buffer = [] := by
  rw [boundSegments, hsize, slice_zero]

/-- A stride is respected where the parts of the buffer lie as it asks, and on a table that maps
no byte twice nowhere else. -/
theorem bindAndProgramDescriptorsList_stride (hhw : PlainAddresses vdmaHw) (hwf : WellFormed l)
    (hpow : ∃ k, l.descPageSize.toNat = 2 ^ k)
    (h : bindAndProgramDescriptorsList vdmaHw l startingDesc buffer channelIndex
      lastDescInterrupts isDebug stride = .ok (n, l')) :
    ((Placed l startingDesc buffer → StrideFits l buffer stride) →
        StrideRespected l l' startingDesc buffer stride n) ∧
      (Unaliased buffer.sgTable → StrideRespected l l' startingDesc buffer stride n →
        Placed l startingDesc buffer → StrideFits l buffer stride) := by
  have hpow : ∃ k < 32, l.descPageSize.toNat = 2 ^ k := by
    obtain ⟨k, hk⟩ := hpow
    have hlt : 2 ^ k < 2 ^ 16 := hk ▸ l.descPageSize.toNat_lt
    have hk16 := (Nat.pow_lt_pow_iff_right (Nat.lt_succ_self 1)).mp hlt
    exact ⟨k, by omega, hk⟩
  have hiff := bind_nonneg_iff hwf h
  constructor
  · intro hfits
    constructor
    · intro hwide
      by_contra hn
      obtain ⟨htaken, hplaced⟩ := hiff.mp (not_lt.mp hn)
      rcases htaken with hdvd | ⟨-, hle⟩
      · exact (hfits hplaced).notMultiple hwide hdvd
      · omega
    · intro hnarrow hn
      obtain ⟨htaken, hplaced⟩ := hiff.mp hn
      have hlike := (hfits hplaced).narrow hnarrow (htaken.resolve_left hnarrow.not_dvd).1
      rcases Nat.eq_zero_or_pos buffer.size.toNat with hsize | hsize
      · have hP := pageSize_pos_of_bind h
        have hreturns := (bind_bound hwf hP hn h).2.returns
        have htotal : transferTotal l buffer = 0 := by
          rw [transferTotal, boundSegments_empty hsize, partTotal_nil]
        constructor
        · intro i hi
          omega
        · intro i hi
          rw [hsize, Nat.zero_div] at hi
          exact absurd hi (Nat.not_lt_zero i)
      · exact stridedPages_of_pageLike hhw hwf hpow hnarrow hsize hn h hlike
  · intro halias hrespected hplaced
    constructor
    · intro hwide hdvd
      exact absurd (hiff.mpr ⟨Or.inl hdvd, hplaced⟩) (not_le.mpr (hrespected.bounded hwide))
    · intro hnarrow hdvd
      have hn := hiff.mpr ⟨Or.inr ⟨hdvd, hnarrow.2.le⟩, hplaced⟩
      rcases Nat.eq_zero_or_pos buffer.size.toNat with hsize | hsize
      · refine ⟨?_, ?_, ?_⟩
        · rw [boundSegments_empty hsize]
          exact fun s hs => absurd hs List.not_mem_nil
        · rw [boundSegments_empty hsize]
          exact .nil _ _
        · intro i hi
          rw [hsize, Nat.zero_div] at hi
          exact absurd hi (Nat.not_lt_zero i)
      · exact pageLike_of_stridedPages hhw hwf hpow hnarrow hsize hn h halias
          (hrespected.narrow hnarrow hn)

end Bind

/-- 192 bytes in two parts that do not end on pages of 64 bytes. -/
def unevenBuffer : HailoVdmaMappedTransferBuffer where
  sgTable := ⟨0, [⟨0x1000, 100⟩, ⟨0x2000, 92⟩]⟩
  size := 192
  offset := 0
  opaqueBuffer := 0

/-- A stride of two pages is taken; and with a stride of 32 the residues of the parts are
programmed, and the third descriptor is not at the third page. -/
theorem strides_notRespected :
    (∃ l', bindAndProgramDescriptorsList hailoPcieVdmaHw ringOfFour 0 splitBuffer 0
        hailoVdmaInterruptsDomainNone false 128 = .ok (3, l') ∧
      ¬ StrideRespected ringOfFour l' 0 splitBuffer 128 3) ∧
    ∃ l', bindAndProgramDescriptorsList hailoPcieVdmaHw ringOfFour 0 unevenBuffer 0
        hailoVdmaInterruptsDomainNone false 32 = .ok (4, l') ∧
      ¬ StrideRespected ringOfFour l' 0 unevenBuffer 32 4 := by
  refine ⟨⟨_, rfl, fun h => absurd (h.bounded (by decide)) (by decide)⟩, _, rfl, fun h => ?_⟩
  exact absurd ((h.narrow ⟨by decide, by decide⟩ (by decide)).sizes 1 (by decide)) (by decide)

/-- Two parts of 64 bytes each, at a stride of 32. -/
theorem bindAndProgramDescriptorsList_stride_ringOfFour :
    ∃ l', bindAndProgramDescriptorsList hailoPcieVdmaHw ringOfFour 3
        { splitBuffer with size := 128 } 0 hailoVdmaInterruptsDomainNone false 32 = .ok (2, l') ∧
      StrideRespected ringOfFour l' 3 { splitBuffer with size := 128 } 32 2 := by
  obtain ⟨l', hrun⟩ : ∃ l', bindAndProgramDescriptorsList hailoPcieVdmaHw ringOfFour 3
      { splitBuffer with size := 128 } 0 hailoVdmaInterruptsDomainNone false 32 = .ok (2, l') :=
    ⟨_, rfl⟩
  have hparts : boundSegments { splitBuffer with size := 128 } =
      [⟨0x1040, 64⟩, ⟨0x2000, 64⟩] := rfl
  have hfits : StrideFits ringOfFour { splitBuffer with size := 128 } 32 := by
    refine ⟨by decide, fun _ _ => ⟨?_, ?_, ?_⟩⟩
    · rw [hparts]
      decide
    · refine (pages_full_iff (by decide) fun s hs => boundSegments_pos hs).mp ?_
      rw [hparts]
      decide
    · intro i hi a ha
      have hcases : i = 0 ∨ i = 1 := by
        have hlt : i < 2 := hi
        omega
      rcases hcases with rfl | rfl
      · cases (show _ = some (0x1040 : UInt64) by decide).symm.trans ha
        decide
      · cases (show _ = some (0x2000 : UInt64) by decide).symm.trans ha
        decide
  exact ⟨l', hrun, (bindAndProgramDescriptorsList_stride hailoPcieVdmaHw_plainAddresses
    ringOfFour_wellFormed ⟨6, rfl⟩ hrun).1 fun _ => hfits⟩

end HailortDrivers.StridedProgramming
