import HailortDrivers.ProgramIoctl
import HailortDrivers.ScatterGatherCoverage

/-!
What a batch of transfers leaves in a descriptors list: the pages of the mapped buffer one after
the other, each transfer ending in a page of what is left of its size, with interrupts in the
very last descriptor only.
-/
namespace HailortDrivers.BatchPattern
open KernelExec MachineWord VdmaTypes DescriptorProgramming SegmentSlicing
open DescriptorsListCreation ProgrammedPages BoundBuffers BufferPages DescriptorWords
open ScatterGatherCoverage ProgramIoctl

/-- A descriptor of `size` bytes at `address` that asks for the interrupts of `bitmask`. -/
structure HoldsPage (d : HailoVdmaDescriptor) (address : UInt64) (size : Nat)
    (bitmask : UInt64) : Prop where
  address : descriptorAddress d = address
  size : (descriptorPageSize d).toNat = size
  control : d.pageSizeDescControl.toUInt64 &&& 0xFF = descriptorDescControl ||| bitmask

/-- The low byte of the word has the control bits only. -/
theorem control_pageDescriptor {dataId : UInt8} {p : PageEntry} (h : p.size.toNat < 2 ^ 16) :
    (pageDescriptor dataId p).pageSizeDescControl.toUInt64 &&& 0xFF = descriptorDescControl := by
  have hmask : (0xFF : UInt64).toNat = 2 ^ 8 - 1 := rfl
  have hcontrol : descriptorDescControl.toNat = 2 := rfl
  rw [← UInt64.toNat_inj, UInt64.toNat_and, UInt32.toNat_toUInt64, pageDescriptor,
    toNat_pageSizeDescControl _ _ _ h, hmask, Nat.and_two_pow_sub_one_eq_mod, hcontrol]
  omega

theorem control_or {w : UInt32} {bitmask : UInt64} (h : bitmask.toNat < 2 ^ 8) :
    (w.toUInt64 ||| bitmask).toUInt32.toUInt64 &&& 0xFF = w.toUInt64 &&& 0xFF ||| bitmask := by
  have hmask : (0xFF : UInt64).toNat = 2 ^ 8 - 1 := rfl
  rw [← UInt64.toNat_inj, UInt64.toNat_and, UInt32.toNat_toUInt64, toNat_or_bitmask h, hmask,
    UInt64.toNat_or, UInt64.toNat_and, UInt32.toNat_toUInt64, hmask,
    Nat.and_two_pow_sub_one_eq_mod, Nat.and_two_pow_sub_one_eq_mod, Nat.or_mod_two_pow,
    Nat.mod_eq_of_lt h]

section Transfer
variable {vdmaHw : HailoVdmaHw} {l : HailoVdmaDescriptorsList} {startingDesc : UInt32}
  {buffer : HailoVdmaMappedTransferBuffer} {channelIndex : UInt8}
  {lastDescInterrupts : HailoVdmaInterruptsDomain} {isDebug : Bool}

theorem boundPages_size_lt (hP : 0 < l.descPageSize.toNat)
    (hfits : Fits l startingDesc buffer) {p : PageEntry}
    (hp : p ∈ boundPages vdmaHw l channelIndex buffer) : p.size.toNat < 2 ^ 16 := by
  have hpage := l.descPageSize.toNat_lt
  rw [boundPages_eq hP _ _ hfits.totalLen_boundSegments] at hp
  obtain ⟨s, hs, rfl⟩ := List.mem_map.mp hp
  have hle := len_le_of_mem_allPages hs
  rw [pageOfSegment, toNat_ofNat_of_lt (by omega)]
  omega

/-- The control byte of descriptor `i` of one transfer. -/
theorem boundList_control (hhw : PlainAddresses vdmaHw) (hwf : WellFormed l)
    (hP : 0 < l.descPageSize.toNat) (hfits : Fits l startingDesc buffer)
    (hlt : descsNeeded l buffer < 2 ^ 31) {i : Nat} (hi : i < descsNeeded l buffer) :
    ((boundList vdmaHw l startingDesc buffer channelIndex lastDescInterrupts isDebug).descList
        ((startingDesc.toNat + i) % l.descCount.toNat)).pageSizeDescControl.toUInt64 &&& 0xFF =
      descriptorDescControl ||| if i + 1 = descsNeeded l buffer then
        getInterruptsBitmask vdmaHw lastDescInterrupts isDebug else 0 := by
  have hlen : (boundPages vdmaHw l channelIndex buffer).length = descsNeeded l buffer :=
    length_boundPages hP vdmaHw channelIndex
  have hindices := hfits.indicesAt hwf hlt
  have hle := hfits.descsNeeded_le
  have hcount : 0 < l.descCount.toNat := toNat_pos_iff.mpr hfits.descCount_ne
  have hlast : (UInt32.ofNat ((startingDesc.toNat + descsNeeded l buffer - 1) %
      l.descCount.toNat)).toNat =
      (startingDesc.toNat + (descsNeeded l buffer - 1)) % l.descCount.toNat := by
    rw [Nat.add_sub_assoc (by omega)]
    exact toNat_ofNat_of_lt ((Nat.mod_lt _ hcount).trans l.descCount.toNat_lt)
  rw [← hlen] at hindices hle hi
  have hwritten : writePages l.descCountMask vdmaHw.ddrDataId startingDesc
      (boundPages vdmaHw l channelIndex buffer) l.descList
      ((startingDesc.toNat + i) % l.descCount.toNat) = _ := writePages_hit hindices hle hi
  have hcontrol := @control_pageDescriptor vdmaHw.ddrDataId _
    (boundPages_size_lt hP hfits (List.getElem_mem hi))
  rw [boundList, orPageSizeDescControl]
  simp only [HailoVdmaDescriptorsList.store, HailoVdmaDescriptorsList.withDescs_descList, hlast]
  by_cases hlastPage : i + 1 = descsNeeded l buffer
  · obtain rfl : i = descsNeeded l buffer - 1 := by omega
    rw [if_pos hlastPage, Function.update_self, hwritten,
      control_or (getInterruptsBitmask_lt hhw.hostInterrupts hhw.deviceInterrupts _ _), hcontrol]
  · have hne : (startingDesc.toNat + i) % l.descCount.toNat ≠
        (startingDesc.toNat + (descsNeeded l buffer - 1)) % l.descCount.toNat :=
      ModularWindow.add_mod_ne (by omega) (by omega) (by omega)
    rw [if_neg hlastPage, Function.update_of_ne hne, hwritten, hcontrol, UInt64.or_zero]

/-- Descriptor `i` of one transfer over a table of whole pages. -/
theorem boundList_holdsPage (hhw : PlainAddresses vdmaHw) (hwf : WellFormed l)
    (hP : 0 < l.descPageSize.toNat) (hdvd : 64 ∣ l.descPageSize.toNat)
    (haddr : ∀ e ∈ buffer.sgTable.sgl, 64 ∣ e.dmaAddress.toNat)
    (haligned : AlignedButLast l.descPageSize.toNat (segments buffer.sgTable.sgl))
    (hsize : 0 < buffer.size.toNat) (hfits : Fits l startingDesc buffer)
    (hlt : descsNeeded l buffer < 2 ^ 31) {i : Nat} (hi : i < descsNeeded l buffer) :
    ∃ address, (allBytes (segments buffer.sgTable.sgl))[buffer.offset.toNat +
        i * l.descPageSize.toNat]? = some address ∧
      HoldsPage ((boundList vdmaHw l startingDesc buffer channelIndex lastDescInterrupts
          isDebug).descList ((startingDesc.toNat + i) % l.descCount.toNat)) address
        (min l.descPageSize.toNat (buffer.size.toNat - i * l.descPageSize.toNat))
        (if i + 1 = descsNeeded l buffer then
          getInterruptsBitmask vdmaHw lastDescInterrupts isDebug else 0) := by
  obtain ⟨hbase, hlen⟩ := @boundList_page vdmaHw l startingDesc buffer channelIndex
    lastDescInterrupts isDebug hhw hwf hP hdvd haddr haligned hsize hfits hlt i hi
  exact ⟨_, hbase, rfl, hlen, boundList_control hhw hwf hP hfits hlt hi⟩

end Transfer

/-- What the transfers of a batch are over: a table of whole pages, mapped below 4 GiB. -/
structure PageTable (l : HailoVdmaDescriptorsList) (sgTable : SgTable) : Prop where
  address : ∀ e ∈ sgTable.sgl, 64 ∣ e.dmaAddress.toNat
  aligned : AlignedButLast l.descPageSize.toNat (segments sgTable.sgl)
  total : totalLen (segments sgTable.sgl) + l.descPageSize.toNat < 2 ^ 32

section Batch
variable {vdmaHw : HailoVdmaHw} {sgTable : SgTable} {transferSize : UInt32} {channelIndex : UInt8}
  {lastDescInterrupts : HailoVdmaInterruptsDomain} {isDebug : Bool}

/-- The pattern of `rounds` transfers of `n` descriptors each, from `start` and `offset` on. -/
structure Pattern (vdmaHw : HailoVdmaHw) (sgTable : SgTable) (transferSize : UInt32)
    (lastDescInterrupts : HailoVdmaInterruptsDomain) (isDebug : Bool)
    (l l' : HailoVdmaDescriptorsList) (start offset rounds n : Nat) : Prop where
  holds : ∀ j < rounds, ∀ i < n, ∃ address,
    (allBytes (segments sgTable.sgl))[offset + (j * n + i) * l.descPageSize.toNat]? =
      some address ∧
    HoldsPage (l'.descList ((start + (j * n + i)) % l.descCount.toNat)) address
      (min l.descPageSize.toNat (transferSize.toNat - i * l.descPageSize.toNat))
      (if j + 1 = rounds ∧ i + 1 = n then
        getInterruptsBitmask vdmaHw lastDescInterrupts isDebug else 0)
  frame : ∀ x, (∀ k < rounds * n, (start + k) % l.descCount.toNat ≠ x) →
    l'.descList x = l.descList x

theorem Pattern.zero (l : HailoVdmaDescriptorsList) (start offset n : Nat) :
    Pattern vdmaHw sgTable transferSize lastDescInterrupts isDebug l l start offset 0 n where
  holds j hj := absurd hj (Nat.not_lt_zero j)
  frame _ _ := rfl

theorem getInterruptsBitmask_none (vdmaHw : HailoVdmaHw) (isDebug : Bool) :
    getInterruptsBitmask vdmaHw hailoVdmaInterruptsDomainNone isDebug = 0 := by
  simp [getInterruptsBitmask, hailoVdmaInterruptsDomainNone]

/-- One transfer in front of a pattern. -/
theorem Pattern.cons {l l₁ l' : HailoVdmaDescriptorsList} {start start' offset rounds n : Nat}
    (hfirst : Pattern vdmaHw sgTable transferSize
      (if rounds = 0 then lastDescInterrupts else hailoVdmaInterruptsDomainNone) isDebug l l₁ start
      offset 1 n)
    (hrest : Pattern vdmaHw sgTable transferSize lastDescInterrupts isDebug l₁ l' start'
      (offset + n * l.descPageSize.toNat) rounds n)
    (hshape : SameShape l l₁)
    (hstart : start' % l.descCount.toNat = (start + n) % l.descCount.toNat)
    (hroom : (rounds + 1) * n ≤ l.descCount.toNat) :
    Pattern vdmaHw sgTable transferSize lastDescInterrupts isDebug l l' start offset (rounds + 1)
      n := by
  obtain ⟨descs, rfl⟩ := hshape
  have hholds := hrest.holds
  have hframe := hrest.frame
  simp only [HailoVdmaDescriptorsList.withDescs_descCount,
    HailoVdmaDescriptorsList.withDescs_descPageSize] at hholds hframe
  have hplace (k : Nat) :
      (start' + k) % l.descCount.toNat = (start + (n + k)) % l.descCount.toNat := by
    rw [Nat.add_mod, hstart, ← Nat.add_mod, Nat.add_assoc]
  rw [Nat.succ_mul] at hroom
  constructor
  · intro j hj i hi
    cases j with
    | zero =>
      obtain ⟨address, haddress, hpage⟩ := hfirst.holds 0 (by omega) i hi
      refine ⟨address, haddress, ?_⟩
      have hkept : l'.descList ((start + (0 * n + i)) % l.descCount.toNat) =
          (l.withDescs descs).descList ((start + (0 * n + i)) % l.descCount.toNat) := by
        refine hframe _ fun k hk => ?_
        rw [hplace]
        exact ModularWindow.add_mod_ne (by omega) (by omega) (by omega)
      rw [hkept]
      by_cases hlast : rounds = 0
      · simpa only [hlast, if_true] using hpage
      · have hmore : ¬ (0 + 1 = rounds + 1 ∧ i + 1 = n) := by omega
        rw [if_neg hlast, getInterruptsBitmask_none, ite_self] at hpage
        rwa [if_neg hmore]
    | succ j =>
      obtain ⟨address, haddress, hpage⟩ := hholds j (by omega) i hi
      have hindex : offset + n * l.descPageSize.toNat + (j * n + i) * l.descPageSize.toNat =
          offset + ((j + 1) * n + i) * l.descPageSize.toNat := by ring
      have hnext : n + (j * n + i) = (j + 1) * n + i := by ring
      have hround : j + 1 + 1 = rounds + 1 ↔ j + 1 = rounds := by omega
      rw [hindex] at haddress
      rw [hplace, hnext] at hpage
      refine ⟨address, haddress, ?_⟩
      simpa only [hround] using hpage
  · intro x hx
    rw [hframe x, hfirst.frame x]
    · exact fun k hk => hx k (by rw [Nat.succ_mul]; omega)
    · intro k hk
      rw [hplace]
      exact hx _ (by rw [Nat.succ_mul]; omega)

/-- One transfer of the batch, which fits. -/
theorem transfer_pattern {l : HailoVdmaDescriptorsList} {startingDesc offset : UInt32}
    {irq : HailoVdmaInterruptsDomain} (hhw : PlainAddresses vdmaHw) (hwf : WellFormed l)
    (hcount : l.descCount.toNat ≤ 65536) (hP : 0 < l.descPageSize.toNat)
    (hdvd : 64 ∣ l.descPageSize.toNat) (htable : PageTable l sgTable)
    (hsize : 0 < transferSize.toNat) (hoffset : l.descPageSize.toNat ∣ offset.toNat)
    (hcov : offset.toNat + transferSize.toNat ≤ totalLen (segments sgTable.sgl))
    (hstart : startingDesc.toNat < l.descCount.toNat)
    (hroom : transferSize.toNat ⌈/⌉ l.descPageSize.toNat ≤
      if l.isCircular then l.descCount.toNat else l.descCount.toNat - startingDesc.toNat) :
    ∃ ret l', bindAndProgramDescriptorsList vdmaHw l startingDesc
        ⟨sgTable, transferSize, offset, 0⟩ channelIndex irq isDebug defaultStride =
        .ok (ret, l') ∧
      ret.toInt = (transferSize.toNat ⌈/⌉ l.descPageSize.toNat : Nat) ∧
      Pattern vdmaHw sgTable transferSize irq isDebug l l' startingDesc.toNat offset.toNat 1
        (transferSize.toNat ⌈/⌉ l.descPageSize.toNat) := by
  let buffer : HailoVdmaMappedTransferBuffer := ⟨sgTable, transferSize, offset, 0⟩
  have htotal := htable.total
  have hneeded : descsNeeded l buffer = transferSize.toNat ⌈/⌉ l.descPageSize.toNat := by
    refine descsNeeded_aligned hP hsize htable.aligned hoffset ?_
    rw [totalLen_boundSegments]
    exact Nat.min_eq_left (Nat.le_sub_of_add_le' hcov)
  have hfits : Fits l startingDesc buffer := ⟨hoffset, hstart, hcov, hneeded ▸ hroom⟩
  have hlt : descsNeeded l buffer < 2 ^ 31 := hfits.descsNeeded_le.trans_lt (by omega)
  have hfit : transferSize.toNat + l.descPageSize.toNat < 2 ^ 32 := by omega
  obtain ⟨ret, l', hbind, hret⟩ : ∃ n l', bindAndProgramDescriptorsList vdmaHw l startingDesc
      buffer channelIndex irq isDebug defaultStride = .ok (n, l') ∧ 0 ≤ n.toInt :=
    bind_of_fits hwf hP hsize hfit hlt hfits
  obtain ⟨-, -, hn, rfl⟩ := bind_nonneg hwf hsize hfit hret hbind
  refine ⟨ret, _, hbind, hneeded ▸ hn, ?_, ?_⟩
  · intro j hj i hi
    obtain rfl : j = 0 := by omega
    have hpage := @boundList_holdsPage vdmaHw l startingDesc buffer channelIndex irq isDebug hhw
      hwf hP hdvd htable.address htable.aligned hsize hfits hlt i (hneeded ▸ hi)
    rw [hneeded] at hpage
    simpa only [Nat.zero_mul, Nat.zero_add, true_and] using hpage
  · intro x hx
    rw [Nat.one_mul, ← hneeded] at hx
    exact boundList_frame hwf hP hfits hlt (descsNeeded_pos hP hsize hfits.totalLen_boundSegments)
      hx

theorem PageTable.withDescs {l : HailoVdmaDescriptorsList} (h : PageTable l sgTable)
    (descs : Nat → HailoVdmaDescriptor) : PageTable (l.withDescs descs) sgTable :=
  ⟨h.address, h.aligned, h.total⟩

theorem nextStartingDesc_ok {l : HailoVdmaDescriptorsList} {next : UInt32}
    (hcount : 0 < l.descCount.toNat) :
    ∃ startingDesc, nextStartingDesc l next = .ok startingDesc ∧
      startingDesc.toNat % l.descCount.toNat = next.toNat % l.descCount.toNat ∧
      (l.isCircular = true → startingDesc.toNat < l.descCount.toNat) ∧
      (l.isCircular = false → startingDesc = next) := by
  rw [nextStartingDesc]
  cases l.isCircular with
  | true =>
    refine ⟨_, umod_of_ne (toNat_pos_iff.mp hcount), ?_, fun _ => ?_, nofun⟩
    · rw [UInt32.toNat_mod, Nat.mod_mod]
    · rw [UInt32.toNat_mod]
      exact Nat.mod_lt _ hcount
  | false => exact ⟨next, rfl, rfl, nofun, fun _ => rfl⟩

/-- By induction on the transfers that are left, each one in front of the pattern of the rest. -/
theorem programBatch_pattern (hhw : PlainAddresses vdmaHw) (hsize : 0 < transferSize.toNat)
    {n rounds : Nat} {c : BatchCursor} (hwf : WellFormed c.descList)
    (hcount : c.descList.descCount.toNat ≤ 65536) (hcountPos : 0 < c.descList.descCount.toNat)
    (hP : 0 < c.descList.descPageSize.toNat) (hdvd : 64 ∣ c.descList.descPageSize.toNat)
    (htable : PageTable c.descList sgTable)
    (hn : n = transferSize.toNat ⌈/⌉ c.descList.descPageSize.toNat)
    (hoffset : 0 < rounds → c.descList.descPageSize.toNat ∣ c.offset.toNat)
    (hcov : 0 < rounds → c.offset.toNat + (rounds - 1) * n * c.descList.descPageSize.toNat +
      transferSize.toNat ≤ totalLen (segments sgTable.sgl))
    (hstart : 0 < rounds → c.startingDesc.toNat < c.descList.descCount.toNat)
    (hroom : rounds * n ≤ if c.descList.isCircular then c.descList.descCount.toNat
      else c.descList.descCount.toNat - c.startingDesc.toNat)
    (htotal : 0 ≤ c.totalDescProgrammed.toInt)
    (hsum : c.totalDescProgrammed.toInt + (rounds * n : Nat) ≤ 65536) :
    ∃ ret l', programBatch vdmaHw sgTable transferSize true channelIndex lastDescInterrupts isDebug
        defaultStride rounds c = .ok (ret, l') ∧
      ret.toInt = c.totalDescProgrammed.toInt + (rounds * n : Nat) ∧
      Pattern vdmaHw sgTable transferSize lastDescInterrupts isDebug c.descList l'
        c.startingDesc.toNat c.offset.toNat rounds n := by
  induction rounds generalizing c with
  | zero =>
    refine ⟨_, _, rfl, ?_, .zero _ _ _ _⟩
    rw [Nat.zero_mul]
    exact (Int.add_zero _).symm
  | succ rounds ih =>
    have hcov := hcov (Nat.succ_pos rounds)
    have hstart := hstart (Nat.succ_pos rounds)
    have hoffset := hoffset (Nat.succ_pos rounds)
    rw [Nat.add_sub_cancel] at hcov
    rw [Nat.succ_mul] at hroom hsum
    have hfirst : ∃ ret l', bindAndProgramDescriptorsList vdmaHw c.descList c.startingDesc
        ⟨sgTable, transferSize, c.offset, 0⟩ channelIndex
        (if rounds = 0 then lastDescInterrupts else hailoVdmaInterruptsDomainNone) isDebug
        defaultStride = .ok (ret, l') ∧ _ :=
      transfer_pattern hhw hwf hcount hP hdvd htable hsize hoffset (by omega) hstart
        (hn ▸ (Nat.le_add_left n (rounds * n)).trans hroom)
    obtain ⟨ret, l₁, hbind, hret, hpattern⟩ := hfirst
    rw [← hn] at hret hpattern
    have hshape := bindAndProgramDescriptorsList_sameShape hbind
    have hword : ret.toUInt32.toNat = n := by
      have hnat := toUInt32_toNat_of_nonneg (show 0 ≤ ret.toInt by omega)
      omega
    have hnpos : 0 < n := hn ▸ ceilDiv_pos hP hsize
    have hnext : (c.startingDesc + ret.toUInt32).toNat = c.startingDesc.toNat + n := by
      rw [toNat_add_of_lt (by omega), hword]
    have hnonneg : ¬ ret < 0 := by
      rw [Int32.lt_iff_toInt_lt, hret]
      exact not_lt.mpr (Int.natCast_nonneg n)
    obtain ⟨descs, rfl⟩ := hshape
    obtain ⟨startingDesc, hnextDesc, hmod, hringed, hplain⟩ :
        ∃ startingDesc, nextStartingDesc (c.descList.withDescs descs)
            (c.startingDesc + ret.toUInt32) = .ok startingDesc ∧
          startingDesc.toNat % c.descList.descCount.toNat = _ % c.descList.descCount.toNat ∧
          (c.descList.isCircular = true → startingDesc.toNat < c.descList.descCount.toNat) ∧
          (c.descList.isCircular = false → _) :=
      nextStartingDesc_ok hcountPos
    rw [hnext] at hmod
    have hpageWord : c.descList.descPageSize.toUInt32.toNat = c.descList.descPageSize.toNat := by
      simp
    have hnextOffset (hmore : 0 < rounds) :
        (c.offset + ret.toUInt32 * c.descList.descPageSize.toUInt32).toNat =
          c.offset.toNat + n * c.descList.descPageSize.toNat := by
      have htotal := htable.total
      have hle : n * c.descList.descPageSize.toNat ≤ rounds * n * c.descList.descPageSize.toNat :=
        Nat.mul_le_mul_right _ (Nat.le_mul_of_pos_left n hmore)
      rw [UInt32.toNat_add, UInt32.toNat_mul, hword, hpageWord, Nat.add_mod_mod]
      exact Nat.mod_eq_of_lt (by omega)
    have hsumInt : (c.totalDescProgrammed + ret).toInt = c.totalDescProgrammed.toInt + n := by
      rw [Int32.toInt_add, hret]
      exact Int.bmod_eq_of_le (by omega) (by omega)
    have hoffset' (hmore : 0 < rounds) : c.descList.descPageSize.toNat ∣
        (c.offset + ret.toUInt32 * c.descList.descPageSize.toUInt32).toNat := by
      rw [hnextOffset hmore]
      exact Nat.dvd_add hoffset (Nat.dvd_mul_left _ _)
    have hcov' (hmore : 0 < rounds) :
        (c.offset + ret.toUInt32 * c.descList.descPageSize.toUInt32).toNat +
        (rounds - 1) * n * c.descList.descPageSize.toNat + transferSize.toNat ≤
        totalLen (segments sgTable.sgl) := by
      obtain ⟨m, rfl⟩ := Nat.exists_eq_succ_of_ne_zero hmore.ne'
      have hsplit : (m + 1) * n * c.descList.descPageSize.toNat =
          m * n * c.descList.descPageSize.toNat + n * c.descList.descPageSize.toNat := by ring
      rw [hnextOffset hmore]
      simp only [Nat.succ_eq_add_one, Nat.add_sub_cancel] at hcov ⊢
      omega
    have hstart' (hmore : 0 < rounds) : startingDesc.toNat < c.descList.descCount.toNat := by
      have hle : n ≤ rounds * n := Nat.le_mul_of_pos_left n hmore
      cases hcirc : c.descList.isCircular with
      | true => exact hringed hcirc
      | false =>
        rw [hcirc, if_neg Bool.false_ne_true] at hroom
        rw [hplain hcirc, hnext]
        omega
    have hroom' : rounds * n ≤ if c.descList.isCircular then c.descList.descCount.toNat
        else c.descList.descCount.toNat - startingDesc.toNat := by
      cases hcirc : c.descList.isCircular with
      | true =>
        rw [hcirc, if_pos rfl] at hroom
        exact Nat.le_of_add_right_le hroom
      | false =>
        rw [hcirc, if_neg Bool.false_ne_true] at hroom
        rw [if_neg Bool.false_ne_true, hplain hcirc, hnext]
        omega
    have htotal' : 0 ≤ (c.totalDescProgrammed + ret).toInt := by omega
    have hsum' : (c.totalDescProgrammed + ret).toInt + (rounds * n : Nat) ≤ 65536 := by
      rw [hsumInt]
      push_cast at hsum ⊢
      omega
    obtain ⟨total, l', hrun, htotalDesc, hrest⟩ :=
      @ih ⟨_, startingDesc, _, c.descList.withDescs descs⟩ (hwf.withDescs descs) hcount hcountPos
        hP hdvd (htable.withDescs descs) hn hoffset' hcov' hstart' hroom' htotal' hsum'
    refine ⟨total, l', ?_, ?_, ?_⟩
    · rw [programBatch, hailoVdmaProgramDescriptorsList, if_pos rfl, hbind, ok_bind]
      simp only [if_neg hnonneg, hnextDesc, ok_bind]
      exact hrun
    · rw [htotalDesc, hsumInt, Nat.succ_mul]
      push_cast
      ring
    · have hrest' : Pattern vdmaHw sgTable transferSize lastDescInterrupts isDebug
          (c.descList.withDescs descs) l' startingDesc.toNat
          (c.offset.toNat + n * c.descList.descPageSize.toNat) rounds n := by
        rcases Nat.eq_zero_or_pos rounds with rfl | hmore
        · exact ⟨fun j hj => absurd hj (Nat.not_lt_zero j), hrest.frame⟩
        · exact hnextOffset hmore ▸ hrest
      refine hpattern.cons hrest' ⟨descs, rfl⟩ hmod ?_
      rw [Nat.succ_mul]
      refine hroom.trans ?_
      split_ifs
      · exact le_rfl
      · exact Nat.sub_le _ _

theorem dvd_of_pow_of_le {P : Nat} (hpow : ∃ k, P = 2 ^ k) (hle : 64 ≤ P) : 64 ∣ P := by
  obtain ⟨k, rfl⟩ := hpow
  have hk : 6 ≤ k := (Nat.pow_le_pow_iff_right (Nat.lt_succ_self 1)).mp hle
  exact pow_dvd_pow 2 hk

/-- A batch that fits in the list leaves one descriptor for each page of each transfer, in the
order of the buffer, and touches no other. -/
theorem hailoVdmaProgramDescriptorsListBatch_pattern {l : HailoVdmaDescriptorsList}
    {startingDesc bufferOffset batchSize : UInt32} {n : Nat} (hhw : PlainAddresses vdmaHw)
    (hwf : WellFormed l) (hcount : l.descCount.toNat ≤ 65536)
    (hpow : ∃ k, l.descPageSize.toNat = 2 ^ k) (hle : 64 ≤ l.descPageSize.toNat)
    (haddr : ∀ e ∈ sgTable.sgl, 64 ∣ e.dmaAddress.toNat)
    (haligned : AlignedButLast l.descPageSize.toNat (segments sgTable.sgl))
    (htotal : totalLen (segments sgTable.sgl) + l.descPageSize.toNat < 2 ^ 32)
    (hoffset : l.descPageSize.toNat ∣ bufferOffset.toNat) (hsize : 0 < transferSize.toNat)
    (hn : n = transferSize.toNat ⌈/⌉ l.descPageSize.toNat)
    (hfits : batchSize.toNat * n ≤ l.descCount.toNat)
    (hstart : startingDesc.toNat < l.descCount.toNat)
    (hplain : l.isCircular = false →
      startingDesc.toNat + batchSize.toNat * n ≤ l.descCount.toNat)
    (hcov : bufferOffset.toNat + (batchSize.toNat - 1) * n * l.descPageSize.toNat +
      transferSize.toNat ≤ totalLen (segments sgTable.sgl)) :
    ∃ ret l', hailoVdmaProgramDescriptorsListBatch vdmaHw sgTable transferSize true channelIndex
        lastDescInterrupts isDebug defaultStride l startingDesc bufferOffset batchSize =
        .ok (ret, l') ∧
      ret.toInt = (batchSize.toNat * n : Nat) ∧
      (∀ j < batchSize.toNat, ∀ i < n, ∃ address,
        (allBytes (segments sgTable.sgl))[bufferOffset.toNat +
          (j * n + i) * l.descPageSize.toNat]? = some address ∧
        HoldsPage (l'.descList ((startingDesc.toNat + (j * n + i)) % l.descCount.toNat)) address
          (min l.descPageSize.toNat (transferSize.toNat - i * l.descPageSize.toNat))
          (if j + 1 = batchSize.toNat ∧ i + 1 = n then
            getInterruptsBitmask vdmaHw lastDescInterrupts isDebug else 0)) ∧
      ∀ x, (∀ k < batchSize.toNat * n, (startingDesc.toNat + k) % l.descCount.toNat ≠ x) →
        l'.descList x = l.descList x := by
  have hroom : batchSize.toNat * n ≤ if l.isCircular then l.descCount.toNat
      else l.descCount.toNat - startingDesc.toNat := by
    cases hcirc : l.isCircular with
    | true => exact hfits
    | false => exact Nat.le_sub_of_add_le' (hplain hcirc)
  have hsum : (0 : Int32).toInt + (batchSize.toNat * n : Nat) ≤ 65536 := by
    have hzero : (0 : Int32).toInt = 0 := rfl
    omega
  have hrun := @programBatch_pattern vdmaHw sgTable transferSize channelIndex lastDescInterrupts
    isDebug hhw hsize n batchSize.toNat ⟨bufferOffset, startingDesc, 0, l⟩ hwf hcount
    (Nat.zero_lt_of_lt hstart) (Nat.lt_of_lt_of_le (Nat.zero_lt_succ 63) hle)
    (dvd_of_pow_of_le hpow hle) ⟨haddr, haligned, htotal⟩ hn (fun _ => hoffset) (fun _ => hcov)
    (fun _ => hstart) hroom (Int.le_refl 0) hsum
  obtain ⟨ret, l', hrun, hret, hholds, hframe⟩ := hrun
  refine ⟨ret, l', hrun, ?_, hholds, hframe⟩
  rw [hret]
  exact Int.zero_add _

/-- Two transfers of 100 bytes, over a list of four descriptors from the last one on. -/
theorem hailoVdmaProgramDescriptorsListBatch_pattern_ringOfFour :
    ∃ ret l', hailoVdmaProgramDescriptorsListBatch hailoPcieVdmaHw splitBuffer.sgTable 100 true 0
        hailoVdmaInterruptsDomainHost false defaultStride ringOfFour 3 0 2 = .ok (ret, l') ∧
      ret.toInt = 4 ∧ HoldsPage (l'.descList 3) 0x1000 64 0 ∧
      HoldsPage (l'.descList 0) 0x1040 36 0 ∧
      HoldsPage (l'.descList 1) 0x2000 64 0 ∧ HoldsPage (l'.descList 2) 0x2040 36
        (getInterruptsBitmask hailoPcieVdmaHw hailoVdmaInterruptsDomainHost false) := by
  obtain ⟨ret, l', hrun, hret, hholds, -⟩ :=
    @hailoVdmaProgramDescriptorsListBatch_pattern hailoPcieVdmaHw splitBuffer.sgTable 100 0
      hailoVdmaInterruptsDomainHost false ringOfFour 3 0 2 2 hailoPcieVdmaHw_plainAddresses
      ringOfFour_wellFormed (by decide) ⟨6, rfl⟩ (by decide) (by decide) splitBuffer_aligned
      (by decide) (by decide) (by decide) rfl (by decide) (by decide) nofun (by decide)
  have hpage {j i : Nat} (hj : j < 2) (hi : i < 2) {address : UInt64}
      (ha : (allBytes (segments splitBuffer.sgTable.sgl))[(j * 2 + i) * 64]? = some address) :
      HoldsPage (l'.descList ((3 + (j * 2 + i)) % 4)) address (min 64 (100 - i * 64))
        (if j + 1 = 2 ∧ i + 1 = 2 then
          getInterruptsBitmask hailoPcieVdmaHw hailoVdmaInterruptsDomainHost false else 0) := by
    obtain ⟨address', ha', hpage⟩ := hholds j hj i hi
    rw [show (0 : UInt32).toNat = 0 from rfl, Nat.zero_add] at ha'
    cases ha'.symm.trans ha
    exact hpage
  exact ⟨ret, l', hrun, hret, hpage (j := 0) (i := 0) (by decide) (by decide) (by decide),
    hpage (j := 0) (i := 1) (by decide) (by decide) (by decide),
    hpage (j := 1) (i := 0) (by decide) (by decide) (by decide),
    hpage (j := 1) (i := 1) (by decide) (by decide) (by decide)⟩

end Batch

end HailortDrivers.BatchPattern
