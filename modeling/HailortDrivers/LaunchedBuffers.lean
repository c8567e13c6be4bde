import HailortDrivers.FastPathAgreement
import HailortDrivers.LaunchSteps

/-! The loop of a launch over its buffers: how far the cursor moves, which
descriptors it may write, and which it may leave with another word than the
default, whether the buffers are bound or only have their last descriptor
rewritten. -/
namespace HailortDrivers.LaunchedBuffers
open KernelExec MachineWord VdmaTypes DescriptorProgramming SegmentSlicing
open DescriptorsListCreation ProgrammedPages BoundBuffers BufferPages DescriptorWords
open FastPathAgreement ChannelTransfers LaunchSteps

/-- Every descriptor of `l'` is the one of `l` or outside the window. -/
structure Programmed (l l' : HailoVdmaDescriptorsList) (startingDesc : UInt32) (count : Nat) :
    Prop where
  pos : 0 < count
  sameShape : ∃ descs, l' = l.withDescs descs
  frame : ∀ x, (∀ j < count, (startingDesc.toNat + j) % l.descCount.toNat ≠ x) →
    l'.descList x = l.descList x

/-- Descriptors other than the last keep their control word or get the default one. -/
def DefaultButLast (l l' : HailoVdmaDescriptorsList) (startingDesc : UInt32) (count : Nat) : Prop :=
  ∀ x ≠ lastIndex l startingDesc count,
    (l'.descList x).pageSizeDescControl = (l.descList x).pageSizeDescControl ∨
      (l'.descList x).pageSizeDescControl = defaultPageSizeDescControl l.descPageSize

section
variable {vdmaHw : HailoVdmaHw} {l l' : HailoVdmaDescriptorsList} {startingDesc : UInt32}
  {buffer : HailoVdmaMappedTransferBuffer} {channelIndex : UInt8} {shouldBind : Bool}
  {lastDescInterrupts : HailoVdmaInterruptsDomain} {isDebug : Bool} {n : Int32}

theorem programLastDesc_nonneg (hsize : 0 < buffer.size.toNat)
    (hfit : buffer.size.toNat + l.descPageSize.toNat < 2 ^ 32)
    (hstart : startingDesc.toNat < 2 ^ 31) (hn : 0 ≤ n.toInt)
    (h : programLastDesc vdmaHw l startingDesc buffer lastDescInterrupts isDebug = .ok (n, l')) :
    ∃ (count : Nat) (desc : HailoVdmaDescriptor), 0 < count ∧ n.toInt = count ∧
      0 < l.descCount.toNat ∧
      l' = l.store (UInt32.ofNat (lastIndex l startingDesc count)) desc := by
  have hpage : l.descPageSize.toUInt32.toNat = l.descPageSize.toNat := by simp
  have hprogram := h
  obtain ⟨totalDescs, htotal, h⟩ := bind_ok h
  obtain ⟨lastDesc, hlast, h⟩ := bind_ok h
  obtain ⟨hP, rfl⟩ := divRoundUp_ok htotal
  have hP := hpage ▸ toNat_pos_iff.mpr hP
  have hcount := toNat_pos_iff.mpr (umod_ok hlast).1
  cases h
  have htotalNat : ((buffer.size + l.descPageSize.toUInt32 - 1) / l.descPageSize.toUInt32).toNat =
      buffer.size.toNat ⌈/⌉ l.descPageSize.toNat := by
    rw [toNat_ceilDiv (hpage ▸ hP) (by omega), hpage, ← Nat.ceilDiv_eq_add_pred_div]
  have hlt := toInt32_nonneg_iff.mp hn
  rw [htotalNat] at hlt
  rw [programLastDesc_eq hP hcount hsize hfit (by omega)] at hprogram
  refine ⟨_, _, ceilDiv_pos hP hsize, ?_, hcount, (congrArg Prod.snd (Except.ok.inj hprogram)).symm⟩
  rw [toInt_toInt32_of_lt (htotalNat ▸ hlt), htotalNat]

theorem store_programmed {count : Nat} (hpos : 0 < count) (hcount : 0 < l.descCount.toNat)
    (desc : HailoVdmaDescriptor) :
    Programmed l (l.store (UInt32.ofNat (lastIndex l startingDesc count)) desc) startingDesc
      count where
  pos := hpos
  sameShape := ⟨_, rfl⟩
  frame x hx := by
    have hlast := hx (count - 1) (by omega)
    rw [← Nat.add_sub_assoc (by omega)] at hlast
    rw [HailoVdmaDescriptorsList.store, toNat_ofNat_lastIndex hcount]
    exact Function.update_of_ne (Ne.symm hlast) _ _

/-- What programming one buffer without an error does. -/
theorem hailoVdmaProgramDescriptorsList_programmed (hwf : WellFormed l)
    (hsize : 0 < buffer.size.toNat) (hfit : buffer.size.toNat + l.descPageSize.toNat < 2 ^ 32)
    (hstart : startingDesc.toNat < 2 ^ 31) (hn : 0 ≤ n.toInt)
    (h : hailoVdmaProgramDescriptorsList vdmaHw l startingDesc buffer shouldBind channelIndex
      lastDescInterrupts isDebug defaultStride = .ok (n, l')) :
    Programmed l l' startingDesc n.toInt.toNat := by
  cases shouldBind with
  | true =>
    obtain ⟨hP, hfits, hret, rfl⟩ := bind_nonneg hwf hsize hfit hn h
    have hpos := descsNeeded_pos hP hsize hfits.totalLen_boundSegments
    have hlt := n.toInt_lt
    rw [hret, Int.toNat_natCast]
    exact ⟨hpos, ⟨_, rfl⟩, fun x hx => boundList_frame hwf hP hfits (by omega) hpos hx⟩
  | false =>
    obtain ⟨count, desc, hpos, hret, hcount, rfl⟩ :=
      programLastDesc_nonneg hsize hfit hstart hn h
    rw [hret, Int.toNat_natCast]
    exact store_programmed hpos hcount desc

theorem boundList_defaultButLast (hwf : WellFormed l) (hP : 0 < l.descPageSize.toNat)
    (hsize : 0 < buffer.size.toNat) (hfits : Fits l startingDesc buffer)
    (haligned : AlignedButLast l.descPageSize.toNat (segments buffer.sgTable.sgl))
    (hlt : descsNeeded l buffer < 2 ^ 31) :
    DefaultButLast l (boundList vdmaHw l startingDesc buffer channelIndex lastDescInterrupts
      isDebug) startingDesc (descsNeeded l buffer) := by
  intro x hx
  obtain ⟨init, last, hpages, hinit, -, -⟩ := boundPages_eq_concat hP hsize haligned
    hfits.offset_dvd hfits.totalLen_boundSegments vdmaHw channelIndex
  have hlen : (boundPages vdmaHw l channelIndex buffer).length = descsNeeded l buffer :=
    length_boundPages hP vdmaHw channelIndex
  rw [hpages, List.length_append, List.length_singleton] at hlen
  have hcount : 0 < l.descCount.toNat := toNat_pos_iff.mpr hfits.descCount_ne
  have hindices := hfits.indicesAt hwf hlt init.length (by omega)
  have hindex :
      startingDesc.toNat + init.length = startingDesc.toNat + descsNeeded l buffer - 1 := by
    omega
  have hlast : x ≠ ((startingDesc + UInt32.ofNat init.length) &&& l.descCountMask).toNat := by
    rw [hindices, hindex]
    exact hx
  have hwritten : (boundList vdmaHw l startingDesc buffer channelIndex lastDescInterrupts
      isDebug).descList x =
      writePages l.descCountMask vdmaHw.ddrDataId startingDesc init l.descList x := by
    rw [boundList, orPageSizeDescControl]
    simp only [HailoVdmaDescriptorsList.store, HailoVdmaDescriptorsList.withDescs_descList]
    rw [← lastIndex, toNat_ofNat_lastIndex hcount, Function.update_of_ne hx, hpages,
      writePages_append, writePages, writePages, Function.update_of_ne hlast]
  rw [hwritten]
  exact writePages_of_forall (Q := fun d => d.pageSizeDescControl =
      (l.descList x).pageSizeDescControl ∨
      d.pageSizeDescControl = defaultPageSizeDescControl l.descPageSize)
    (fun p hp => Or.inr (pageDescriptor_default _ (hinit p hp))) (Or.inl rfl)

theorem hailoVdmaProgramDescriptorsList_defaultButLast (hwf : WellFormed l)
    (hsize : 0 < buffer.size.toNat) (hfit : buffer.size.toNat + l.descPageSize.toNat < 2 ^ 32)
    (haligned : AlignedButLast l.descPageSize.toNat (segments buffer.sgTable.sgl))
    (hstart : startingDesc.toNat < 2 ^ 31) (hn : 0 ≤ n.toInt)
    (h : hailoVdmaProgramDescriptorsList vdmaHw l startingDesc buffer shouldBind channelIndex
      lastDescInterrupts isDebug defaultStride = .ok (n, l')) :
    DefaultButLast l l' startingDesc n.toInt.toNat := by
  cases shouldBind with
  | true =>
    obtain ⟨hP, hfits, hret, rfl⟩ := bind_nonneg hwf hsize hfit hn h
    have hlt := n.toInt_lt
    rw [hret, Int.toNat_natCast]
    exact boundList_defaultButLast hwf hP hsize hfits haligned (by omega)
  | false =>
    obtain ⟨count, desc, hpos, hret, hcount, rfl⟩ :=
      programLastDesc_nonneg hsize hfit hstart hn h
    rw [hret, Int.toNat_natCast]
    intro x hx
    left
    rw [HailoVdmaDescriptorsList.store, toNat_ofNat_lastIndex hcount]
    exact congrArg _ (Function.update_of_ne hx _ _)

/-- How many descriptors the rounds of a launch use together. -/
def launchedCount (rets : List Int32) : Nat := (rets.map fun ret => ret.toInt.toNat).sum

/-- A buffer of a size that rounding up to pages cannot wrap. -/
structure Launchable (descPageSize : UInt16) (buffer : HailoVdmaMappedTransferBuffer) : Prop where
  pos : 0 < buffer.size.toNat
  fits : buffer.size.toNat + descPageSize.toNat < 2 ^ 32

section Rounds
variable {buffers : List HailoVdmaMappedTransferBuffer} {c c' : LaunchCursor} {rets : List Int32}

theorem nextCursor_startingDesc {ret : Int32} (hret : 0 ≤ ret.toInt)
    (hstart : c.startingDesc.toNat < 2 ^ 31) :
    (nextCursor c ret l).startingDesc.toNat =
      (c.startingDesc.toNat + ret.toInt.toNat) % l.descCount.toNat := by
  have hnat := toUInt32_toNat_of_nonneg hret
  have hlt := ret.toInt_lt
  rw [nextCursor, UInt32.toNat_mod, toNat_add_of_lt (by omega)]
  congr 2
  omega

theorem nextCursor_startingDesc_lt {ret : Int32} (hcount : l.descCount ≠ 0) :
    (nextCursor c ret l).startingDesc.toNat < l.descCount.toNat := by
  rw [nextCursor, UInt32.toNat_mod]
  exact Nat.mod_lt _ (toNat_pos_iff.mpr hcount)

theorem nextCursor_lastDesc {ret : Int32} (hret : 0 < ret.toInt.toNat)
    (hstart : c.startingDesc.toNat < 2 ^ 31) :
    (nextCursor c ret l).lastDesc.toNat = lastIndex l c.startingDesc ret.toInt.toNat := by
  have hnat := toUInt32_toNat_of_nonneg (show 0 ≤ ret.toInt by omega)
  have hlt := ret.toInt_lt
  rw [nextCursor, UInt32.toNat_mod, toNat_add_sub_one (by omega) (by omega), lastIndex]
  congr 2
  omega

/-- What the loop of a launch has done once `count` descriptors were used. -/
structure Advanced (c c' : LaunchCursor) (count : Nat) : Prop where
  sameShape : ∃ descs, c'.descList = c.descList.withDescs descs
  frame : ∀ x, (∀ j < count, (c.startingDesc.toNat + j) % c.descList.descCount.toNat ≠ x) →
    c'.descList.descList x = c.descList.descList x
  startingDesc : c'.startingDesc.toNat =
    (c.startingDesc.toNat + count) % c.descList.descCount.toNat
  lastDesc : 0 < count → c'.lastDesc.toNat =
    (c.startingDesc.toNat + count - 1) % c.descList.descCount.toNat

theorem Advanced.cons {ret : Int32} {descList : HailoVdmaDescriptorsList} {count : Nat}
    (hstart : c.startingDesc.toNat < 2 ^ 31) (hret : 0 ≤ ret.toInt)
    (hprogram : Programmed c.descList descList c.startingDesc ret.toInt.toNat)
    (hrest : Advanced (nextCursor c ret descList) c' count)
    (hlast : count = 0 → c' = nextCursor c ret descList) :
    Advanced c c' (ret.toInt.toNat + count) := by
  obtain ⟨descs, rfl⟩ := hprogram.sameShape
  obtain ⟨descs', hshape⟩ := hrest.sameShape
  have hpos := hprogram.pos
  have hnext := nextCursor_startingDesc (l := c.descList.withDescs descs) hret hstart
  have hframe := hrest.frame
  have hstarting := hrest.startingDesc
  rw [hnext] at hframe hstarting
  simp only [nextCursor, HailoVdmaDescriptorsList.withDescs_descCount, Nat.mod_add_mod]
    at hframe hstarting
  refine ⟨⟨descs', hshape⟩, ?_, ?_, ?_⟩
  · intro x hx
    rw [hframe x, hprogram.frame x]
    · intro j hj
      exact hx j (by omega)
    · intro j hj
      rw [Nat.add_assoc]
      exact hx _ (by omega)
  · rw [hstarting, Nat.add_assoc]
  · intro _
    rcases Nat.eq_zero_or_pos count with hzero | hcount
    · rw [hlast hzero, nextCursor_lastDesc hpos hstart, hzero]
      rfl
    · have hlastDesc := hrest.lastDesc hcount
      rw [hnext, Nat.add_sub_assoc (by omega)] at hlastDesc
      simp only [nextCursor, HailoVdmaDescriptorsList.withDescs_descCount, Nat.mod_add_mod]
        at hlastDesc
      rw [hlastDesc, Nat.add_assoc, ← Nat.add_sub_assoc (by omega),
        ← Nat.add_sub_assoc (by omega)]

theorem Advanced.refl (hstart : c.startingDesc.toNat < c.descList.descCount.toNat) :
    Advanced c c 0 where
  sameShape := ⟨c.descList.descList, rfl⟩
  frame _ _ := rfl
  startingDesc := (Nat.mod_eq_of_lt hstart).symm
  lastDesc h := absurd h (Nat.lt_irrefl 0)

/-- A run of the loop without an error moves on by what programming returned. -/
theorem Rounds.advanced
    (h : Rounds vdmaHw shouldBind channelIndex lastDescInterrupts isDebug buffers c rets c')
    (hwf : WellFormed c.descList)
    (hstart : c.startingDesc.toNat < c.descList.descCount.toNat)
    (hbuffers : ∀ buffer ∈ buffers, Launchable c.descList.descPageSize buffer)
    (hok : ∀ ret ∈ rets, 0 ≤ ret.toInt) :
    Advanced c c' (launchedCount rets) ∧ (buffers ≠ [] → 0 < launchedCount rets) := by
  induction h with
  | nil c => exact ⟨Advanced.refl hstart, fun hne => absurd rfl hne⟩
  | @cons buffer buffers c c' ret rets descList hprogram hcount hrest ih =>
    have hmax : c.descList.descCount.toNat ≤ 2 ^ 31 := UInt32.le_iff_toNat_le.mp hwf.count_le
    have hret := hok ret List.mem_cons_self
    have hbuffer := hbuffers buffer List.mem_cons_self
    have hprogrammed := hailoVdmaProgramDescriptorsList_programmed hwf hbuffer.pos hbuffer.fits
      (by omega) hret hprogram
    obtain ⟨descs, rfl⟩ := hprogrammed.sameShape
    obtain ⟨hadvanced, hpos⟩ := ih (hwf.withDescs descs) (nextCursor_startingDesc_lt hcount)
      (fun b hb => hbuffers b (List.mem_cons_of_mem buffer hb))
      (fun r hr => hok r (List.mem_cons_of_mem ret hr))
    have hsum : launchedCount (ret :: rets) = ret.toInt.toNat + launchedCount rets := by
      rw [launchedCount, List.map_cons, List.sum_cons, launchedCount]
    have hpos' := hprogrammed.pos
    rw [hsum]
    refine ⟨hadvanced.cons (by omega) hret hprogrammed ?_, fun _ => by omega⟩
    intro hzero
    cases hrest with
    | nil => rfl
    | cons _ _ _ =>
      have := hpos (List.cons_ne_nil _ _)
      omega

/-- Descriptors that do not hold the default word are listed or in `D`. -/
def DirtyListed (D : Nat → Prop) (dirtyDescs : List UInt16) (l : HailoVdmaDescriptorsList) : Prop :=
  ∀ x, (l.descList x).pageSizeDescControl ≠ defaultPageSizeDescControl l.descPageSize →
    D x ∨ ∃ desc ∈ dirtyDescs, desc.toNat = x

theorem DirtyListed.cons {D : Nat → Prop} {ret : Int32} {descList : HailoVdmaDescriptorsList}
    (h : DirtyListed D c.dirtyDescs c.descList) (hcount : c.descList.descCount.toNat ≤ 65536)
    (hstart : c.startingDesc.toNat < c.descList.descCount.toNat)
    (hprogrammed : Programmed c.descList descList c.startingDesc ret.toInt.toNat)
    (hdefault : DefaultButLast c.descList descList c.startingDesc ret.toInt.toNat) :
    DirtyListed D (nextCursor c ret descList).dirtyDescs descList := by
  obtain ⟨descs, rfl⟩ := hprogrammed.sameShape
  intro x hx
  have hlast := nextCursor_lastDesc (c := c) (l := c.descList.withDescs descs) hprogrammed.pos
    (by omega)
  by_cases hxlast : x = lastIndex c.descList c.startingDesc ret.toInt.toNat
  · have hlt : lastIndex c.descList c.startingDesc ret.toInt.toNat < 65536 :=
      (lastIndex_lt (by omega)).trans_le hcount
    refine Or.inr ⟨(nextCursor c ret (c.descList.withDescs descs)).lastDesc.toUInt16, ?_, ?_⟩
    · exact List.mem_append_right _ (List.mem_singleton_self _)
    · rw [UInt32.toNat_toUInt16, hlast, hxlast]
      exact Nat.mod_eq_of_lt hlt
  · rcases hdefault x hxlast with hsame | hdef
    · rw [hsame] at hx
      rcases h x hx with hD | ⟨desc, hmem, hdesc⟩
      · exact Or.inl hD
      · exact Or.inr ⟨desc, List.mem_append_left _ hmem, hdesc⟩
    · exact absurd hdef hx

theorem Rounds.dirtyListed {D : Nat → Prop}
    (h : Rounds vdmaHw shouldBind channelIndex lastDescInterrupts isDebug buffers c rets c')
    (hwf : WellFormed c.descList) (hcount : c.descList.descCount.toNat ≤ 65536)
    (hstart : c.startingDesc.toNat < c.descList.descCount.toNat)
    (hbuffers : ∀ buffer ∈ buffers, Launchable c.descList.descPageSize buffer)
    (haligned : ∀ buffer ∈ buffers,
      AlignedButLast c.descList.descPageSize.toNat (segments buffer.sgTable.sgl))
    (hok : ∀ ret ∈ rets, 0 ≤ ret.toInt) (hdirty : DirtyListed D c.dirtyDescs c.descList) :
    DirtyListed D c'.dirtyDescs c'.descList := by
  induction h with
  | nil c => exact hdirty
  | @cons buffer buffers c c' ret rets descList hprogram hne hrest ih =>
    have hret := hok ret List.mem_cons_self
    have hbuffer := hbuffers buffer List.mem_cons_self
    have hprogrammed := hailoVdmaProgramDescriptorsList_programmed hwf hbuffer.pos hbuffer.fits
      (by omega) hret hprogram
    have hdefault := hailoVdmaProgramDescriptorsList_defaultButLast hwf hbuffer.pos hbuffer.fits
      (haligned buffer List.mem_cons_self) (by omega) hret hprogram
    have hnextDirty := hdirty.cons hcount hstart hprogrammed hdefault
    obtain ⟨descs, rfl⟩ := hprogrammed.sameShape
    exact ih (hwf.withDescs descs) hcount (nextCursor_startingDesc_lt hne)
      (fun b hb => hbuffers b (List.mem_cons_of_mem buffer hb))
      (fun b hb => haligned b (List.mem_cons_of_mem buffer hb))
      (fun r hr => hok r (List.mem_cons_of_mem ret hr)) hnextDirty

end Rounds

end

end HailortDrivers.LaunchedBuffers
