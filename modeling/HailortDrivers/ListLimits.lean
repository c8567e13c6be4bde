import HailortDrivers.LaunchedBuffers

/-!
The limits of a descriptors list. Binding checks them; rewriting only the last descriptor does
not, and neither does a launch for its first descriptor. Memory past the end of the list is
taken to hold what no programmed descriptor holds, so that a write there shows.
-/
namespace HailortDrivers.ListLimits
open KernelExec MachineWord VdmaTypes DescriptorProgramming SegmentSlicing
open DescriptorsListCreation ProgrammedPages BoundBuffers
open ChannelTransfers LaunchSteps LaunchedBuffers

/-- The descriptors of the buffer have no place in the list from `startingDesc` on. -/
def OverLimit (l : HailoVdmaDescriptorsList) (startingDesc : UInt32)
    (buffer : HailoVdmaMappedTransferBuffer) : Prop :=
  l.descCount.toNat ≤ startingDesc.toNat ∨
    (if l.isCircular then l.descCount.toNat else l.descCount.toNat - startingDesc.toNat) <
      buffer.size.toNat ⌈/⌉ l.descPageSize.toNat

section NoBind
variable {vdmaHw : HailoVdmaHw} {l : HailoVdmaDescriptorsList} {startingDesc : UInt32}
  {buffer : HailoVdmaMappedTransferBuffer} {channelIndex : UInt8}
  {lastDescInterrupts : HailoVdmaInterruptsDomain} {isDebug : Bool} {stride : UInt32}

/-- Binding fails where the descriptors have no place. -/
theorem bind_overLimit_neg (hwf : WellFormed l)
    (hfit : buffer.size.toNat + l.descPageSize.toNat < 2 ^ 32) {n : Int32}
    {l' : HailoVdmaDescriptorsList} (hover : OverLimit l startingDesc buffer)
    (h : bindAndProgramDescriptorsList vdmaHw l startingDesc buffer channelIndex
      lastDescInterrupts isDebug defaultStride = .ok (n, l')) : n.toInt < 0 := by
  by_contra hn
  have hP : 0 < l.descPageSize.toNat := by
    obtain ⟨residue, hresidue, -⟩ := bind_ok h
    simpa using toNat_pos_iff.mpr (umod_ok hresidue).1
  by_cases hstart : l.descCount.toNat ≤ startingDesc.toNat
  · rw [bind_defaultStride hP, if_neg fun hok => Nat.not_lt.mpr hstart hok.2] at h
    cases h
    exact hn (by decide)
  · have hroom := hover.resolve_left hstart
    by_cases hsize : buffer.size.toNat = 0
    · rw [hsize, zero_ceilDiv] at hroom
      exact absurd hroom (Nat.not_lt_zero _)
    · obtain ⟨-, hfits, -, -⟩ := bind_nonneg hwf (by omega) hfit (not_lt.mp hn) h
      have hneeded : buffer.size.toNat ⌈/⌉ l.descPageSize.toNat ≤ descsNeeded l buffer := by
        rw [← hfits.totalLen_boundSegments, ceilDiv_le_iff_le_mul hP]
        exact totalLen_le_mul_pageCount hP _
      have := hfits.room
      omega

end NoBind

/-- Past the end of the list nothing is changed. -/
def Inside (l l' : HailoVdmaDescriptorsList) : Prop :=
  ∀ x, l.descCount.toNat ≤ x → l'.descList x = l.descList x

/-- What programming does past the end of the list: nothing, or it reaches the first place
there. Other places are unchanged or programmed as well. -/
structure Effect (l l' : HailoVdmaDescriptorsList) (escapes : Prop) : Prop where
  inside : ¬ escapes → Inside l l'
  overrun : escapes → (l'.descList l.descCount.toNat).remainingPageSizeStatus = 0
  marked : ∀ x, l.descCount.toNat ≤ x →
    l'.descList x = l.descList x ∨ (l'.descList x).remainingPageSizeStatus = 0

theorem Effect.congr {l l' : HailoVdmaDescriptorsList} {p q : Prop} (h : Effect l l' p)
    (hiff : p ↔ q) : Effect l l' q :=
  ⟨fun hnot => h.inside (mt hiff.mp hnot), fun hq => h.overrun (hiff.mpr hq), h.marked⟩

theorem Effect.trans {l l' l'' : HailoVdmaDescriptorsList} {p q : Prop} (h : Effect l l' p)
    (h' : Effect l' l'' q) (hcount : l'.descCount = l.descCount) : Effect l l'' (p ∨ q) where
  inside hnot x hx := by
    rw [h'.inside (fun hq => hnot (Or.inr hq)) x (hcount ▸ hx),
      h.inside (fun hp => hnot (Or.inl hp)) x hx]
  overrun hor := by
    rcases hor with hp | hq
    · rcases h'.marked l.descCount.toNat (Nat.le_of_eq (congrArg _ hcount)) with hsame | hzero
      · rw [hsame]
        exact h.overrun hp
      · exact hzero
    · rw [← hcount]
      exact h'.overrun hq
  marked x hx := by
    rcases h'.marked x (hcount ▸ hx) with hsame | hzero
    · rw [hsame]
      exact h.marked x hx
    · exact Or.inr hzero

section Chunk
variable {l l' : HailoVdmaDescriptorsList} {chunkSize descIndex maxDescIndex stride : UInt32}
  {chunkAddr maskedChannelId : UInt64} {dataId : UInt8} {ret : Int32}

end Chunk

section Walk
variable {bufferOffset maxDescIndex pageSize stride : UInt32} {dataId : UInt8}
  {maskedChannelId : UInt64} {es : List ScatterEntry} {c : BindCursor} {exit : BindExit}

theorem Inside.trans {l l' l'' : HailoVdmaDescriptorsList} (h : Inside l l') (h' : Inside l' l'')
    (hcount : l'.descCount = l.descCount) : Inside l l'' := fun x hx => by
  rw [h' x (hcount ▸ hx), h x hx]

end Walk

section Bind
variable {vdmaHw : HailoVdmaHw} {l l' : HailoVdmaDescriptorsList} {startingDesc : UInt32}
  {buffer : HailoVdmaMappedTransferBuffer} {channelIndex : UInt8} {shouldBind : Bool}
  {lastDescInterrupts : HailoVdmaInterruptsDomain} {isDebug : Bool} {n : Int32}

end Bind

section Launch
variable {vdmaHw : HailoVdmaHw} {channel channel' : HailoVdmaChannel} {descListAddress : Nat}
  {l l' : HailoVdmaDescriptorsList} {regs regs' : ChannelRegs} {startingDesc : UInt32}
  {buffers : List HailoVdmaMappedTransferBuffer} {shouldBind : Bool} {channelIndex : UInt8}
  {firstInterruptsDomain lastDescInterrupts : HailoVdmaInterruptsDomain} {isDebug : Bool}
  {r : Int32} {rets : List Int32}

end Launch

end HailortDrivers.ListLimits
