import HailortDrivers.CircularBuffer
import HailortDrivers.EngineSteps

/-!
The ring of interrupt timestamps of a channel: the interrupt handler pushes at the head, a
read pops at the tail, each in one step.
-/
namespace HailortDrivers.TimestampRing
open KernelExec VdmaTypes ChannelTransfers CircularBuffer

def channelNumProcOffset : Nat := 0x4
def channelIrqTimestampsSizeMask : Nat := channelIrqTimestampsSize - 1

def hailoVdmaGetNumProc (regs : ChannelRegs) : UInt16 :=
  UInt16.ofNat
    (readBitsAtOffset (wordSize * bitsInByte) 0 (regs.hostRegs channelNumProcOffset).toNat)

/-- `CIRC_CNT`, on the two `int` of the list -/
def timestampsCircCnt (list : HailoChannelInterruptTimestampList) : Int :=
  ((list.head : Int) - list.tail) % channelIrqTimestampsSize

/-- `CIRC_SPACE` -/
def timestampsCircSpace (list : HailoChannelInterruptTimestampList) : Int :=
  ((list.tail : Int) - (list.head + 1)) % channelIrqTimestampsSize

/-- `now` is what `ktime_get_ns` gives. -/
def hailoVdmaPushTimestamp (now : UInt64) (regs : ChannelRegs)
    (list : HailoChannelInterruptTimestampList) : HailoChannelInterruptTimestampList :=
  if timestampsCircSpace list ≠ 0 then
    { list with
      timestamps := Function.update list.timestamps list.head ⟨now, hailoVdmaGetNumProc regs⟩
      head := (list.head + 1) &&& channelIrqTimestampsSizeMask }
  else list

/-- `none` if there are no items. -/
def hailoVdmaPopTimestamp (list : HailoChannelInterruptTimestampList) :
    Option (HailoChannelInterruptTimestamp × HailoChannelInterruptTimestampList) :=
  if timestampsCircCnt list = 0 then none
  else some (list.timestamps list.tail,
    { list with tail := (list.tail + 1) &&& channelIrqTimestampsSizeMask })

/-- Both indices are inside the array. -/
structure InBounds (list : HailoChannelInterruptTimestampList) : Prop where
  head_lt : list.head < 256
  tail_lt : list.tail < 256

/-- The timestamps in the ring, oldest first. -/
def pending (list : HailoChannelInterruptTimestampList) : List HailoChannelInterruptTimestamp :=
  contents 256 list.head list.tail list.timestamps

theorem and_sizeMask (i : Nat) : i &&& channelIrqTimestampsSizeMask = i % 256 :=
  Nat.and_two_pow_sub_one_eq_mod i 8

section
variable {list : HailoChannelInterruptTimestampList}

theorem length_pending_lt (list : HailoChannelInterruptTimestampList) :
    (pending list).length < 256 := by
  rw [pending, length_contents]
  exact count_lt (by decide)

theorem timestampsCircCnt_eq_zero_iff (h : InBounds list) :
    timestampsCircCnt list = 0 ↔ pending list = [] := by
  have hhead := h.head_lt
  have htail := h.tail_lt
  have hsize : (channelIrqTimestampsSize : Int) = 256 := rfl
  rw [← List.length_eq_zero_iff, pending, length_contents, timestampsCircCnt, hsize, count]
  omega

theorem timestampsCircSpace_eq_zero_iff (h : InBounds list) :
    timestampsCircSpace list = 0 ↔ (pending list).length = 255 := by
  have hhead := h.head_lt
  have htail := h.tail_lt
  have hsize : (channelIrqTimestampsSize : Int) = 256 := rfl
  rw [pending, length_contents, timestampsCircSpace, hsize, count]
  omega

theorem InBounds.push (h : InBounds list) (now : UInt64) (regs : ChannelRegs) :
    InBounds (hailoVdmaPushTimestamp now regs list) := by
  rw [hailoVdmaPushTimestamp]
  split
  · refine ⟨?_, h.tail_lt⟩
    rw [and_sizeMask]
    exact Nat.mod_lt _ (by decide)
  · exact h

/-- A push appends while there is space and is dropped otherwise. -/
theorem pending_push (h : InBounds list) (now : UInt64) (regs : ChannelRegs) :
    pending (hailoVdmaPushTimestamp now regs list) =
      if (pending list).length = 255 then pending list
      else pending list ++ [⟨now, hailoVdmaGetNumProc regs⟩] := by
  have hlt := length_pending_lt list
  rw [hailoVdmaPushTimestamp]
  split
  · next hspace =>
    rw [Ne, timestampsCircSpace_eq_zero_iff h] at hspace
    rw [if_neg hspace, pending, and_sizeMask]
    rw [pending, length_contents] at hspace hlt
    exact contents_push h.head_lt h.tail_lt (by omega) _
  · next hspace =>
    rw [Ne, not_not, timestampsCircSpace_eq_zero_iff h] at hspace
    rw [if_pos hspace]

/-- What a pop finds: nothing, or the oldest entry with the others left. -/
theorem pop_cases (h : InBounds list) :
    (hailoVdmaPopTimestamp list = none ∧ pending list = []) ∨
      ∃ entry list', hailoVdmaPopTimestamp list = some (entry, list') ∧ InBounds list' ∧
        pending list = entry :: pending list' := by
  by_cases hempty : pending list = []
  · refine Or.inl ⟨?_, hempty⟩
    rw [hailoVdmaPopTimestamp, if_pos ((timestampsCircCnt_eq_zero_iff h).mpr hempty)]
  · refine Or.inr ⟨_, _, if_neg fun hzero => hempty ((timestampsCircCnt_eq_zero_iff h).mp hzero),
      ⟨h.head_lt, ?_⟩, ?_⟩
    · rw [and_sizeMask]
      exact Nat.mod_lt _ (by decide)
    · have hpos := List.length_pos_iff.mpr hempty
      rw [pending, length_contents] at hpos
      rw [pending, pending, and_sizeMask]
      exact contents_pop h.head_lt h.tail_lt hpos

end

end HailortDrivers.TimestampRing
