import HailortDrivers.CircularBuffer
import HailortDrivers.LaunchSteps

/-! The ongoing transfers as the list that the ring represents. -/
namespace HailortDrivers.OngoingRing
open VdmaTypes ChannelTransfers LaunchSteps CircularBuffer

/-- The ongoing transfers, oldest first. -/
def ongoing (transfers : HailoOngoingTransfersList) : List HailoOngoingTransfer :=
  contents 128 transfers.head.toNat transfers.tail.toNat transfers.transfers

section
variable {transfers : HailoOngoingTransfersList} {channel : HailoVdmaChannel}

theorem toNat_circCnt (head tail : UInt64) :
    (circCnt head tail hailoVdmaMaxOngoingTransfers).toNat =
      (2 ^ 64 - tail.toNat + head.toNat) % 2 ^ 64 % 128 := by
  have hmask : (hailoVdmaMaxOngoingTransfers - 1).toNat = 2 ^ 7 - 1 := rfl
  rw [circCnt, UInt64.toNat_and, UInt64.toNat_sub, hmask, Nat.and_two_pow_sub_one_eq_mod]

theorem toNat_nextIndex (i : UInt64) (h : i.toNat < 128) :
    ((i + 1) &&& hailoVdmaMaxOngoingTransfersMask).toNat = (i.toNat + 1) % 128 := by
  have hmask : hailoVdmaMaxOngoingTransfersMask.toNat = 2 ^ 7 - 1 := rfl
  rw [UInt64.toNat_and, UInt64.toNat_add, UInt64.toNat_one, hmask,
    Nat.and_two_pow_sub_one_eq_mod, Nat.mod_eq_of_lt (a := i.toNat + 1) (by omega)]

theorem toNat_ongoingTransfersCircCnt (transfers : HailoOngoingTransfersList) :
    (ongoingTransfersCircCnt transfers).toNat = (ongoing transfers).length := by
  have hhead := transfers.head_lt
  have htail := transfers.tail_lt
  rw [ongoingTransfersCircCnt, toNat_circCnt, ongoing, length_contents, count]
  omega

theorem length_ongoing_lt (transfers : HailoOngoingTransfersList) :
    (ongoing transfers).length < 128 := by
  rw [ongoing, length_contents]
  exact count_lt (by decide)

theorem ringFull_iff : RingFull channel ↔ (ongoing channel.ongoingTransfers).length = 127 := by
  have hhead := channel.ongoingTransfers.head_lt
  have htail := channel.ongoingTransfers.tail_lt
  have hnext : (channel.ongoingTransfers.head + 1).toNat =
      channel.ongoingTransfers.head.toNat + 1 := by
    rw [UInt64.toNat_add, UInt64.toNat_one, Nat.mod_eq_of_lt (by omega)]
  rw [RingFull, ongoingTransfersCircSpace, circSpace, ← UInt64.toNat_inj, toNat_circCnt, hnext,
    UInt64.toNat_zero, ongoing, length_contents, count]
  omega

theorem ongoing_pushed (h : (ongoing transfers).length ≠ 127) (transfer : HailoOngoingTransfer) :
    ongoing (pushed transfers transfer) = ongoing transfers ++ [transfer] := by
  have hlt := length_ongoing_lt transfers
  rw [ongoing, length_contents] at h hlt
  rw [ongoing, pushed, toNat_nextIndex _ transfers.head_lt]
  exact contents_push transfers.head_lt transfers.tail_lt (by omega) transfer

theorem ongoing_popped (h : ongoing transfers ≠ []) :
    ongoing transfers =
      transfers.transfers transfers.tail.toNat :: ongoing (popped transfers) := by
  have hpos : 0 < (ongoing transfers).length := List.length_pos_iff.mpr h
  rw [ongoing, length_contents] at hpos
  rw [ongoing, ongoing, popped, toNat_nextIndex _ transfers.tail_lt]
  exact contents_pop transfers.head_lt transfers.tail_lt hpos

end

end HailortDrivers.OngoingRing
