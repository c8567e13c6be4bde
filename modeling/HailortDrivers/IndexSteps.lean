import HailortDrivers.IndexRanges
import HailortDrivers.TimestampRing

/-!
The operations of an engine with all their data move the indices of the rings as the
operations on indices alone do.
-/
namespace HailortDrivers.IndexSteps
open KernelExec VdmaTypes LaunchSteps CompletionSteps VdmaEngine RingIndices IndexRanges
open ChannelTransfers hiding ongoingTransferPush ongoingTransferPop
open OngoingRing (ongoing ongoing_popped toNat_ongoingTransfersCircCnt)
open TimestampRing (InBounds)

def transferIndices (transfers : HailoOngoingTransfersList) : TransferIndices :=
  ⟨transfers.head, transfers.tail⟩

theorem transferIndices_inRange (transfers : HailoOngoingTransfersList) :
    TransfersInRange (transferIndices transfers) := ⟨transfers.head_lt, transfers.tail_lt⟩

section Transfers
variable {channel channel' : HailoVdmaChannel}

/-- A launch pushes or leaves the ring alone. -/
theorem launch_indices {vdmaHw : HailoVdmaHw} {descListAddress : Nat}
    {descList descList' : HailoVdmaDescriptorsList} {regs regs' : ChannelRegs}
    {startingDesc : UInt32} {buffers : List HailoVdmaMappedTransferBuffer} {shouldBind : Bool}
    {firstInterruptsDomain lastDescInterrupts : HailoVdmaInterruptsDomain} {isDebug : Bool}
    {ret : Int32}
    (h : hailoVdmaLaunchTransfer vdmaHw channel descListAddress descList regs startingDesc buffers
      shouldBind firstInterruptsDomain lastDescInterrupts isDebug =
        .ok (ret, channel', descList', regs')) :
    transferIndices channel'.ongoingTransfers = transferIndices channel.ongoingTransfers ∨
      transferIndices channel'.ongoingTransfers =
        (ongoingTransferPush (transferIndices channel.ongoingTransfers) true).2 := by
  have houtcome := launch_outcome h
  cases houtcome with
  | otherList => exact Or.inl rfl
  | rejected => exact Or.inl rfl
  | ringFull => exact Or.inl rfl
  | launched c hchecks hloop hroom =>
    refine Or.inr ?_
    have hspace : transfersCircSpace (transferIndices channel.ongoingTransfers) ≠ 0 := hroom
    rw [ongoingTransferPush, if_neg hspace]
    rfl

/-- The rounds look no further than their number. -/
theorem completeRounds_congr {f g : Nat → Bool} {n : Nat} (h : ∀ k < n, f k = g k)
    (transfers : TransferIndices) :
    completeRounds f n transfers = completeRounds g n transfers := by
  induction n generalizing transfers with
  | zero => rfl
  | succ n ih =>
    rw [completeRounds, completeRounds, h n (Nat.lt_succ_self n),
      ih fun k hk => h k (Nat.lt_succ_of_lt hk)]

theorem completes_indices {σ : Type} {transferDone : HailoOngoingTransfer → σ → Exec σ}
    {hwNumProc : UInt16} {c c' : CompletionCursor σ} {ts : List HailoOngoingTransfer}
    (h : Completes transferDone hwNumProc c ts c') :
    ∃ isComplete, transferIndices c'.channel.ongoingTransfers =
      (completeRounds isComplete (ongoing c.channel.ongoingTransfers).length
        (transferIndices c.channel.ongoingTransfers)).2 := by
  induction h with
  | @stop c hstop =>
    refine ⟨fun _ => false, ?_⟩
    cases hn : (ongoing c.channel.ongoingTransfers).length with
    | zero => rfl
    | succ n => rfl
  | @round c c₁ c' ts hongoing hcomplete hround hrest ih =>
    obtain ⟨isComplete, hindices⟩ := ih
    obtain ⟨valid, done, -, -, rfl⟩ := completeTransfer_ok hround
    have hlength : (ongoing c.channel.ongoingTransfers).length =
        (ongoing (popped c.channel.ongoingTransfers)).length + 1 := by
      rw [ongoing_popped hongoing, List.length_cons]
    refine ⟨Function.update isComplete (ongoing (popped c.channel.ongoingTransfers)).length true,
      ?_⟩
    have hrounds := congrArg Prod.snd <| completeRounds_congr (f := isComplete)
      (g := Function.update isComplete (ongoing (popped c.channel.ongoingTransfers)).length true)
      (fun k hk => (Function.update_of_ne (Nat.ne_of_lt hk) _ _).symm)
      (ongoingTransferPop (transferIndices c.channel.ongoingTransfers))
    rw [hindices, hlength, completeRounds, Function.update_self, if_pos rfl]
    exact hrounds

theorem drainTransfers_indices {n : Nat} {heap heap' : DescListHeap}
    (h : drainTransfers n channel heap = .ok (channel', heap')) :
    transferIndices channel'.ongoingTransfers =
      (drainRounds n (transferIndices channel.ongoingTransfers)).2 := by
  induction n generalizing channel heap with
  | zero =>
    cases h
    rfl
  | succ n ih =>
    rw [drainTransfers] at h
    simp only at h
    split at h
    · exact ih h
    · obtain ⟨heap₁, -, h⟩ := bind_ok h
      exact ih h

/-- A disabled channel drains its ring. -/
theorem disableChannel_indices {heap heap' : DescListHeap}
    (h : disableChannel channel heap = .ok (channel', heap')) :
    transferIndices channel'.ongoingTransfers =
      (drainRounds (transfersCircCnt (transferIndices channel.ongoingTransfers)).toNat
        (transferIndices channel.ongoingTransfers)).2 := by
  obtain ⟨⟨channel₁, heap₁⟩, hdrain, h⟩ := bind_ok h
  cases h
  have hindices := drainTransfers_indices hdrain
  exact hindices

end Transfers

section Timestamps
variable {raw : TimestampIndices} {list : HailoChannelInterruptTimestampList}

/-- The same indices, once they are inside the array. -/
structure Represents (raw : TimestampIndices) (list : HailoChannelInterruptTimestampList) :
    Prop where
  head : raw.head.toBitVec.toNat = list.head
  tail : raw.tail.toBitVec.toNat = list.tail
  bounds : InBounds list

theorem toNat_intCircCnt (head tail : Int32) :
    (intCircCnt head tail timestampsSize).toBitVec.toNat =
      (2 ^ 32 - tail.toBitVec.toNat + head.toBitVec.toNat) % 2 ^ 32 % 256 := by
  rw [intCircCnt, Int32.toBitVec_and, BitVec.toNat_and, Int32.toBitVec_sub, BitVec.toNat_sub]
  exact Nat.and_two_pow_sub_one_eq_mod _ 8

theorem int32_eq_zero_iff (x : Int32) : x = 0 ↔ x.toBitVec.toNat = 0 := by
  rw [← Int32.toBitVec_inj, ← BitVec.toNat_inj]
  rfl

theorem Represents.circCnt (h : Represents raw list) :
    timestampsCircCnt raw = 0 ↔ TimestampRing.timestampsCircCnt list = 0 := by
  have hhead := h.bounds.head_lt
  have htail := h.bounds.tail_lt
  have hsize : (channelIrqTimestampsSize : Int) = 256 := rfl
  rw [int32_eq_zero_iff, timestampsCircCnt, toNat_intCircCnt, h.head, h.tail,
    TimestampRing.timestampsCircCnt, hsize]
  omega

theorem toNat_succ (x : Int32) (h : x.toBitVec.toNat < 256) :
    (x + 1).toBitVec.toNat = x.toBitVec.toNat + 1 := by
  rw [Int32.toBitVec_add, BitVec.toNat_add]
  exact Nat.mod_eq_of_lt (by
    have : (1 : Int32).toBitVec.toNat = 1 := rfl
    omega)

theorem Represents.circSpace (h : Represents raw list) :
    timestampsCircSpace raw = 0 ↔ TimestampRing.timestampsCircSpace list = 0 := by
  have hhead := h.bounds.head_lt
  have htail := h.bounds.tail_lt
  have hsize : (channelIrqTimestampsSize : Int) = 256 := rfl
  rw [int32_eq_zero_iff, timestampsCircSpace, toNat_intCircCnt, toNat_succ _ (h.head ▸ hhead),
    h.head, h.tail, TimestampRing.timestampsCircSpace, hsize]
  omega

theorem toNat_advance (x : Int32) (h : x.toBitVec.toNat < 256) :
    ((x + 1) &&& timestampsSizeMask).toBitVec.toNat =
      (x.toBitVec.toNat + 1) &&& TimestampRing.channelIrqTimestampsSizeMask := by
  rw [Int32.toBitVec_and, BitVec.toNat_and, toNat_succ x h]
  rfl

theorem Represents.push (h : Represents raw list) (now : UInt64) (regs : ChannelRegs) :
    Represents (hailoVdmaPushTimestamp raw).2
      (TimestampRing.hailoVdmaPushTimestamp now regs list) := by
  refine ⟨?_, ?_, h.bounds.push now regs⟩
  · rw [hailoVdmaPushTimestamp, TimestampRing.hailoVdmaPushTimestamp]
    by_cases hspace : timestampsCircSpace raw = 0
    · rw [if_neg (not_not_intro hspace), if_neg (not_not_intro (h.circSpace.mp hspace))]
      exact h.head
    · rw [if_pos hspace, if_pos fun hzero => hspace (h.circSpace.mpr hzero)]
      refine (toNat_advance raw.head (h.head ▸ h.bounds.head_lt)).trans ?_
      rw [h.head]
  · rw [hailoVdmaPushTimestamp, TimestampRing.hailoVdmaPushTimestamp]
    split_ifs <;> exact h.tail

/-- A pop finds the same, and accesses the array at the same index. -/
theorem Represents.pop (h : Represents raw list) :
    (hailoVdmaPopTimestamp raw = none ∧ TimestampRing.hailoVdmaPopTimestamp list = none) ∨
      ∃ raw' entry list', hailoVdmaPopTimestamp raw = some (.timestamps list.tail, raw') ∧
        TimestampRing.hailoVdmaPopTimestamp list = some (entry, list') ∧
        Represents raw' list' := by
  have hcnt := h.circCnt
  rcases TimestampRing.pop_cases h.bounds with ⟨hpop, -⟩ | ⟨entry, list', hpop, hbounds, -⟩
  · refine Or.inl ⟨if_pos (hcnt.mpr ?_), hpop⟩
    by_contra hsome
    rw [TimestampRing.hailoVdmaPopTimestamp, if_neg hsome] at hpop
    cases hpop
  · have hsome : TimestampRing.timestampsCircCnt list ≠ 0 := by
      intro hzero
      rw [TimestampRing.hailoVdmaPopTimestamp, if_pos hzero] at hpop
      cases hpop
    refine Or.inr ⟨⟨raw.head, (raw.tail + 1) &&& timestampsSizeMask⟩, entry, list', ?_, hpop, ?_⟩
    · rw [hailoVdmaPopTimestamp, if_neg fun hzero => hsome (hcnt.mp hzero)]
      have htail : raw.tail.toInt = list.tail := by
        have hlt := h.bounds.tail_lt
        rw [← Int32.toInt_toBitVec, BitVec.toInt_eq_toNat_of_lt (by rw [h.tail]; omega), h.tail]
      rw [htail]
    · rw [TimestampRing.hailoVdmaPopTimestamp, if_neg hsome] at hpop
      cases hpop
      refine ⟨h.head, ?_, hbounds⟩
      refine (toNat_advance raw.tail (h.tail ▸ h.bounds.tail_lt)).trans ?_
      rw [h.tail]

end Timestamps

end HailortDrivers.IndexSteps
