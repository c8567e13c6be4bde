import HailortDrivers.RingIndices

/-!
When the rings of all channels are accessed inside their arrays: always, unless the timestamps
of a channel are read before it is enabled and its memory happens to hold a tail outside the
array.
-/
namespace HailortDrivers.IndexRanges
open KernelExec VdmaTypes RingIndices
open ChannelTransfers (maskedIndex_lt)
open VdmaEngine (ChannelIndex)

theorem inRange_nil : ∀ a ∈ ([] : List Access), a.InRange := by
  intro a ha
  cases ha

section Words

theorem toInt_masked (x : Int32) :
    (x &&& timestampsSizeMask).toInt = (x.toBitVec.toNat % 256 : Nat) := by
  have hmask : (x &&& timestampsSizeMask).toBitVec.toNat = x.toBitVec.toNat % 256 := by
    rw [Int32.toBitVec_and, BitVec.toNat_and]
    exact Nat.and_two_pow_sub_one_eq_mod x.toBitVec.toNat 8
  rw [← Int32.toInt_toBitVec, BitVec.toInt_eq_toNat_of_lt (by omega), hmask]

theorem masked_inRange (x : Int32) :
    (Access.timestamps (x &&& timestampsSizeMask).toInt).InRange := by
  have hlt := Nat.mod_lt x.toBitVec.toNat (show 0 < 256 by decide)
  have hsize : (channelIrqTimestampsSize : Int) = 256 := rfl
  rw [toInt_masked]
  refine ⟨Int.natCast_nonneg _, ?_⟩
  rw [hsize]
  omega

end Words

/-- Both indices of the transfers are inside their array. -/
structure TransfersInRange (transfers : TransferIndices) : Prop where
  head : transfers.head.toNat < 128
  tail : transfers.tail.toNat < 128

structure TimestampsInRange (list : TimestampIndices) : Prop where
  head : (Access.timestamps list.head.toInt).InRange
  tail : (Access.timestamps list.tail.toInt).InRange

/-- A read of these timestamps would start outside the array. -/
def StraysOnRead (list : TimestampIndices) : Prop :=
  ¬ (Access.timestamps list.tail.toInt).InRange ∧ timestampsCircCnt list ≠ 0

section Transfers
variable {transfers : TransferIndices}

theorem push_inRange (h : TransfersInRange transfers) (fits : Bool) :
    (∀ a ∈ (ongoingTransferPush transfers fits).1, a.InRange) ∧
      TransfersInRange (ongoingTransferPush transfers fits).2 := by
  unfold ongoingTransferPush
  split_ifs
  · exact ⟨inRange_nil, h⟩
  · exact ⟨inRange_nil, h⟩
  · refine ⟨fun a ha => ?_, maskedIndex_lt _, h.tail⟩
    obtain rfl := List.mem_singleton.mp ha
    exact h.head

theorem pop_inRange (h : TransfersInRange transfers) :
    TransfersInRange (ongoingTransferPop transfers) := ⟨h.head, maskedIndex_lt _⟩

theorem drain_inRange (n : Nat) (h : TransfersInRange transfers) :
    (∀ a ∈ (drainRounds n transfers).1, a.InRange) ∧
      TransfersInRange (drainRounds n transfers).2 := by
  induction n generalizing transfers with
  | zero => exact ⟨inRange_nil, h⟩
  | succ n ih =>
    obtain ⟨hrest, hafter⟩ := ih (pop_inRange h)
    refine ⟨fun a ha => ?_, hafter⟩
    rcases List.mem_cons.mp ha with rfl | ha
    · exact h.tail
    · exact hrest a ha

theorem complete_inRange (isComplete : Nat → Bool) (n : Nat) (h : TransfersInRange transfers) :
    (∀ a ∈ (completeRounds isComplete n transfers).1, a.InRange) ∧
      TransfersInRange (completeRounds isComplete n transfers).2 := by
  induction n generalizing transfers with
  | zero => exact ⟨inRange_nil, h⟩
  | succ n ih =>
    unfold completeRounds
    split
    · obtain ⟨hrest, hafter⟩ := ih (pop_inRange h)
      refine ⟨fun a ha => ?_, hafter⟩
      rcases List.mem_cons.mp ha with rfl | ha
      · exact h.tail
      · exact hrest a ha
    · refine ⟨fun a ha => ?_, h⟩
      obtain rfl := List.mem_singleton.mp ha
      exact h.tail

end Transfers

section Timestamps
variable {list : TimestampIndices}

theorem not_straysOnRead (h : (Access.timestamps list.tail.toInt).InRange) :
    ¬ StraysOnRead list := fun hstrays => hstrays.1 h

theorem pushTimestamp_inRange (h : TimestampsInRange list) :
    (∀ a ∈ (hailoVdmaPushTimestamp list).1, a.InRange) ∧
      TimestampsInRange (hailoVdmaPushTimestamp list).2 := by
  unfold hailoVdmaPushTimestamp
  split
  · refine ⟨fun a ha => ?_, masked_inRange _, h.tail⟩
    obtain rfl := List.mem_singleton.mp ha
    exact h.head
  · exact ⟨inRange_nil, h⟩

/-- A read that starts inside the array stays there. -/
theorem popTimestamps_inRange (room : Nat) (h : ¬ StraysOnRead list) :
    (∀ a ∈ (popTimestampsToResponse room list).1, a.InRange) ∧
      ¬ StraysOnRead (popTimestampsToResponse room list).2 := by
  induction room generalizing list with
  | zero =>
    unfold popTimestampsToResponse hailoVdmaPopTimestamp
    by_cases hempty : timestampsCircCnt list = 0
    · rw [if_pos hempty]
      exact ⟨inRange_nil, h⟩
    · rw [if_neg hempty]
      refine ⟨fun a ha => ?_, not_straysOnRead (masked_inRange _)⟩
      obtain rfl := List.mem_singleton.mp ha
      exact not_not.mp fun hout => h ⟨hout, hempty⟩
  | succ room ih =>
    unfold popTimestampsToResponse hailoVdmaPopTimestamp
    by_cases hempty : timestampsCircCnt list = 0
    · rw [if_pos hempty]
      exact ⟨inRange_nil, h⟩
    · rw [if_neg hempty]
      have hmoved : ¬ StraysOnRead ⟨list.head, (list.tail + 1) &&& timestampsSizeMask⟩ :=
        not_straysOnRead (masked_inRange _)
      obtain ⟨hrest, hafter⟩ := ih hmoved
      refine ⟨fun a ha => ?_, hafter⟩
      rcases List.mem_cons.mp ha with rfl | ha
      · exact not_not.mp fun hout => h ⟨hout, hempty⟩
      · exact hrest a ha

theorem popTimestamps_head (room : Nat) :
    (popTimestampsToResponse room list).2.head = list.head := by
  induction room generalizing list with
  | zero =>
    unfold popTimestampsToResponse hailoVdmaPopTimestamp
    split_ifs <;> rfl
  | succ room ih =>
    unfold popTimestampsToResponse hailoVdmaPopTimestamp
    split_ifs
    · rfl
    · exact ih

theorem popTimestamps_tail (room : Nat) (h : (Access.timestamps list.tail.toInt).InRange) :
    (Access.timestamps (popTimestampsToResponse room list).2.tail.toInt).InRange := by
  induction room generalizing list with
  | zero =>
    unfold popTimestampsToResponse hailoVdmaPopTimestamp
    split_ifs
    · exact h
    · exact masked_inRange _
  | succ room ih =>
    unfold popTimestampsToResponse hailoVdmaPopTimestamp
    split_ifs
    · exact h
    · exact ih (masked_inRange _)

/-- The first access of a read is at the tail. -/
theorem popTimestamps_strays (room : Nat) (h : StraysOnRead list) :
    ∃ a ∈ (popTimestampsToResponse room list).1, ¬ a.InRange := by
  refine ⟨.timestamps list.tail.toInt, ?_, h.1⟩
  unfold popTimestampsToResponse hailoVdmaPopTimestamp
  rw [if_neg h.2]
  cases room with
  | zero => exact List.mem_singleton.mpr rfl
  | succ room => exact List.mem_cons_self

end Timestamps

section Channels

/-- The timestamps of channels that measure were reset when the channel was enabled. -/
structure Sound (x : ChannelIndices) : Prop where
  transfers : TransfersInRange x.ongoingTransfers
  timestamps : x.timestampMeasureEnabled = true → TimestampsInRange x.timestampList

def Enables (c : ChannelIndex) : Operation → Prop
  | .enable bitmap _ => hailoTestBit c bitmap = true
  | _ => False

def Reads (c : ChannelIndex) : Operation → Prop
  | .readTimestamps channelIndex => channelIndex.toNat = c
  | _ => False

/-- One operation on one channel: what it accesses, and what it leaves. -/
structure StepEffect (c : ChannelIndex) (x : ChannelIndices) (op : Operation)
    (after : List Access × ChannelIndices) : Prop where
  inRange : (∀ a ∈ after.1, a.InRange) ↔ (StraysOnRead x.timestampList → ¬ Reads c op)
  sound : Sound after.2
  strays : (StraysOnRead x.timestampList → ¬ Reads c op) →
    (StraysOnRead after.2.timestampList ↔ StraysOnRead x.timestampList ∧ ¬ Enables c op)

variable {c : ChannelIndex} {x : ChannelIndices} {op : Operation}

/-- An operation that leaves the timestamps of the channel alone. -/
theorem stepEffect_of_same {after : List Access × ChannelIndices}
    (hreads : ¬ Reads c op) (henables : ¬ Enables c op) (hinRange : ∀ a ∈ after.1, a.InRange)
    (hsound : Sound after.2) (hsame : after.2.timestampList = x.timestampList) :
    StepEffect c x op after where
  inRange := ⟨fun _ _ => hreads, fun _ => hinRange⟩
  sound := hsound
  strays := by
    intro _
    rw [hsame]
    exact ⟨fun h => ⟨h, henables⟩, And.left⟩

theorem stepEffect_idle (h : Sound x) (hreads : ¬ Reads c op) (henables : ¬ Enables c op) :
    StepEffect c x op ([], x) :=
  stepEffect_of_same hreads henables inRange_nil h rfl

theorem stepEffect_transfers (h : Sound x) (hreads : ¬ Reads c op) (henables : ¬ Enables c op)
    {after : List Access × TransferIndices}
    (hafter : (∀ a ∈ after.1, a.InRange) ∧ TransfersInRange after.2) :
    StepEffect c x op (x.setTransfers after) :=
  stepEffect_of_same hreads henables hafter.1 ⟨hafter.2, h.timestamps⟩ rfl

theorem stepEffect_read (h : Sound x) (hreads : Reads c op) :
    StepEffect c x op (x.setTimestamps
      (popTimestampsToResponse channelIrqTimestampsSize x.timestampList)) where
  inRange := by
    constructor
    · intro hinRange hstrays
      obtain ⟨a, ha, hout⟩ := popTimestamps_strays channelIrqTimestampsSize hstrays
      exact absurd (hinRange a ha) hout
    · intro hstrays
      exact (popTimestamps_inRange _ fun hs => hstrays hs hreads).1
  sound := by
    refine ⟨h.transfers, fun hmeasured => ⟨?_, ?_⟩⟩
    · rw [show (x.setTimestamps _).2.timestampList.head = x.timestampList.head from
        popTimestamps_head _]
      exact (h.timestamps hmeasured).head
    · exact popTimestamps_tail _ (h.timestamps hmeasured).tail
  strays := by
    intro hstrays
    have hnot : ¬ StraysOnRead x.timestampList := fun hs => hstrays hs hreads
    exact ⟨fun hs => absurd hs (popTimestamps_inRange _ hnot).2, fun hs => absurd hs.1 hnot⟩

theorem stepEffect_push (h : Sound x) (hreads : ¬ Reads c op)
    (hmeasured : x.timestampMeasureEnabled = true) :
    StepEffect c x op (x.setTimestamps (hailoVdmaPushTimestamp x.timestampList)) := by
  obtain ⟨hinRange, hafter⟩ := pushTimestamp_inRange (h.timestamps hmeasured)
  refine ⟨⟨fun _ _ => hreads, fun _ => hinRange⟩, ⟨h.transfers, fun _ => hafter⟩, fun _ => ?_⟩
  have hbefore := not_straysOnRead (h.timestamps hmeasured).tail
  exact ⟨fun hs => absurd hs (not_straysOnRead hafter.tail), fun hs => absurd hs.1 hbefore⟩

theorem stepEffect_enable (h : Sound x) (measureTimestamp : Bool) (hreads : ¬ Reads c op)
    (henables : Enables c op) :
    StepEffect c x op ([], ⟨measureTimestamp, x.ongoingTransfers, ⟨0, 0⟩⟩) := by
  have hzero : TimestampsInRange ⟨0, 0⟩ :=
    ⟨⟨by decide, by decide⟩, ⟨by decide, by decide⟩⟩
  refine ⟨⟨fun _ _ => hreads, fun _ a ha => by cases ha⟩, ⟨h.transfers, fun _ => hzero⟩,
    fun _ => ?_⟩
  exact ⟨fun hs => absurd hs (not_straysOnRead hzero.tail), fun hs => absurd henables hs.2⟩

theorem channelStep_effect (h : Sound x) (op : Operation) :
    StepEffect c x op (channelStep c x op) := by
  cases op with
  | enable bitmap measureTimestamp =>
    rw [channelStep]
    split
    · next hbit => exact stepEffect_enable h measureTimestamp id hbit
    · next hbit => exact stepEffect_idle h id hbit
  | disable bitmap =>
    rw [channelStep]
    split
    · exact stepEffect_transfers h id id (drain_inRange _ h.transfers)
    · exact stepEffect_idle h id id
  | launch channel pushes fits =>
    rw [channelStep]
    split
    · exact stepEffect_transfers h id id (push_inRange h.transfers fits)
    · exact stepEffect_idle h id id
  | pushTimestamps bitmap =>
    rw [channelStep]
    split
    · next hpush =>
      rw [Bool.and_eq_true] at hpush
      exact stepEffect_push h id hpush.2
    · exact stepEffect_idle h id id
  | fillIrqData visited isComplete =>
    rw [channelStep]
    split
    · exact stepEffect_transfers h id id (complete_inRange _ _ h.transfers)
    · exact stepEffect_idle h id id
  | readTimestamps channelIndex =>
    rw [channelStep]
    split
    · next hchannel => exact stepEffect_read h hchannel
    · next hchannel => exact stepEffect_idle h hchannel id

end Channels

/-- The timestamps of the channel are read before any enable of it. -/
def ReadsBeforeEnable (c : ChannelIndex) : List Operation → Prop
  | [] => False
  | op :: ops => Reads c op ∨ ¬ Enables c op ∧ ReadsBeforeEnable c ops

theorem runAccesses_inRange_iff {s : EngineIndices} (h : ∀ c, Sound (s c))
    (ops : List Operation) :
    (∀ a ∈ runAccesses s ops, a.InRange) ↔
      ∀ c, StraysOnRead (s c).timestampList → ¬ ReadsBeforeEnable c ops := by
  induction ops generalizing s with
  | nil => exact ⟨fun _ _ _ h => h, fun _ a ha => by cases ha⟩
  | cons op ops ih =>
    have heffect : ∀ c, StepEffect c (s c) op (channelStep c (s c) op) :=
      fun c => channelStep_effect (h c) op
    have hrest := ih (s := next s op) fun c => (heffect c).sound
    have hfirst : (∀ a ∈ accesses s op, a.InRange) ↔
        ∀ c, StraysOnRead (s c).timestampList → ¬ Reads c op := by
      refine ⟨fun hall c => (heffect c).inRange.mp fun a ha => ?_, fun hall a ha => ?_⟩
      · exact hall a (List.mem_flatMap.mpr ⟨c, List.mem_finRange c, ha⟩)
      · obtain ⟨c, -, hc⟩ := List.mem_flatMap.mp ha
        exact (heffect c).inRange.mpr (hall c) a hc
    rw [runAccesses, List.forall_mem_append, hrest, hfirst]
    constructor
    · rintro ⟨hreads, hlater⟩ c hstrays (hread | ⟨henables, hread⟩)
      · exact hreads c hstrays hread
      · exact hlater c (((heffect c).strays (hreads c)).mpr ⟨hstrays, henables⟩) hread
    · intro hall
      have hreads : ∀ c, StraysOnRead (s c).timestampList → ¬ Reads c op :=
        fun c hstrays hread => hall c hstrays (Or.inl hread)
      refine ⟨hreads, fun c hstrays hread => ?_⟩
      obtain ⟨hbefore, henables⟩ := ((heffect c).strays (hreads c)).mp hstrays
      exact hall c hbefore (Or.inr ⟨henables, hread⟩)

theorem inRange_iff (memory : EngineIndices) (ops : List Operation) :
    (∀ a ∈ runAccesses (hailoVdmaEngineInit memory) ops, a.InRange) ↔
      ∀ c, StraysOnRead (memory c).timestampList → ¬ ReadsBeforeEnable c ops := by
  refine runAccesses_inRange_iff (fun c => ⟨⟨?_, ?_⟩, fun hmeasured => ?_⟩) ops
  · exact (by decide : (0 : UInt64).toNat < 128)
  · exact (by decide : (0 : UInt64).toNat < 128)
  · cases hmeasured

/-- The timestamps of channel 3 are read first of all, and its memory holds a tail of 5000. -/
theorem strayRead_outside :
    ∃ (memory : EngineIndices) (ops : List Operation),
      .timestamps 5000 ∈ runAccesses (hailoVdmaEngineInit memory) ops ∧
        ¬ ∀ a ∈ runAccesses (hailoVdmaEngineInit memory) ops, a.InRange := by
  have hmem : Access.timestamps 5000 ∈ runAccesses
      (hailoVdmaEngineInit fun _ => ⟨true, ⟨77, 99⟩, ⟨5001, 5000⟩⟩) [.readTimestamps 3] := by
    refine List.mem_append_left _ (List.mem_flatMap.mpr ⟨3, List.mem_finRange _, ?_⟩)
    exact List.mem_cons_self
  refine ⟨_, _, hmem, fun hall => ?_⟩
  have hlt : (5000 : Int) < channelIrqTimestampsSize := (hall _ hmem).2
  exact absurd hlt (by decide)

end HailortDrivers.IndexRanges
