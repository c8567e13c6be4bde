import HailortDrivers.ProgramIoctl
import HailortDrivers.ProgrammedPages

/-!
Which scatter entries a sync of a mapped buffer hands over. Two entries may have one address and
length, so the calls are told apart by the index of `for_each_sg`. The bounds of the test are
closed, so an entry next to the interval is synced as well.
-/
namespace HailortDrivers.SyncCoverage
open VdmaTypes SegmentSlicing ProgrammedPages VdmaMemory ProgramIoctl

/-- `dma_sync_single_for_cpu` and `dma_sync_single_for_device` -/
inductive DmaSyncSingle
  | forCpu
  | forDevice
deriving DecidableEq

structure SyncCall where
  dmaSyncSingle : DmaSyncSingle
  index : Nat
  entry : ScatterEntry
  direction : DmaDataDirection

section Calls
variable (dmaSyncSingle : DmaSyncSingle) (direction : DmaDataDirection)

/-- `vdma_sync_entire_buffer`: what `dma_sync_sg` does with the entries. -/
def entireCalls : Nat → List ScatterEntry → List SyncCall
  | _, [] => []
  | i, e :: es => ⟨dmaSyncSingle, i, e, direction⟩ :: entireCalls (i + 1) es

/-- `vdma_sync_buffer_interval` from the entry `i` at offset `current` on. -/
def intervalCalls (syncStart syncEnd : Nat) : Nat → Nat → List ScatterEntry → List SyncCall
  | _, _, [] => []
  | i, current, e :: es =>
    let rest := intervalCalls syncStart syncEnd (i + 1) (current + e.dmaLen.toNat) es
    if max syncStart current ≤ min syncEnd (current + e.dmaLen.toNat) then
      ⟨dmaSyncSingle, i, e, direction⟩ :: rest
    else rest

theorem entireCalls_entries (i : Nat) (es : List ScatterEntry) :
    (entireCalls dmaSyncSingle direction i es).map SyncCall.entry = es := by
  induction es generalizing i with
  | nil => rfl
  | cons e es ih => rw [entireCalls, List.map_cons, ih]

theorem intervalCalls_entries (syncStart syncEnd i current : Nat) (es : List ScatterEntry) :
    (intervalCalls dmaSyncSingle direction syncStart syncEnd i current es).map SyncCall.entry =
      vdmaSyncBufferInterval syncStart syncEnd current es := by
  induction es generalizing i current with
  | nil => rfl
  | cons e es ih =>
    rw [intervalCalls, vdmaSyncBufferInterval]
    split
    · rw [List.map_cons, ih]
    · exact ih (i + 1) (current + e.dmaLen.toNat)

end Calls

/-- The `sync_type` of a request, as both routines read it. -/
def dmaSyncOf : HailoVdmaBufferSyncType → DmaSyncSingle
  | .syncForCpu => .forCpu
  | .syncForDevice => .forDevice
  | .other _ => .forDevice

/-- `hailo_vdma_buffer_sync` -/
def syncCalls (buffer : HailoVdmaBuffer) (syncType : HailoVdmaBufferSyncType)
    (offset size : UInt64) : List SyncCall :=
  if buffer.isMmio || buffer.isDmabuf then []
  else if offset = 0 ∧ size = buffer.size.toUInt64 then
    entireCalls (dmaSyncOf syncType) buffer.dataDirection 0 buffer.sgTable
  else intervalCalls (dmaSyncOf syncType) buffer.dataDirection offset.toNat (offset + size).toNat
    0 0 buffer.sgTable

theorem syncCalls_entries (buffer : HailoVdmaBuffer) (syncType : HailoVdmaBufferSyncType)
    (offset size : UInt64) :
    (syncCalls buffer syncType offset size).map SyncCall.entry =
      hailoVdmaBufferSyncSize buffer offset size := by
  rw [syncCalls, hailoVdmaBufferSyncSize]
  split
  · rfl
  · split
    · exact entireCalls_entries _ _ _ _
    · exact intervalCalls_entries _ _ _ _ _ _ _

/-- The offset in the buffer where an entry begins. -/
def startOf (es : List ScatterEntry) (i : Nat) : Nat := totalLen (segments (es.take i))

@[simp] theorem startOf_zero (es : List ScatterEntry) : startOf es 0 = 0 := rfl

@[simp] theorem startOf_succ (e : ScatterEntry) (es : List ScatterEntry) (i : Nat) :
    startOf (e :: es) (i + 1) = e.dmaLen.toNat + startOf es i := by
  rw [startOf, List.take_succ_cons, segments, List.map_cons, totalLen_cons]
  rfl

/-- Byte `b` of the buffer is in its entry `i`. -/
def HasByte (es : List ScatterEntry) (i b : Nat) : Prop :=
  ∃ e, es[i]? = some e ∧ startOf es i ≤ b ∧ b < startOf es i + e.dmaLen.toNat

section Calls
variable {dmaSyncSingle : DmaSyncSingle} {direction : DmaDataDirection} {es : List ScatterEntry}
  {syncStart syncEnd i current : Nat}

theorem mem_entireCalls {call : SyncCall} :
    call ∈ entireCalls dmaSyncSingle direction i es ↔
      ∃ j e, es[j]? = some e ∧ call = ⟨dmaSyncSingle, i + j, e, direction⟩ := by
  induction es generalizing i with
  | nil => simp [entireCalls]
  | cons head es ih =>
    rw [entireCalls, List.mem_cons, ih]
    constructor
    · rintro (rfl | ⟨j, e, he, rfl⟩)
      · exact ⟨0, head, rfl, rfl⟩
      · exact ⟨j + 1, e, he, by rw [Nat.add_assoc, Nat.add_comm 1 j]⟩
    · rintro ⟨j, e, he, rfl⟩
      cases j with
      | zero =>
        obtain rfl := Option.some.inj he
        exact Or.inl rfl
      | succ j => exact Or.inr ⟨j, e, he, by rw [Nat.add_assoc, Nat.add_comm 1 j]⟩

theorem mem_intervalCalls {call : SyncCall} :
    call ∈ intervalCalls dmaSyncSingle direction syncStart syncEnd i current es ↔
      ∃ j e, es[j]? = some e ∧ call = ⟨dmaSyncSingle, i + j, e, direction⟩ ∧
        max syncStart (current + startOf es j) ≤
          min syncEnd (current + startOf es j + e.dmaLen.toNat) := by
  induction es generalizing i current with
  | nil => simp [intervalCalls]
  | cons head es ih =>
    have hrest : call ∈ intervalCalls dmaSyncSingle direction syncStart syncEnd (i + 1)
          (current + head.dmaLen.toNat) es ↔
        ∃ j e, (head :: es)[j + 1]? = some e ∧
          call = ⟨dmaSyncSingle, i + (j + 1), e, direction⟩ ∧
          max syncStart (current + startOf (head :: es) (j + 1)) ≤
            min syncEnd (current + startOf (head :: es) (j + 1) + e.dmaLen.toNat) := by
      rw [ih]
      simp only [startOf_succ, ← Nat.add_assoc, Nat.add_right_comm i 1, List.getElem?_cons_succ]
    rw [intervalCalls]
    constructor
    · intro h
      split at h
      · next htest =>
        rcases List.mem_cons.mp h with rfl | h
        · exact ⟨0, head, rfl, rfl, htest⟩
        · obtain ⟨j, e, he⟩ := hrest.mp h
          exact ⟨j + 1, e, he⟩
      · obtain ⟨j, e, he⟩ := hrest.mp h
        exact ⟨j + 1, e, he⟩
    · rintro ⟨j, e, he, hcall, htest⟩
      cases j with
      | zero =>
        obtain rfl := Option.some.inj he
        rw [startOf_zero, Nat.add_zero] at htest
        rw [if_pos htest, hcall]
        exact List.mem_cons_self
      | succ j =>
        have hmem := hrest.mpr ⟨j, e, he, hcall, htest⟩
        split
        · exact List.mem_cons_of_mem _ hmem
        · exact hmem

/-- The loop goes up, so no entry is synced twice. -/
theorem entireCalls_sorted :
    (entireCalls dmaSyncSingle direction i es).Pairwise (fun a b => a.index < b.index) := by
  induction es generalizing i with
  | nil => exact List.Pairwise.nil
  | cons e es ih =>
    refine List.pairwise_cons.mpr ⟨fun call hcall => ?_, ih⟩
    obtain ⟨j, e', -, rfl⟩ := mem_entireCalls.mp hcall
    exact Nat.lt_of_lt_of_le (Nat.lt_succ_self i) (Nat.le_add_right (i + 1) j)

theorem intervalCalls_sorted :
    (intervalCalls dmaSyncSingle direction syncStart syncEnd i current es).Pairwise
      (fun a b => a.index < b.index) := by
  induction es generalizing i current with
  | nil => exact List.Pairwise.nil
  | cons e es ih =>
    rw [intervalCalls]
    split
    · refine List.pairwise_cons.mpr ⟨fun call hcall => ?_, ih⟩
      obtain ⟨j, e', -, rfl, -⟩ := mem_intervalCalls.mp hcall
      exact Nat.lt_of_lt_of_le (Nat.lt_succ_self i) (Nat.le_add_right (i + 1) j)
    · exact ih

/-- The test never fails on an interval that holds the whole buffer. -/
theorem intervalCalls_whole (hend : current + totalLen (segments es) ≤ syncEnd) :
    intervalCalls dmaSyncSingle direction 0 syncEnd i current es =
      entireCalls dmaSyncSingle direction i es := by
  induction es generalizing i current with
  | nil => rfl
  | cons e es ih =>
    rw [segments, List.map_cons, totalLen_cons, ← segments, entrySegment] at hend
    simp only at hend
    rw [intervalCalls, entireCalls, if_pos (by omega), ih (by omega)]

end Calls

/-- Every entry with a byte of the interval is synced once, and each call is for the entry whose
index it has. -/
structure CoversInterval (buffer : HailoVdmaBuffer) (syncType : HailoVdmaBufferSyncType)
    (offset size : Nat) (calls : List SyncCall) : Prop where
  once : ∀ i b, offset ≤ b → b < offset + size → HasByte buffer.sgTable i b →
    (calls.map SyncCall.index).count i = 1
  genuine : ∀ call ∈ calls, buffer.sgTable[call.index]? = some call.entry ∧
    call.dmaSyncSingle = dmaSyncOf syncType ∧ call.direction = buffer.dataDirection

/-- Calls that go up and include the entries asked for cover the interval. -/
theorem coversInterval_of_sorted {buffer : HailoVdmaBuffer} {syncType : HailoVdmaBufferSyncType}
    {offset size : Nat} {calls : List SyncCall}
    (hsorted : calls.Pairwise (fun a b => a.index < b.index))
    (hgenuine : ∀ call ∈ calls, ∃ j e, buffer.sgTable[j]? = some e ∧
      call = ⟨dmaSyncOf syncType, 0 + j, e, buffer.dataDirection⟩)
    (hincluded : ∀ i e, buffer.sgTable[i]? = some e →
      (∃ b, offset ≤ b ∧ b < offset + size ∧ startOf buffer.sgTable i ≤ b ∧
        b < startOf buffer.sgTable i + e.dmaLen.toNat) →
      ⟨dmaSyncOf syncType, 0 + i, e, buffer.dataDirection⟩ ∈ calls) :
    CoversInterval buffer syncType offset size calls := by
  constructor
  · rintro i b hlow hhigh ⟨e, he, hstart, hend⟩
    have hnodup : (calls.map SyncCall.index).Nodup :=
      List.pairwise_map.mpr (hsorted.imp fun hlt => Nat.ne_of_lt hlt)
    refine List.count_eq_one_of_mem hnodup (List.mem_map.mpr ⟨_, hincluded i e he
      ⟨b, hlow, hhigh, hstart, hend⟩, Nat.zero_add i⟩)
  · intro call hcall
    obtain ⟨j, e, he, rfl⟩ := hgenuine call hcall
    exact ⟨by rw [Nat.zero_add]; exact he, rfl, rfl⟩

/-- A sync misses no entry of its interval, and for the whole buffer the two routines do the
same. -/
theorem bufferSync_covers {buffer : HailoVdmaBuffer} {offset size : UInt64}
    (hmmio : buffer.isMmio = false) (hdmabuf : buffer.isDmabuf = false)
    (hsum : totalLen (segments buffer.sgTable) = buffer.size.toNat)
    (hrange : offset.toNat + size.toNat ≤ buffer.size.toNat)
    (syncType : HailoVdmaBufferSyncType) :
    (syncCalls buffer syncType offset size).map SyncCall.entry =
        hailoVdmaBufferSyncSize buffer offset size ∧
      CoversInterval buffer syncType offset.toNat size.toNat
        (syncCalls buffer syncType offset size) ∧
      intervalCalls (dmaSyncOf syncType) buffer.dataDirection 0 buffer.size.toNat 0 0
          buffer.sgTable =
        entireCalls (dmaSyncOf syncType) buffer.dataDirection 0 buffer.sgTable := by
  have hend : (offset + size).toNat = offset.toNat + size.toNat := by
    have hlt := buffer.size.toNat_lt
    rw [UInt64.toNat_add]
    omega
  refine ⟨syncCalls_entries _ _ _ _, ?_, intervalCalls_whole (by omega)⟩
  rw [syncCalls, hmmio, hdmabuf, Bool.or_self, if_neg Bool.false_ne_true]
  split
  · refine coversInterval_of_sorted entireCalls_sorted (fun call => mem_entireCalls.mp) ?_
    exact fun i e he _ => mem_entireCalls.mpr ⟨i, e, he, rfl⟩
  · refine coversInterval_of_sorted intervalCalls_sorted (fun call hcall => ?_) ?_
    · obtain ⟨j, e, he, hcall, -⟩ := mem_intervalCalls.mp hcall
      exact ⟨j, e, he, hcall⟩
    · rintro i e he ⟨b, hlow, hhigh, hstart, hstop⟩
      exact mem_intervalCalls.mpr ⟨i, e, he, rfl, by omega⟩

/-- A buffer of two entries, of which a sync of the bytes 100 to 199 needs both. -/
def twoEntries : HailoVdmaBuffer where
  handle := 0
  kref := 1
  bufferType := .userPtrBuffer
  size := 256
  addrOrFd := 0x5000
  dataDirection := .toDevice
  sgTable := [⟨0x1000, 128⟩, ⟨0x2000, 128⟩]
  isMmio := false
  isDmabuf := false

theorem bufferSync_covers_twoEntries :
    (syncCalls twoEntries .syncForCpu 100 100).map SyncCall.entry =
        hailoVdmaBufferSyncSize twoEntries 100 100 ∧
      CoversInterval twoEntries .syncForCpu 100 100 (syncCalls twoEntries .syncForCpu 100 100) ∧
      intervalCalls .forCpu .toDevice 0 256 0 0 twoEntries.sgTable =
        entireCalls .forCpu .toDevice 0 twoEntries.sgTable :=
  bufferSync_covers rfl rfl (by decide) (by decide) .syncForCpu

end HailortDrivers.SyncCoverage
