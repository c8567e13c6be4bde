import HailortDrivers.BatchPattern
import HailortDrivers.ListLimits
import Mathlib.Algebra.Order.BigOperators.Group.List

/-!
What a batch of transfers programs, in the order of the stores. The range check is one of each
transfer, and between two of them the starting index of a circular list is reduced, so that a
batch of more descriptors than the list has programs the first ones again.
-/
namespace HailortDrivers.BatchOverlap
open KernelExec MachineWord VdmaTypes DescriptorProgramming SegmentSlicing
open DescriptorsListCreation ProgrammedPages BoundBuffers BatchPattern ListLimits ProgramIoctl

/-- The descriptors of one chunk, `k` being its `descs_to_program`: those of the loop up to the
last, and the last. -/
def chunkDescs (addrMask descIndex k : UInt32) : List Nat :=
  (List.range ((descIndex + k - 1).toNat - descIndex.toNat + 1)).map fun j =>
    ((descIndex + UInt32.ofNat j) &&& addrMask).toNat

/-- The descriptors of the parts of a buffer, one chunk after the other. -/
def partDescs (addrMask pageSize : UInt32) : UInt32 → List (Segment UInt64) → List Nat
  | _, [] => []
  | i, s :: ss =>
    let k := descsToProgram pageSize (UInt32.ofNat s.len)
    chunkDescs addrMask i k ++ partDescs addrMask pageSize (i + k) ss

/-- The descriptors at `descs` hold pages, and no other place is changed. -/
structure Stored (dataId : UInt8) (l l' : HailoVdmaDescriptorsList) (descs : List Nat) : Prop where
  stored : ∀ x ∈ descs, ∃ p, l'.descList x = pageDescriptor dataId p
  frame : ∀ x ∉ descs, l'.descList x = l.descList x

theorem Stored.nil (dataId : UInt8) (l : HailoVdmaDescriptorsList) : Stored dataId l l [] where
  stored _ hx := absurd hx List.not_mem_nil
  frame _ _ := rfl

theorem Stored.append {dataId : UInt8} {l l' l'' : HailoVdmaDescriptorsList} {a b : List Nat}
    (h : Stored dataId l l' a) (h' : Stored dataId l' l'' b) : Stored dataId l l'' (a ++ b) where
  stored x hx := by
    by_cases hb : x ∈ b
    · exact h'.stored x hb
    · rw [h'.frame x hb]
      exact h.stored x ((List.mem_append.mp hx).resolve_right hb)
  frame x hx := by
    rw [h'.frame x (fun hb => hx (List.mem_append_right a hb)),
      h.frame x (fun ha => hx (List.mem_append_left b ha))]

theorem storeParts_stored (dataId : UInt8) (addrMask pageSize stride i : UInt32)
    (maskedChannelId : UInt64) (l : HailoVdmaDescriptorsList) (ss : List (Segment UInt64)) :
    Stored dataId l (l.withDescs (storeParts addrMask pageSize stride maskedChannelId dataId i ss
      l.descList)) (partDescs addrMask pageSize i ss) := by
  induction ss generalizing i l with
  | nil => exact .nil dataId l
  | cons s ss ih =>
    let k := descsToProgram pageSize (UInt32.ofNat s.len)
    let pages := chunkPages pageSize.toUInt64 stride
      (lastChunkSize pageSize stride (UInt32.ofNat s.len)) ((i + k - 1).toNat - i.toNat)
      (s.base ||| maskedChannelId)
    have hlen : pages.length = (i + k - 1).toNat - i.toNat + 1 := length_chunkPages _ _ _ _ _
    have hchunk : Stored dataId l (l.withDescs (writePages addrMask dataId i pages l.descList))
        (chunkDescs addrMask i k) := by
      constructor
      · intro x hx
        obtain ⟨j, hj, rfl⟩ := List.mem_map.mp hx
        rw [List.mem_range, ← hlen] at hj
        exact writePages_of_hit (Q := fun d => ∃ p, d = pageDescriptor dataId p)
          (fun p _ => ⟨p, rfl⟩) hj rfl
      · intro x hx
        refine writePages_of_ne fun j hj hindex => hx ?_
        rw [hlen] at hj
        exact List.mem_map.mpr ⟨j, List.mem_range.mpr hj, hindex⟩
    exact hchunk.append (ih (i + k) (l.withDescs (writePages addrMask dataId i pages l.descList)))

theorem length_chunkDescs (addrMask : UInt32) {i k : UInt32} (h : i.toNat + k.toNat < 2 ^ 32) :
    k.toNat ≤ (chunkDescs addrMask i k).length ∧
      ((chunkDescs addrMask i k).length = k.toNat ↔ 0 < k.toNat) := by
  have hone : (1 : UInt32).toNat = 1 := rfl
  have hlt := i.toNat_lt
  rw [chunkDescs, List.length_map, List.length_range, UInt32.toNat_sub, UInt32.toNat_add, hone]
  omega

theorem chunkDescs_eq (addrMask : UInt32) {i k : UInt32} (h : i.toNat + k.toNat < 2 ^ 32)
    (hpos : 0 < k.toNat) :
    chunkDescs addrMask i k = (List.range k.toNat).map fun t =>
      ((i + UInt32.ofNat t) &&& addrMask).toNat := by
  have hlast : (i + k - 1).toNat - i.toNat + 1 = k.toNat := by
    rw [toNat_add_sub_one h (by omega)]
    omega
  rw [chunkDescs, hlast]

/-- The parts take as many descriptors as counted, or more: a part that counts for none is
stored all the same. -/
theorem length_partDescs {addrMask pageSize i : UInt32} {ss : List (Segment UInt64)}
    (h : i.toNat + partTotal pageSize ss < 2 ^ 32) :
    partTotal pageSize ss ≤ (partDescs addrMask pageSize i ss).length ∧
      ((partDescs addrMask pageSize i ss).length = partTotal pageSize ss →
        ∀ s ∈ ss, 0 < (descsToProgram pageSize (UInt32.ofNat s.len)).toNat) := by
  induction ss generalizing i with
  | nil => exact ⟨Nat.le_refl 0, fun _ s hs => absurd hs List.not_mem_nil⟩
  | cons s ss ih =>
    rw [partTotal_cons] at h
    obtain ⟨hchunk, hexact⟩ := @length_chunkDescs addrMask i _
      (Nat.lt_of_le_of_lt (Nat.add_le_add_left (Nat.le_add_right _ _) _) h)
    have hnext := toNat_add_of_lt (a := i)
      (b := descsToProgram pageSize (UInt32.ofNat s.len)) (by omega)
    obtain ⟨hle, hrest⟩ := ih (i := i + descsToProgram pageSize (UInt32.ofNat s.len)) (by omega)
    simp only [partDescs, List.length_append, partTotal_cons]
    refine ⟨Nat.add_le_add hchunk hle, fun hsum t ht => ?_⟩
    rcases List.mem_cons.mp ht with rfl | ht
    · exact hexact.mp (by omega)
    · exact hrest (by omega) t ht

theorem partDescs_eq {addrMask pageSize i : UInt32} {ss : List (Segment UInt64)}
    (h : i.toNat + partTotal pageSize ss < 2 ^ 32)
    (hpos : ∀ s ∈ ss, 0 < (descsToProgram pageSize (UInt32.ofNat s.len)).toNat) :
    partDescs addrMask pageSize i ss = (List.range (partTotal pageSize ss)).map fun t =>
      ((i + UInt32.ofNat t) &&& addrMask).toNat := by
  induction ss generalizing i with
  | nil => rfl
  | cons s ss ih =>
    rw [partTotal_cons] at h
    have hnext := toNat_add_of_lt (a := i)
      (b := descsToProgram pageSize (UInt32.ofNat s.len)) (by omega)
    simp only [partDescs]
    rw [chunkDescs_eq addrMask (by omega) (hpos s List.mem_cons_self),
      ih (by omega) fun t ht => hpos t (List.mem_cons_of_mem s ht), partTotal_cons, List.range_add,
      List.map_append, List.map_map]
    congr 1
    refine List.map_congr_left fun t _ => ?_
    simp only [Function.comp_apply, UInt32.ofNat_add, UInt32.ofNat_toNat, UInt32.add_assoc]

/-- No part of the buffer is so long that rounding it up to pages leaves 32 bits. -/
def RoundsUp (l : HailoVdmaDescriptorsList) (buffer : HailoVdmaMappedTransferBuffer) : Prop :=
  ∀ s ∈ boundSegments buffer, s.len + l.descPageSize.toNat ≤ 2 ^ 32

/-- The descriptors that binding the buffer programs, in order. -/
def transferDescs (l : HailoVdmaDescriptorsList) (startingDesc : UInt32)
    (buffer : HailoVdmaMappedTransferBuffer) : List Nat :=
  partDescs l.descCountMask l.descPageSize.toUInt32 startingDesc (boundSegments buffer)

/-- What binding the buffer returns. -/
def transferTotal (l : HailoVdmaDescriptorsList) (buffer : HailoVdmaMappedTransferBuffer) : Nat :=
  partTotal l.descPageSize.toUInt32 (boundSegments buffer)

/-- Where the descriptors of a transfer have to end. -/
def limit (l : HailoVdmaDescriptorsList) (startingDesc : UInt32) : Nat :=
  if l.isCircular then startingDesc.toNat + l.descCount.toNat else l.descCount.toNat

section Bind
variable {vdmaHw : HailoVdmaHw} {l l' : HailoVdmaDescriptorsList} {startingDesc : UInt32}
  {buffer : HailoVdmaMappedTransferBuffer} {channelIndex : UInt8}
  {lastDescInterrupts : HailoVdmaInterruptsDomain} {isDebug : Bool} {stride : UInt32} {n : Int32}

theorem len_le_of_mem_boundSegments {s : Segment UInt64} (hs : s ∈ boundSegments buffer) :
    s.len ≤ buffer.size.toNat := by
  have htotal := totalLen_boundSegments buffer
  have hle : s.len ≤ totalLen (boundSegments buffer) :=
    List.single_le_sum (fun _ _ => Nat.zero_le _) _ (List.mem_map_of_mem hs)
  omega

theorem len_lt_of_mem_boundSegments {s : Segment UInt64} (hs : s ∈ boundSegments buffer) :
    0 < s.len ∧ s.len < 2 ^ 32 :=
  ⟨len_pos_of_mem_slice hs, (len_le_of_mem_boundSegments hs).trans_lt buffer.size.toNat_lt⟩

theorem transferTotal_le (hP : 0 < l.descPageSize.toNat) :
    transferTotal l buffer ≤ buffer.size.toNat := by
  have hpage : 0 < l.descPageSize.toUInt32.toNat := by simpa using hP
  have htotal := totalLen_boundSegments buffer
  have hle : transferTotal l buffer ≤ totalLen (boundSegments buffer) := by
    refine List.sum_le_sum fun s hs => ?_
    obtain ⟨hpos, hlt⟩ := len_lt_of_mem_boundSegments hs
    have hcases := descsToProgram_cases hpage hpos hlt
    split at hcases
    · rw [hcases, ceilDiv_le_iff_le_mul hpage]
      exact Nat.le_mul_of_pos_left _ hpage
    · rw [hcases]
      exact Nat.zero_le _
  omega

theorem roundsUp_iff (hP : 0 < l.descPageSize.toNat) :
    RoundsUp l buffer ↔ ∀ s ∈ boundSegments buffer,
      0 < (descsToProgram l.descPageSize.toUInt32 (UInt32.ofNat s.len)).toNat := by
  have hpage : l.descPageSize.toUInt32.toNat = l.descPageSize.toNat := by simp
  refine forall₂_congr fun s hs => ?_
  obtain ⟨hpos, hlt⟩ := len_lt_of_mem_boundSegments hs
  rw [descsToProgram_pos_iff (hpage ▸ hP) hpos hlt, hpage]

theorem roundsUp_of_size (h : buffer.size.toNat + l.descPageSize.toNat ≤ 2 ^ 32) :
    RoundsUp l buffer := fun _ hs =>
  (Nat.add_le_add_right (len_le_of_mem_boundSegments hs) _).trans h

theorem RoundsUp.transferTotal_eq (hP : 0 < l.descPageSize.toNat) (h : RoundsUp l buffer) :
    transferTotal l buffer = descsNeeded l buffer := by
  have hpage : l.descPageSize.toUInt32.toNat = l.descPageSize.toNat := by simp
  refine congrArg List.sum (List.map_congr_left fun s hs => ?_)
  obtain ⟨hpos, hlt⟩ := len_lt_of_mem_boundSegments hs
  have hcases := descsToProgram_cases (hpage ▸ hP) hpos hlt
  rw [hpage, if_pos (h s hs)] at hcases
  exact hcases

/-- When binding at `startingDesc` succeeds, the stride apart. -/
structure Placed (l : HailoVdmaDescriptorsList) (startingDesc : UInt32)
    (buffer : HailoVdmaMappedTransferBuffer) : Prop where
  offset_dvd : l.descPageSize.toNat ∣ buffer.offset.toNat
  start_lt : startingDesc.toNat < l.descCount.toNat
  covered : totalLen (boundSegments buffer) = buffer.size.toNat
  total_lt : transferTotal l buffer < 2 ^ 31
  inRange : startingDesc.toNat + transferTotal l buffer ≤ limit l startingDesc

/-- What a call that binds and does not fail has done. -/
structure Bound (vdmaHw : HailoVdmaHw) (l l' : HailoVdmaDescriptorsList) (startingDesc : UInt32)
    (buffer : HailoVdmaMappedTransferBuffer) (n : Int32) : Prop where
  placed : Placed l startingDesc buffer
  returns : n.toInt = transferTotal l buffer
  stored : ∃ l₁ last bitmask, Stored vdmaHw.ddrDataId l l₁ (transferDescs l startingDesc buffer) ∧
    l' = orPageSizeDescControl l₁ last bitmask

theorem bindFromStart_bound (hwf : WellFormed l) (hP : 0 < l.descPageSize.toNat)
    (hoffset : l.descPageSize.toNat ∣ buffer.offset.toNat)
    (hstart : startingDesc.toNat < l.descCount.toNat) (hn : 0 ≤ n.toInt)
    (h : bindFromStart vdmaHw l startingDesc buffer channelIndex lastDescInterrupts isDebug
      stride = .ok (n, l')) : Bound vdmaHw l l' startingDesc buffer n := by
  have hmax : l.descCount.toNat ≤ 2 ^ 31 := UInt32.le_iff_toNat_le.mp hwf.count_le
  have hpage : 0 < l.descPageSize.toUInt32.toNat := by simpa using hP
  obtain ⟨c, hwalk, hdone, rfl, rfl⟩ := bindFromStart_nonneg hn h
  obtain ⟨hcov, -, hcount, hrange, hlist⟩ :
      Stores l.descPageSize.toUInt32 _ _ vdmaHw.ddrDataId _ _ c (boundSegments buffer) :=
    walk_stores rfl hpage hwalk hdone
  have htotal : partTotal l.descPageSize.toUInt32 (boundSegments buffer) =
      transferTotal l buffer := rfl
  rw [htotal] at hcount hrange
  rw [Int32.zero_add] at hcount
  dsimp only at hrange
  have hword : (UInt32.ofNat (transferTotal l buffer)).toNat = transferTotal l buffer :=
    toNat_ofNat_of_lt (Nat.lt_of_le_of_lt (transferTotal_le hP) buffer.size.toNat_lt)
  have hsmall : transferTotal l buffer < 2 ^ 31 := by
    rwa [hcount, toInt32_nonneg_iff, hword] at hn
  have hroom : startingDesc.toNat + transferTotal l buffer ≤ limit l startingDesc := by
    by_cases hnil : boundSegments buffer = []
    · rw [transferTotal, hnil, partTotal_nil, limit]
      split <;> omega
    · exact (hrange hnil (by omega)).trans_eq (maxDescIndex_succ hstart hwf)
  refine ⟨⟨hoffset, hstart, hcov, hsmall, hroom⟩, ?_, _, _, _,
    hlist ▸ storeParts_stored _ _ _ _ _ _ _ _, rfl⟩
  rw [hcount, toInt_toInt32_of_lt (by omega), hword]

theorem bind_bound (hwf : WellFormed l) (hP : 0 < l.descPageSize.toNat) (hn : 0 ≤ n.toInt)
    (h : bindAndProgramDescriptorsList vdmaHw l startingDesc buffer channelIndex
      lastDescInterrupts isDebug stride = .ok (n, l')) :
    StrideTaken l buffer stride ∧ Bound vdmaHw l l' startingDesc buffer n := by
  by_cases hok : l.descPageSize.toNat ∣ buffer.offset.toNat ∧
      startingDesc.toNat < l.descCount.toNat ∧ StrideTaken l buffer stride
  · obtain ⟨hoffset, hstart, hstride⟩ := hok
    rw [bind_taken hP hoffset hstart hstride] at h
    exact ⟨hstride, bindFromStart_bound hwf hP hoffset hstart hn h⟩
  · rw [bind_turnedDown hP hok] at h
    cases h
    exact absurd hn (by decide)

theorem pageSize_pos_of_bind
    (h : bindAndProgramDescriptorsList vdmaHw l startingDesc buffer channelIndex
      lastDescInterrupts isDebug stride = .ok (n, l')) : 0 < l.descPageSize.toNat := by
  obtain ⟨residue, hresidue, -⟩ := bind_ok h
  simpa using toNat_pos_iff.mpr (umod_ok hresidue).1

end Bind

/-- The words of two descriptors agree but for the one with the size and the interrupt bits. -/
def SameAddress (d e : HailoVdmaDescriptor) : Prop :=
  d.addrLRsvdDataID = e.addrLRsvdDataID ∧ d.addrH = e.addrH ∧
    d.remainingPageSizeStatus = e.remainingPageSizeStatus

theorem SameAddress.trans {d e f : HailoVdmaDescriptor} (h : SameAddress d e)
    (h' : SameAddress e f) : SameAddress d f :=
  ⟨h.1.trans h'.1, h.2.1.trans h'.2.1, h.2.2.trans h'.2.2⟩

theorem sameAddress_or (l : HailoVdmaDescriptorsList) (last : UInt32) (bitmask : UInt64) (x : Nat) :
    SameAddress ((orPageSizeDescControl l last bitmask).descList x) (l.descList x) := by
  rw [orPageSizeDescControl]
  by_cases hx : x = last.toNat
  · subst hx
    simp only [HailoVdmaDescriptorsList.store, HailoVdmaDescriptorsList.withDescs_descList,
      Function.update_self]
    exact ⟨rfl, rfl, rfl⟩
  · simp only [HailoVdmaDescriptorsList.store, HailoVdmaDescriptorsList.withDescs_descList,
      Function.update_of_ne hx]
    exact ⟨rfl, rfl, rfl⟩

/-- The descriptors at `xs` are programmed with pages, and no other one is. -/
structure Programmed (dataId : UInt8) (l l' : HailoVdmaDescriptorsList) (xs : List Nat) : Prop where
  inside : ∀ x ∈ xs, ∃ p, SameAddress (l'.descList x) (pageDescriptor dataId p)
  outside : ∀ x ∉ xs, SameAddress (l'.descList x) (l.descList x)

theorem Programmed.nil (dataId : UInt8) (l : HailoVdmaDescriptorsList) :
    Programmed dataId l l [] where
  inside _ hx := absurd hx List.not_mem_nil
  outside _ _ := ⟨rfl, rfl, rfl⟩

theorem Programmed.append {dataId : UInt8} {l l' l'' : HailoVdmaDescriptorsList} {a b : List Nat}
    (h : Programmed dataId l l' a) (h' : Programmed dataId l' l'' b) :
    Programmed dataId l l'' (a ++ b) where
  inside x hx := by
    by_cases hb : x ∈ b
    · exact h'.inside x hb
    · obtain ⟨p, hp⟩ := h.inside x ((List.mem_append.mp hx).resolve_right hb)
      exact ⟨p, (h'.outside x hb).trans hp⟩
  outside x hx :=
    (h'.outside x fun hb => hx (List.mem_append_right a hb)).trans
      (h.outside x fun ha => hx (List.mem_append_left b ha))

theorem Bound.programmed {vdmaHw : HailoVdmaHw} {l l' : HailoVdmaDescriptorsList}
    {startingDesc : UInt32} {buffer : HailoVdmaMappedTransferBuffer} {n : Int32}
    (h : Bound vdmaHw l l' startingDesc buffer n) :
    Programmed vdmaHw.ddrDataId l l' (transferDescs l startingDesc buffer) := by
  obtain ⟨l₁, last, bitmask, hstored, rfl⟩ := h.stored
  constructor
  · intro x hx
    obtain ⟨p, hp⟩ := hstored.stored x hx
    exact ⟨p, hp ▸ sameAddress_or l₁ last bitmask x⟩
  · intro x hx
    rw [← hstored.frame x hx]
    exact sameAddress_or l₁ last bitmask x

/-- A transfer of a batch: the descriptor it starts at, and its part of the mapped buffer. -/
structure BatchTransfer where
  startingDesc : UInt32
  buffer : HailoVdmaMappedTransferBuffer

def BatchTransfer.descs (l : HailoVdmaDescriptorsList) (t : BatchTransfer) : List Nat :=
  transferDescs l t.startingDesc t.buffer

/-- Transfers that follow each other from `startingDesc` and `offset` on, each within the limit
of the range check. -/
inductive Chain (l : HailoVdmaDescriptorsList) (sgTable : SgTable) (transferSize : UInt32) :
    UInt32 → UInt32 → List BatchTransfer → Prop
  | nil (startingDesc offset : UInt32) : Chain l sgTable transferSize startingDesc offset []
  | cons {startingDesc offset next : UInt32} {k : Nat} {ts : List BatchTransfer}
      (pageSize : 0 < l.descPageSize.toNat)
      (start_lt : startingDesc.toNat < l.descCount.toNat)
      (total : transferTotal l ⟨sgTable, transferSize, offset, 0⟩ = k)
      (inRange : startingDesc.toNat + k ≤ limit l startingDesc)
      (follows : next.toNat % l.descCount.toNat = (startingDesc.toNat + k) % l.descCount.toNat)
      (rest : Chain l sgTable transferSize next
        (offset + UInt32.ofNat k * l.descPageSize.toUInt32) ts) :
      Chain l sgTable transferSize startingDesc offset
        (⟨startingDesc, ⟨sgTable, transferSize, offset, 0⟩⟩ :: ts)

theorem Chain.ofDescs {l : HailoVdmaDescriptorsList} {descs : Nat → HailoVdmaDescriptor}
    {sgTable : SgTable} {transferSize startingDesc offset : UInt32} {ts : List BatchTransfer}
    (h : Chain (l.withDescs descs) sgTable transferSize startingDesc offset ts) :
    Chain l sgTable transferSize startingDesc offset ts := by
  induction h with
  | nil startingDesc offset => exact .nil startingDesc offset
  | cons pageSize start_lt total inRange follows _ ih =>
    exact .cons pageSize start_lt total inRange follows ih

section Batch
variable (vdmaHw : HailoVdmaHw) (sgTable : SgTable) (transferSize : UInt32) (channelIndex : UInt8)
  (lastDescInterrupts : HailoVdmaInterruptsDomain) (isDebug : Bool) (stride : UInt32)

/-- The transfers of a batch that binds, as many as are programmed without an error. -/
def batchTransfers : Nat → BatchCursor → Exec (List BatchTransfer)
  | 0, _ => .ok []
  | rounds + 1, c => do
    let (ret, descList) ← hailoVdmaProgramDescriptorsList vdmaHw c.descList c.startingDesc
      ⟨sgTable, transferSize, c.offset, 0⟩ true channelIndex
      (if rounds = 0 then lastDescInterrupts else hailoVdmaInterruptsDomainNone) isDebug stride
    if ret < 0 then
      return []
    let startingDesc ← nextStartingDesc descList (c.startingDesc + ret.toUInt32)
    let transfers ← batchTransfers rounds
      { offset := c.offset + ret.toUInt32 * descList.descPageSize.toUInt32
        startingDesc := startingDesc
        totalDescProgrammed := c.totalDescProgrammed + ret
        descList := descList }
    return ⟨c.startingDesc, ⟨sgTable, transferSize, c.offset, 0⟩⟩ :: transfers

end Batch

section Run
variable {vdmaHw : HailoVdmaHw} {sgTable : SgTable} {transferSize : UInt32} {channelIndex : UInt8}
  {lastDescInterrupts : HailoVdmaInterruptsDomain} {isDebug : Bool} {stride : UInt32}

/-- By induction on the rounds, each call that does not fail being one more transfer. -/
theorem programBatch_chain {rounds : Nat} {c : BatchCursor} {n : Int32}
    {l' : HailoVdmaDescriptorsList} (hwf : WellFormed c.descList) (hn : 0 ≤ n.toInt)
    (h : programBatch vdmaHw sgTable transferSize true channelIndex lastDescInterrupts isDebug
      stride rounds c = .ok (n, l')) :
    ∃ ts, batchTransfers vdmaHw sgTable transferSize channelIndex lastDescInterrupts isDebug stride
        rounds c = .ok ts ∧
      ts.length = rounds ∧
      Chain c.descList sgTable transferSize c.startingDesc c.offset ts ∧
      n.toUInt32 = c.totalDescProgrammed.toUInt32 +
        UInt32.ofNat (ts.map fun t => transferTotal c.descList t.buffer).sum ∧
      Programmed vdmaHw.ddrDataId c.descList l' (ts.flatMap (·.descs c.descList)) := by
  induction rounds generalizing c with
  | zero =>
    cases h
    exact ⟨[], rfl, rfl, .nil _ _, by simp, .nil _ _⟩
  | succ rounds ih =>
    obtain ⟨⟨ret, descList⟩, hcall, h⟩ := bind_ok h
    simp only at h
    split at h
    · next hneg =>
      cases h
      exact absurd hn (not_le.mpr (Int32.lt_iff_toInt_lt.mp hneg))
    · next hnonneg =>
      obtain ⟨startingDesc, hnext, h⟩ := bind_ok h
      have hret : 0 ≤ ret.toInt := by
        by_contra hneg
        exact hnonneg (Int32.lt_iff_toInt_lt.mpr (not_le.mp hneg))
      have hP := pageSize_pos_of_bind hcall
      obtain ⟨-, hbound⟩ := bind_bound hwf hP hret hcall
      obtain ⟨descs, rfl⟩ := bindAndProgramDescriptorsList_sameShape hcall
      have hmax : c.descList.descCount.toNat ≤ 2 ^ 31 := UInt32.le_iff_toNat_le.mp hwf.count_le
      have hstart := hbound.placed.start_lt
      have hword : ret.toUInt32.toNat =
          transferTotal c.descList ⟨sgTable, transferSize, c.offset, 0⟩ := by
        have hnat := toUInt32_toNat_of_nonneg hret
        have hreturns := hbound.returns
        omega
      have hsmall : ret.toUInt32.toNat < 2 ^ 31 :=
        toInt32_nonneg_iff.mp (by rwa [Int32.toInt32_toUInt32])
      have hsum : (c.startingDesc + ret.toUInt32).toNat =
          c.startingDesc.toNat + ret.toUInt32.toNat := toNat_add_of_lt (by omega)
      have hnextOk : ∃ next, nextStartingDesc (c.descList.withDescs descs)
          (c.startingDesc + ret.toUInt32) = .ok next ∧
          next.toNat % c.descList.descCount.toNat = _ % c.descList.descCount.toNat ∧ _ :=
        nextStartingDesc_ok (Nat.zero_lt_of_lt hstart)
      obtain ⟨next, hnext', hmod, -⟩ := hnextOk
      obtain rfl : next = startingDesc := Except.ok.inj (hnext'.symm.trans hnext)
      obtain ⟨ts, hts, hlen, hchain, htotal, hprogrammed⟩ := ih (by exact hwf.withDescs descs) h
      rw [hsum, hword] at hmod
      refine ⟨⟨c.startingDesc, ⟨sgTable, transferSize, c.offset, 0⟩⟩ :: ts, ?_, ?_, ?_, ?_, ?_⟩
      · rw [batchTransfers, hcall, ok_bind]
        simp only [if_neg hnonneg, hnext, ok_bind]
        rw [hts]
        rfl
      · rw [List.length_cons, hlen]
      · refine .cons hP hstart rfl hbound.placed.inRange hmod ?_
        rw [← hword, UInt32.ofNat_toNat]
        exact hchain.ofDescs
      · rw [htotal, Int32.toUInt32_add, List.map_cons, List.sum_cons, UInt32.ofNat_add, ← hword,
          UInt32.ofNat_toNat, UInt32.add_assoc]
        rfl
      · exact hbound.programmed.append hprogrammed

end Run

/-- The parts of the mapped buffer that the transfers of a batch take. -/
def transferBuffers (l : HailoVdmaDescriptorsList) (sgTable : SgTable) (transferSize : UInt32) :
    Nat → UInt32 → List HailoVdmaMappedTransferBuffer
  | 0, _ => []
  | rounds + 1, offset =>
    let buffer : HailoVdmaMappedTransferBuffer := ⟨sgTable, transferSize, offset, 0⟩
    buffer :: transferBuffers l sgTable transferSize rounds
      (offset + UInt32.ofNat (descsNeeded l buffer) * l.descPageSize.toUInt32)

theorem size_of_mem_transferBuffers {l : HailoVdmaDescriptorsList} {sgTable : SgTable}
    {transferSize offset : UInt32} {rounds : Nat} {buffer : HailoVdmaMappedTransferBuffer}
    (h : buffer ∈ transferBuffers l sgTable transferSize rounds offset) :
    buffer.size = transferSize := by
  induction rounds generalizing offset with
  | zero => exact absurd h List.not_mem_nil
  | succ rounds ih =>
    rcases List.mem_cons.mp h with rfl | h
    · rfl
    · exact ih h

/-- The list has a descriptor for each page of the batch. -/
def RoomForBatch (l : HailoVdmaDescriptorsList) (sgTable : SgTable)
    (transferSize offset batchSize : UInt32) : Prop :=
  (∀ buffer ∈ transferBuffers l sgTable transferSize batchSize.toNat offset, RoundsUp l buffer) ∧
    ((transferBuffers l sgTable transferSize batchSize.toNat offset).map (descsNeeded l)).sum ≤
      l.descCount.toNat

/-- `n` counts what the transfers program, within the list and no descriptor in two of them. -/
structure NeverOverwrites (l : HailoVdmaDescriptorsList) (ts : List BatchTransfer) (n : Int32) :
    Prop where
  total : n.toInt = (ts.flatMap (·.descs l)).length
  inList : n.toInt ≤ l.descCount.toNat
  apart : ts.Pairwise fun t u => ∀ x ∈ t.descs l, x ∉ u.descs l

section Chain
variable {l : HailoVdmaDescriptorsList} {sgTable : SgTable}
  {transferSize startingDesc offset : UInt32} {ts : List BatchTransfer}

theorem transfer_noWrap {startingDesc : UInt32} {k : Nat} (hwf : WellFormed l)
    (hstart : startingDesc.toNat < l.descCount.toNat)
    (hroom : startingDesc.toNat + k ≤ limit l startingDesc) : startingDesc.toNat + k < 2 ^ 32 := by
  have hmax : l.descCount.toNat ≤ 2 ^ 31 := UInt32.le_iff_toNat_le.mp hwf.count_le
  rw [limit] at hroom
  split at hroom <;> omega

theorem Chain.length_descs (hwf : WellFormed l)
    (h : Chain l sgTable transferSize startingDesc offset ts) :
    (ts.map fun t => transferTotal l t.buffer).sum ≤ (ts.flatMap (·.descs l)).length ∧
      ((ts.flatMap (·.descs l)).length = (ts.map fun t => transferTotal l t.buffer).sum →
        ∀ t ∈ ts, RoundsUp l t.buffer) := by
  induction h with
  | nil => exact ⟨Nat.le_refl 0, fun _ t ht => absurd ht List.not_mem_nil⟩
  | @cons startingDesc offset next k ts pageSize start_lt total inRange follows _ ih =>
    obtain ⟨hle, hrest⟩ := ih
    have hwrap := transfer_noWrap hwf start_lt inRange
    rw [← total] at hwrap
    obtain ⟨hfirst, hexact⟩ := @length_partDescs l.descCountMask l.descPageSize.toUInt32
      startingDesc (boundSegments ⟨sgTable, transferSize, offset, 0⟩) hwrap
    simp only [List.map_cons, List.sum_cons, List.flatMap_cons, List.length_append,
      BatchTransfer.descs, transferTotal, transferDescs] at hle hrest ⊢
    refine ⟨Nat.add_le_add hfirst hle, fun hsum t ht => ?_⟩
    rcases List.mem_cons.mp ht with rfl | ht
    · exact (roundsUp_iff pageSize).mpr (hexact (by omega))
    · exact hrest (by omega) t ht

/-- Where every part rounds up, the batch goes through the list from its first descriptor on. -/
theorem Chain.descs_eq (hwf : WellFormed l)
    (h : Chain l sgTable transferSize startingDesc offset ts)
    (hrounds : ∀ t ∈ ts, RoundsUp l t.buffer) :
    ts.flatMap (·.descs l) = (List.range (ts.map fun t => transferTotal l t.buffer).sum).map
      fun x => (startingDesc.toNat + x) % l.descCount.toNat := by
  induction h with
  | nil => rfl
  | @cons startingDesc offset next k ts pageSize start_lt total inRange follows _ ih =>
    have hwrap := transfer_noWrap hwf start_lt inRange
    rw [← total] at hwrap inRange follows
    have hcount : l.descCount ≠ 0 := toNat_pos_iff.mp (Nat.zero_lt_of_lt start_lt)
    have hfirst : transferDescs l startingDesc ⟨sgTable, transferSize, offset, 0⟩ =
        (List.range (transferTotal l ⟨sgTable, transferSize, offset, 0⟩)).map
          fun x => (startingDesc.toNat + x) % l.descCount.toNat := by
      rw [transferDescs, partDescs_eq hwrap ((roundsUp_iff pageSize).mp
        (hrounds ⟨startingDesc, _⟩ List.mem_cons_self))]
      refine List.map_congr_left fun x hx => ?_
      have hx : x < transferTotal l ⟨sgTable, transferSize, offset, 0⟩ := List.mem_range.mp hx
      exact indicesAt_of_wellFormed hwf hcount (n := transferTotal l _) (Nat.le_of_lt hwrap)
        (by
          rw [limit] at inRange
          cases hcirc : l.isCircular with
          | true => exact Or.inl rfl
          | false =>
            rw [hcirc, if_neg Bool.false_ne_true] at inRange
            exact Or.inr inRange) x hx
    rw [List.flatMap_cons, BatchTransfer.descs, hfirst, ih fun t ht => hrounds t
      (List.mem_cons_of_mem _ ht), List.map_cons, List.sum_cons, List.range_add, List.map_append,
      List.map_map]
    congr 1
    refine List.map_congr_left fun x _ => ?_
    simp only [Function.comp_apply]
    rw [Nat.add_mod, follows, ← Nat.add_mod, Nat.add_assoc]

theorem Chain.buffers_eq (h : Chain l sgTable transferSize startingDesc offset ts)
    (hrounds : ∀ t ∈ ts, RoundsUp l t.buffer) :
    ts.map BatchTransfer.buffer = transferBuffers l sgTable transferSize ts.length offset := by
  induction h with
  | nil => rfl
  | cons pageSize start_lt total inRange follows _ ih =>
    have hneeded := (hrounds _ List.mem_cons_self).transferTotal_eq pageSize
    rw [total] at hneeded
    rw [List.map_cons, List.length_cons, transferBuffers, ← hneeded,
      ih fun t ht => hrounds t (List.mem_cons_of_mem _ ht)]

theorem Chain.roundsUp (h : Chain l sgTable transferSize startingDesc offset ts)
    (hrounds : ∀ buffer ∈ transferBuffers l sgTable transferSize ts.length offset,
      RoundsUp l buffer) : ∀ t ∈ ts, RoundsUp l t.buffer := by
  induction h with
  | nil => exact fun t ht => absurd ht List.not_mem_nil
  | @cons startingDesc offset next k ts pageSize start_lt total inRange follows _ ih =>
    rw [List.length_cons, transferBuffers] at hrounds
    have hfirst : RoundsUp l ⟨sgTable, transferSize, offset, 0⟩ := hrounds _ List.mem_cons_self
    rw [← hfirst.transferTotal_eq pageSize, total] at hrounds
    intro t ht
    rcases List.mem_cons.mp ht with rfl | ht
    · exact hfirst
    · exact ih (fun buffer hb => hrounds buffer (List.mem_cons_of_mem _ hb)) t ht

theorem Chain.pageSize (h : Chain l sgTable transferSize startingDesc offset ts)
    {t : BatchTransfer} (ht : t ∈ ts) : 0 < l.descPageSize.toNat := by
  cases h with
  | nil => exact absurd ht List.not_mem_nil
  | cons pageSize => exact pageSize

theorem Chain.sum_eq (h : Chain l sgTable transferSize startingDesc offset ts)
    (hrounds : ∀ t ∈ ts, RoundsUp l t.buffer) :
    (ts.map fun t => transferTotal l t.buffer).sum =
      ((transferBuffers l sgTable transferSize ts.length offset).map (descsNeeded l)).sum := by
  rw [← h.buffers_eq hrounds, List.map_map]
  exact congrArg List.sum (List.map_congr_left fun t ht =>
    (hrounds t ht).transferTotal_eq (h.pageSize ht))

/-- Places one after the other that the list has room for are different places. -/
theorem nodup_places {N start k : Nat} (hk : k ≤ N) :
    ((List.range k).map fun x => (start + x) % N).Nodup := by
  refine List.nodup_range.map_on fun x hx y hy heq => ?_
  by_contra hne
  rw [List.mem_range] at hx hy
  exact ModularWindow.add_mod_ne (by omega) (by omega) hne heq

theorem apart_of_nodup (h : (ts.flatMap (·.descs l)).Nodup) :
    ts.Pairwise fun t u => ∀ x ∈ t.descs l, x ∉ u.descs l :=
  (List.nodup_flatMap.mp h).2.imp fun hdisjoint _ ht hu => hdisjoint ht hu

end Chain

/-- A batch that returns a count never overwrites itself exactly if the list has a descriptor
for each of its pages. -/
theorem hailoVdmaProgramDescriptorsListBatch_neverOverwrites_iff {vdmaHw : HailoVdmaHw}
    {sgTable : SgTable} {transferSize : UInt32} {channelIndex : UInt8}
    {lastDescInterrupts : HailoVdmaInterruptsDomain} {isDebug : Bool} {stride : UInt32}
    {l l' : HailoVdmaDescriptorsList} {startingDesc bufferOffset batchSize : UInt32} {n : Int32}
    (hwf : WellFormed l)
    (h : hailoVdmaProgramDescriptorsListBatch vdmaHw sgTable transferSize true channelIndex
      lastDescInterrupts isDebug stride l startingDesc bufferOffset batchSize = .ok (n, l'))
    (hn : 0 ≤ n.toInt) :
    ∃ ts, batchTransfers vdmaHw sgTable transferSize channelIndex lastDescInterrupts isDebug stride
        batchSize.toNat ⟨bufferOffset, startingDesc, 0, l⟩ = .ok ts ∧
      Programmed vdmaHw.ddrDataId l l' (ts.flatMap (·.descs l)) ∧
      (NeverOverwrites l ts n ↔ RoomForBatch l sgTable transferSize bufferOffset batchSize) := by
  obtain ⟨ts, hts, hlen, hchain, htotal, hprogrammed⟩ := programBatch_chain hwf hn h
  have hchain : Chain l sgTable transferSize startingDesc bufferOffset ts := hchain
  refine ⟨ts, hts, hprogrammed, ?_⟩
  have hmax : l.descCount.toNat ≤ 2 ^ 31 := UInt32.le_iff_toNat_le.mp hwf.count_le
  have hnat := toUInt32_toNat_of_nonneg hn
  have hsmall : n.toUInt32.toNat < 2 ^ 31 :=
    toInt32_nonneg_iff.mp (by rwa [Int32.toInt32_toUInt32])
  have hword : n.toUInt32.toNat = (ts.map fun t => transferTotal l t.buffer).sum % 2 ^ 32 := by
    rw [htotal, show (0 : Int32).toUInt32 = 0 from rfl, UInt32.zero_add, UInt32.toNat_ofNat']
  obtain ⟨hle, hexact⟩ := hchain.length_descs hwf
  rw [RoomForBatch, ← hlen]
  constructor
  · intro hnever
    have hcount := hnever.total
    have hinList := hnever.inList
    -- The count is below 2 ^ 31, and so nothing was lost in adding it up.
    have hsum : (ts.map fun t => transferTotal l t.buffer).sum =
        (ts.flatMap (·.descs l)).length := by omega
    have hrounds := hexact hsum.symm
    refine ⟨?_, ?_⟩
    · rw [← hchain.buffers_eq hrounds]
      intro buffer hb
      obtain ⟨t, ht, rfl⟩ := List.mem_map.mp hb
      exact hrounds t ht
    · rw [← hchain.sum_eq hrounds]
      omega
  · rintro ⟨hrounds, hroom⟩
    have hrounds := hchain.roundsUp hrounds
    rw [← hchain.sum_eq hrounds] at hroom
    have hdescs := hchain.descs_eq hwf hrounds
    refine ⟨?_, by omega, apart_of_nodup (hdescs ▸ nodup_places hroom)⟩
    rw [hdescs, List.length_map, List.length_range]
    omega

/-- One entry of 384 bytes: six pages of a list of four descriptors. -/
def sixPages : SgTable := ⟨0, [⟨0x1000, 384⟩]⟩

/-- Three transfers of two pages go round a list of four, where two of them go just round. -/
theorem ringOfFour_overwritten :
    (∃ l' ts, hailoVdmaProgramDescriptorsListBatch hailoPcieVdmaHw sixPages 128 true 0
        hailoVdmaInterruptsDomainHost false defaultStride ringOfFour 0 0 3 = .ok (6, l') ∧
      batchTransfers hailoPcieVdmaHw sixPages 128 0 hailoVdmaInterruptsDomainHost false
        defaultStride 3 ⟨0, 0, 0, ringOfFour⟩ = .ok ts ∧
      ¬ NeverOverwrites ringOfFour ts 6) :=
  ⟨_, _, rfl, rfl, fun h => absurd h.inList (by decide)⟩

theorem hailoVdmaProgramDescriptorsListBatch_neverOverwrites_iff_ringOfFour :
    ∃ l' ts, hailoVdmaProgramDescriptorsListBatch hailoPcieVdmaHw sixPages 128 true 0
        hailoVdmaInterruptsDomainHost false defaultStride ringOfFour 3 0 2 = .ok (4, l') ∧
      batchTransfers hailoPcieVdmaHw sixPages 128 0 hailoVdmaInterruptsDomainHost false
        defaultStride 2 ⟨0, 3, 0, ringOfFour⟩ = .ok ts ∧
      Programmed hailoPcieVdmaHw.ddrDataId ringOfFour l' (ts.flatMap (·.descs ringOfFour)) ∧
      NeverOverwrites ringOfFour ts 4 := by
  obtain ⟨l', hrun⟩ : ∃ l', hailoVdmaProgramDescriptorsListBatch hailoPcieVdmaHw sixPages 128 true 0
      hailoVdmaInterruptsDomainHost false defaultStride ringOfFour 3 0 2 = .ok (4, l') := ⟨_, rfl⟩
  obtain ⟨ts, hts, hprogrammed, hiff⟩ :=
    hailoVdmaProgramDescriptorsListBatch_neverOverwrites_iff ringOfFour_wellFormed hrun (by decide)
  refine ⟨l', ts, hrun, hts, hprogrammed, hiff.mpr ⟨?_, by decide⟩⟩
  intro buffer hbuffer
  refine roundsUp_of_size ?_
  rw [size_of_mem_transferBuffers hbuffer]
  decide

end HailortDrivers.BatchOverlap
