import HailortDrivers.FirmwareLogRuns

/-!
Which words of the device and which bytes of the host one call of
`hailo_read_firmware_log` touches, for any two offset words. The code bounds
neither offset; reading stays inside the log exactly when `host_offset` is at
most 4088 or nothing is ready.
-/
namespace HailortDrivers.FirmwareLogBounds
open LittleEndian ResourceAccess ByteViews CircularBuffer FirmwareLog FirmwareLogRuns

/-- Plain memory that records the address of every word it is asked for. -/
structure Traced where
  memory : Nat → UInt8
  words : List Nat

def tracedRam : Mmio Traced where
  ioread32 := fun address s =>
    (wordAt s.memory address, { s with words := address :: s.words })
  iowrite32 := fun word address s =>
    { memory := overlay s.memory address (wordBytes word), words := address :: s.words }

def tracedRead (resource : LogResource) (debugBufferHeader : Nat) (params : HailoReadLogParams)
    (memory : Nat → UInt8) : LogRead Traced :=
  hailoReadFirmwareLog tracedRam resource.toHailoResource debugBufferHeader params ⟨memory, []⟩

def InLog (resource : LogResource) (word : Nat) : Prop :=
  resource.address ≤ word ∧ word + 4 ≤ resource.address + 4096

/-- Every word lies in the log, every stored byte in the first `buffer_size` bytes of
`buffer`, and `read_bytes` is at most `buffer_size`. -/
structure Safe (resource : LogResource) (params : HailoReadLogParams) (r : LogRead Traced) :
    Prop where
  words_in : ∀ word ∈ r.device.words, InLog resource word
  stores_in : ∀ store ∈ r.stores, params.buffer ≤ store.address ∧
    store.address + store.bytes.length ≤ params.buffer + params.bufferSize.toNat
  stored_le : (r.stores.map fun store => store.bytes.length).sum ≤ params.bufferSize.toNat
  readBytes_le : r.params.readBytes.toNat ≤ params.bufferSize.toNat

section
variable {resource : LogResource} {memory : Nat → UInt8}

/-- The words seen so far lie in the log, and the log was not written. -/
structure ReadOnly (resource : LogResource) (memory : Nat → UInt8) (s : Traced) : Prop where
  memory_eq : s.memory = memory
  words_in : ∀ word ∈ s.words, InLog resource word

theorem readsAs_log (resource : LogResource) (memory : Nat → UInt8) :
    ReadsAs tracedRam resource.address 4096 (ReadOnly resource memory)
      (logBytes resource memory) := by
  intro s x hs halign hx
  refine ⟨?_, hs.memory_eq, fun word hword => ?_⟩
  · refine wordAt_congr fun i _ => ?_
    rw [hs.memory_eq, logBytes, Nat.add_assoc]
  · rcases List.mem_cons.mp hword with rfl | hword
    · exact ⟨Nat.le_add_right _ _, by omega⟩
    · exact hs.words_in word hword

/-- The call reads the two offset words and goes on with them. -/
theorem tracedRead_eq (resource : LogResource) (memory : Nat → UInt8)
    {params : HailoReadLogParams} (hsize : params.bufferSize.toNat ≤ 512)
    (debugBufferHeader : Nat) :
    ∃ s, ReadOnly resource memory s ∧
      tracedRead resource debugBufferHeader params memory =
        readReadyLog tracedRam resource.toHailoResource params
          (headerOf (logBytes resource memory)) s := by
  have hstart : ReadOnly resource memory ⟨memory, []⟩ := ⟨rfl, fun word hword => by cases hword⟩
  have hnotBig : ¬ params.bufferSize > maxFwLogBufferLength := by
    rw [gt_iff_lt, UInt64.lt_iff_toNat_lt]
    exact Nat.not_lt.mpr hsize
  have hbytes := hailoResourceReadBuffer_reads resource.mapped (readsAs_log resource memory)
    8 0 debugBufferHeader
    ⟨memory, []⟩ (by decide) hstart
  refine ⟨_, hailoResourceReadBuffer_keeps resource.mapped (readsAs_log resource memory).keeps
    8 0 debugBufferHeader
    ⟨memory, []⟩ (by decide) hstart, ?_⟩
  rw [tracedRead, hailoReadFirmwareLog, if_neg hnotBig]
  simp only
  rw [hbytes, wordIn_bytesFrom (by decide), wordIn_bytesFrom (by decide)]
  rfl

theorem toNat_readyToRead_eq_zero_iff (header : FwDebugBufferHeader) :
    calculateLogReadyToRead header = 0 ↔
      header.chipOffset.toNat = header.hostOffset.toNat ∨
        header.chipOffset.toNat + 4088 = header.hostOffset.toNat := by
  have hhost := header.hostOffset.toNat_lt
  have hchip := header.chipOffset.toNat_lt
  have hzero : (0 : UInt64).toNat = 0 := rfl
  unfold calculateLogReadyToRead
  simp only [ge_iff_le, UInt64.le_iff_toNat_le, UInt32.toNat_toUInt64, ← UInt64.toNat_inj]
  split
  · rw [UInt64.toNat_sub, UInt32.toNat_toUInt64, UInt32.toNat_toUInt64, hzero]
    omega
  · simp only [UInt64.toNat_sub, toNat_debugBufferDataSize, UInt32.toNat_toUInt64, hzero]
    omega

theorem safe_readLastSegment {params : HailoReadLogParams}
    {readyToRead readOffset sizeToRead : UInt64} {userBuffer : Nat} {stores : List HostStore}
    {s : Traced} (hs : ReadOnly resource memory s)
    (hroom : readOffset.toNat + sizeToRead.toNat ≤ 4096)
    (hready : readyToRead.toNat ≤ params.bufferSize.toNat)
    (huser : params.buffer ≤ userBuffer ∧
      userBuffer + sizeToRead.toNat ≤ params.buffer + params.bufferSize.toNat)
    (hstores : ∀ store ∈ stores, params.buffer ≤ store.address ∧
      store.address + store.bytes.length ≤ params.buffer + params.bufferSize.toNat)
    (hsum : (stores.map fun store => store.bytes.length).sum + sizeToRead.toNat ≤
      params.bufferSize.toNat) :
    Safe resource params (readLastSegment tracedRam resource.toHailoResource params readyToRead
      readOffset sizeToRead userBuffer stores s) := by
  have hread := hailoResourceReadBuffer_keeps resource.mapped
    (readsAs_log resource memory).keeps
    sizeToRead.toNat readOffset.toNat userBuffer s hroom hs
  have hlen := length_hailoResourceReadBuffer tracedRam resource.toHailoResource
    sizeToRead.toNat readOffset.toNat userBuffer s
  refine ⟨fun word hword => ?_, fun store hstore => ?_, ?_, hready⟩
  · rcases List.mem_cons.mp hword with rfl | hword
    · exact ⟨Nat.le_add_right _ _, by omega⟩
    · exact hread.words_in word hword
  · rcases List.mem_append.mp hstore with hstore | hstore
    · exact hstores store hstore
    · rw [List.mem_singleton.mp hstore]
      simp only
      rw [hlen]
      exact huser
  · simp only [readLastSegment, List.map_append, List.map_singleton, List.sum_append,
      List.sum_singleton]
    rw [hlen]
    exact hsum

theorem safe_of_hostOffset_le {params : HailoReadLogParams} {header : FwDebugBufferHeader}
    (hhost : header.hostOffset.toNat ≤ 4088) {s : Traced} (hs : ReadOnly resource memory s)
    (hsize : params.bufferSize.toNat ≤ 512) :
    Safe resource params
      (readReadyLog tracedRam resource.toHailoResource params header s) := by
  have hheader : header.hostOffset.toUInt64.toNat = header.hostOffset.toNat :=
    UInt32.toNat_toUInt64 _
  have height : (8 : UInt64).toNat = 8 := rfl
  have hready := UInt64.toNat_min (calculateLogReadyToRead header) params.bufferSize
  have hle := Nat.min_le_right (calculateLogReadyToRead header).toNat params.bufferSize.toNat
  have hoffset : (8 + header.hostOffset.toUInt64).toNat = 8 + header.hostOffset.toNat := by
    rw [UInt64.toNat_add, hheader, height]
    omega
  rw [readReadyLog]
  split
  · exact ⟨hs.words_in, List.forall_mem_nil _, Nat.zero_le _, Nat.zero_le _⟩
  · simp only
    split
    · next hwrap =>
      rw [UInt64.le_iff_toNat_le, UInt64.toNat_add, hheader, toNat_debugBufferDataSize] at hwrap
      have hfirst : (debugBufferDataSize - header.hostOffset.toUInt64).toNat =
          4088 - header.hostOffset.toNat := by
        rw [UInt64.toNat_sub, hheader, toNat_debugBufferDataSize]
        omega
      have hback : (8 + header.hostOffset.toUInt64 - header.hostOffset.toUInt64).toNat = 8 := by
        rw [UInt64.toNat_sub, hoffset, hheader]
        omega
      have hrest : (min (calculateLogReadyToRead header) params.bufferSize -
          (debugBufferDataSize - header.hostOffset.toUInt64)).toNat =
          min (calculateLogReadyToRead header).toNat params.bufferSize.toNat -
            (4088 - header.hostOffset.toNat) := by
        rw [UInt64.toNat_sub, hfirst, hready]
        omega
      have hread := hailoResourceReadBuffer_keeps resource.mapped
        (readsAs_log resource memory).keeps
        (debugBufferDataSize - header.hostOffset.toUInt64).toNat
        (8 + header.hostOffset.toUInt64).toNat params.buffer s (by omega) hs
      have hlen := length_hailoResourceReadBuffer tracedRam resource.toHailoResource
        (debugBufferDataSize - header.hostOffset.toUInt64).toNat
        (8 + header.hostOffset.toUInt64).toNat params.buffer s
      refine safe_readLastSegment hread (by omega) (by omega) (by omega)
        (fun store hstore => ?_) ?_
      · rw [List.mem_singleton.mp hstore]
        simp only
        omega
      · rw [List.map_singleton, List.sum_singleton, hlen]
        omega
    · next hstraight =>
      rw [UInt64.le_iff_toNat_le, UInt64.toNat_add, hheader, toNat_debugBufferDataSize] at hstraight
      refine safe_readLastSegment hs (by omega) (by omega) ⟨Nat.le_refl _, by omega⟩
        (List.forall_mem_nil _) ?_
      rw [List.map_nil, List.sum_nil]
      omega

/-- No access forgets a word. -/
theorem readsKeep_word (word base size : Nat) :
    ReadsKeep tracedRam base size fun s => word ∈ s.words :=
  fun _ _ hs _ _ => List.mem_cons_of_mem _ hs

theorem hailoResourceReadBuffer_remembers {word : Nat} {s : Traced} (hword : word ∈ s.words)
    (offset count dest : Nat) :
    word ∈ (hailoResourceReadBuffer tracedRam resource.toHailoResource offset count dest
      s).2.words := by
  have hmap : MappedWords resource.toHailoResource (4 * (offset + count)) :=
    ⟨resource.aligned, Nat.mul_mod_right 4 _⟩
  exact hailoResourceReadBuffer_keeps hmap (readsKeep_word word _ _) count offset dest s
    (by omega) hword

theorem readTrailingBytes_remembers {word : Nat} {s : Traced} (hword : word ∈ s.words)
    (offset count : Nat) :
    word ∈ (readTrailingBytes tracedRam resource.toHailoResource count offset s).2.words := by
  have hmap : MappedWords resource.toHailoResource (4 * (offset + count)) :=
    ⟨resource.aligned, Nat.mul_mod_right 4 _⟩
  exact readTrailingBytes_keeps hmap (readsKeep_word word _ _) count offset s (by omega) hword

theorem readTrailingBytes_first (offset count : Nat) (s : Traced) :
    alignTo32Bit (resource.address + offset) ∈
      (readTrailingBytes tracedRam resource.toHailoResource (count + 1) offset s).2.words :=
  readTrailingBytes_remembers (List.mem_cons_self ..) (offset + 1) count

/-- A copy of at least one byte asks for the word that holds the first. -/
theorem hailoResourceReadBuffer_first (resource : LogResource) (offset count dest : Nat)
    (s : Traced) :
    alignTo32Bit (resource.address + offset) ∈
      (hailoResourceReadBuffer tracedRam resource.toHailoResource offset (count + 1) dest
        s).2.words := by
  rw [hailoResourceReadBuffer]
  split
  · exact hailoResourceReadBuffer_remembers (List.mem_cons_self ..) (offset + 1) count (dest + 1)
  · next halign =>
    rcases Nat.lt_or_ge count 3 with hshort | hlong
    · obtain rfl | rfl | rfl : count = 0 ∨ count = 1 ∨ count = 2 := by omega
      · exact readTrailingBytes_first offset 0 s
      · exact readTrailingBytes_first offset 1 s
      · exact readTrailingBytes_first offset 2 s
    · obtain ⟨count, rfl⟩ : ∃ n, count = n + 3 := ⟨count - 3, by omega⟩
      have hword : alignTo32Bit (resource.address + offset) = resource.address + offset := by
        rw [alignTo32Bit]
        omega
      have hmap : MappedWords resource.toHailoResource (4 * (offset + 4 + count)) :=
        ⟨resource.aligned, Nat.mul_mod_right 4 _⟩
      have hbase := resource.aligned
      have hkeep := readWords_keeps hmap (readsKeep_word (resource.address + offset) _ _) count
        (offset + 4) ⟨s.memory, (resource.address + offset) :: s.words⟩ (by omega) (by omega)
        (List.mem_cons_self ..)
      rw [hword]
      exact hkeep

theorem unsafe_of_hostOffset_gt {params : HailoReadLogParams} {header : FwDebugBufferHeader}
    (hhost : 4088 < header.hostOffset.toNat) (hready : calculateLogReadyToRead header ≠ 0)
    (hsize : params.bufferSize.toNat ≤ 512) (s : Traced) :
    ¬ Safe resource params
      (readReadyLog tracedRam resource.toHailoResource params header s) := by
  intro hsafe
  have hlt := header.hostOffset.toNat_lt
  have hheader : header.hostOffset.toUInt64.toNat = header.hostOffset.toNat :=
    UInt32.toNat_toUInt64 _
  have height : (8 : UInt64).toNat = 8 := rfl
  have hoffset : (8 + header.hostOffset.toUInt64).toNat = 8 + header.hostOffset.toNat := by
    rw [UInt64.toNat_add, hheader, height]
    omega
  have hwrap : debugBufferDataSize ≤
      header.hostOffset.toUInt64 + min (calculateLogReadyToRead header) params.bufferSize := by
    have hle := Nat.min_le_right (calculateLogReadyToRead header).toNat params.bufferSize.toNat
    rw [UInt64.le_iff_toNat_le, UInt64.toNat_add, hheader, UInt64.toNat_min,
      toNat_debugBufferDataSize]
    omega
  -- The size of the first segment wraps around to a huge count.
  obtain ⟨count, hcount⟩ : ∃ n,
      (debugBufferDataSize - header.hostOffset.toUInt64).toNat = n + 1 := by
    refine Nat.exists_eq_add_one.mpr ?_
    rw [UInt64.toNat_sub, hheader, toNat_debugBufferDataSize]
    omega
  rw [readReadyLog] at hsafe
  simp only [if_neg hready, if_pos hwrap] at hsafe
  have hfirst := hailoResourceReadBuffer_first resource
    (8 + header.hostOffset.toUInt64).toNat count params.buffer s
  rw [← hcount] at hfirst
  have hin := hsafe.words_in _ (List.mem_cons_of_mem _
    (hailoResourceReadBuffer_remembers hfirst _ _ _))
  have hend := hin.2
  have hbase := resource.aligned
  rw [hoffset, alignTo32Bit] at hend
  omega

end

/-- For any two offset words: a call stays inside the log and the buffer if and only if
`host_offset` is at most 4088 or nothing is ready to read. -/
theorem hailoReadFirmwareLog_safe_iff (resource : LogResource) (memory : Nat → UInt8)
    (debugBufferHeader : Nat) (params : HailoReadLogParams)
    (hsize : params.bufferSize.toNat ≤ 512) :
    Safe resource params (tracedRead resource debugBufferHeader params memory) ↔
      hostOffset (logBytes resource memory) ≤ 4088 ∨
        chipOffset (logBytes resource memory) = hostOffset (logBytes resource memory) ∨
        chipOffset (logBytes resource memory) + 4088 = hostOffset (logBytes resource memory) := by
  obtain ⟨s, hs, heq⟩ := tracedRead_eq resource memory hsize
    debugBufferHeader
  have hzero := toNat_readyToRead_eq_zero_iff (headerOf (logBytes resource memory))
  rw [heq]
  constructor
  · intro hsafe
    by_contra hcond
    rw [not_or, Nat.not_le] at hcond
    exact unsafe_of_hostOffset_gt hcond.1 (fun hready => hcond.2 (hzero.mp hready)) hsize s hsafe
  · rintro (hhost | hready)
    · exact safe_of_hostOffset_le hhost hs hsize
    · rw [readReadyLog]
      simp only [if_pos (hzero.mpr hready)]
      exact ⟨hs.words_in, List.forall_mem_nil _, Nat.zero_le _, Nat.zero_le _⟩

/-- Log memory at address 0 that holds two offset words and zeros. -/
def offsetWords (hostOffset chipOffset : UInt32) : Nat → UInt8 :=
  overlay (overlay (fun _ => 0) 0 (wordBytes hostOffset)) 4 (wordBytes chipOffset)

theorem hailoReadFirmwareLog_safe_iff_zeroOffsets :
    Safe emptyLog ⟨true, 512, 0, 0⟩ (tracedRead emptyLog 0 ⟨true, 512, 0, 0⟩ (offsetWords 0 0)) :=
  (hailoReadFirmwareLog_safe_iff emptyLog (offsetWords 0 0) 0 ⟨true, 512, 0, 0⟩ (by decide)).mpr
    (.inl (by decide))

/-- With 5000 and 6000 in the offset words the first word read after them is out of the log. -/
theorem hostOffset5000_unsafe :
    ¬ Safe emptyLog ⟨true, 512, 0, 0⟩
      (tracedRead emptyLog 0 ⟨true, 512, 0, 0⟩ (offsetWords 5000 6000)) := by
  obtain ⟨s, _, heq⟩ := tracedRead_eq emptyLog (offsetWords 5000 6000)
    (show (⟨true, 512, 0, 0⟩ : HailoReadLogParams).bufferSize.toNat ≤ 512 by decide) 0
  rw [heq]
  refine unsafe_of_hostOffset_gt ?_ (fun hready => ?_) (by decide) s
  · decide
  · rw [toNat_readyToRead_eq_zero_iff] at hready
    revert hready
    decide

end HailortDrivers.FirmwareLogBounds
