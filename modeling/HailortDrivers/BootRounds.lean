import HailortDrivers.BootDescriptors

/-!
One round of the loop over a boot file. `Programmed` says what the channels hold after the
pages `ps` were programmed, one behind another over the channels; a round puts the pages of
its chunk behind them.
-/
namespace HailortDrivers.BootRounds
open KernelExec MachineWord VdmaTypes DescriptorProgramming SegmentSlicing PagePacking
open ProgrammedPages DescriptorWords ScatterGatherCoverage BootProgramming BootDescriptors

/-- What allocating sets up for a channel. -/
structure ChannelReady (channel : HailoPcieBootDmaChannelState) : Prop where
  host : BootList channel.hostDescriptorsBuffer
  device : BootList channel.deviceDescriptorsBuffer
  pages : WholePages channel.sgTable.sgl

/-- Descriptor `d` of a channel stands for a page of a file: it lies in the channel's memory at
the descriptor's place, and goes to the page's place behind the file's address. A descriptor
has no room for the low bits of an address. -/
structure PageAt (addressOf : Nat → Nat) (channel : HailoPcieBootDmaChannelState) (d : Nat)
    (page : Page) (raiseInt : Bool) : Prop where
  base : (allBytes (segments channel.sgTable.sgl))[d * 512]? =
    some (descriptorSegment (channel.hostDescriptorsBuffer.descList d)).base
  len : (descriptorSegment (channel.hostDescriptorsBuffer.descList d)).len = page.size
  interrupt : raisesHostInterrupt (channel.hostDescriptorsBuffer.descList d) = raiseInt
  deviceSize : (descriptorPageSize (channel.deviceDescriptorsBuffer.descList d)).toNat =
    if 512 ≤ page.size then 0 else page.size
  deviceAddress : 64 ∣ addressOf page.item → addressOf page.item + page.index * 512 < 2 ^ 32 →
    (descriptorAddress (channel.deviceDescriptorsBuffer.descList d)).toNat =
      addressOf page.item + page.index * 512

theorem PageAt.congr {addressOf : Nat → Nat} {channel channel' : HailoPcieBootDmaChannelState}
    {d : Nat} {page : Page} {raiseInt : Bool} (h : PageAt addressOf channel d page raiseInt)
    (hsgl : channel'.sgTable = channel.sgTable)
    (hhost : channel'.hostDescriptorsBuffer.descList d =
      channel.hostDescriptorsBuffer.descList d)
    (hdevice : channel'.deviceDescriptorsBuffer.descList d =
      channel.deviceDescriptorsBuffer.descList d) :
    PageAt addressOf channel' d page raiseInt := by
  obtain ⟨hbase, hlen, hint, hsize, haddress⟩ := h
  rw [← hsgl, ← hhost] at hbase
  rw [← hhost] at hlen hint
  rw [← hdevice] at hsize haddress
  exact ⟨hbase, hlen, hint, hsize, haddress⟩

/-- Which pages raise an interrupt: a whole page that is the last of its channel, and the very
last when the batch is complete. -/
def raisesAt (final : Bool) (n g : Nat) (page : Page) : Bool :=
  (decide ((g + 1) % 65535 = 0) && decide (page.size = 512)) || (final && decide (g + 1 = n))

/-- A byte of an item is a byte of a file. -/
def fileByte (b : Nat × Nat) : FirmwareByte := ⟨b.1, b.2⟩

def usesChannel (bitmap : UInt16) (c : Nat) : Bool := bitmap.toNat.testBit c

/-- The state after the pages `ps` were programmed, `s₀` being the one before. -/
structure Programmed (addressOf : Nat → Nat) (s₀ : BootState) (ps : List Page) (final : Bool)
    (s : BootState) : Prop where
  ready : ∀ c < 8, ChannelReady (s.channels c)
  sgTable : ∀ c < 8, (s.channels c).sgTable = (s₀.channels c).sgTable
  bufferSize : ∀ c < 8, (s.channels c).buffer.size = (s₀.channels c).buffer.size
  count : ∀ c < 8, (s.channels c).descProgramNum.toNat = min 65535 (ps.length - c * 65535)
  index : s.currChannelIndex.toNat = (ps.length - 1) / 65535
  bitmap : ∀ c, usesChannel s.bootUsedChannelBitmap c =
    (usesChannel s₀.bootUsedChannelBitmap c || decide (1 ≤ c ∧ c ≤ (ps.length - 1) / 65535))
  page : ∀ g, ∀ h : g < ps.length, PageAt addressOf (s.channels (g / 65535)) (g % 65535) ps[g]
    (raisesAt final ps.length g ps[g])
  bytes : ∀ c < 8, ∀ p, (s.channels c).buffer.bytes p = (heldAt 512 65535 ps c p).map fileByte

section Descriptors
variable {channel channel' : HailoPcieBootDmaChannelState} {fileAddress : UInt32}
  {transferBuffer : HailoVdmaMappedTransferBuffer} {channelIndex : UInt8} {raiseInt : Bool}
  {ret : Int32}

/-- Both sides of a chunk are programmed at the same indices. -/
theorem oneFileDescriptors_chunks (hready : ChannelReady channel)
    (hsgl : transferBuffer.sgTable = channel.sgTable)
    (hoffset : transferBuffer.offset.toNat = channel.descProgramNum.toNat * 512)
    (hsize : 0 < transferBuffer.size.toNat)
    (hroom : channel.descProgramNum.toNat * 512 + transferBuffer.size.toNat ≤ 65535 * 512)
    (hret : ¬ ret < 0)
    (h : pcieVdmaProgramOneFileDescriptors channel fileAddress transferBuffer channelIndex
      raiseInt = .ok (ret, channel')) :
    ret.toInt = transferBuffer.size.toNat ⌈/⌉ 512 ∧
      HostChunk channel.sgTable.sgl channel.hostDescriptorsBuffer channel'.hostDescriptorsBuffer
        channel.descProgramNum.toNat (transferBuffer.size.toNat ⌈/⌉ 512)
        transferBuffer.size.toNat raiseInt ∧
      DeviceChunk channel.deviceDescriptorsBuffer channel'.deviceDescriptorsBuffer
        channel.descProgramNum.toNat (transferBuffer.size.toNat ⌈/⌉ 512)
        transferBuffer.size.toNat fileAddress.toNat ∧
      channel'.sgTable = channel.sgTable ∧ channel'.buffer = channel.buffer ∧
      channel'.descProgramNum = channel.descProgramNum := by
  obtain ⟨⟨deviceDesc, deviceList⟩, hdevice, h⟩ := bind_ok h
  have hlt := fileAddress.toNat_lt
  have haddress : fileAddress.toUInt64.toNat = fileAddress.toNat := UInt32.toNat_toUInt64 _
  obtain ⟨hdeviceDesc, hdeviceChunk⟩ :=
    inChunk_deviceChunk hready.device (by omega) hsize hroom hdevice
  rw [haddress] at hdeviceChunk
  simp only at h
  split at h
  · next hneg =>
    cases h
    exact absurd hneg hret
  obtain ⟨⟨hostDesc, hostList⟩, hhost, h⟩ := bind_ok h
  simp only at h
  split at h
  · next hneg =>
    cases h
    exact absurd hneg hret
  · next hnonneg =>
  split at h
  · cases h
    exact absurd (by decide) hret
  cases h
  have hnonneg' : 0 ≤ ret.toInt := by
    rw [Int32.lt_iff_toInt_lt, not_lt] at hret
    exact hret
  have hhost' : bindAndProgramDescriptorsList hailoPcieVdmaHw channel.hostDescriptorsBuffer
      channel.descProgramNum transferBuffer channelIndex
      (if raiseInt then hailoVdmaInterruptsDomainHost else hailoVdmaInterruptsDomainNone) false
      defaultStride = .ok (ret, hostList) := hhost
  obtain ⟨hhostDesc, hhostChunk⟩ := bind_hostChunk hready.host (by rw [hsgl]; exact hready.pages)
    hoffset hsize hroom hnonneg' hhost'
  rw [hsgl] at hhostChunk
  exact ⟨hhostDesc, hhostChunk, hdeviceChunk, rfl, rfl, rfl⟩

end Descriptors

section Select
variable {addressOf : Nat → Nat} {s₀ s : BootState} {ps : List Page}

theorem usesChannel_or (bitmap : UInt16) (index : UInt8) (hindex : index.toNat < 8) (c : Nat) :
    usesChannel (bitmap ||| ((1 : UInt32) <<< index.toUInt32).toUInt16) c =
      (usesChannel bitmap c || decide (c = index.toNat)) := by
  have hshift : ((1 : UInt32) <<< index.toUInt32).toUInt16.toNat = 2 ^ index.toNat := by
    have hpow : 2 ^ index.toNat ≤ 2 ^ 7 := Nat.pow_le_pow_right (by decide) (by omega)
    have hone : (1 : UInt32).toNat = 1 := rfl
    have hmod : index.toNat % 32 = index.toNat := Nat.mod_eq_of_lt (by omega)
    rw [UInt32.toNat_toUInt16, UInt32.toNat_shiftLeft, UInt8.toNat_toUInt32, hmod, hone,
      Nat.shiftLeft_eq, Nat.one_mul]
    generalize 2 ^ index.toNat = bit at hpow ⊢
    omega
  rw [usesChannel, UInt16.toNat_or, Nat.testBit_or, hshift, Nat.testBit_two_pow, usesChannel]
  congr 1
  exact decide_eq_decide.mpr eq_comm

/-- A round works on the channel that the next page belongs to. -/
theorem selectChannel_spec (h : Programmed addressOf s₀ ps false s)
    (hroom : ps.length < 8 * 65535) :
    (selectChannel s).channels = s.channels ∧
      (selectChannel s).currChannelIndex.toNat = ps.length / 65535 ∧
      ∀ c, usesChannel (selectChannel s).bootUsedChannelBitmap c =
        (usesChannel s₀.bootUsedChannelBitmap c || decide (1 ≤ c ∧ c ≤ ps.length / 65535)) := by
  have hindex := h.index
  have hcount := h.count s.currChannelIndex.toNat (by omega)
  have hfull : maxSgDescsCount - 1 = s.currChannel.descProgramNum ↔
      0 < ps.length ∧ ps.length % 65535 = 0 := by
    have hmax : (maxSgDescsCount - 1).toNat = 65535 := rfl
    rw [← UInt32.toNat_inj, hmax, BootState.currChannel, hcount, hindex]
    omega
  unfold selectChannel
  split
  · next hcond =>
    obtain ⟨hpos, hmod⟩ := hfull.mp hcond
    have hnext : (s.currChannelIndex + 1).toNat = ps.length / 65535 := by
      have hone : (1 : UInt8).toNat = 1 := rfl
      rw [UInt8.toNat_add, hone, hindex]
      omega
    refine ⟨rfl, hnext, fun c => ?_⟩
    simp only
    rw [usesChannel_or _ _ (by omega), h.bitmap, Bool.or_assoc, ← Bool.decide_or, hnext]
    congr 1
    exact decide_eq_decide.mpr (by omega)
  · next hcond =>
    have hstay : (ps.length - 1) / 65535 = ps.length / 65535 := by
      rw [hfull] at hcond
      omega
    refine ⟨rfl, by rw [hindex, hstay], fun c => ?_⟩
    rw [h.bitmap, hstay]

end Select

section Round
variable {addressOf : Nat → Nat} {s₀ s s' : BootState} {ps : List Page} {file i bytes : Nat}
  {raiseInt : Bool}

/-- A chunk of `bytes` bytes of a file, from page `i` of it on, was programmed behind `T` pages. -/
structure ChunkAdded (s₀ s s' : BootState) (T file i bytes address : Nat) (raiseInt : Bool) :
    Prop where
  others : ∀ c, c ≠ T / 65535 → s'.channels c = s.channels c
  sgTable : (s'.channels (T / 65535)).sgTable = (s.channels (T / 65535)).sgTable
  bufferSize : (s'.channels (T / 65535)).buffer.size = (s.channels (T / 65535)).buffer.size
  count : (s'.channels (T / 65535)).descProgramNum.toNat = T % 65535 + bytes ⌈/⌉ 512
  index : s'.currChannelIndex.toNat = T / 65535
  bitmap : ∀ c, usesChannel s'.bootUsedChannelBitmap c =
    (usesChannel s₀.bootUsedChannelBitmap c || decide (1 ≤ c ∧ c ≤ T / 65535))
  host : HostChunk (s.channels (T / 65535)).sgTable.sgl
    (s.channels (T / 65535)).hostDescriptorsBuffer (s'.channels (T / 65535)).hostDescriptorsBuffer
    (T % 65535) (bytes ⌈/⌉ 512) bytes (decide (65535 = bytes / 512 + T % 65535) || raiseInt)
  device : DeviceChunk (s.channels (T / 65535)).deviceDescriptorsBuffer
    (s'.channels (T / 65535)).deviceDescriptorsBuffer (T % 65535) (bytes ⌈/⌉ 512) bytes
    (address % 2 ^ 32)
  bytes : ∀ p, (s'.channels (T / 65535)).buffer.bytes p =
    if T % 65535 * 512 ≤ p ∧ p < T % 65535 * 512 + bytes then
      some ⟨file, i * 512 + (p - T % 65535 * 512)⟩
    else (s.channels (T / 65535)).buffer.bytes p

section Added
variable (h : Programmed addressOf s₀ ps false s)
  (hadd : ChunkAdded s₀ s s' ps.length file i bytes (addressOf file + i * 512) raiseInt)
include h hadd

theorem ChunkAdded.ready {c : Nat} (hc : c < 8) :
    ChannelReady (s'.channels c) := by
  by_cases hcurr : c = ps.length / 65535
  · subst hcurr
    refine ⟨hadd.host.bootList, hadd.device.bootList, ?_⟩
    rw [hadd.sgTable]
    exact (h.ready _ hc).pages
  · rw [hadd.others c hcurr]
    exact h.ready c hc

theorem ChunkAdded.oldPage {g : Nat} (hg : g < ps.length) :
    PageAt addressOf (s'.channels (g / 65535)) (g % 65535) ps[g]
      (raisesAt false ps.length g ps[g]) := by
  by_cases hcurr : g / 65535 = ps.length / 65535
  · have hpage := h.page g hg
    rw [hcurr] at hpage ⊢
    exact hpage.congr hadd.sgTable (hadd.host.frame _ (by omega))
      (hadd.device.frame _ (by omega))
  · rw [hadd.others _ hcurr]
    exact h.page g hg

omit h in
theorem ChunkAdded.newPage (hfit : ps.length % 65535 + bytes ⌈/⌉ 512 ≤ 65535) {j : Nat}
    (hj : j < bytes ⌈/⌉ 512) :
    PageAt addressOf (s'.channels ((ps.length + j) / 65535)) ((ps.length + j) % 65535)
      ⟨file, i + j, min 512 (bytes - j * 512)⟩
      (raisesAt raiseInt (ps.length + bytes ⌈/⌉ 512) (ps.length + j)
        ⟨file, i + j, min 512 (bytes - j * 512)⟩) := by
  have hdiv : (ps.length + j) / 65535 = ps.length / 65535 := by omega
  have hmod : (ps.length + j) % 65535 = ps.length % 65535 + j := by omega
  have hsmall := (lt_ceilDiv_iff (by decide : 0 < 512)).mp hj
  have hlarge : bytes ≤ 512 * (bytes ⌈/⌉ 512) := (ceilDiv_le_iff_le_mul (by decide)).mp le_rfl
  rw [hdiv, hmod]
  refine ⟨?_, hadd.host.len j hj, ?_, ?_, ?_⟩
  · rw [hadd.sgTable]
    exact hadd.host.base j hj
  · rw [hadd.host.interrupt j hj, raisesAt, Bool.eq_iff_iff]
    cases raiseInt with
    | false =>
      simp only [Bool.and_eq_true, Bool.or_eq_true, decide_eq_true_eq, Bool.false_eq_true,
        false_and, or_false]
      omega
    | true =>
      simp only [Bool.and_eq_true, Bool.or_eq_true, decide_eq_true_eq, true_and, or_true]
      omega
  · rw [hadd.device.size j hj]
    simp only
    split
    · rw [if_pos (by omega)]
    · rw [if_neg (by omega)]
      omega
  · intro haligned hlt
    simp only at haligned hlt ⊢
    rw [Nat.add_mul, ← Nat.add_assoc] at hlt ⊢
    have hstart := (Nat.le_add_right _ (j * 512)).trans_lt hlt
    rw [hadd.device.address (by omega) j hj, Nat.mod_eq_of_lt hstart]

end Added

/-- Behind the pages that were there, the pages of the chunk. -/
theorem ChunkAdded.programmed (h : Programmed addressOf s₀ ps false s)
    (hadd : ChunkAdded s₀ s s' ps.length file i bytes (addressOf file + i * 512) raiseInt)
    (hroom : ps.length < 8 * 65535) (hbytes : 0 < bytes)
    (hfit : ps.length % 65535 + bytes ⌈/⌉ 512 ≤ 65535) :
    Programmed addressOf s₀ (ps ++ pageRun 512 file i bytes) raiseInt s' := by
  have hn : 0 < bytes ⌈/⌉ 512 := ceilDiv_pos (by decide) hbytes
  have hlen : (ps ++ pageRun 512 file i bytes).length = ps.length + bytes ⌈/⌉ 512 := by
    rw [List.length_append, length_pageRun]
  have hcurr : (ps.length + bytes ⌈/⌉ 512 - 1) / 65535 = ps.length / 65535 := by omega
  refine ⟨fun c hc => hadd.ready h hc, ?_, ?_, ?_, ?_, ?_, ?_, ?_⟩
  · intro c hc
    by_cases hc' : c = ps.length / 65535
    · subst hc'
      rw [hadd.sgTable, h.sgTable _ hc]
    · rw [hadd.others c hc', h.sgTable c hc]
  · intro c hc
    by_cases hc' : c = ps.length / 65535
    · subst hc'
      rw [hadd.bufferSize, h.bufferSize _ hc]
    · rw [hadd.others c hc', h.bufferSize c hc]
  · intro c hc
    rw [hlen]
    by_cases hc' : c = ps.length / 65535
    · subst hc'
      rw [hadd.count]
      omega
    · rw [hadd.others c hc', h.count c hc]
      omega
  · rw [hlen, hcurr, hadd.index]
  · intro c
    rw [hlen, hcurr, hadd.bitmap]
  · intro g hg
    rw [hlen] at hg
    rw [hlen]
    by_cases hold : g < ps.length
    · have hpage := hadd.oldPage h hold
      have hraise : raisesAt raiseInt (ps.length + bytes ⌈/⌉ 512) g ps[g] =
          raisesAt false ps.length g ps[g] := by
        rw [raisesAt, raisesAt, decide_eq_false (by omega : ¬ g + 1 = ps.length + bytes ⌈/⌉ 512),
          Bool.and_false, Bool.false_and]
      rw [List.getElem_append_left hold, hraise]
      exact hpage
    · obtain ⟨j, rfl⟩ := Nat.exists_eq_add_of_le (Nat.le_of_not_lt hold)
      rw [List.getElem_append_right (Nat.le_add_right _ _), getElem_pageRun]
      simp only [Nat.add_sub_cancel_left]
      exact hadd.newPage hfit (by omega)
  · intro c hc p
    rw [heldAt_append (by decide) hfit]
    by_cases hc' : c = ps.length / 65535
    · subst hc'
      rw [hadd.bytes, h.bytes _ hc]
      simp only [true_and]
      split
      · rfl
      · rfl
    · rw [hadd.others c hc', h.bytes c hc, if_neg (fun hcond => hc' hcond.1)]

/-- How many bytes of a file a round takes. -/
def roundBytes (T remainingSize : Nat) : Nat := min remainingSize ((65535 - T % 65535) * 512)

theorem roundBytes_pos {T remainingSize : Nat} (h : 0 < remainingSize) :
    0 < roundBytes T remainingSize := by
  rw [roundBytes]
  omega

theorem roundBytes_fit (T remainingSize : Nat) :
    T % 65535 + roundBytes T remainingSize ⌈/⌉ 512 ≤ 65535 := by
  have hle : roundBytes T remainingSize ⌈/⌉ 512 ≤ 65535 - T % 65535 := by
    rw [ceilDiv_le_iff_le_mul (by decide), roundBytes, Nat.mul_comm]
    exact Nat.min_le_right _ _
  omega

theorem transferBufferOf_spec {channel : HailoPcieBootDmaChannelState} {T : Nat}
    (hcount : channel.descProgramNum.toNat = T % 65535) (remainingSize : Nat) :
    (transferBufferOf channel remainingSize).size.toNat = roundBytes T remainingSize ∧
      (transferBufferOf channel remainingSize).offset.toNat = T % 65535 * 512 := by
  have hmax : (maxSgDescsCount - 1).toNat = 65535 := rfl
  have hpage : (UInt32.ofNat hailoPciOverVdmaPageSize).toNat = 512 := rfl
  have hleft : (maxSgDescsCount - 1 - channel.descProgramNum).toNat = 65535 - T % 65535 := by
    rw [UInt32.toNat_sub_of_le _ _ (UInt32.le_iff_toNat_le.mpr (by omega)), hmax, hcount]
  constructor
  · rw [transferBufferOf]
    simp only
    rw [toNat_ofNat_of_lt, hleft]
    · rfl
    · rw [hleft, hailoPciOverVdmaPageSize]
      omega
  · rw [transferBufferOf, UInt32.toNat_mul, hpage, hcount]
    omega

theorem raisInterruptOnLastChunk_eq {channel : HailoPcieBootDmaChannelState} {T : Nat}
    (hcount : channel.descProgramNum.toNat = T % 65535) (size remainingSize : Nat)
    (raiseInt : Bool) :
    raisInterruptOnLastChunk channel size remainingSize raiseInt =
      (decide (65535 = size / 512 + T % 65535) ||
        (raiseInt && decide (remainingSize = size))) := by
  rw [raisInterruptOnLastChunk, hcount]
  rfl

/-- What is in the memory after a copy that went through. -/
theorem sgPcopyFromBuffer_bytes {buffer : BounceBuffer} {dataOffset buflen skip : Nat}
    (h : buflen = (sgPcopyFromBuffer buffer file dataOffset buflen skip).1) (p : Nat) :
    (sgPcopyFromBuffer buffer file dataOffset buflen skip).2.bytes p =
      if skip ≤ p ∧ p < skip + buflen then some ⟨file, dataOffset + (p - skip)⟩
      else buffer.bytes p := by
  simp only [sgPcopyFromBuffer] at h ⊢
  rw [← h]

@[simp] theorem channels_setCurrChannel (s : BootState) (channel : HailoPcieBootDmaChannelState) :
    (s.setCurrChannel channel).channels =
      Function.update s.channels s.currChannelIndex.toNat channel := rfl

/-- A channel after bytes of a file were copied into its memory. -/
def copyIn (channel : HailoPcieBootDmaChannelState) (file dataOffset buflen skip : Nat) :
    HailoPcieBootDmaChannelState :=
  { channel with buffer := (sgPcopyFromBuffer channel.buffer file dataOffset buflen skip).2 }

theorem ChannelReady.copyIn {channel : HailoPcieBootDmaChannelState} (h : ChannelReady channel)
    (file dataOffset buflen skip : Nat) :
    ChannelReady (copyIn channel file dataOffset buflen skip) := ⟨h.host, h.device, h.pages⟩

/-- The values a round works with, behind the pages `ps`. -/
structure RoundAt (ps : List Page) (c : FileCursor) : Prop where
  current : ps.length / 65535 < 8
  channels : (selectChannel c.boot).channels = c.boot.channels
  index : (selectChannel c.boot).currChannelIndex.toNat = ps.length / 65535
  count : (c.boot.channels (ps.length / 65535)).descProgramNum.toNat = ps.length % 65535
  size : (transferBufferOf (c.boot.channels (ps.length / 65535)) c.remainingSize).size.toNat =
    roundBytes ps.length c.remainingSize
  offset : (transferBufferOf (c.boot.channels (ps.length / 65535))
    c.remainingSize).offset.toNat = ps.length % 65535 * 512
  room : ps.length % 65535 * 512 + roundBytes ps.length c.remainingSize ≤ 65535 * 512

theorem Programmed.roundAt {c : FileCursor} (h : Programmed addressOf s₀ ps false c.boot)
    (hroom : ps.length < 8 * 65535) : RoundAt ps c := by
  have hcurrent : ps.length / 65535 < 8 := by omega
  obtain ⟨hchannels, hindex, -⟩ := selectChannel_spec h hroom
  have hcount : (c.boot.channels (ps.length / 65535)).descProgramNum.toNat =
      ps.length % 65535 := by
    rw [h.count _ hcurrent]
    omega
  obtain ⟨hsize, hoffset⟩ := transferBufferOf_spec hcount c.remainingSize
  refine ⟨hcurrent, hchannels, hindex, hcount, hsize, hoffset, ?_⟩
  rw [roundBytes]
  omega

/-- A round, once its bytes fit in the memory of the channel. -/
theorem programRound_of_copied {fileAddress : UInt32} {c : FileCursor}
    {channel : HailoPcieBootDmaChannelState} {size offset : Nat}
    (hcurr : (selectChannel c.boot).currChannel = channel)
    (hsize : (transferBufferOf channel c.remainingSize).size.toNat = size)
    (hoffset : (transferBufferOf channel c.remainingSize).offset.toNat = offset)
    (hcopied : size = (sgPcopyFromBuffer channel.buffer file c.dataOffset size offset).1) :
    programRound file fileAddress raiseInt c = (do
      let (ret, channel') ← pcieVdmaProgramOneFileDescriptors
        (copyIn channel file c.dataOffset size offset)
        (UInt32.ofNat (fileAddress.toNat + c.dataOffset)) (transferBufferOf channel c.remainingSize)
        (selectChannel c.boot).currChannelIndex
        (raisInterruptOnLastChunk channel size c.remainingSize raiseInt)
      if ret < 0 then return .failed ret ((selectChannel c.boot).setCurrChannel channel')
      return .next
        { remainingSize := c.remainingSize - size
          dataOffset := c.dataOffset + size
          descProgrammed := ret
          boot := (selectChannel c.boot).setCurrChannel
            { channel' with descProgramNum := channel'.descProgramNum + ret.toUInt32 } }) := by
  simp only [programRound, hcurr, hsize, hoffset]
  rw [if_neg (not_not.mpr hcopied)]
  rfl

theorem RoundAt.programRound_eq {fileAddress : UInt32} {c : FileCursor} (h : RoundAt ps c)
    (hcopied : roundBytes ps.length c.remainingSize =
      (sgPcopyFromBuffer (c.boot.channels (ps.length / 65535)).buffer file c.dataOffset
        (roundBytes ps.length c.remainingSize) (ps.length % 65535 * 512)).1) :
    programRound file fileAddress raiseInt c = (do
      let (ret, channel) ← pcieVdmaProgramOneFileDescriptors
        (copyIn (c.boot.channels (ps.length / 65535)) file c.dataOffset
          (roundBytes ps.length c.remainingSize) (ps.length % 65535 * 512))
        (UInt32.ofNat (fileAddress.toNat + c.dataOffset))
        (transferBufferOf (c.boot.channels (ps.length / 65535)) c.remainingSize)
        (selectChannel c.boot).currChannelIndex
        (decide (65535 = roundBytes ps.length c.remainingSize / 512 + ps.length % 65535) ||
          (raiseInt && decide (c.remainingSize = roundBytes ps.length c.remainingSize)))
      if ret < 0 then
        return .failed ret ((selectChannel c.boot).setCurrChannel channel)
      return .next
        { remainingSize := c.remainingSize - roundBytes ps.length c.remainingSize
          dataOffset := c.dataOffset + roundBytes ps.length c.remainingSize
          descProgrammed := ret
          boot := (selectChannel c.boot).setCurrChannel
            { channel with descProgramNum := channel.descProgramNum + ret.toUInt32 } }) := by
  have hcurr : (selectChannel c.boot).currChannel = c.boot.channels (ps.length / 65535) := by
    rw [BootState.currChannel, h.channels, h.index]
  rw [← raisInterruptOnLastChunk_eq h.count]
  exact programRound_of_copied hcurr h.size h.offset hcopied

theorem RoundAt.copied {fileAddress : UInt32} {c c' : FileCursor} (h : RoundAt ps c)
    (hround : programRound file fileAddress raiseInt c = .ok (.next c')) :
    roundBytes ps.length c.remainingSize =
      (sgPcopyFromBuffer (c.boot.channels (ps.length / 65535)).buffer file c.dataOffset
        (roundBytes ps.length c.remainingSize) (ps.length % 65535 * 512)).1 := by
  have hcurr : (selectChannel c.boot).currChannel = c.boot.channels (ps.length / 65535) := by
    rw [BootState.currChannel, h.channels, h.index]
  simp only [programRound, hcurr, h.size, h.offset] at hround
  split at hround
  · cases hround
  next hcopied => exact not_not.mp hcopied

/-- A round that goes on has added a chunk. -/
theorem programRound_next {fileAddress : UInt32} {c c' : FileCursor}
    (h : Programmed addressOf s₀ ps false c.boot) (haddr : addressOf file = fileAddress.toNat)
    (hremaining : 0 < c.remainingSize)
    (hoffset : c.dataOffset = i * 512) (hroom : ps.length < 8 * 65535)
    (hround : programRound file fileAddress raiseInt c = .ok (.next c')) :
    c'.remainingSize = c.remainingSize - roundBytes ps.length c.remainingSize ∧
      c'.dataOffset = c.dataOffset + roundBytes ps.length c.remainingSize ∧
      ¬ c'.descProgrammed < 0 ∧
      ChunkAdded s₀ c.boot c'.boot ps.length file i (roundBytes ps.length c.remainingSize)
        (addressOf file + i * 512)
        (raiseInt && decide (c.remainingSize = roundBytes ps.length c.remainingSize)) := by
  have hat := h.roundAt hroom
  have hready := h.ready _ hat.current
  have hcopied := hat.copied hround
  rw [hat.programRound_eq hcopied] at hround
  obtain ⟨⟨ret, channel⟩, hdescs, hround⟩ := bind_ok hround
  simp only at hround
  split at hround
  · cases hround
  next hret =>
  cases hround
  have haddress : (UInt32.ofNat (fileAddress.toNat + c.dataOffset)).toNat =
      (addressOf file + i * 512) % 2 ^ 32 := by
    rw [UInt32.toNat_ofNat', haddr, hoffset]
  have hcount : (copyIn (c.boot.channels (ps.length / 65535)) file c.dataOffset
      (roundBytes ps.length c.remainingSize) (ps.length % 65535 * 512)).descProgramNum.toNat =
      ps.length % 65535 := hat.count
  obtain ⟨hn, hhost, hdevice, hsgl, hbuffer, hnum⟩ := oneFileDescriptors_chunks
    (hready.copyIn _ _ _ _) rfl (by rw [hat.offset, hcount])
    (by rw [hat.size]; exact roundBytes_pos hremaining)
    (by rw [hat.size, hcount]; exact hat.room) hret hdescs
  have hfit := roundBytes_fit ps.length c.remainingSize
  rw [hat.size] at hn hhost hdevice
  rw [haddress] at hdevice
  rw [hcount] at hhost hdevice
  have hupdate (d : HailoPcieBootDmaChannelState) :
      ((selectChannel c.boot).setCurrChannel d).channels (ps.length / 65535) = d := by
    rw [channels_setCurrChannel, hat.index, Function.update_self]
  refine ⟨rfl, rfl, hret, ⟨?_, ?_, ?_, ?_, hat.index, (selectChannel_spec h hroom).2.2, ?_, ?_,
    ?_⟩⟩
  · intro d hd
    rw [channels_setCurrChannel, hat.index, Function.update_of_ne hd, hat.channels]
  · rw [hupdate]
    exact hsgl
  · rw [hupdate]
    simp only
    rw [hbuffer]
    rfl
  · rw [hupdate]
    have hret' := toUInt32_toNat_of_nonneg (r := ret) (by omega)
    simp only
    rw [hnum, toNat_add_of_lt]
    · omega
    · omega
  · rw [hupdate]
    exact hhost
  · rw [hupdate]
    exact hdevice
  · intro p
    rw [hupdate]
    simp only
    rw [hbuffer, copyIn, sgPcopyFromBuffer_bytes hcopied, hoffset]

theorem programRound_failed {fileAddress : UInt32} {c : FileCursor} {err : Int32}
    {boot : BootState} (h : programRound file fileAddress raiseInt c = .ok (.failed err boot)) :
    err < 0 := by
  simp only [programRound] at h
  split at h
  · cases h
    decide
  obtain ⟨⟨ret, channel⟩, -, h⟩ := bind_ok h
  simp only at h
  split at h
  · next hneg =>
    cases h
    exact hneg
  · cases h

end Round

end HailortDrivers.BootRounds
