import HailortDrivers.ByteViews
import HailortDrivers.CircularBuffer
import HailortDrivers.VdmaTypes

/-!
Reading the firmware log: a ring of 4088 bytes behind two offset words, filled
by the device at `chip_offset` and emptied by the host at `host_offset`.
-/
namespace HailortDrivers.FirmwareLog
open LittleEndian ResourceAccess ByteViews CircularBuffer VdmaTypes

structure FwDebugBufferHeader where
  hostOffset : UInt32
  chipOffset : UInt32

def debugBufferTotalSize : UInt64 := 4 * 1024
def debugBufferDataSize : UInt64 := debugBufferTotalSize - 8
def maxFwLogBufferLength : UInt64 := 512
def pcieAppCpuDebugOffset : Nat := 8 * 1024
def pcieCoreCpuDebugOffset : Nat := pcieAppCpuDebugOffset + debugBufferTotalSize.toNat

/-- `buffer` is the address of the array. -/
structure HailoReadLogParams where
  isAppCpu : Bool
  bufferSize : UInt64
  buffer : Nat
  readBytes : UInt64

structure HostStore where
  address : Nat
  bytes : List UInt8

/-- What a call returns, `*params`, the bytes it stored, and the device after it. -/
structure LogRead (σ : Type) where
  err : Int32
  params : HailoReadLogParams
  stores : List HostStore
  device : σ

def calculateLogReadyToRead (header : FwDebugBufferHeader) : UInt64 :=
  let hostOffset := header.hostOffset.toUInt64
  let chipOffset := header.chipOffset.toUInt64
  if chipOffset ≥ hostOffset then chipOffset - hostOffset
  else debugBufferDataSize - (hostOffset - chipOffset)

section
variable {σ : Type} (io : Mmio σ)

/-- The end of `hailo_read_firmware_log`, from the second copy on. -/
def readLastSegment (fwLoggerResource : HailoResource) (params : HailoReadLogParams)
    (readyToRead readOffset sizeToRead : UInt64) (userBuffer : Nat) (stores : List HostStore)
    (s : σ) : LogRead σ :=
  let (last, s) := hailoResourceReadBuffer io fwLoggerResource readOffset.toNat
    sizeToRead.toNat userBuffer s
  let readOffset := readOffset + sizeToRead
  let s := hailoResourceWrite32 io fwLoggerResource 0 (readOffset - 8).toUInt32 s
  { err := 0
    params := { params with readBytes := readyToRead }
    stores := stores ++ [⟨userBuffer, last⟩]
    device := s }

/-- `hailo_read_firmware_log` from where the header is known. -/
def readReadyLog (fwLoggerResource : HailoResource) (params : HailoReadLogParams)
    (header : FwDebugBufferHeader) (s : σ) : LogRead σ :=
  let hostOffset := header.hostOffset.toUInt64
  let readyToRead := calculateLogReadyToRead header
  if readyToRead = 0 then
    ⟨0, { params with readBytes := 0 }, [], s⟩
  else
    let readyToRead := min readyToRead params.bufferSize
    let readOffset := 8 + hostOffset
    if debugBufferDataSize ≤ hostOffset + readyToRead then
      let sizeToRead := debugBufferDataSize - hostOffset
      let (first, s) := hailoResourceReadBuffer io fwLoggerResource readOffset.toNat
        sizeToRead.toNat params.buffer s
      readLastSegment io fwLoggerResource params readyToRead (readOffset - hostOffset)
        (readyToRead - sizeToRead) (params.buffer + sizeToRead.toNat)
        [⟨params.buffer, first⟩] s
    else
      readLastSegment io fwLoggerResource params readyToRead readOffset readyToRead
        params.buffer [] s

/-- `debugBufferHeader` is the address of the local of that name. -/
def hailoReadFirmwareLog (fwLoggerResource : HailoResource) (debugBufferHeader : Nat)
    (params : HailoReadLogParams) (s : σ) : LogRead σ :=
  if params.bufferSize > maxFwLogBufferLength then
    ⟨-einval, params, [], s⟩
  else
    let (header, s) := hailoResourceReadBuffer io fwLoggerResource 0 8 debugBufferHeader s
    readReadyLog io fwLoggerResource params ⟨wordIn header 0, wordIn header 4⟩ s

def logResource (resource : HailoResource) (isAppCpu : Bool) : HailoResource where
  address := resource.address +
    (if isAppCpu then pcieAppCpuDebugOffset else pcieCoreCpuDebugOffset)
  size := debugBufferTotalSize

def hailoPcieReadFirmwareLog (resource : HailoResource) (debugBufferHeader : Nat)
    (params : HailoReadLogParams) (s : σ) : LogRead σ :=
  if params.bufferSize = 0 then
    ⟨0, { params with readBytes := 0 }, [], s⟩
  else
    hailoReadFirmwareLog io (logResource resource params.isAppCpu) debugBufferHeader params s

end

/-- Host memory after the stores of a call. -/
def hostAfter (host : Nat → UInt8) (stores : List HostStore) : Nat → UInt8 :=
  stores.foldl (fun memory store => overlay memory store.address store.bytes) host

theorem hostAfter_concat (host : Nat → UInt8) (stores : List HostStore) (store : HostStore) :
    hostAfter host (stores ++ [store]) =
      overlay (hostAfter host stores) store.address store.bytes := by
  rw [hostAfter, List.foldl_append, ← hostAfter]
  rfl

section
variable {bytes : Nat → UInt8}

def headerOf (bytes : Nat → UInt8) : FwDebugBufferHeader := ⟨wordAt bytes 0, wordAt bytes 4⟩

def hostOffset (bytes : Nat → UInt8) : Nat := (headerOf bytes).hostOffset.toNat

def chipOffset (bytes : Nat → UInt8) : Nat := (headerOf bytes).chipOffset.toNat

def logData (bytes : Nat → UInt8) (k : Nat) : UInt8 := bytes (8 + k)

structure OffsetsInRange (bytes : Nat → UInt8) : Prop where
  host_lt : hostOffset bytes < 4088
  chip_lt : chipOffset bytes < 4088

/-- The bytes that were appended and not yet read. -/
def unread (bytes : Nat → UInt8) : List UInt8 :=
  contents 4088 (chipOffset bytes) (hostOffset bytes) (logData bytes)

/-- `n` bytes of the ring from position `x` on. -/
def logRun (bytes : Nat → UInt8) (x n : Nat) : List UInt8 :=
  (List.range n).map fun k => logData bytes ((x + k) % 4088)

theorem toNat_debugBufferDataSize : debugBufferDataSize.toNat = 4088 := rfl

theorem toNat_readyToRead {header : FwDebugBufferHeader} (hhost : header.hostOffset.toNat < 4088)
    (hchip : header.chipOffset.toNat < 4088) :
    (calculateLogReadyToRead header).toNat =
      count 4088 header.chipOffset.toNat header.hostOffset.toNat := by
  unfold calculateLogReadyToRead
  simp only [ge_iff_le, UInt64.le_iff_toNat_le, UInt32.toNat_toUInt64]
  split
  · next hle =>
    rw [count_of_le hchip hle, UInt64.toNat_sub_of_le _ _ (by
      simpa only [UInt64.le_iff_toNat_le, UInt32.toNat_toUInt64] using hle),
      UInt32.toNat_toUInt64, UInt32.toNat_toUInt64]
  · next hlt =>
    rw [count_of_lt hhost (by omega)]
    simp only [UInt64.toNat_sub, toNat_debugBufferDataSize, UInt32.toNat_toUInt64]
    omega

theorem length_logRun (x n : Nat) : (logRun bytes x n).length = n := by simp [logRun]

theorem logRun_add (x m n : Nat) :
    logRun bytes x (m + n) = logRun bytes x m ++ logRun bytes (x + m) n := by
  rw [logRun, List.range_add, List.map_append, List.map_map, logRun, logRun]
  refine congrArg _ (List.map_congr_left fun k _ => ?_)
  rw [Function.comp_apply, Nat.add_assoc]

/-- Short of the wrap the ring is read as it lies in memory. -/
theorem logRun_of_le {x n : Nat} (h : x + n ≤ 4088) :
    logRun bytes x n = bytesFrom bytes (8 + x) n := by
  refine List.map_congr_left fun k hk => ?_
  have := List.mem_range.mp hk
  rw [logData, Nat.mod_eq_of_lt (by omega), Nat.add_assoc]

theorem logRun_mod (x n : Nat) : logRun bytes (x % 4088) n = logRun bytes x n := by
  refine List.map_congr_left fun k _ => ?_
  rw [Nat.mod_add_mod]

theorem unread_split (h : OffsetsInRange bytes) {n : Nat} (hn : n ≤ (unread bytes).length) :
    unread bytes = logRun bytes (hostOffset bytes) n ++
      contents 4088 (chipOffset bytes) ((hostOffset bytes + n) % 4088) (logData bytes) := by
  rw [unread, length_contents] at hn
  exact contents_popMany h.chip_lt n _ h.host_lt hn

theorem unread_take (h : OffsetsInRange bytes) {n : Nat} (hn : n ≤ (unread bytes).length) :
    (unread bytes).take n = logRun bytes (hostOffset bytes) n := by
  rw [unread_split h hn]
  exact List.take_left' (length_logRun _ n)

end

/-- What a call does when both offsets are in range: it takes `n` bytes off the ring. -/
structure Takes {σ : Type} {io : Mmio σ} {base : Nat} (view : ByteView io base 4096)
    (s : σ) (params : HailoReadLogParams) (r : LogRead σ) : Prop where
  err_eq : r.err = 0
  buffer_eq : r.params.buffer = params.buffer
  readBytes_eq : r.params.readBytes.toNat =
    min (unread (view.get s)).length params.bufferSize.toNat
  stores_eq : ∀ host, hostAfter host r.stores =
    overlay host params.buffer ((unread (view.get s)).take r.params.readBytes.toNat)
  device_eq : r.device = view.put s (overlay (view.get s) 0
    (wordBytes (UInt32.ofNat ((hostOffset (view.get s) + r.params.readBytes.toNat) % 4088))))

section
variable {σ : Type} {io : Mmio σ} {resource : HailoResource} {s : σ}
variable {params : HailoReadLogParams}

theorem readLastSegment_takes (hmap : MappedWords resource 4096)
    (view : ByteView io resource.address 4096) (h : OffsetsInRange (view.get s))
    {readyToRead readOffset sizeToRead : UInt64} {done : Nat} {stores : List HostStore}
    (hready : readyToRead.toNat = min (unread (view.get s)).length params.bufferSize.toNat)
    (hsize : done + sizeToRead.toNat = readyToRead.toNat)
    (hoffset : readOffset.toNat = 8 + (hostOffset (view.get s) + done) % 4088)
    (hroom : readOffset.toNat + sizeToRead.toNat < 4096)
    (hstores : ∀ host, hostAfter host stores =
      overlay host params.buffer (logRun (view.get s) (hostOffset (view.get s)) done)) :
    Takes view s params (readLastSegment io resource params readyToRead readOffset sizeToRead
      (params.buffer + done) stores s) := by
  have hle : readyToRead.toNat ≤ (unread (view.get s)).length := by omega
  have hmod : (hostOffset (view.get s) + readyToRead.toNat) % 4088 =
      (hostOffset (view.get s) + done) % 4088 + sizeToRead.toNat := by omega
  have hlast : logRun (view.get s) (hostOffset (view.get s) + done) sizeToRead.toNat =
      bytesFrom (view.get s) readOffset.toNat sizeToRead.toNat := by
    rw [hoffset, ← logRun_of_le (by omega), logRun_mod]
  rw [readLastSegment, hailoResourceReadBuffer_view hmap view s _ (by omega)]
  refine ⟨rfl, rfl, hready, fun host => ?_, ?_⟩
  · have hdone : (logRun (view.get s) (hostOffset (view.get s)) done).length = done :=
      length_logRun _ _
    simp only
    rw [hostAfter_concat, hstores, unread_take h hle, ← hsize, logRun_add, hlast, ← overlay_append,
      hdone]
  · have hword : (readOffset + sizeToRead - 8).toUInt32 =
        UInt32.ofNat ((hostOffset (view.get s) + readyToRead.toNat) % 4088) := by
      apply UInt32.toNat_inj.mp
      have height : (8 : UInt64).toNat = 8 := rfl
      rw [UInt64.toNat_toUInt32, UInt64.toNat_sub, UInt64.toNat_add, UInt32.toNat_ofNat', height]
      omega
    simp only
    rw [hailoResourceWrite32_view view (by decide) (by decide), hword]

theorem readReadyLog_takes (hmap : MappedWords resource 4096)
    (view : ByteView io resource.address 4096) (h : OffsetsInRange (view.get s)) :
    Takes view s params (readReadyLog io resource params (headerOf (view.get s)) s) := by
  have hlength : (calculateLogReadyToRead (headerOf (view.get s))).toNat =
      (unread (view.get s)).length := by
    rw [unread, length_contents]
    exact toNat_readyToRead h.host_lt h.chip_lt
  have hheader : (headerOf (view.get s)).hostOffset.toUInt64.toNat = hostOffset (view.get s) :=
    UInt32.toNat_toUInt64 _
  have hhost := h.host_lt
  have hcount : (unread (view.get s)).length < 4088 := by
    rw [unread, length_contents]
    exact count_lt (by decide)
  have height : (8 : UInt64).toNat = 8 := rfl
  have hoffset : (8 + (headerOf (view.get s)).hostOffset.toUInt64).toNat =
      8 + hostOffset (view.get s) := by
    rw [UInt64.toNat_add, hheader, height]
    omega
  have hready :=
    UInt64.toNat_min (calculateLogReadyToRead (headerOf (view.get s))) params.bufferSize
  rw [hlength] at hready
  rw [readReadyLog]
  split
  · next hzero =>
    have hnil : (unread (view.get s)).length = 0 := by
      rw [← hlength, hzero]
      rfl
    have hempty := List.length_eq_zero_iff.mp hnil
    refine ⟨rfl, rfl, ?_, fun host => ?_, ?_⟩
    · rw [hnil, Nat.zero_min]
      rfl
    · rw [hempty, List.take_nil, overlay_nil]
      rfl
    · have hword : UInt32.ofNat ((hostOffset (view.get s) + (0 : UInt64).toNat) % 4088) =
          wordAt (view.get s) 0 := by
        apply UInt32.toNat_inj.mp
        rw [UInt32.toNat_ofNat']
        change (hostOffset (view.get s) + 0) % 4088 % 2 ^ 32 = hostOffset (view.get s)
        omega
      simp only
      rw [hword, overlay_wordAt, view.put_get]
  · have hroom := Nat.min_le_left (unread (view.get s)).length params.bufferSize.toNat
    simp only
    split
    · next hwrap =>
      rw [UInt64.le_iff_toNat_le, UInt64.toNat_add, hheader, toNat_debugBufferDataSize] at hwrap
      have hsize : (debugBufferDataSize - (headerOf (view.get s)).hostOffset.toUInt64).toNat =
          4088 - hostOffset (view.get s) := by
        rw [UInt64.toNat_sub, hheader, toNat_debugBufferDataSize]
        omega
      have hback : (8 + (headerOf (view.get s)).hostOffset.toUInt64 -
          (headerOf (view.get s)).hostOffset.toUInt64).toNat = 8 := by
        rw [UInt64.toNat_sub, hoffset, hheader]
        omega
      have hrest : (min (calculateLogReadyToRead (headerOf (view.get s))) params.bufferSize -
          (debugBufferDataSize - (headerOf (view.get s)).hostOffset.toUInt64)).toNat =
          min (unread (view.get s)).length params.bufferSize.toNat -
            (4088 - hostOffset (view.get s)) := by
        rw [UInt64.toNat_sub, hsize, hready]
        omega
      rw [hailoResourceReadBuffer_view hmap view s _ (by omega)]
      refine readLastSegment_takes hmap view h hready ?_ ?_ ?_ fun host => ?_
      · omega
      · rw [hback]
        omega
      · omega
      · rw [hostAfter, List.foldl_cons, List.foldl_nil, hsize, hoffset, logRun_of_le (by omega)]
    · next hstraight =>
      rw [UInt64.le_iff_toNat_le, UInt64.toNat_add, hheader, toNat_debugBufferDataSize] at hstraight
      change Takes _ _ _ (readLastSegment _ _ _ _ _ _ (params.buffer + 0) [] _)
      exact readLastSegment_takes hmap view h hready (by omega) (by omega)
        (by omega) fun host => (overlay_nil host _).symm

theorem hailoReadFirmwareLog_takes (hmap : MappedWords resource 4096)
    (view : ByteView io resource.address 4096) (h : OffsetsInRange (view.get s))
    (hsize : params.bufferSize.toNat ≤ 512) (debugBufferHeader : Nat) :
    Takes view s params (hailoReadFirmwareLog io resource debugBufferHeader params s) := by
  have hnotBig : ¬ params.bufferSize > maxFwLogBufferLength := by
    rw [gt_iff_lt, UInt64.lt_iff_toNat_lt]
    exact Nat.not_lt.mpr hsize
  rw [hailoReadFirmwareLog, if_neg hnotBig, hailoResourceReadBuffer_view hmap view s _ (by decide)]
  simp only [wordIn_bytesFrom (show 0 + 4 ≤ 8 by decide),
    wordIn_bytesFrom (show 4 + 4 ≤ 8 by decide)]
  exact readReadyLog_takes hmap view h

end

end HailortDrivers.FirmwareLog
