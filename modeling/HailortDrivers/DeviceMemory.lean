import HailortDrivers.FirmwareImage
import HailortDrivers.KernelExec
import HailortDrivers.MachineWord
import HailortDrivers.ResourceAccess

/-!
`write_memory` and `read_memory` of `pcie_common.c`: device memory through the
4 KB window that table 0 of the address translation moves about. A local
structure is on the stack at an aligned address, for which 0 stands.
-/
namespace HailortDrivers.DeviceMemory
open KernelExec LittleEndian ResourceAccess FirmwareImage MachineWord

def atrParam : UInt32 := 0x17
def atrSrcAddr : UInt32 := 0x0
def atrTrslParam : UInt32 := 6
def atrTableSize : UInt32 := 0x1000
def atrTableSizeMask : UInt32 := 0x1000 - 1
def atr0PcieBridgeOffset : UInt32 := 0x700
def hailoPcieMaxAtrTableIndex : UInt32 := 3

def atrPcieBridgeOffset (atrIndex : UInt32) : UInt32 := atr0PcieBridgeOffset + atrIndex * 0x20

structure HailoAtrConfig where
  atrParam : UInt32
  atrSrc : UInt32
  atrTrslAddr1 : UInt32
  atrTrslAddr2 : UInt32
  atrTrslParam : UInt32
deriving DecidableEq

def HailoAtrConfig.bytes (atr : HailoAtrConfig) : List UInt8 :=
  wordBytes atr.atrParam ++ (wordBytes atr.atrSrc ++ (wordBytes atr.atrTrslAddr1 ++
    (wordBytes atr.atrTrslAddr2 ++ wordBytes atr.atrTrslParam)))

def HailoAtrConfig.ofBytes (bytes : List UInt8) : HailoAtrConfig where
  atrParam := wordIn bytes 0
  atrSrc := wordIn bytes 4
  atrTrslAddr1 := wordIn bytes 8
  atrTrslAddr2 := wordIn bytes 12
  atrTrslParam := wordIn bytes 16

structure HailoPcieResources where
  config : HailoResource
  fwAccess : HailoResource
  boardType : HailoBoardType
  acceleratorType : HailoAcceleratorType

/-- The calls of `hailo_resource.c` that reach the device here. -/
structure ResourceOps (σ : Type) where
  readBuffer : HailoResource → (offset count dest : Nat) → σ → List UInt8 × σ
  writeBuffer : HailoResource → (offset : Nat) → List UInt8 → (source : Nat) → σ → Int32 × σ

def hailoResourceOps {σ : Type} (io : Mmio σ) : ResourceOps σ where
  readBuffer := hailoResourceReadBuffer io
  writeBuffer := hailoResourceWriteBuffer io

section
variable {σ : Type} (ops : ResourceOps σ)

def hailoPcieConfigureAtrTable (bridgeConfig : HailoResource) (trslAddr : UInt64)
    (atrIndex : UInt32) (s : σ) : Exec (Int32 × σ) :=
  let atr : HailoAtrConfig := {
    atrParam := atrParam ||| (atrIndex <<< 12)
    atrSrc := atrSrcAddr
    atrTrslAddr1 := (trslAddr &&& 0xFFFFFFFF).toUInt32
    atrTrslAddr2 := (trslAddr >>> 32).toUInt32
    atrTrslParam := atrTrslParam }
  if hailoPcieMaxAtrTableIndex < atrIndex then .error .bugOn
  else .ok (ops.writeBuffer bridgeConfig (atrPcieBridgeOffset atrIndex).toNat atr.bytes 0 s)

def hailoPcieReadAtrTable (bridgeConfig : HailoResource) (atrIndex : UInt32) (s : σ) :
    Exec (HailoAtrConfig × σ) :=
  if hailoPcieMaxAtrTableIndex < atrIndex then .error .bugOn
  else
    let (bytes, s) := ops.readBuffer bridgeConfig (atrPcieBridgeOffset atrIndex).toNat 20 0 s
    .ok (.ofBytes bytes, s)

variable (resources : HailoPcieResources)

/-- `host` is the memory that `src` points into. -/
def writeMemoryChunk (host : Nat → UInt8) (dest : UInt64) (destOffset : UInt32) (src : Nat)
    (len : UInt32) (s : σ) : Exec σ :=
  if destOffset + len > resources.fwAccess.size.toUInt32 then .error .bugOn
  else do
    let (_, s) ← hailoPcieConfigureAtrTable ops resources.config dest 0 s
    let (_, s) := ops.writeBuffer resources.fwAccess destOffset.toNat
      (bytesFrom host src len.toNat) src s
    .ok s

def readMemoryChunk (src : UInt64) (srcOffset : UInt32) (dest : Nat) (len : UInt32) (s : σ) :
    Exec (List UInt8 × σ) :=
  if srcOffset + len > resources.fwAccess.size.toUInt32 then .error .bugOn
  else do
    let (_, s) ← hailoPcieConfigureAtrTable ops resources.config src 0 s
    .ok (ops.readBuffer resources.fwAccess srcOffset.toNat len.toNat dest s)

theorem toNat_chunkLen {len offset : UInt32} (h : offset.toNat ≤ len.toNat) :
    (min (len - offset) atrTableSize).toNat = min (len.toNat - offset.toNat) 0x1000 := by
  have hmin : min (len - offset) atrTableSize =
      if len - offset ≤ atrTableSize then len - offset else atrTableSize := rfl
  have hsize : atrTableSize.toNat = 0x1000 := rfl
  have hsub : (len - offset).toNat = len.toNat - offset.toNat :=
    UInt32.toNat_sub_of_le _ _ (UInt32.le_iff_toNat_le.mpr h)
  rw [hmin, Nat.min_def, ← hsub, ← hsize]
  simp only [UInt32.le_iff_toNat_le]
  split <;> rfl

theorem toNat_nextOffset {len offset : UInt32} (h : offset.toNat ≤ len.toNat) :
    (offset + min (len - offset) atrTableSize).toNat =
      offset.toNat + min (len.toNat - offset.toNat) 0x1000 := by
  have hlt := len.toNat_lt
  rw [UInt32.toNat_add, toNat_chunkLen h]
  omega

/-- Every round of a chunk loop leaves less to do. -/
theorem sub_chunk_lt {len offset : UInt32} (h : offset < len) :
    (len - (offset + min (len - offset) atrTableSize)).toNat < (len - offset).toNat := by
  rw [UInt32.lt_iff_toNat_lt] at h
  have hnext := toNat_nextOffset (Nat.le_of_lt h)
  rw [UInt32.toNat_sub_of_le _ _ (UInt32.le_iff_toNat_le.mpr (by omega)), hnext,
    UInt32.toNat_sub_of_le _ _ (UInt32.le_iff_toNat_le.mpr (by omega))]
  omega

/-- The loop of `write_memory`. -/
def writeMemoryChunks (host : Nat → UInt8) (dest : UInt64) (src : Nat) (len offset : UInt32)
    (s : σ) : Exec σ :=
  if _ : offset < len then do
    let chunkLen := min (len - offset) atrTableSize
    let s ← writeMemoryChunk ops resources host (dest + offset.toUInt64) 0 (src + offset.toNat)
      chunkLen s
    writeMemoryChunks host dest src len (offset + chunkLen) s
  else .ok s
termination_by (len - offset).toNat
decreasing_by exact sub_chunk_lt ‹_›

def baseAddress (address : UInt64) : UInt64 := address &&& (~~~atrTableSizeMask).toUInt64

/-- The data up to the first page boundary, when `dest` is not at one. -/
def writeFirstChunk (host : Nat → UInt8) (dest : UInt64) (src : Nat) (len : UInt32) (s : σ) :
    Exec (UInt32 × σ) :=
  if baseAddress dest ≠ dest then do
    let chunkLen := min (baseAddress dest + atrTableSize.toUInt64 - dest).toUInt32 len
    let s ← writeMemoryChunk ops resources host (baseAddress dest)
      (dest - baseAddress dest).toUInt32 src chunkLen s
    .ok (chunkLen, s)
  else .ok (0, s)

/-- Table 0 as it was before. -/
def restoreAtrTable (previousAtr : HailoAtrConfig) (s : σ) : Exec (Int32 × σ) :=
  hailoPcieConfigureAtrTable ops resources.config
    ((previousAtr.atrTrslAddr2.toUInt64 <<< 32) ||| previousAtr.atrTrslAddr1.toUInt64) 0 s

def writeMemory (host : Nat → UInt8) (dest : UInt64) (src : Nat) (len : UInt32) (s : σ) :
    Exec σ := do
  let (previousAtr, s) ← hailoPcieReadAtrTable ops resources.config 0 s
  let (offset, s) ← writeFirstChunk ops resources host dest src len s
  let s ← writeMemoryChunks ops resources host dest src len offset s
  let (_, s) ← restoreAtrTable ops resources previousAtr s
  .ok s

/-- The loop of `read_memory`. -/
def readMemoryChunks (src : UInt64) (dest : Nat) (len offset : UInt32) (s : σ) :
    Exec (List UInt8 × σ) :=
  if _ : offset < len then do
    let chunkLen := min (len - offset) atrTableSize
    let (chunk, s) ← readMemoryChunk ops resources (src + offset.toUInt64) 0
      (dest + offset.toNat) chunkLen s
    let (rest, s) ← readMemoryChunks src dest len (offset + chunkLen) s
    .ok (chunk ++ rest, s)
  else .ok ([], s)
termination_by (len - offset).toNat
decreasing_by exact sub_chunk_lt ‹_›

def readFirstChunk (src : UInt64) (dest : Nat) (len : UInt32) (s : σ) :
    Exec (UInt32 × List UInt8 × σ) :=
  if baseAddress src ≠ src then do
    let chunkLen := min (baseAddress src + atrTableSize.toUInt64 - src).toUInt32 len
    let (first, s) ← readMemoryChunk ops resources (baseAddress src)
      (src - baseAddress src).toUInt32 dest chunkLen s
    .ok (chunkLen, first, s)
  else .ok (0, [], s)

/-- The bytes stored from `dest` on. -/
def readMemory (src : UInt64) (dest : Nat) (len : UInt32) (s : σ) : Exec (List UInt8 × σ) := do
  let (previousAtr, s) ← hailoPcieReadAtrTable ops resources.config 0 s
  let (offset, first, s) ← readFirstChunk ops resources src dest len s
  let (rest, s) ← readMemoryChunks ops resources src dest len offset s
  let (_, s) ← restoreAtrTable ops resources previousAtr s
  .ok (first ++ rest, s)

end

/-! Every chunk fits into a window of a page. -/

/-- The mask has 32 bits, so the base is that of the low word. -/
theorem toNat_baseAddress (address : UInt64) :
    (baseAddress address).toNat = address.toNat % 2 ^ 32 / 2 ^ 12 * 2 ^ 12 := by
  have hmask : ((~~~atrTableSizeMask).toUInt64).toNat = (2 ^ 20 - 1) * 2 ^ 12 := by decide
  rw [baseAddress, UInt64.toNat_and, hmask]
  apply Nat.eq_of_testBit_eq
  intro i
  rw [Nat.testBit_and, Nat.testBit_mul_two_pow, Nat.testBit_mul_two_pow,
    Nat.testBit_two_pow_sub_one, Nat.testBit_div_two_pow, Nat.testBit_mod_two_pow]
  rcases Nat.lt_or_ge i 12 with hlow | hhigh
  · simp [Nat.not_le.mpr hlow]
  · have hback : i - 12 + 12 = i := Nat.sub_add_cancel hhigh
    have hlt : (i - 12 < 20) = (i < 32) := by
      rw [eq_iff_iff]
      omega
    simp only [hback, hlt]
    rw [Bool.and_comm (decide (12 ≤ i)), ← Bool.and_assoc, Bool.and_comm (address.toNat.testBit i)]
    simp [hhigh]

/-- The first chunk ends where the page of the address ends. -/
theorem firstChunk_fits {address : UInt64} (len : UInt32) (haddress : address.toNat ≤ 2 ^ 32) :
    (address - baseAddress address).toUInt32.toNat = address.toNat % 2 ^ 12 ∧
      (min (baseAddress address + atrTableSize.toUInt64 - address).toUInt32 len).toNat =
        min (0x1000 - address.toNat % 2 ^ 12) len.toNat ∧
      (address.toNat < 2 ^ 32 →
        (baseAddress address).toNat + address.toNat % 2 ^ 12 = address.toNat) := by
  have hbase := toNat_baseAddress address
  have hsize : atrTableSize.toUInt64.toNat = 0x1000 := rfl
  refine ⟨?_, ?_, ?_⟩
  · rw [UInt64.toNat_toUInt32, UInt64.toNat_sub, hbase]
    omega
  · rw [UInt32.toNat_min, UInt64.toNat_toUInt32, UInt64.toNat_sub, UInt64.toNat_add, hbase, hsize]
    omega
  · rw [hbase]
    omega

section
variable {σ : Type} (ops : ResourceOps σ) (resources : HailoPcieResources)

theorem chunk_fits {destOffset len : UInt32}
    (hsize : 0x1000 ≤ resources.fwAccess.size.toUInt32.toNat)
    (h : destOffset.toNat + len.toNat ≤ 0x1000) :
    ¬ destOffset + len > resources.fwAccess.size.toUInt32 := by
  rw [gt_iff_lt, UInt32.lt_iff_toNat_lt, toNat_add_of_lt (by omega)]
  omega

/-- Whatever the calls on the device return, a chunk that fits is written. -/
theorem writeMemoryChunk_ok (hsize : 0x1000 ≤ resources.fwAccess.size.toUInt32.toNat)
    (host : Nat → UInt8) (dest : UInt64) (src : Nat) {destOffset len : UInt32}
    (h : destOffset.toNat + len.toNat ≤ 0x1000) (s : σ) :
    ∃ s', writeMemoryChunk ops resources host dest destOffset src len s = .ok s' := by
  rw [writeMemoryChunk, if_neg (chunk_fits resources hsize h)]
  exact ⟨_, rfl⟩

theorem writeMemoryChunks_ok (hsize : 0x1000 ≤ resources.fwAccess.size.toUInt32.toNat)
    (host : Nat → UInt8) (dest : UInt64) (src : Nat) (len : UInt32) (n : Nat) :
    ∀ (offset : UInt32) (s : σ), len.toNat - offset.toNat ≤ n →
      ∃ s', writeMemoryChunks ops resources host dest src len offset s = .ok s' := by
  induction n with
  | zero =>
    intro offset s hn
    have hnot : ¬ offset < len := by
      rw [UInt32.lt_iff_toNat_lt]
      omega
    exact ⟨s, by rw [writeMemoryChunks, dif_neg hnot]⟩
  | succ n ih =>
    intro offset s hn
    rw [writeMemoryChunks]
    split
    · next hlt =>
      rw [UInt32.lt_iff_toNat_lt] at hlt
      have hchunk := toNat_chunkLen (Nat.le_of_lt hlt)
      have hnext := toNat_nextOffset (Nat.le_of_lt hlt)
      have hzero : (0 : UInt32).toNat = 0 := rfl
      obtain ⟨middle, hfirst⟩ := writeMemoryChunk_ok ops resources hsize host
        (dest + offset.toUInt64) (src + offset.toNat)
        (show (0 : UInt32).toNat + (min (len - offset) atrTableSize).toNat ≤ 0x1000 by omega) s
      obtain ⟨s', hrest⟩ := ih (offset + min (len - offset) atrTableSize) middle (by omega)
      refine ⟨s', ?_⟩
      simp only
      rw [hfirst, ok_bind]
      exact hrest
    · exact ⟨s, rfl⟩

theorem writeFirstChunk_ok (hsize : 0x1000 ≤ resources.fwAccess.size.toUInt32.toNat)
    (host : Nat → UInt8) (dest : UInt64) (src : Nat) (len : UInt32)
    (hdest : dest.toNat ≤ 2 ^ 32) (s : σ) :
    ∃ offset s', writeFirstChunk ops resources host dest src len s = .ok (offset, s') := by
  obtain ⟨hoffset, hchunk, _⟩ := firstChunk_fits len hdest
  rw [writeFirstChunk]
  split
  · obtain ⟨s', hok⟩ := writeMemoryChunk_ok ops resources hsize host (baseAddress dest) src
      (show (dest - baseAddress dest).toUInt32.toNat +
        (min (baseAddress dest + atrTableSize.toUInt64 - dest).toUInt32 len).toNat ≤ 0x1000 by
        omega) s
    refine ⟨min (baseAddress dest + atrTableSize.toUInt64 - dest).toUInt32 len, s', ?_⟩
    simp only
    rw [hok, ok_bind]
  · exact ⟨0, s, rfl⟩

/-- `write_memory` cannot fail: no result of a write below it is looked at. -/
theorem writeMemory_ok (hsize : 0x1000 ≤ resources.fwAccess.size.toUInt32.toNat)
    (host : Nat → UInt8) (dest : UInt32) (src : Nat) (len : UInt32) (s : σ) :
    ∃ s', writeMemory ops resources host dest.toUInt64 src len s = .ok s' := by
  have hdest : dest.toUInt64.toNat ≤ 2 ^ 32 := by
    rw [UInt32.toNat_toUInt64]
    exact Nat.le_of_lt dest.toNat_lt
  have hread : ∃ atr middle, hailoPcieReadAtrTable ops resources.config 0 s = .ok (atr, middle) :=
    ⟨_, _, rfl⟩
  obtain ⟨atr, middle, hread⟩ := hread
  obtain ⟨offset, first, hfirst⟩ :=
    writeFirstChunk_ok ops resources hsize host dest.toUInt64 src len hdest middle
  obtain ⟨last, hloop⟩ := writeMemoryChunks_ok ops resources hsize host dest.toUInt64 src len _
    offset first (Nat.le_refl _)
  have hrestore : ∃ ret s', restoreAtrTable ops resources atr last = .ok (ret, s') := ⟨_, _, rfl⟩
  obtain ⟨ret, s', hrestore⟩ := hrestore
  refine ⟨s', ?_⟩
  rw [writeMemory, hread, ok_bind]
  simp only
  rw [hfirst, ok_bind]
  simp only
  rw [hloop, ok_bind, hrestore, ok_bind]

end

end HailortDrivers.DeviceMemory
