import HailortDrivers.KernelExec
import HailortDrivers.LittleEndian

/-!
`hailo_resource.c`: the device behind a mapping, reached by `ioread32` and
`iowrite32` only. Addresses and offsets are numbers that do not wrap, so an
access past the end of a mapping is visible as one. A copy returns the bytes it
stores from the host pointer on; where that pointer lies only decides which accesses
are made.
-/
namespace HailortDrivers.ResourceAccess
open KernelExec LittleEndian

def eio : Int32 := 5

structure HailoResource where
  address : Nat
  size : UInt64
deriving DecidableEq

/-- What `ioread32` and `iowrite32` do to the device. -/
structure Mmio (σ : Type) where
  ioread32 : Nat → σ → UInt32 × σ
  iowrite32 : UInt32 → Nat → σ → σ

/-- `ALIGN_TO_32_BIT` -/
def alignTo32Bit (address : Nat) : Nat := address / 4 * 4

section
variable {σ : Type} (io : Mmio σ) (resource : HailoResource)

/-- The common body of `hailo_resource_read8` and `hailo_resource_read16`. -/
def hailoResourceReadPart (amountBits offset : Nat) (s : σ) : Nat × σ :=
  let word := alignTo32Bit (resource.address + offset)
  let (val, s) := io.ioread32 word s
  let offsetInBits := 8 * (resource.address + offset - word)
  (readBitsAtOffset amountBits offsetInBits val.toNat, s)

/-- The common body of `hailo_resource_write8` and `hailo_resource_write16`. -/
def hailoResourceWritePart (amountBits : UInt32) (offset : Nat) (value : UInt32) (s : σ) : σ :=
  let word := alignTo32Bit (resource.address + offset)
  let (initialVal, s) := io.ioread32 word s
  let offsetInBits := UInt32.ofNat (8 * (resource.address + offset - word))
  io.iowrite32 (writeBitsAtOffset amountBits offsetInBits initialVal value) word s

def hailoResourceRead8 (offset : Nat) (s : σ) : UInt8 × σ :=
  let (bits, s) := hailoResourceReadPart io resource 8 offset s
  (UInt8.ofNat bits, s)

def hailoResourceRead16 (offset : Nat) (s : σ) : UInt16 × σ :=
  let (bits, s) := hailoResourceReadPart io resource 16 offset s
  (UInt16.ofNat bits, s)

def hailoResourceRead32 (offset : Nat) (s : σ) : UInt32 × σ :=
  io.ioread32 (resource.address + offset) s

def hailoResourceWrite8 (offset : Nat) (value : UInt8) (s : σ) : σ :=
  hailoResourceWritePart io resource 8 offset value.toUInt32 s

def hailoResourceWrite16 (offset : Nat) (value : UInt16) (s : σ) : σ :=
  hailoResourceWritePart io resource 16 offset value.toUInt32 s

def hailoResourceWrite32 (offset : Nat) (value : UInt32) (s : σ) : σ :=
  io.iowrite32 value (resource.address + offset) s

/-- The last loop of `hailo_resource_read_buffer`, `count` bytes one by one. -/
def readTrailingBytes : Nat → Nat → σ → List UInt8 × σ
  | 0, _, s => ([], s)
  | count + 1, offset, s =>
    let (b, s) := hailoResourceRead8 io resource offset s
    let (rest, s) := readTrailingBytes count (offset + 1) s
    (b :: rest, s)

/-- The loop over whole words, then the last loop. -/
def readWords : Nat → Nat → σ → List UInt8 × σ
  | count + 4, offset, s =>
    let (word, s) := hailoResourceRead32 io resource offset s
    let (rest, s) := readWords count (offset + 4) s
    (wordBytes word ++ rest, s)
  | count, offset, s => readTrailingBytes io resource count offset s

/-- The first loop takes single bytes until both addresses are aligned. -/
def hailoResourceReadBuffer (offset : Nat) : Nat → Nat → σ → List UInt8 × σ
  | 0, _, s => ([], s)
  | count + 1, dest, s =>
    if dest % 4 ≠ 0 ∨ (resource.address + offset) % 4 ≠ 0 then
      let (b, s) := hailoResourceRead8 io resource offset s
      let (rest, s) := hailoResourceReadBuffer (offset + 1) count (dest + 1) s
      (b :: rest, s)
    else
      readWords io resource (count + 1) offset s

/-- The last loop of `hailo_resource_write_buffer`. -/
def writeTrailingBytes : List UInt8 → Nat → σ → Int32 × σ
  | [], _, s => (0, s)
  | b :: rest, offset, s =>
    let s := hailoResourceWrite8 io resource offset b s
    let (readBack, s) := hailoResourceRead8 io resource offset s
    if readBack ≠ b then (-eio, s) else writeTrailingBytes rest (offset + 1) s

/-- The loop over whole words, then the last loop. -/
def writeWords : List UInt8 → Nat → σ → Int32 × σ
  | b₀ :: b₁ :: b₂ :: b₃ :: rest, offset, s =>
    let word := wordIn [b₀, b₁, b₂, b₃] 0
    let s := hailoResourceWrite32 io resource offset word s
    let (readBack, s) := hailoResourceRead32 io resource offset s
    if readBack ≠ word then (-eio, s) else writeWords rest (offset + 4) s
  | data, offset, s => writeTrailingBytes io resource data offset s

/-- `data` are the `count` bytes that `from` points at. -/
def hailoResourceWriteBuffer (offset : Nat) : List UInt8 → Nat → σ → Int32 × σ
  | [], _, s => (0, s)
  | b :: rest, source, s =>
    if (resource.address + offset) % 4 ≠ 0 ∨ source % 4 ≠ 0 then
      let s := hailoResourceWrite8 io resource offset b s
      let (readBack, s) := hailoResourceRead8 io resource offset s
      if readBack ≠ b then (-eio, s)
      else hailoResourceWriteBuffer (offset + 1) rest (source + 1) s
    else
      writeWords io resource (b :: rest) offset s

theorem length_readTrailingBytes (count : Nat) :
    ∀ offset s, (readTrailingBytes io resource count offset s).1.length = count := by
  induction count with
  | zero => intro offset s; rfl
  | succ count ih =>
    intro offset s
    rw [readTrailingBytes]
    simp only [List.length_cons]
    rw [ih]

theorem length_readWords (count : Nat) :
    ∀ offset s, (readWords io resource count offset s).1.length = count := by
  induction count using Nat.strong_induction_on with
  | _ count ih =>
    intro offset s
    match count, ih with
    | count + 4, ih =>
      rw [readWords]
      simp only [List.length_append, length_wordBytes]
      rw [ih count (by omega), Nat.add_comm]
    | 0, _ => exact length_readTrailingBytes io resource _ offset s
    | 1, _ => exact length_readTrailingBytes io resource _ offset s
    | 2, _ => exact length_readTrailingBytes io resource _ offset s
    | 3, _ => exact length_readTrailingBytes io resource _ offset s

/-- A copy stores as many bytes as it was asked for. -/
theorem length_hailoResourceReadBuffer (count : Nat) :
    ∀ offset dest s,
      (hailoResourceReadBuffer io resource offset count dest s).1.length = count := by
  induction count with
  | zero => intro offset dest s; rfl
  | succ count ih =>
    intro offset dest s
    rw [hailoResourceReadBuffer]
    split
    · simp only [List.length_cons]
      rw [ih]
    · exact length_readWords io resource (count + 1) offset s

end

end HailortDrivers.ResourceAccess
