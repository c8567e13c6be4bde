import HailortDrivers.DeviceWindow

/-!
`write_memory` and `read_memory` are exact: byte `k` of the source and byte
`dest + k` of device memory agree for every alignment of the two and every
length, nothing else changes, and the translation address is put back.
-/
namespace HailortDrivers.WindowedCopies
open KernelExec LittleEndian ResourceAccess ByteViews DeviceMemory DeviceWindow MachineWord

/-- The registers of the bridge agree but for table 0. -/
def AtrOnly (d d' : Device) : Prop :=
  ∀ bytes : List UInt8, bytes.length = 20 →
    overlay d'.config 0x700 bytes = overlay d.config 0x700 bytes

theorem AtrOnly.refl (d : Device) : AtrOnly d d := fun _ _ => rfl

theorem AtrOnly.trans {d d' d'' : Device} (h : AtrOnly d d') (h' : AtrOnly d' d'') :
    AtrOnly d d'' := fun bytes hlen => (h' bytes hlen).trans (h bytes hlen)

theorem atrOnly_setAtr (d : Device) (trslAddr : UInt64) : AtrOnly d (setAtr d trslAddr) :=
  fun _ hlen => overlay_overlay ((length_atrBytes trslAddr).trans hlen.symm)

/-- `run` was written at address `x`; of the registers only table 0 changed. -/
structure Wrote (d : Device) (x : Nat) (run : List UInt8) (d' : Device) : Prop where
  memory_eq : d'.memory = overlay d.memory x run
  atrOnly : AtrOnly d d'

theorem Wrote.none (d : Device) (x : Nat) : Wrote d x [] d :=
  ⟨(overlay_nil _ _).symm, AtrOnly.refl d⟩

theorem Wrote.append {d d' d'' : Device} {x : Nat} {run rest : List UInt8}
    (h : Wrote d x run d') (h' : Wrote d' (x + run.length) rest d'') :
    Wrote d x (run ++ rest) d'' where
  memory_eq := by rw [h'.memory_eq, h.memory_eq, overlay_append]
  atrOnly := h.atrOnly.trans h'.atrOnly

/-- The address that was read back from the two words, as it is configured again. -/
def restoredAddress (word1 word2 : UInt32) : UInt64 :=
  (word2.toUInt64 <<< 32) ||| word1.toUInt64

theorem toNat_restoredAddress (word1 word2 : UInt32) :
    (restoredAddress word1 word2).toNat = 2 ^ 32 * word2.toNat + word1.toNat := by
  have h1 := word1.toNat_lt
  have h2 := word2.toNat_lt
  have hshift : (32 : UInt64).toNat % 64 = 32 := rfl
  rw [restoredAddress, UInt64.toNat_or, UInt64.toNat_shiftLeft, hshift, UInt32.toNat_toUInt64,
    UInt32.toNat_toUInt64, Nat.shiftLeft_eq, Nat.mod_eq_of_lt (by omega), ← Nat.shiftLeft_eq,
    ← Nat.shiftLeft_add_eq_or_of_lt h1, Nat.shiftLeft_eq]
  omega

theorem restored_word1 (d : Device) (word1 word2 : UInt32) :
    wordAt (setAtr d (restoredAddress word1 word2)).config 0x708 = word1 := by
  have h1 := word1.toNat_lt
  have hmask : (0xFFFFFFFF : UInt64).toNat = 2 ^ 32 - 1 := rfl
  rw [setAtr_word1]
  apply UInt32.toNat_inj.mp
  rw [UInt64.toNat_toUInt32, UInt64.toNat_and, hmask, Nat.and_two_pow_sub_one_eq_mod,
    toNat_restoredAddress]
  omega

theorem restored_word2 (d : Device) (word1 word2 : UInt32) :
    wordAt (setAtr d (restoredAddress word1 word2)).config 0x70C = word2 := by
  have h1 := word1.toNat_lt
  have h2 := word2.toNat_lt
  have hshift : (32 : UInt64).toNat % 64 = 32 := rfl
  rw [setAtr_word2]
  apply UInt32.toNat_inj.mp
  rw [UInt64.toNat_toUInt32, UInt64.toNat_shiftRight, hshift, Nat.shiftRight_eq_div_pow,
    toNat_restoredAddress]
  omega

section
variable (resources : WindowedResources)

theorem writeMemoryChunk_device (host : Nat → UInt8) (dest : UInt64) (src : Nat)
    (destOffset len : UInt32) (d : Device)
    (hsize : 0x1000 ≤ resources.fwAccess.size.toUInt32.toNat)
    (h : destOffset.toNat + len.toNat ≤ 0x1000) :
    ∃ d', writeMemoryChunk (deviceOps resources) resources.toHailoPcieResources host dest destOffset
        src len d = .ok d' ∧
      Wrote d (dest.toNat + destOffset.toNat) (bytesFrom host src len.toNat) d' := by
  have hlen := length_bytesFrom host src len.toNat
  rw [writeMemoryChunk, if_neg (chunk_fits resources.toHailoPcieResources hsize h),
    configureAtrTable_device, ok_bind]
  have hwrite := hailoResourceWriteBuffer_view (windowMapped resources) (windowView resources)
    (bytesFrom host src len.toNat) destOffset.toNat src (setAtr d dest) (by omega)
  have hram : (windowRam (setAtr d dest)).put d.memory
      (overlay ((windowRam (setAtr d dest)).get d.memory) destOffset.toNat
        (bytesFrom host src len.toNat)) =
      overlay d.memory (dest.toNat + destOffset.toNat) (bytesFrom host src len.toNat) := by
    rw [← translation_setAtr d dest]
    exact ramView_put_overlay _ _ _ rfl (by omega)
  refine ⟨(windowView resources).put (setAtr d dest)
    (overlay ((windowView resources).get (setAtr d dest)) destOffset.toNat
      (bytesFrom host src len.toNat)), ?_, hram, atrOnly_setAtr d dest⟩
  exact congrArg (fun result => Except.ok result.2) hwrite

theorem readMemoryChunk_device (src : UInt64) (dest : Nat) (srcOffset len : UInt32) (d : Device)
    (hsize : 0x1000 ≤ resources.fwAccess.size.toUInt32.toNat)
    (h : srcOffset.toNat + len.toNat ≤ 0x1000) :
    readMemoryChunk (deviceOps resources) resources.toHailoPcieResources src srcOffset dest len
        d =
      .ok (bytesFrom d.memory (src.toNat + srcOffset.toNat) len.toNat, setAtr d src) := by
  rw [readMemoryChunk, if_neg (chunk_fits resources.toHailoPcieResources hsize h),
    configureAtrTable_device, ok_bind]
  have hread := hailoResourceReadBuffer_view (windowMapped resources) (windowView resources)
    (setAtr d src) dest h
  refine congrArg Except.ok ?_
  change hailoResourceReadBuffer _ _ _ _ _ _ = _
  rw [hread]
  refine Prod.ext (List.map_congr_left fun k _ => ?_) rfl
  simp only [windowView, translation_setAtr, setAtr_memory]
  rw [Nat.add_assoc]

theorem writeMemoryChunks_device (host : Nat → UInt8) (dest : UInt64) (src : Nat) (len : UInt32)
    (hsize : 0x1000 ≤ resources.fwAccess.size.toUInt32.toNat)
    (hdest : dest.toNat + len.toNat ≤ 2 ^ 32) (n : Nat) :
    ∀ (offset : UInt32) (d : Device), len.toNat - offset.toNat ≤ n → offset.toNat ≤ len.toNat →
      ∃ d', writeMemoryChunks (deviceOps resources) resources.toHailoPcieResources host dest src
          len offset d = .ok d' ∧
        Wrote d (dest.toNat + offset.toNat)
          (bytesFrom host (src + offset.toNat) (len.toNat - offset.toNat)) d' := by
  induction n with
  | zero =>
    intro offset d hn hle
    have hnot : ¬ offset < len := by
      rw [UInt32.lt_iff_toNat_lt]
      omega
    refine ⟨d, by rw [writeMemoryChunks, dif_neg hnot], ?_⟩
    rw [show len.toNat - offset.toNat = 0 by omega]
    exact Wrote.none d _
  | succ n ih =>
    intro offset d hn hle
    rw [writeMemoryChunks]
    split
    · next hlt =>
      rw [UInt32.lt_iff_toNat_lt] at hlt
      have hchunk := toNat_chunkLen hle
      have hnext := toNat_nextOffset hle
      have haddr : (dest + offset.toUInt64).toNat = dest.toNat + offset.toNat := by
        have := offset.toNat_lt
        rw [UInt64.toNat_add, UInt32.toNat_toUInt64]
        omega
      have hzero : (0 : UInt32).toNat = 0 := rfl
      obtain ⟨middle, hfirst, hwrote⟩ := writeMemoryChunk_device resources host
        (dest + offset.toUInt64) (src + offset.toNat) 0 (min (len - offset) atrTableSize) d hsize
        (by omega)
      obtain ⟨d', hrun, hrest⟩ := ih (offset + min (len - offset) atrTableSize) middle
        (by omega) (by omega)
      rw [haddr, hzero, Nat.add_zero] at hwrote
      rw [hnext, ← Nat.add_assoc, ← Nat.add_assoc, ← hchunk] at hrest
      have hall := hwrote.append (by rw [length_bytesFrom]; exact hrest)
      rw [← bytesFrom_add] at hall
      refine ⟨d', ?_, ?_⟩
      · simp only
        rw [hfirst, ok_bind]
        exact hrun
      · rwa [show (min (len - offset) atrTableSize).toNat +
          (len.toNat - (offset.toNat + (min (len - offset) atrTableSize).toNat)) =
          len.toNat - offset.toNat by omega] at hall
    · next hnot =>
      rw [UInt32.lt_iff_toNat_lt] at hnot
      refine ⟨d, rfl, ?_⟩
      rw [show len.toNat - offset.toNat = 0 by omega]
      exact Wrote.none d _

theorem readMemoryChunks_device (src : UInt64) (dest : Nat) (len : UInt32)
    (hsize : 0x1000 ≤ resources.fwAccess.size.toUInt32.toNat)
    (hsrc : src.toNat + len.toNat ≤ 2 ^ 32) (n : Nat) :
    ∀ (offset : UInt32) (d : Device), len.toNat - offset.toNat ≤ n → offset.toNat ≤ len.toNat →
      ∃ d', readMemoryChunks (deviceOps resources) resources.toHailoPcieResources src dest len
          offset d =
            .ok (bytesFrom d.memory (src.toNat + offset.toNat) (len.toNat - offset.toNat), d') ∧
        d'.memory = d.memory ∧ AtrOnly d d' := by
  induction n with
  | zero =>
    intro offset d hn hle
    have hnot : ¬ offset < len := by
      rw [UInt32.lt_iff_toNat_lt]
      omega
    refine ⟨d, ?_, rfl, AtrOnly.refl d⟩
    rw [readMemoryChunks, dif_neg hnot, show len.toNat - offset.toNat = 0 by omega]
    rfl
  | succ n ih =>
    intro offset d hn hle
    rw [readMemoryChunks]
    split
    · next hlt =>
      rw [UInt32.lt_iff_toNat_lt] at hlt
      have hchunk := toNat_chunkLen hle
      have hnext := toNat_nextOffset hle
      have haddr : (src + offset.toUInt64).toNat = src.toNat + offset.toNat := by
        have := offset.toNat_lt
        rw [UInt64.toNat_add, UInt32.toNat_toUInt64]
        omega
      have hzero : (0 : UInt32).toNat = 0 := rfl
      have hfirst :=
        readMemoryChunk_device resources (src + offset.toUInt64) (dest + offset.toNat) 0
          (min (len - offset) atrTableSize) d hsize (by omega)
      rw [haddr, hzero, Nat.add_zero] at hfirst
      obtain ⟨d', hrun, hmemory, hatr⟩ := ih (offset + min (len - offset) atrTableSize)
        (setAtr d (src + offset.toUInt64)) (by omega) (by omega)
      refine ⟨d', ?_, hmemory, (atrOnly_setAtr d _).trans hatr⟩
      simp only
      rw [hfirst, ok_bind]
      simp only
      rw [hrun, ok_bind, hnext, setAtr_memory, ← Nat.add_assoc, ← hchunk, ← bytesFrom_add,
        show (min (len - offset) atrTableSize).toNat +
          (len.toNat - (offset.toNat + (min (len - offset) atrTableSize).toNat)) =
          len.toNat - offset.toNat by omega]
    · next hnot =>
      rw [UInt32.lt_iff_toNat_lt] at hnot
      refine ⟨d, ?_, rfl, AtrOnly.refl d⟩
      rw [show len.toNat - offset.toNat = 0 by omega]
      rfl

theorem writeFirstChunk_device (host : Nat → UInt8) (dest : UInt64) (src : Nat) (len : UInt32)
    (d : Device) (hsize : 0x1000 ≤ resources.fwAccess.size.toUInt32.toNat)
    (hdest : dest.toNat + len.toNat ≤ 2 ^ 32) :
    ∃ offset middle,
      writeFirstChunk (deviceOps resources) resources.toHailoPcieResources host dest src len d =
        .ok (offset, middle) ∧
      offset.toNat ≤ len.toNat ∧ Wrote d dest.toNat (bytesFrom host src offset.toNat) middle := by
  obtain ⟨hoffset, hchunk, hfirst⟩ := firstChunk_fits len (show dest.toNat ≤ 2 ^ 32 by omega)
  rw [writeFirstChunk]
  split
  · obtain ⟨middle, hok, hwrote⟩ := writeMemoryChunk_device resources host (baseAddress dest) src
      (dest - baseAddress dest).toUInt32
      (min (baseAddress dest + atrTableSize.toUInt64 - dest).toUInt32 len) d hsize (by omega)
    refine ⟨_, middle, by simp only; rw [hok, ok_bind], by omega, ?_⟩
    rcases Nat.eq_zero_or_pos len.toNat with hzero | hpos
    · rw [hchunk, hzero, Nat.min_zero] at hwrote ⊢
      refine ⟨?_, hwrote.atrOnly⟩
      rw [hwrote.memory_eq]
      exact (overlay_nil _ _).trans (overlay_nil _ _).symm
    · rw [hoffset, hfirst (by omega)] at hwrote
      exact hwrote
  · exact ⟨0, d, rfl, Nat.zero_le _, Wrote.none d _⟩

theorem restoreAtrTable_device (d last : Device) (a b c : UInt32) :
    restoreAtrTable (deviceOps resources) resources.toHailoPcieResources
        ⟨a, b, wordAt d.config 0x708, wordAt d.config 0x70C, c⟩ last =
      .ok (0, setAtr last (restoredAddress (wordAt d.config 0x708) (wordAt d.config 0x70C))) :=
  configureAtrTable_device resources _ last

theorem writeMemory_device (host : Nat → UInt8) (dest : UInt64) (src : Nat) (len : UInt32)
    (d : Device) (hsize : 0x1000 ≤ resources.fwAccess.size.toUInt32.toNat)
    (hdest : dest.toNat + len.toNat ≤ 2 ^ 32) :
    ∃ d', writeMemory (deviceOps resources) resources.toHailoPcieResources host dest src len d =
        .ok d' ∧
      Wrote d dest.toNat (bytesFrom host src len.toNat) d' ∧
      wordAt d'.config 0x708 = wordAt d.config 0x708 ∧
      wordAt d'.config 0x70C = wordAt d.config 0x70C := by
  obtain ⟨offset, middle, hstart, hle, hwrote⟩ :=
    writeFirstChunk_device resources host dest src len d hsize hdest
  obtain ⟨last, hloop, hrest⟩ := writeMemoryChunks_device resources host dest src len hsize
    hdest _ offset middle (Nat.le_refl _) hle
  have hall := hwrote.append (by rw [length_bytesFrom]; exact hrest)
  rw [← bytesFrom_add, Nat.add_sub_cancel' hle] at hall
  refine ⟨setAtr last (restoredAddress (wordAt d.config 0x708) (wordAt d.config 0x70C)), ?_,
    ⟨hall.memory_eq, hall.atrOnly.trans (atrOnly_setAtr last _)⟩, restored_word1 _ _ _,
    restored_word2 _ _ _⟩
  rw [writeMemory, readAtrTable_device, ok_bind]
  simp only
  rw [hstart, ok_bind]
  simp only
  rw [hloop, ok_bind, restoreAtrTable_device, ok_bind]

theorem readFirstChunk_device (src : UInt64) (dest : Nat) (len : UInt32) (d : Device)
    (hsize : 0x1000 ≤ resources.fwAccess.size.toUInt32.toNat)
    (hsrc : src.toNat + len.toNat ≤ 2 ^ 32) :
    ∃ offset middle,
      readFirstChunk (deviceOps resources) resources.toHailoPcieResources src dest len d =
        .ok (offset, bytesFrom d.memory src.toNat offset.toNat, middle) ∧
      offset.toNat ≤ len.toNat ∧ middle.memory = d.memory ∧ AtrOnly d middle := by
  obtain ⟨hoffset, hchunk, hfirst⟩ := firstChunk_fits len (show src.toNat ≤ 2 ^ 32 by omega)
  rw [readFirstChunk]
  split
  · have hok := readMemoryChunk_device resources (baseAddress src) dest
      (src - baseAddress src).toUInt32
      (min (baseAddress src + atrTableSize.toUInt64 - src).toUInt32 len) d hsize (by omega)
    refine ⟨min (baseAddress src + atrTableSize.toUInt64 - src).toUInt32 len,
      setAtr d (baseAddress src), ?_, by omega, rfl, atrOnly_setAtr d _⟩
    simp only
    rw [hok, ok_bind]
    simp only
    rcases Nat.eq_zero_or_pos len.toNat with hzero | hpos
    · rw [hchunk, hzero, Nat.min_zero]
      rfl
    · rw [hoffset, hfirst (by omega)]
  · exact ⟨0, d, rfl, Nat.zero_le _, rfl, AtrOnly.refl d⟩

theorem readMemory_device (src : UInt64) (dest : Nat) (len : UInt32) (d : Device)
    (hsize : 0x1000 ≤ resources.fwAccess.size.toUInt32.toNat)
    (hsrc : src.toNat + len.toNat ≤ 2 ^ 32) :
    ∃ d', readMemory (deviceOps resources) resources.toHailoPcieResources src dest len d =
        .ok (bytesFrom d.memory src.toNat len.toNat, d') ∧
      d'.memory = d.memory ∧ AtrOnly d d' ∧
      wordAt d'.config 0x708 = wordAt d.config 0x708 ∧
      wordAt d'.config 0x70C = wordAt d.config 0x70C := by
  obtain ⟨offset, middle, hstart, hle, hmemory, hatr⟩ :=
    readFirstChunk_device resources src dest len d hsize hsrc
  obtain ⟨last, hloop, hlast, hatr'⟩ := readMemoryChunks_device resources src dest len
    hsize hsrc _ offset middle (Nat.le_refl _) hle
  refine ⟨setAtr last (restoredAddress (wordAt d.config 0x708) (wordAt d.config 0x70C)), ?_,
    hlast.trans hmemory, (hatr.trans hatr').trans (atrOnly_setAtr last _), restored_word1 _ _ _,
    restored_word2 _ _ _⟩
  rw [readMemory, readAtrTable_device, ok_bind]
  simp only
  rw [hstart, ok_bind]
  simp only
  rw [hloop, ok_bind, hmemory]
  simp only
  rw [restoreAtrTable_device, ok_bind, ← bytesFrom_add, Nat.add_sub_cancel' hle]

end

theorem Wrote.at {d d' : Device} {x : Nat} {host : Nat → UInt8} {src count : Nat}
    (h : Wrote d x (bytesFrom host src count) d') {k : Nat} (hk : k < count) :
    d'.memory (x + k) = host (src + k) := by
  have hlt : k < (bytesFrom host src count).length := by rwa [length_bytesFrom]
  rw [h.memory_eq, overlay_at hlt]
  simp only [bytesFrom, List.getElem_map, List.getElem_range]

theorem Wrote.elsewhere {d d' : Device} {x : Nat} {host : Nat → UInt8} {src count : Nat}
    (h : Wrote d x (bytesFrom host src count) d') {a : Nat} (ha : a < x ∨ x + count ≤ a) :
    d'.memory a = d.memory a := by
  rw [h.memory_eq]
  rcases ha with hlt | hge
  · exact overlay_of_lt hlt
  · exact overlay_of_ge (by rwa [length_bytesFrom])

theorem Wrote.bytesFrom_eq {d d' : Device} {x : Nat} {run : List UInt8} (h : Wrote d x run d') :
    bytesFrom d'.memory x run.length = run := by
  rw [h.memory_eq, bytesFrom_overlay]

/-- With a window that the 32-bit size covers, a write stores exactly the source bytes, a read
returns exactly the device bytes, a read after a write returns what was written, and both
leave the translation address as it was. -/
theorem windowedCopies_exact (resources : WindowedResources) (host : Nat → UInt8) (dest : UInt64)
    (src readTo : Nat) (len : UInt32) (d : Device)
    (hsize : 0x1000 ≤ resources.fwAccess.size.toUInt32.toNat)
    (hdest : dest.toNat + len.toNat ≤ 2 ^ 32) :
    ∃ written, writeMemory (deviceOps resources) resources.toHailoPcieResources host dest src len
        d = .ok written ∧
      (∀ k < len.toNat, written.memory (dest.toNat + k) = host (src + k)) ∧
      (∀ a, a < dest.toNat ∨ dest.toNat + len.toNat ≤ a → written.memory a = d.memory a) ∧
      wordAt written.config 0x708 = wordAt d.config 0x708 ∧
      wordAt written.config 0x70C = wordAt d.config 0x70C ∧
      (∃ read, readMemory (deviceOps resources) resources.toHailoPcieResources dest readTo len d =
          .ok (bytesFrom d.memory dest.toNat len.toNat, read) ∧
        read.memory = d.memory ∧
        wordAt read.config 0x708 = wordAt d.config 0x708 ∧
        wordAt read.config 0x70C = wordAt d.config 0x70C) ∧
      ∃ read, readMemory (deviceOps resources) resources.toHailoPcieResources dest readTo len
          written = .ok (bytesFrom host src len.toNat, read) := by
  obtain ⟨written, hwrite, hwrote, hword1, hword2⟩ :=
    writeMemory_device resources host dest src len d hsize hdest
  obtain ⟨read, hread, hmemory, _, hread1, hread2⟩ :=
    readMemory_device resources dest readTo len d hsize hdest
  obtain ⟨again, hagain, _⟩ := readMemory_device resources dest readTo len written hsize hdest
  have hback := hwrote.bytesFrom_eq
  rw [length_bytesFrom] at hback
  refine ⟨written, hwrite, fun k hk => hwrote.at hk, fun a ha => hwrote.elsewhere ha, hword1,
    hword2, ⟨read, hread, hmemory, hread1, hread2⟩, again, ?_⟩
  rw [hagain, hback]

/-- The config BAR at address 0 and the window behind it. -/
def resourcesOfSize (size : UInt64) : WindowedResources where
  config := ⟨0, 0x1000⟩
  fwAccess := ⟨0x1000, size⟩
  boardType := .hailo8
  acceleratorType := .nnc
  config_aligned := Nat.zero_mod 4
  fwAccess_aligned := show 0x1000 % 4 = 0 by decide
  apart := .inl (Nat.le_refl _)

def blankDevice : Device := ⟨fun _ => 0, fun _ => 0⟩

theorem windowedCopies_exact_threeBytes :
    ∃ written, writeMemory (deviceOps (resourcesOfSize 0x4000))
        (resourcesOfSize 0x4000).toHailoPcieResources (fun _ => 7) 0xFFE 1 3 blankDevice =
        .ok written ∧
      (∀ k < 3, written.memory (0xFFE + k) = 7) := by
  obtain ⟨written, hwrite, hbytes, _⟩ := windowedCopies_exact (resourcesOfSize 0x4000)
    (fun _ => 7) 0xFFE 1 0 3 blankDevice (by decide) (by decide)
  exact ⟨written, hwrite, hbytes⟩

/-- A size of 2^32 is 0 where the bounds check looks at it, and the check ends the kernel. -/
theorem hugeWindow_bugOn :
    0x1000 ≤ (resourcesOfSize 0x100000000).fwAccess.size.toNat ∧
      writeMemory (deviceOps (resourcesOfSize 0x100000000))
        (resourcesOfSize 0x100000000).toHailoPcieResources (fun _ => 7) 0 0 1 blankDevice =
        .error .bugOn := by
  have hchunk : ∀ host dest src d, writeMemoryChunk (deviceOps (resourcesOfSize 0x100000000))
      (resourcesOfSize 0x100000000).toHailoPcieResources host dest 0 src 1 d =
      .error .bugOn := fun _ _ _ _ => if_pos (by decide)
  refine ⟨by decide, ?_⟩
  rw [writeMemory, readAtrTable_device, ok_bind]
  simp only
  rw [writeFirstChunk, if_neg (by decide), ok_bind, writeMemoryChunks, dif_pos (by decide)]
  simp only
  rw [show min (1 - (0 : UInt32)) atrTableSize = 1 by decide, hchunk]
  rfl

end HailortDrivers.WindowedCopies
