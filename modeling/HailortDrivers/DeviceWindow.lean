import HailortDrivers.ByteViews
import HailortDrivers.DeviceMemory
import HailortDrivers.MachineWord

/-!
The device behind two mappings: the bridge registers in the config BAR, and a
window of 4 KB on device memory at the address that table 0 of the translation
holds. Copying through the moving window is copying in device memory.
-/
namespace HailortDrivers.DeviceWindow
open KernelExec LittleEndian ResourceAccess ByteViews DeviceMemory MachineWord

/-- The two BARs, each mapped at a page and apart from the other. -/
structure WindowedResources extends HailoPcieResources where
  config_aligned : config.address % 4 = 0
  fwAccess_aligned : fwAccess.address % 4 = 0
  apart : config.address + 0x1000 ≤ fwAccess.address ∨
    fwAccess.address + 0x1000 ≤ config.address

structure Device where
  memory : Nat → UInt8
  config : Nat → UInt8

/-- The two translation address words of table 0. -/
def translation (d : Device) : Nat :=
  (wordAt d.config 0x708).toNat + 2 ^ 32 * (wordAt d.config 0x70C).toNat

/-- Outside both mappings a read is all ones and a write is lost. -/
def windowedDevice (resources : HailoPcieResources) : Mmio Device where
  ioread32 := fun address d =>
    if resources.fwAccess.address ≤ address ∧ address < resources.fwAccess.address + 0x1000 then
      (wordAt d.memory (translation d + (address - resources.fwAccess.address)), d)
    else if resources.config.address ≤ address ∧ address < resources.config.address + 0x1000 then
      (wordAt d.config (address - resources.config.address), d)
    else (0xFFFFFFFF, d)
  iowrite32 := fun word address d =>
    if resources.fwAccess.address ≤ address ∧ address < resources.fwAccess.address + 0x1000 then
      { d with
        memory := overlay d.memory (translation d + (address - resources.fwAccess.address))
          (wordBytes word) }
    else if resources.config.address ≤ address ∧ address < resources.config.address + 0x1000 then
      { d with config := overlay d.config (address - resources.config.address) (wordBytes word) }
    else d

def deviceOps (resources : WindowedResources) : ResourceOps Device :=
  hailoResourceOps (windowedDevice resources.toHailoPcieResources)

def configRam : ByteView ram 0 0x1000 := ramView 0 rfl

def windowRam (d : Device) : ByteView ram (translation d) 0x1000 := ramView (translation d) rfl

section
variable (resources : WindowedResources)

theorem configMapped : MappedWords resources.config 0x1000 := ⟨resources.config_aligned, rfl⟩

theorem windowMapped : MappedWords resources.fwAccess 0x1000 := ⟨resources.fwAccess_aligned, rfl⟩

theorem not_in_window {x : Nat} (hx : x < 0x1000) :
    ¬ (resources.fwAccess.address ≤ resources.config.address + x ∧
      resources.config.address + x < resources.fwAccess.address + 0x1000) := by
  have := resources.apart
  omega

def configView :
    ByteView (windowedDevice resources.toHailoPcieResources) resources.config.address 0x1000 where
  get := fun d x => d.config (0 + x)
  put := fun d bytes =>
    { d with config := configRam.put d.config bytes }
  get_put := fun d bytes x hx => configRam.get_put d.config bytes x hx
  put_get := fun d =>
    congrArg (fun config => { d with config := config })
      (configRam.put_get d.config)
  put_put := fun d f g => by
    rw [configRam.put_put]
  put_congr := fun d f g hfg => by
    rw [configRam.put_congr d.config f g hfg]
  read := fun d x halign hx => by
    have hin : resources.config.address ≤ resources.config.address + x ∧
        resources.config.address + x < resources.config.address + 0x1000 := by omega
    simp only [windowedDevice, if_neg (not_in_window resources hx), if_pos hin,
      Nat.add_sub_cancel_left, Nat.zero_add]
  write := fun d word x halign hx => by
    have hin : resources.config.address ≤ resources.config.address + x ∧
        resources.config.address + x < resources.config.address + 0x1000 := by omega
    simp only [windowedDevice, if_neg (not_in_window resources hx), if_pos hin,
      Nat.add_sub_cancel_left]
    have hram : overlay d.config x (wordBytes word) =
        configRam.put d.config (overlay (configRam.get d.config) x (wordBytes word)) := by
      rw [← configRam.write d.config word x halign hx, Nat.zero_add]
      rfl
    exact congrArg (fun config => { d with config := config }) hram

def windowView :
    ByteView (windowedDevice resources.toHailoPcieResources) resources.fwAccess.address
      0x1000 where
  get := fun d x => d.memory (translation d + x)
  put := fun d bytes =>
    { d with memory := (windowRam d).put d.memory bytes }
  get_put := fun d bytes x hx =>
    (windowRam d).get_put d.memory bytes x hx
  put_get := fun d =>
    congrArg (fun memory => { d with memory := memory })
      ((windowRam d).put_get d.memory)
  put_put := fun d f g =>
    congrArg (fun memory => { d with memory := memory })
      ((windowRam d).put_put d.memory f g)
  put_congr := fun d f g hfg => by
    rw [(windowRam d).put_congr d.memory f g hfg]
  read := fun d x halign hx => by
    have hin : resources.fwAccess.address ≤ resources.fwAccess.address + x ∧
        resources.fwAccess.address + x < resources.fwAccess.address + 0x1000 := by omega
    simp only [windowedDevice, if_pos hin, Nat.add_sub_cancel_left]
    refine Prod.ext (wordAt_congr fun i _ => ?_) rfl
    rw [Nat.add_assoc]
  write := fun d word x halign hx => by
    have hin : resources.fwAccess.address ≤ resources.fwAccess.address + x ∧
        resources.fwAccess.address + x < resources.fwAccess.address + 0x1000 := by omega
    simp only [windowedDevice, if_pos hin, Nat.add_sub_cancel_left]
    exact congrArg (fun memory => { d with memory := memory })
      ((windowRam d).write d.memory word x halign hx)

end

/-- What configuring table 0 for an address writes. -/
def atrBytes (trslAddr : UInt64) : List UInt8 :=
  HailoAtrConfig.bytes ⟨atrParam, atrSrcAddr, (trslAddr &&& 0xFFFFFFFF).toUInt32,
    (trslAddr >>> 32).toUInt32, atrTrslParam⟩

def setAtr (d : Device) (trslAddr : UInt64) : Device :=
  { d with config := overlay d.config 0x700 (atrBytes trslAddr) }

@[simp] theorem setAtr_memory (d : Device) (trslAddr : UInt64) :
    (setAtr d trslAddr).memory = d.memory := rfl

theorem length_atrBytes (trslAddr : UInt64) : (atrBytes trslAddr).length = 20 := rfl

theorem wordIn_bytes_trslAddr1 (atr : HailoAtrConfig) :
    wordIn atr.bytes 8 = atr.atrTrslAddr1 := by
  rw [HailoAtrConfig.bytes, show 8 = 4 + (4 + 0) from rfl, wordIn_skip, wordIn_skip,
    wordIn_wordBytes_append]

theorem wordIn_bytes_trslAddr2 (atr : HailoAtrConfig) :
    wordIn atr.bytes 12 = atr.atrTrslAddr2 := by
  rw [HailoAtrConfig.bytes, show 12 = 4 + (4 + (4 + 0)) from rfl, wordIn_skip, wordIn_skip,
    wordIn_skip, wordIn_wordBytes_append]

theorem setAtr_word1 (d : Device) (trslAddr : UInt64) :
    wordAt (setAtr d trslAddr).config 0x708 = (trslAddr &&& 0xFFFFFFFF).toUInt32 := by
  have h := wordAt_overlay_in d.config (atrBytes trslAddr) (x := 0x700) (y := 8)
    (by rw [length_atrBytes]; decide)
  rw [atrBytes, wordIn_bytes_trslAddr1] at h
  exact h

theorem setAtr_word2 (d : Device) (trslAddr : UInt64) :
    wordAt (setAtr d trslAddr).config 0x70C = (trslAddr >>> 32).toUInt32 := by
  have h := wordAt_overlay_in d.config (atrBytes trslAddr) (x := 0x700) (y := 12)
    (by rw [length_atrBytes]; decide)
  rw [atrBytes, wordIn_bytes_trslAddr2] at h
  exact h

theorem translation_setAtr (d : Device) (trslAddr : UInt64) :
    translation (setAtr d trslAddr) = trslAddr.toNat := by
  have hlt := trslAddr.toNat_lt
  have hmask : (0xFFFFFFFF : UInt64).toNat = 2 ^ 32 - 1 := rfl
  have hshift : (32 : UInt64).toNat % 64 = 32 := rfl
  rw [translation, setAtr_word1, setAtr_word2, UInt64.toNat_toUInt32, UInt64.toNat_toUInt32,
    UInt64.toNat_and, hmask, Nat.and_two_pow_sub_one_eq_mod, UInt64.toNat_shiftRight, hshift,
    Nat.shiftRight_eq_div_pow]
  omega

section
variable (resources : WindowedResources)

theorem configureAtrTable_device (trslAddr : UInt64) (d : Device) :
    hailoPcieConfigureAtrTable (deviceOps resources) resources.config trslAddr 0 d =
      .ok (0, setAtr d trslAddr) := by
  have hok : ¬ hailoPcieMaxAtrTableIndex < 0 := by decide
  have hoffset : (atrPcieBridgeOffset 0).toNat = 0x700 := rfl
  have hparam : atrParam ||| ((0 : UInt32) <<< 12) = atrParam := by decide
  rw [hailoPcieConfigureAtrTable, if_neg hok, hoffset, hparam]
  refine congrArg Except.ok ?_
  change hailoResourceWriteBuffer _ resources.config 0x700 (atrBytes trslAddr) 0 d = _
  rw [hailoResourceWriteBuffer_view (configMapped resources) (configView resources) _ _ _ _
    (by rw [length_atrBytes]; decide)]
  have hram := ramView_put_overlay d.config 0 (atrBytes trslAddr) (x := 0x700)
    (show 0x1000 % 4 = 0 from rfl) (by rw [length_atrBytes]; decide)
  rw [Nat.zero_add] at hram
  exact congrArg (fun config => ((0 : Int32), { d with config := config })) hram

theorem readAtrTable_device (d : Device) :
    hailoPcieReadAtrTable (deviceOps resources) resources.config 0 d =
      .ok (⟨wordAt d.config 0x700, wordAt d.config 0x704, wordAt d.config 0x708,
        wordAt d.config 0x70C, wordAt d.config 0x710⟩, d) := by
  have hok : ¬ hailoPcieMaxAtrTableIndex < 0 := by decide
  have hoffset : (atrPcieBridgeOffset 0).toNat = 0x700 := rfl
  rw [hailoPcieReadAtrTable, if_neg hok, hoffset]
  change Except.ok (HailoAtrConfig.ofBytes (hailoResourceReadBuffer _ resources.config 0x700 20 0
    d).1, (hailoResourceReadBuffer _ resources.config 0x700 20 0 d).2) = _
  rw [hailoResourceReadBuffer_view (configMapped resources) (configView resources) d 0 (by decide)]
  have hget : (configView resources).get d = d.config := by
    funext x
    exact congrArg d.config (Nat.zero_add x)
  simp only [HailoAtrConfig.ofBytes, hget]
  rw [wordIn_bytesFrom (by decide), wordIn_bytesFrom (by decide), wordIn_bytesFrom (by decide),
    wordIn_bytesFrom (by decide), wordIn_bytesFrom (by decide)]

end

end HailortDrivers.DeviceWindow
