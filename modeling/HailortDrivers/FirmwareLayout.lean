import HailortDrivers.BrokenWrites
import HailortDrivers.MemoryRuns
import HailortDrivers.WindowedCopies

/-!
Where the parts of an image go on the device. The limits on the code keep the
parts of each board apart; the limits on the certificate do not, so what an
image keeps depends on the sizes of its key and its content.
-/
namespace HailortDrivers.FirmwareLayout
open KernelExec LittleEndian VdmaTypes FirmwareImage FirmwareFormat ResourceAccess DeviceMemory
open DeviceWindow WindowedCopies FirmwareLoading BrokenWrites MemoryRuns

/-- A mapped board of a known type whose BARs lie apart. -/
structure BoardResources extends LoadableResources, WindowedResources

def appRuns (a : HailoFwAddresses) (parts : ImageParts) : List WriteRun :=
  [⟨a.bootFwHeader.toNat, parts.appHeader⟩, ⟨a.appFwCodeRamBase.toNat, parts.appCode⟩,
    ⟨a.bootKeyCert.toNat, parts.key⟩, ⟨a.bootContCert.toNat, parts.content⟩]

def coreRuns (a : HailoFwAddresses) : Option (List UInt8 × List UInt8) → List WriteRun
  | none => []
  | some (header, code) => [⟨a.coreCodeRamBase.toNat, code⟩, ⟨a.coreFwHeader.toNat, header⟩]

/-- The ranges that `hailo_write_app_firmware` and `hailo_write_core_firmware` write. -/
def imageRuns (a : HailoFwAddresses) (hasCore : Bool) (parts : ImageParts) : List WriteRun :=
  appRuns a parts ++ if hasCore then coreRuns a parts.core else []

/-- Every code that the validation lets pass fits between the other parts. -/
structure Layout (a : HailoFwAddresses) (trigger : Nat) (hasCore : Bool) : Prop where
  header_le : a.bootFwHeader.toNat + 24 ≤ a.bootKeyCert.toNat
  key_lt : a.bootKeyCert.toNat < a.bootContCert.toNat
  content_lt : a.bootContCert.toNat < trigger
  trigger_le : trigger + 4 ≤ a.bootContCert.toNat + 0x1000
  boot_le : a.bootContCert.toNat + 0x1000 ≤ 0x1000000
  app_le : a.appFwCodeRamBase.toNat + 0x40000 ≤ a.bootFwHeader.toNat
  coreCode_le : hasCore = true → a.coreCodeRamBase.toNat + 0x20000 ≤ a.bootFwHeader.toNat
  coreCode_ge : hasCore = true → a.appFwCodeRamBase.toNat + 0x40000 ≤ a.coreCodeRamBase.toNat
  coreHeader_le : hasCore = true → a.coreFwHeader.toNat + 24 ≤ 0x1000000
  coreHeader_ge : hasCore = true → a.appFwCodeRamBase.toNat + 0x40000 ≤ a.coreFwHeader.toNat
  coreHeader_apart : hasCore = true →
    a.coreFwHeader.toNat + 24 ≤ a.coreCodeRamBase.toNat ∨
      a.bootContCert.toNat + 0x1000 ≤ a.coreFwHeader.toNat

def firstStage (boardType : HailoBoardType) : HailoPcieLoadingStage :=
  hailoPcieGetLoadingStageInfo boardType .firstStage

theorem compat_layout {boardType : HailoBoardType} {acceleratorType : HailoAcceleratorType}
    (h : hailoSetDeviceType boardType = some acceleratorType) :
    Layout (compat boardType).fwAddresses (firstStage boardType).triggerAddress.toNat
      (acceleratorType == .nnc) := by
  cases boardType <;> cases acceleratorType <;> first
    | exact absurd h (by decide)
    | constructor <;> decide

/-- The key ends before the content, which ends before the trigger. -/
def CertificateFits (a : HailoFwAddresses) (trigger : Nat) (parts : ImageParts) : Prop :=
  parts.content.length ≤ trigger - a.bootContCert.toNat ∧
    (parts.key.length ≤ a.bootContCert.toNat - a.bootKeyCert.toNat ∨
      parts.content = [] ∧ parts.key.length ≤ trigger - a.bootKeyCert.toNat)

section
variable {a : HailoFwAddresses} {trigger : Nat} {hasCore : Bool} {parts : ImageParts}
variable {boardType : HailoBoardType} {acceleratorType : HailoAcceleratorType} {magic : UInt32}

theorem appRuns_disjoint_iff (hlayout : Layout a trigger hasCore)
    (h : parts.WellFormed boardType acceleratorType magic) :
    (appRuns a parts).Pairwise (fun x y => Disjoint x.range y.range) ↔
      parts.key.length ≤ a.bootContCert.toNat - a.bootKeyCert.toNat ∨ parts.content = [] ∨
        parts.key = [] := by
  have hheader := h.app.length_eq
  have hcode := h.app.code_le
  have := hlayout.header_le
  have := hlayout.key_lt
  have := hlayout.app_le
  rw [← List.length_eq_zero_iff, ← List.length_eq_zero_iff]
  simp only [appRuns, List.pairwise_cons, List.mem_cons, List.not_mem_nil, or_false,
    forall_eq_or_imp, forall_eq, List.Pairwise.nil, and_true, IsEmpty.forall_iff, implies_true]
  constructor
  · rintro ⟨-, -, hkey⟩
    rw [disjoint_range_iff] at hkey
    simp only at hkey
    omega
  · intro hfits
    refine ⟨⟨?_, ?_, ?_⟩, ⟨?_, ?_⟩, ?_⟩
    · exact disjoint_of_apart (.inr (by simp only; omega))
    · exact disjoint_of_apart (.inl (by simp only; omega))
    · exact disjoint_of_apart (.inl (by simp only; omega))
    · exact disjoint_of_apart (.inl (by simp only; omega))
    · exact disjoint_of_apart (.inl (by simp only; omega))
    · rw [disjoint_range_iff]
      simp only
      omega

theorem mem_appRuns {run : WriteRun} :
    run ∈ appRuns a parts ↔
      run = ⟨a.bootFwHeader.toNat, parts.appHeader⟩ ∨
      run = ⟨a.appFwCodeRamBase.toNat, parts.appCode⟩ ∨
      run = ⟨a.bootKeyCert.toNat, parts.key⟩ ∨ run = ⟨a.bootContCert.toNat, parts.content⟩ := by
  simp only [appRuns, List.mem_cons, List.not_mem_nil, or_false]

theorem mem_coreRuns {header code : List UInt8} {run : WriteRun} :
    run ∈ coreRuns a (some (header, code)) ↔
      run = ⟨a.coreCodeRamBase.toNat, code⟩ ∨ run = ⟨a.coreFwHeader.toNat, header⟩ := by
  simp only [coreRuns, List.mem_cons, List.not_mem_nil, or_false]

/-- Of the core part, where the board has one. -/
structure CoreFits (a : HailoFwAddresses) (core : Option (List UInt8 × List UInt8)) : Prop where
  coreRuns_disjoint : (coreRuns a core).Pairwise fun x y => Disjoint x.range y.range
  ge_app : ∀ run ∈ coreRuns a core, a.appFwCodeRamBase.toNat + 0x40000 ≤ run.address
  apart_boot : ∀ run ∈ coreRuns a core, run.address + run.bytes.length ≤ a.bootFwHeader.toNat ∨
    a.bootContCert.toNat + 0x1000 ≤ run.address
  end_le : ∀ run ∈ coreRuns a core, run.address + run.bytes.length ≤ 0x1000000

theorem coreFits (hlayout : Layout a trigger true)
    (h : parts.WellFormed boardType .nnc magic) : CoreFits a parts.core := by
  have hboot := hlayout.boot_le
  have hheader := hlayout.header_le
  have hkey := hlayout.key_lt
  have hge := hlayout.coreCode_ge rfl
  have hle := hlayout.coreCode_le rfl
  have hcoreGe := hlayout.coreHeader_ge rfl
  have hcoreLe := hlayout.coreHeader_le rfl
  have hapart := hlayout.coreHeader_apart rfl
  obtain ⟨_, _, _, hcore⟩ := h
  match hparts : parts.core, hcore with
  | some (header, code), hcore =>
    have hlen := hcore.length_eq
    have hcode := hcore.code_le
    refine ⟨?_, ?_, ?_, ?_⟩
    · rw [coreRuns, List.pairwise_pair]
      refine disjoint_of_apart ?_
      simp only
      omega
    all_goals
      intro run hrun
      rcases mem_coreRuns.mp hrun with rfl | rfl
    all_goals
      simp only
      omega

theorem imageRuns_nnc : imageRuns a true parts = appRuns a parts ++ coreRuns a parts.core := rfl

theorem imageRuns_soc : imageRuns a false parts = appRuns a parts := List.append_nil _

theorem appRuns_apart_core (hlayout : Layout a trigger true)
    (h : parts.WellFormed boardType .nnc magic) :
    ∀ run ∈ appRuns a parts, ∀ core ∈ coreRuns a parts.core, Disjoint run.range core.range := by
  intro run hrun core hmem
  have hfits := coreFits hlayout h
  have hge := hfits.ge_app core hmem
  have hapart := hfits.apart_boot core hmem
  have hheader := h.app.length_eq
  have hcode := h.app.code_le
  have hkey := h.certificate.key_le
  have hcontent := h.certificate.content_le
  have := hlayout.header_le
  have := hlayout.key_lt
  refine disjoint_of_apart ?_
  rcases mem_appRuns.mp hrun with rfl | rfl | rfl | rfl
  all_goals
    simp only
    omega

theorem imageRuns_disjoint_iff (hlayout : Layout a trigger (acceleratorType == .nnc))
    (h : parts.WellFormed boardType acceleratorType magic) :
    (imageRuns a (acceleratorType == .nnc) parts).Pairwise (fun x y => Disjoint x.range y.range) ↔
      parts.key.length ≤ a.bootContCert.toNat - a.bootKeyCert.toNat ∨ parts.content = [] ∨
        parts.key = [] := by
  rw [← appRuns_disjoint_iff hlayout h]
  match acceleratorType, hlayout, h with
  | .soc, _, _ => exact Iff.of_eq (congrArg _ imageRuns_soc)
  | .nnc, hlayout, h =>
    change (imageRuns a true parts).Pairwise _ ↔ _
    rw [imageRuns_nnc, List.pairwise_append]
    exact ⟨fun hall => hall.1, fun happ =>
      ⟨happ, (coreFits hlayout h).coreRuns_disjoint, appRuns_apart_core hlayout h⟩⟩

theorem forall_imageRuns (P : WriteRun → Prop)
    (hlayout : Layout a trigger (acceleratorType == .nnc))
    (h : parts.WellFormed boardType acceleratorType magic)
    (hcore : ∀ run, a.appFwCodeRamBase.toNat + 0x40000 ≤ run.address →
      (run.address + run.bytes.length ≤ a.bootFwHeader.toNat ∨
        a.bootContCert.toNat + 0x1000 ≤ run.address) →
      run.address + run.bytes.length ≤ 0x1000000 → P run) :
    (∀ run ∈ imageRuns a (acceleratorType == .nnc) parts, P run) ↔
      ∀ run ∈ appRuns a parts, P run := by
  match acceleratorType, hlayout, h with
  | .soc, _, _ =>
    change (∀ run ∈ imageRuns a false parts, P run) ↔ _
    rw [imageRuns_soc]
  | .nnc, hlayout, h =>
    have hfits := coreFits hlayout h
    change (∀ run ∈ imageRuns a true parts, P run) ↔ _
    rw [imageRuns_nnc, List.forall_mem_append]
    exact and_iff_left fun run hmem =>
      hcore run (hfits.ge_app run hmem) (hfits.apart_boot run hmem) (hfits.end_le run hmem)

theorem imageRuns_end_le (hlayout : Layout a trigger (acceleratorType == .nnc))
    (h : parts.WellFormed boardType acceleratorType magic) :
    ∀ run ∈ imageRuns a (acceleratorType == .nnc) parts,
      run.address + run.bytes.length ≤ 0x1000000 := by
  rw [forall_imageRuns _ hlayout h fun _ _ _ hle => hle]
  intro run hrun
  have hheader := h.app.length_eq
  have hcode := h.app.code_le
  have hkey := h.certificate.key_le
  have hcontent := h.certificate.content_le
  have := hlayout.header_le
  have := hlayout.key_lt
  have := hlayout.app_le
  have := hlayout.boot_le
  rcases mem_appRuns.mp hrun with rfl | rfl | rfl | rfl
  all_goals
    simp only
    omega

theorem trigger_notMem_iff (hlayout : Layout a trigger (acceleratorType == .nnc))
    (h : parts.WellFormed boardType acceleratorType magic) :
    (∀ run ∈ imageRuns a (acceleratorType == .nnc) parts, trigger ∉ run.range) ↔
      parts.content.length ≤ trigger - a.bootContCert.toNat ∧
        parts.key.length ≤ trigger - a.bootKeyCert.toNat := by
  have hheader := h.app.length_eq
  have hcode := h.app.code_le
  have := hlayout.header_le
  have := hlayout.key_lt
  have := hlayout.content_lt
  have := hlayout.trigger_le
  have := hlayout.app_le
  rw [forall_imageRuns _ hlayout h fun run _ hapart _ hmem => by
    rw [mem_range_iff] at hmem
    omega]
  simp only [appRuns, List.forall_mem_cons, List.not_mem_nil, IsEmpty.forall_iff, implies_true,
    and_true, mem_range_iff]
  omega

/-- A run that leaves the trigger out leaves all its four bytes out. -/
theorem imageRuns_apart_trigger (hlayout : Layout a trigger (acceleratorType == .nnc))
    (h : parts.WellFormed boardType acceleratorType magic) :
    ∀ run ∈ imageRuns a (acceleratorType == .nnc) parts, trigger ∉ run.range →
      run.address + run.bytes.length ≤ trigger ∨ trigger + 4 ≤ run.address := by
  have := hlayout.header_le
  have := hlayout.key_lt
  have := hlayout.content_lt
  have := hlayout.trigger_le
  have := hlayout.app_le
  rw [forall_imageRuns _ hlayout h fun run _ hapart _ hout => by
    rw [mem_range_iff] at hout
    omega]
  intro run hrun hout
  rw [mem_range_iff] at hout
  rcases mem_appRuns.mp hrun with rfl | rfl | rfl | rfl
  all_goals
    simp only at *
    omega

end

/-! The parts end up on the device as the runs say. -/

section
variable (resources : BoardResources)

theorem writeMemory_ran (host : Nat → UInt8) (dest : UInt32) (src : Nat) (len : UInt32)
    (d : Device) (hfits : dest.toNat + len.toNat ≤ 2 ^ 32) {run : List UInt8}
    (hrun : bytesFrom host src len.toNat = run) :
    ∃ d', writeMemory (deviceOps resources.toWindowedResources) resources.toHailoPcieResources host
        dest.toUInt64 src len d = .ok d' ∧
      d'.memory = overlay d.memory dest.toNat run := by
  have hdest := UInt32.toNat_toUInt64 dest
  obtain ⟨d', hok, hwrote, _⟩ := writeMemory_device resources.toWindowedResources host
    dest.toUInt64 src len d resources.window_ge (by omega)
  refine ⟨d', hok, ?_⟩
  rw [hwrote.memory_eq, hrun, hdest]

variable {file : LoadedFile} {parts : ImageParts} {magic : UInt32}

theorem bytesFrom_host (before : List UInt8) {part after : List UInt8}
    (hdata : file.data = before ++ (part ++ after)) {src len : Nat}
    (hsrc : src = file.address + before.length) (hlen : len = part.length) :
    bytesFrom file.host src len = part := by
  rw [LoadedFile.host, hdata, hsrc, hlen]
  exact bytesFrom_overlay_part _ _ before part after

theorem hailoWriteAppFirmware_ran
    (h : parts.WellFormed resources.boardType resources.acceleratorType magic)
    (hdata : file.data = parts.bytes) (d : Device) :
    ∃ d', hailoWriteAppFirmware (deviceOps resources.toWindowedResources)
        resources.toHailoPcieResources file 0 (24 + parts.appCode.length) d = .ok d' ∧
      d'.memory = applyRuns d.memory
        (appRuns (compat resources.boardType).fwAddresses parts) := by
  have hlayout := compat_layout resources.type_eq
  have := hlayout.header_le
  have := hlayout.key_lt
  have := hlayout.app_le
  have := hlayout.boot_le
  have hheader := h.app.length_eq
  have hcodeLe := h.app.code_le
  have hcert := h.certificate.length_eq
  have hkeyLe := h.certificate.key_le
  have hcontentLe := h.certificate.content_le
  obtain ⟨rest, hrest⟩ : ∃ rest, rest = parts.content ++ coreBytes parts.core := ⟨_, rfl⟩
  have hall : file.data = parts.appHeader ++ (parts.appCode ++ (parts.certHeader ++
      (parts.key ++ rest))) := by
    rw [hdata, hrest]
    rfl
  have hcodeSize : (wordIn file.data (0 + 20)).toNat = parts.appCode.length := by
    rw [hall, wordIn_append_left (by omega)]
    exact h.app.codeSize_eq
  have hcertAt : ∀ y, y + 4 ≤ 8 → wordIn file.data (24 + parts.appCode.length + y) =
      wordIn parts.certHeader y := by
    intro y hy
    rw [hall, ← hheader, Nat.add_assoc, wordIn_append_right, wordIn_append_right,
      wordIn_append_left (by omega)]
  have hkeySize : (wordIn file.data (24 + parts.appCode.length)).toNat = parts.key.length :=
    (congrArg UInt32.toNat (hcertAt 0 (by decide))).trans h.certificate.keySize_eq
  have hcontentSize : (wordIn file.data (24 + parts.appCode.length + 4)).toNat =
      parts.content.length :=
    (congrArg UInt32.toNat (hcertAt 4 (by decide))).trans h.certificate.contentSize_eq
  have hsize : firmwareHeaderSize.toNat = 24 := rfl
  obtain ⟨d₁, h₁, hmem₁⟩ := writeMemory_ran resources file.host
    (compat resources.boardType).fwAddresses.bootFwHeader (file.address + 0) firmwareHeaderSize d
    (by omega) (bytesFrom_host [] hall rfl (by omega))
  obtain ⟨d₂, h₂, hmem₂⟩ := writeMemory_ran resources file.host
    (compat resources.boardType).fwAddresses.appFwCodeRamBase (file.address + 0 + 24)
    (wordIn file.data (0 + 20)) d₁ (by omega)
    (bytesFrom_host parts.appHeader hall (by omega) hcodeSize)
  have hkeyAt : file.data = (parts.appHeader ++ (parts.appCode ++ parts.certHeader)) ++
      (parts.key ++ rest) := by
    rw [hall]
    simp only [List.append_assoc]
  obtain ⟨d₃, h₃, hmem₃⟩ := writeMemory_ran resources file.host
    (compat resources.boardType).fwAddresses.bootKeyCert
    (file.address + (24 + parts.appCode.length) + 8)
    (wordIn file.data (24 + parts.appCode.length)) d₂ (by omega)
    (bytesFrom_host _ hkeyAt (by simp only [List.length_append]; omega) hkeySize)
  have hcontentAt : file.data = (parts.appHeader ++ (parts.appCode ++ (parts.certHeader ++
      parts.key))) ++ (parts.content ++ coreBytes parts.core) := by
    rw [hall, hrest]
    simp only [List.append_assoc]
  obtain ⟨d₄, h₄, hmem₄⟩ := writeMemory_ran resources file.host
    (compat resources.boardType).fwAddresses.bootContCert
    (file.address + (24 + parts.appCode.length) + 8 +
      (wordIn file.data (24 + parts.appCode.length)).toNat)
    (wordIn file.data (24 + parts.appCode.length + 4)) d₃ (by omega)
    (bytesFrom_host _ hcontentAt (by simp only [List.length_append]; omega) hcontentSize)
  refine ⟨d₄, ?_, ?_⟩
  · rw [hailoWriteAppFirmware, h₁, ok_bind, h₂, ok_bind, h₃, ok_bind, h₄]
  · rw [hmem₄, hmem₃, hmem₂, hmem₁]
    rfl

theorem hailoWriteCoreFirmware_ran (hnnc : resources.acceleratorType = .nnc)
    {before header code : List UInt8} (h : IsFwHeader magic 0x20000 header code)
    (hdata : file.data = before ++ (header ++ code)) (d : Device) :
    ∃ d', hailoWriteCoreFirmware (deviceOps resources.toWindowedResources)
        resources.toHailoPcieResources file before.length d = .ok d' ∧
      d'.memory = applyRuns d.memory
        (coreRuns (compat resources.boardType).fwAddresses (some (header, code))) := by
  have hlayout := compat_layout resources.type_eq
  have hcore : (resources.acceleratorType == .nnc) = true := by
    rw [hnnc]
    rfl
  have hcodeEnd := hlayout.coreCode_le hcore
  have hheaderEnd := hlayout.coreHeader_le hcore
  have := hlayout.header_le
  have := hlayout.key_lt
  have := hlayout.boot_le
  have hheader := h.length_eq
  have hcodeLe := h.code_le
  have hcodeSize : (wordIn file.data (before.length + 20)).toNat = code.length := by
    rw [hdata, wordIn_append_right, wordIn_append_left (by omega)]
    exact h.codeSize_eq
  have hsize : firmwareHeaderSize.toNat = 24 := rfl
  have hcodeAt : file.data = (before ++ header) ++ (code ++ []) := by
    rw [hdata, List.append_nil, List.append_assoc]
  obtain ⟨d₁, h₁, hmem₁⟩ := writeMemory_ran resources file.host
    (compat resources.boardType).fwAddresses.coreCodeRamBase (file.address + before.length + 24)
    (wordIn file.data (before.length + 20)) d (by omega)
    (bytesFrom_host _ hcodeAt (by rw [List.length_append]; omega) hcodeSize)
  obtain ⟨d₂, h₂, hmem₂⟩ := writeMemory_ran resources file.host
    (compat resources.boardType).fwAddresses.coreFwHeader (file.address + before.length)
    firmwareHeaderSize d₁ (by omega) (bytesFrom_host before hdata rfl (by omega))
  refine ⟨d₂, ?_, ?_⟩
  · rw [hailoWriteCoreFirmware, h₁, ok_bind, h₂]
  · rw [hmem₂, hmem₁]
    rfl

theorem writeImage_ran (fileInfo : HailoFileBatch)
    (hcore : fileInfo.hasCore = (resources.acceleratorType == .nnc))
    (h : parts.WellFormed resources.boardType resources.acceleratorType magic)
    (hdata : file.data = parts.bytes) (d : Device) :
    ∃ d', writeImage (deviceOps resources.toWindowedResources) resources.toHailoPcieResources
        fileInfo file (OutParams.write ⟨some none, some none, some none⟩ parts.headers) d = .ok d' ∧
      d'.memory = applyRuns d.memory
        (imageRuns (compat resources.boardType).fwAddresses fileInfo.hasCore parts) := by
  obtain ⟨middle, happ, hmem⟩ := hailoWriteAppFirmware_ran resources h hdata d
  have himage : writeImage (deviceOps resources.toWindowedResources)
      resources.toHailoPcieResources fileInfo file
      (OutParams.write ⟨some none, some none, some none⟩ parts.headers) d = _ :=
    writeImage_eq (deviceOps resources.toWindowedResources) resources.toHailoPcieResources fileInfo
      file 0 (24 + parts.appCode.length) parts.headers.coreFirmwareHeader d
  rw [himage, happ, ok_bind, imageRuns, applyRuns_append, ← hmem]
  cases hbool : fileInfo.hasCore with
  | false => exact ⟨middle, rfl, rfl⟩
  | true =>
    have hnnc : resources.acceleratorType = .nnc := by
      rw [hbool] at hcore
      exact eq_of_beq hcore.symm
    have hisCore := h.core
    rw [hnnc] at hisCore
    match hparts : parts.core, hisCore with
    | some (header, code), hisCore =>
      have hbefore : file.data = (parts.appHeader ++ (parts.appCode ++ (parts.certHeader ++
          (parts.key ++ parts.content)))) ++ (header ++ code) := by
        rw [hdata, ImageParts.bytes, hparts, coreBytes]
        simp only [List.append_assoc]
      have hlen : (parts.appHeader ++ (parts.appCode ++ (parts.certHeader ++
          (parts.key ++ parts.content)))).length =
          24 + parts.appCode.length + 8 + parts.key.length + parts.content.length := by
        have hheader := h.app.length_eq
        have hcert := h.certificate.length_eq
        simp only [List.length_append]
        omega
      obtain ⟨d', hwrite, hmem'⟩ :=
        hailoWriteCoreFirmware_ran resources hnnc hisCore hbefore middle
      rw [hlen] at hwrite
      refine ⟨d', ?_, hmem'⟩
      rw [ImageParts.headers, hparts]
      exact hwrite

/-- What a file of the stage writes when `parts` are those of the image. -/
def fileRuns (resources : HailoPcieResources) (request : FirmwareStore) (parts : ImageParts)
    (fileInfo : HailoFileBatch) : List WriteRun :=
  if fileInfo.hasHeader then
    imageRuns (compat resources.boardType).fwAddresses fileInfo.hasCore parts
  else
    match request fileInfo.filename with
    | .error _ => []
    | .ok file =>
      if file.size > fileInfo.maxSize then [] else [⟨fileInfo.address.toNat, file.data⟩]

def stageRuns (resources : HailoPcieResources) (request : FirmwareStore) (parts : ImageParts) :
    List WriteRun :=
  (firstStage resources.boardType).files.flatMap (fileRuns resources request parts)

/-- The first stage finds its files, and the image among them has the given parts. -/
structure Loads (resources : HailoPcieResources) (request : FirmwareStore) (parts : ImageParts)
    (magic : UInt32) : Prop where
  not_turnedDown : ∀ fileInfo ∈ (firstStage resources.boardType).files,
    ¬ TurnedDown resources request fileInfo
  wellFormed : parts.WellFormed resources.boardType resources.acceleratorType magic
  image : ∀ fileInfo ∈ (firstStage resources.boardType).files, fileInfo.hasHeader = true →
    ∃ file, request fileInfo.filename = .ok file ∧ file.data = parts.bytes

/-- The tables of the first stages: the files with a header are mandatory, and no file is
longer than device memory. -/
theorem firstStage_files {boardType : HailoBoardType} {acceleratorType : HailoAcceleratorType}
    (h : hailoSetDeviceType boardType = some acceleratorType) :
    ∀ fileInfo ∈ (firstStage boardType).files,
      (fileInfo.hasHeader = true →
        fileInfo.isMandatory = true ∧ fileInfo.hasCore = (acceleratorType == .nnc)) ∧
      fileInfo.address.toNat + fileInfo.maxSize.toNat ≤ 2 ^ 32 - 1 := by
  cases boardType <;> cases acceleratorType <;> first
    | exact absurd h (by decide)
    | decide

theorem writeSingleFile_ran {request : FirmwareStore}
    (h : Loads resources.toHailoPcieResources request parts magic) {fileInfo : HailoFileBatch}
    (hmem : fileInfo ∈ (firstStage resources.boardType).files) (d : Device) :
    ∃ err d', writeSingleFile (deviceOps resources.toWindowedResources)
        resources.toHailoPcieResources request fileInfo d = .ok (err, d') ∧
      ¬ (err < 0 ∧ fileInfo.isMandatory = true) ∧
      d'.memory = applyRuns d.memory
        (fileRuns resources.toHailoPcieResources request parts fileInfo) := by
  have hdown := h.not_turnedDown fileInfo hmem
  obtain ⟨htable, hend⟩ := firstStage_files resources.type_eq fileInfo hmem
  rw [TurnedDown, fileError] at hdown
  rw [writeSingleFile, fileRuns]
  cases hheader : fileInfo.hasHeader with
  | true =>
    obtain ⟨hmandatory, hcore⟩ := htable hheader
    obtain ⟨file, hrequest, hdata⟩ := h.image fileInfo hmem hheader
    rw [hrequest] at hdown ⊢
    simp only [hheader, if_true] at hdown ⊢
    by_cases hbig : file.size > fileInfo.maxSize
    · rw [if_pos hbig] at hdown
      exact absurd ⟨hmandatory, by decide⟩ hdown
    · obtain ⟨d', hwrite, hmemory⟩ :=
        writeImage_ran resources fileInfo hcore h.wellFormed hdata d
      have hzero : ¬ (0 : Int32) < 0 := by decide
      have hok : validateFwHeaders file.toFirmware ⟨some none, some none, some none⟩
          resources.boardType resources.acceleratorType =
          some (0, OutParams.write ⟨some none, some none, some none⟩ parts.headers) := by
        rw [validateFwHeaders, findHeaders_ok h.wellFormed hdata.symm]
      refine ⟨0, d', ?_, fun herr => hzero herr.1, hmemory⟩
      rw [if_neg hbig, hok]
      simp only [if_neg hzero]
      rw [hwrite, ok_bind]
  | false =>
    simp only [hheader, Bool.false_eq_true, if_false] at hdown ⊢
    cases hrequest : request fileInfo.filename with
    | error err =>
      rw [hrequest] at hdown
      exact ⟨err.val, d, rfl, fun herr => hdown ⟨herr.2, herr.1⟩, rfl⟩
    | ok file =>
      rw [hrequest] at hdown
      simp only at hdown ⊢
      by_cases hbig : file.size > fileInfo.maxSize
      · rw [if_pos hbig] at hdown ⊢
        rw [if_pos hbig]
        exact ⟨-efbig, d, rfl, fun herr => hdown ⟨herr.2, herr.1⟩, rfl⟩
      · have hle := hbig
        rw [gt_iff_lt, UInt64.lt_iff_toNat_lt, Firmware.toNat_size, Nat.not_lt] at hle
        have hlen : file.size.toUInt32.toNat = file.data.length := by
          rw [UInt64.toNat_toUInt32, Firmware.toNat_size]
          exact Nat.mod_eq_of_lt (by omega)
        have hall : file.data = [] ++ (file.data ++ []) := (List.append_nil _).symm
        obtain ⟨d', hwrite, hmemory⟩ := writeMemory_ran resources file.host fileInfo.address
          file.address file.size.toUInt32 d (by omega) (bytesFrom_host [] hall rfl hlen)
        have hzero : ¬ (0 : Int32) < 0 := by decide
        rw [if_neg hbig, if_neg hbig, hwrite, ok_bind]
        exact ⟨0, d', rfl, fun herr => hzero herr.1, hmemory⟩

theorem writeFiles_ran {request : FirmwareStore}
    (h : Loads resources.toHailoPcieResources request parts magic) (files : List HailoFileBatch) :
    (∀ fileInfo ∈ files, fileInfo ∈ (firstStage resources.boardType).files) → ∀ d : Device,
      ∃ d', writeFiles (deviceOps resources.toWindowedResources) resources.toHailoPcieResources
          request files d = .ok (0, d') ∧
        d'.memory = applyRuns d.memory
          (files.flatMap (fileRuns resources.toHailoPcieResources request parts)) := by
  induction files with
  | nil => exact fun _ d => ⟨d, rfl, rfl⟩
  | cons fileInfo rest ih =>
    intro hfiles d
    rw [List.forall_mem_cons] at hfiles
    obtain ⟨err, middle, hfirst, hgo, hmem⟩ := writeSingleFile_ran resources h hfiles.1 d
    obtain ⟨d', hrest, hmem'⟩ := ih hfiles.2 middle
    refine ⟨d', ?_, ?_⟩
    · rw [writeFiles, hfirst, ok_bind]
      exact (if_neg hgo).trans hrest
    · rw [hmem', hmem, List.flatMap_cons, applyRuns_append]

/-- The batch writes the runs of its files, and the trigger last. -/
theorem hailoPcieWriteFirmwareBatch_ran {request : FirmwareStore}
    (h : Loads resources.toHailoPcieResources request parts magic) (d : Device) :
    ∃ d', hailoPcieWriteFirmwareBatch (deviceOps resources.toWindowedResources)
        resources.toHailoPcieResources request .firstStage d = .ok (0, d') ∧
      d'.memory = applyRuns d.memory (stageRuns resources.toHailoPcieResources request parts ++
        [⟨(firstStage resources.boardType).triggerAddress.toNat, wordBytes 1⟩]) := by
  have hlayout := compat_layout resources.type_eq
  have hboot := hlayout.boot_le
  have htrigger := hlayout.trigger_le
  obtain ⟨middle, hfiles, hmem⟩ := writeFiles_ran resources h
    (firstStage resources.boardType).files (fun _ hmem => hmem) d
  have hfour : (4 : UInt32).toNat = 4 := rfl
  obtain ⟨d', hwrite, hmem'⟩ := writeMemory_ran resources (overlay (fun _ => 0) 0 (wordBytes 1))
    (firstStage resources.boardType).triggerAddress 0 4 middle (by omega)
    (bytesFrom_overlay _ 0 (wordBytes 1))
  have hzero : ¬ (0 : Int32) < 0 := by decide
  refine ⟨d', ?_, ?_⟩
  · rw [hailoPcieWriteFirmwareBatch]
    change writeFiles _ _ request (firstStage resources.boardType).files d >>= _ = _
    rw [hfiles, ok_bind]
    simp only [if_neg hzero]
    have hboots : hailoTriggerFirmwareBoot (deviceOps resources.toWindowedResources)
        resources.toHailoPcieResources .firstStage middle = .ok d' := hwrite
    rw [hboots, ok_bind]
  · rw [hmem', hmem, stageRuns, applyRuns_append]
    rfl

/-- The one file with a header; what comes after it goes far behind it. -/
theorem firstStage_split {boardType : HailoBoardType} {acceleratorType : HailoAcceleratorType}
    (h : hailoSetDeviceType boardType = some acceleratorType) :
    ∃ before fileInfo after, (firstStage boardType).files = before ++ fileInfo :: after ∧
      fileInfo.hasHeader = true ∧
      ∀ later ∈ after, later.hasHeader = false ∧ 0x1000000 ≤ later.address.toNat := by
  cases boardType with
  | hailo8 => exact ⟨[], _, hailo8FilesStg1.tail.take 2, rfl, rfl, by decide⟩
  | hailo10hLegacy => exact ⟨[], _, [], rfl, rfl, by decide⟩
  | hailo15l => exact ⟨[], _, [], rfl, rfl, by decide⟩
  | hailo10h => exact ⟨hailo10hFilesStg1.take 2, _, [], rfl, rfl, by decide⟩
  | mars => exact ⟨hailo10h2FilesStg1.take 2, _, [], rfl, rfl, by decide⟩
  | hailo15 => cases h
  | count => cases h

/-- The file of a table that reaches over the trigger when it is long. -/
def marsDtb : HailoFileBatch :=
  ⟨some "hailo/hailo10h/u-boot.dtb.signed", 0x80004, 0x20000, true, false, false⟩

theorem plainFile_apart {boardType : HailoBoardType} {acceleratorType : HailoAcceleratorType}
    (h : hailoSetDeviceType boardType = some acceleratorType) :
    ∀ fileInfo ∈ (firstStage boardType).files, fileInfo.hasHeader = false →
      (firstStage boardType).triggerAddress.toNat < fileInfo.address.toNat ∨
        fileInfo.address.toNat + fileInfo.maxSize.toNat ≤
          (firstStage boardType).triggerAddress.toNat ∨
        boardType = .mars ∧ fileInfo = marsDtb := by
  cases boardType <;> cases acceleratorType <;> first
    | exact absurd h (by decide)
    | decide

end

/-- An accepted image stays whole: its ranges lie apart, only the last write of the batch is
one to the trigger, and every part is on the device after it. -/
structure KeepsImage (resources : BoardResources) (request : FirmwareStore) (parts : ImageParts)
    (d : Device) : Prop where
  ranges_disjoint : ∀ fileInfo ∈ (firstStage resources.boardType).files,
    fileInfo.hasHeader = true →
      (imageRuns (compat resources.boardType).fwAddresses fileInfo.hasCore parts).Pairwise
        fun x y => Disjoint x.range y.range
  trigger_notMem : ∀ run ∈ stageRuns resources.toHailoPcieResources request parts,
    (firstStage resources.boardType).triggerAddress.toNat ∉ run.range
  intact : ∃ d', hailoPcieWriteFirmwareBatch (deviceOps resources.toWindowedResources)
      resources.toHailoPcieResources request .firstStage d = .ok (0, d') ∧
    ∀ fileInfo ∈ (firstStage resources.boardType).files, fileInfo.hasHeader = true →
      ∀ run ∈ imageRuns (compat resources.boardType).fwAddresses fileInfo.hasCore parts,
        Intact d'.memory run

/-- The `u-boot.dtb.signed` of a Mars board ends before the trigger. -/
def DtbFits (boardType : HailoBoardType) (request : FirmwareStore) : Prop :=
  boardType = .mars →
    ∀ dtb, request marsDtb.filename = .ok dtb → dtb.data.length ≤ 0x18C94

section
variable {resources : BoardResources} {request : FirmwareStore} {parts : ImageParts}
variable {magic : UInt32}

theorem length_dtb_le (h : Loads resources.toHailoPcieResources request parts magic)
    (hmars : resources.boardType = .mars) {dtb : LoadedFile}
    (hrequest : request marsDtb.filename = .ok dtb) : ¬ dtb.size > marsDtb.maxSize := by
  have hmem : marsDtb ∈ (firstStage resources.boardType).files := by
    rw [hmars]
    decide
  intro hbig
  refine h.not_turnedDown marsDtb hmem ⟨rfl, ?_⟩
  rw [fileError, hrequest]
  simp only
  rw [if_pos hbig]
  decide

theorem fileRuns_marsDtb (h : Loads resources.toHailoPcieResources request parts magic)
    (hmars : resources.boardType = .mars) {dtb : LoadedFile}
    (hrequest : request marsDtb.filename = .ok dtb) :
    fileRuns resources.toHailoPcieResources request parts marsDtb = [⟨0x80004, dtb.data⟩] := by
  rw [fileRuns, if_neg (by decide), hrequest]
  exact if_neg (length_dtb_le h hmars hrequest)

/-- The plain files leave the trigger out if and only if the one of a Mars board does. -/
theorem plainRuns_iff (h : Loads resources.toHailoPcieResources request parts magic) :
    (∀ fileInfo ∈ (firstStage resources.boardType).files, fileInfo.hasHeader = false →
      ∀ run ∈ fileRuns resources.toHailoPcieResources request parts fileInfo,
        (firstStage resources.boardType).triggerAddress.toNat ∉ run.range) ↔
      DtbFits resources.boardType request := by
  constructor
  · intro hall hmars dtb hrequest
    have hmem : marsDtb ∈ (firstStage resources.boardType).files := by
      rw [hmars]
      decide
    have hout := hall marsDtb hmem rfl ⟨0x80004, dtb.data⟩ (by
      rw [fileRuns_marsDtb h hmars hrequest]
      exact List.mem_singleton_self _)
    rw [hmars, mem_range_iff] at hout
    have htrigger : (firstStage .mars).triggerAddress.toNat = 0x98c98 := rfl
    rw [htrigger] at hout
    simp only at hout
    omega
  · intro hfits fileInfo hmem hplain run hrun
    rw [fileRuns, hplain] at hrun
    simp only [Bool.false_eq_true, if_false] at hrun
    cases hrequest : request fileInfo.filename with
    | error err =>
      rw [hrequest] at hrun
      cases hrun
    | ok file =>
      rw [hrequest] at hrun
      simp only at hrun
      split at hrun
      · cases hrun
      · next hsmall =>
        rw [List.mem_singleton.mp hrun, mem_range_iff]
        rw [gt_iff_lt, UInt64.lt_iff_toNat_lt, Firmware.toNat_size, Nat.not_lt] at hsmall
        simp only
        rcases plainFile_apart resources.type_eq fileInfo hmem hplain with hlt | hle | ⟨hmars, rfl⟩
        · omega
        · omega
        · have hlen := hfits hmars file hrequest
          have htrigger : (firstStage .mars).triggerAddress.toNat = 0x98c98 := rfl
          have haddress : marsDtb.address.toNat = 0x80004 := rfl
          rw [hmars, htrigger, haddress]
          omega

theorem fileRuns_later {later : HailoFileBatch} (hplain : later.hasHeader = false)
    (haddress : 0x1000000 ≤ later.address.toNat) :
    ∀ run ∈ fileRuns resources.toHailoPcieResources request parts later,
      0x1000000 ≤ run.address := by
  intro run hrun
  rw [fileRuns, hplain] at hrun
  simp only [Bool.false_eq_true, if_false] at hrun
  split at hrun
  · cases hrun
  · split at hrun
    · cases hrun
    · rwa [List.mem_singleton.mp hrun]

theorem keepsImage_of_fits (h : Loads resources.toHailoPcieResources request parts magic)
    (hfits : CertificateFits (compat resources.boardType).fwAddresses
      (firstStage resources.boardType).triggerAddress.toNat parts)
    (hdtb : DtbFits resources.boardType request) (d : Device) :
    KeepsImage resources request parts d := by
  have hlayout := compat_layout resources.type_eq
  have hkey := hlayout.key_lt
  have hcontent := hlayout.content_lt
  have htable := firstStage_files resources.type_eq
  have hdisjoint := (imageRuns_disjoint_iff hlayout h.wellFormed).mpr (by
    rcases hfits.2 with hle | hnil
    · exact .inl hle
    · exact .inr (.inl hnil.1))
  have htrigger := (trigger_notMem_iff hlayout h.wellFormed).mpr ⟨hfits.1, by
    rcases hfits.2 with hle | hnil
    · omega
    · exact hnil.2⟩
  refine ⟨fun fileInfo hmem hheader => ?_, fun run hrun => ?_, ?_⟩
  · rwa [(htable fileInfo hmem).1 hheader |>.2]
  · obtain ⟨fileInfo, hmem, hrun⟩ := List.mem_flatMap.mp hrun
    cases hheader : fileInfo.hasHeader with
    | false => exact (plainRuns_iff h).mpr hdtb fileInfo hmem hheader run hrun
    | true =>
      rw [fileRuns, if_pos hheader, ((htable fileInfo hmem).1 hheader).2] at hrun
      exact htrigger run hrun
  · obtain ⟨d', hbatch, hmemory⟩ := hailoPcieWriteFirmwareBatch_ran resources h d
    obtain ⟨before, image, after, hfiles, himage, hafter⟩ := firstStage_split resources.type_eq
    have himageMem : image ∈ (firstStage resources.boardType).files := by
      rw [hfiles]
      exact List.mem_append_right _ (List.mem_cons_self ..)
    have hcore := ((htable image himageMem).1 himage).2
    refine ⟨d', hbatch, fun fileInfo hmem hheader => ?_⟩
    rw [((htable fileInfo hmem).1 hheader).2, hmemory, stageRuns, hfiles, List.flatMap_append,
      List.flatMap_cons, List.append_assoc, List.append_assoc, fileRuns, if_pos himage, hcore]
    refine intact_of_later hdisjoint fun run hrun later hlater => disjoint_of_apart ?_
    rcases List.mem_append.mp hlater with hlater | hlater
    · obtain ⟨file, hfile, hlater⟩ := List.mem_flatMap.mp hlater
      have hend := imageRuns_end_le hlayout h.wellFormed run hrun
      have hstart := fileRuns_later (hafter file hfile).1 (hafter file hfile).2
        later hlater
      exact .inl (Nat.le_trans hend hstart)
    · rw [List.mem_singleton.mp hlater]
      exact imageRuns_apart_trigger hlayout h.wellFormed run hrun (htrigger run hrun)

theorem fits_of_keepsImage (h : Loads resources.toHailoPcieResources request parts magic)
    {d : Device} (hkeeps : KeepsImage resources request parts d) :
    CertificateFits (compat resources.boardType).fwAddresses
        (firstStage resources.boardType).triggerAddress.toNat parts ∧
      DtbFits resources.boardType request := by
  have hlayout := compat_layout resources.type_eq
  have htable := firstStage_files resources.type_eq
  obtain ⟨before, image, after, hfiles, himage, _⟩ := firstStage_split resources.type_eq
  have hmem : image ∈ (firstStage resources.boardType).files := by
    rw [hfiles]
    exact List.mem_append_right _ (List.mem_cons_self ..)
  have hcore := ((htable image hmem).1 himage).2
  have hdisjoint := hkeeps.ranges_disjoint image hmem himage
  rw [hcore, imageRuns_disjoint_iff hlayout h.wellFormed] at hdisjoint
  have htrigger := (trigger_notMem_iff hlayout h.wellFormed).mp fun run hrun =>
    hkeeps.trigger_notMem run (List.mem_flatMap.mpr ⟨image, hmem, by
      rwa [fileRuns, if_pos himage, hcore]⟩)
  refine ⟨⟨htrigger.1, ?_⟩, (plainRuns_iff h).mp fun fileInfo hfile _ run hrun =>
    hkeeps.trigger_notMem run (List.mem_flatMap.mpr ⟨fileInfo, hfile, hrun⟩)⟩
  rcases hdisjoint with hle | hnil | hnil
  · exact .inl hle
  · exact .inr ⟨hnil, htrigger.2⟩
  · exact .inl (by rw [hnil]; exact Nat.zero_le _)

end

/-- On every board and for every accepted image: it stays whole if and only if its certificate
fits between the addresses of the board, and on a Mars board the file before it as well. -/
theorem keepsImage_iff (resources : BoardResources) (request : FirmwareStore) (parts : ImageParts)
    (magic : UInt32) (d : Device)
    (h : Loads resources.toHailoPcieResources request parts magic) :
    KeepsImage resources request parts d ↔
      CertificateFits (compat resources.boardType).fwAddresses
          (firstStage resources.boardType).triggerAddress.toNat parts ∧
        DtbFits resources.boardType request :=
  ⟨fits_of_keepsImage h, fun hfits => keepsImage_of_fits h hfits.1 hfits.2 d⟩

/-- The Hailo-8 resources with the config BAR in front of the window. -/
def hailo8Board : BoardResources where
  toLoadableResources := hailo8Resources
  config_aligned := rfl
  fwAccess_aligned := rfl
  apart := .inl (Nat.le_refl _)

theorem loads_hailo8 {key content : List UInt8} (hkey : key.length ≤ 0x1000)
    (hcontent : content.length ≤ 0x1000) :
    Loads hailo8Board.toHailoPcieResources
      (onlyHailo8Fw (hailo8File key content (Nat.add_le_add hkey hcontent)))
      (packHailo8 key content)
      firmwareHeaderMagicHailo8 where
  not_turnedDown := not_turnedDown_hailo8 hkey hcontent
  wellFormed := packHailo8_wellFormed hkey hcontent
  image := by
    intro fileInfo hmem hheader
    change fileInfo ∈ hailo8FilesStg1.take 3 at hmem
    simp only [hailo8FilesStg1, List.take_succ_cons, List.take_zero, List.mem_cons,
      List.not_mem_nil, or_false] at hmem
    rcases hmem with rfl | rfl | rfl
    · exact ⟨hailo8File key content (Nat.add_le_add hkey hcontent), rfl, rfl⟩
    · cases hheader
    · cases hheader

theorem keepsImage_iff_noCertificate :
    KeepsImage hailo8Board (onlyHailo8Fw (hailo8File [] [] (by decide))) (packHailo8 [] [])
      blankDevice :=
  (keepsImage_iff hailo8Board _ _ _ blankDevice (loads_hailo8 (by decide) (by decide))).mpr
    ⟨⟨Nat.zero_le _, .inl (Nat.zero_le _)⟩, fun hmars => by cases hmars⟩

/-- A key as long as no gap between the addresses, and still not too long to be valid. -/
def longKey : List UInt8 := List.replicate 841 0

theorem length_longKey : longKey.length = 841 := List.length_replicate

theorem loads_longKey :
    Loads hailo8Board.toHailoPcieResources
      (onlyHailo8Fw (hailo8File longKey [0] (by rw [length_longKey]; decide)))
      (packHailo8 longKey [0]) firmwareHeaderMagicHailo8 :=
  loads_hailo8 (by rw [length_longKey]; decide) (by decide)

/-- The validation lets such a key pass; on the device it reaches into the content. -/
theorem longKey_overlaps :
    Loads hailo8Board.toHailoPcieResources
        (onlyHailo8Fw (hailo8File longKey [0] (by rw [length_longKey]; decide)))
        (packHailo8 longKey [0]) firmwareHeaderMagicHailo8 ∧
      ¬ KeepsImage hailo8Board
        (onlyHailo8Fw (hailo8File longKey [0] (by rw [length_longKey]; decide)))
        (packHailo8 longKey [0]) blankDevice := by
  refine ⟨loads_longKey, fun hkeeps => ?_⟩
  have hfits := (fits_of_keepsImage loads_longKey hkeeps).1.2
  rw [packHailo8] at hfits
  simp only [length_longKey] at hfits
  revert hfits
  decide

end HailortDrivers.FirmwareLayout
