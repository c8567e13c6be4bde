import HailortDrivers.DeviceMemory

/-!
Writing the firmware files of a loading stage: the tables of `pcie_common.c`
and `hailo_pcie_write_firmware_batch`. What `request_firmware_direct` finds
under a name is a parameter. The results of `hailo_resource_write_buffer` are
dropped here as `write_memory` drops them.
-/
namespace HailortDrivers.FirmwareLoading
open KernelExec LittleEndian VdmaTypes FirmwareImage DeviceMemory

def efbig : Int32 := 27

structure HailoFwAddresses where
  bootFwHeader : UInt32
  appFwCodeRamBase : UInt32
  bootKeyCert : UInt32
  bootContCert : UInt32
  coreCodeRamBase : UInt32
  coreFwHeader : UInt32

structure HailoFileBatch where
  filename : Option String
  address : UInt32
  maxSize : UInt64
  isMandatory : Bool
  hasHeader : Bool
  hasCore : Bool
deriving DecidableEq

structure HailoPcieLoadingStage where
  batch : List HailoFileBatch
  triggerAddress : UInt32
  amountOfFilesInStage : UInt8

inductive LoadingStages
  | firstStage
  | secondStage
  | secondStageLinuxInEmmc
deriving DecidableEq

structure HailoBoardCompatibility where
  fwAddresses : HailoFwAddresses
  stages : LoadingStages → HailoPcieLoadingStage

/-- The entry that closes a table; no stage counts it among its files. -/
def lastFile : HailoFileBatch := ⟨none, 0x00, 0x00, false, false, false⟩

def hailo10hFilesStg1 : List HailoFileBatch :=
  [⟨some "hailo/hailo10h/customer_certificate.bin", 0xA0000, 0x8004, true, false, false⟩,
    ⟨some "hailo/hailo10h/u-boot.dtb.signed", 0xA8004, 0x20000, true, false, false⟩,
    ⟨some "hailo/hailo10h/scu_fw.bin", 0x20000, 0x40000, true, true, false⟩,
    lastFile]

def hailo10h2FilesStg1 : List HailoFileBatch :=
  [⟨some "hailo/hailo10h/customer_certificate.bin", 0x88000, 0x8004, true, false, false⟩,
    ⟨some "hailo/hailo10h/u-boot.dtb.signed", 0x80004, 0x20000, true, false, false⟩,
    ⟨some "hailo/hailo10h/scu_fw.bin", 0x20000, 0x40000, true, true, false⟩,
    lastFile]

def hailo10hFamilyFilesStg2 : List HailoFileBatch :=
  [⟨some "hailo/hailo10h/u-boot-spl.bin", 0x85000000, 0x1000000, true, false, false⟩,
    ⟨some "hailo/hailo10h/u-boot-tfa.itb", 0x86000000, 0x1000000, true, false, false⟩,
    ⟨some "hailo/hailo10h/fitImage", 0x87000000, 0x1000000, true, false, false⟩,
    ⟨some "hailo/hailo10h/image-fs", 0x88000000, 0x20000000, true, false, false⟩]

def pcieHailo8BoardCfgMaxSize : UInt64 := 0x500
def pcieHailo8FwCfgMaxSize : UInt64 := 0x500

def hailo8FilesStg1 : List HailoFileBatch :=
  [⟨some "hailo/hailo8_fw.bin", 0x20000, 0x50000, true, true, true⟩,
    ⟨some "hailo/hailo8_board_cfg.bin", 0x60001000, pcieHailo8BoardCfgMaxSize, false, false, false⟩,
    ⟨some "hailo/hailo8_fw_cfg.bin", 0x60001500, pcieHailo8FwCfgMaxSize, false, false, false⟩,
    lastFile]

def hailo10hLegacyFilesStg1 : List HailoFileBatch :=
  [⟨some "hailo/hailo15_fw.bin", 0x20000, 0x100000, true, true, true⟩, lastFile]

def hailo15lFilesStg1 : List HailoFileBatch :=
  [⟨some "hailo/hailo15l_fw.bin", 0x20000, 0x100000, true, true, true⟩, lastFile]

/-- A stage that a table leaves out is all zeros. -/
def noStage : HailoPcieLoadingStage := ⟨[], 0, 0⟩

def onlyFirst (first : HailoPcieLoadingStage) : LoadingStages → HailoPcieLoadingStage
  | .firstStage => first
  | _ => noStage

def firstAndSecond (first second : HailoPcieLoadingStage) : LoadingStages → HailoPcieLoadingStage
  | .firstStage => first
  | .secondStage => second
  | .secondStageLinuxInEmmc => noStage

def compat : HailoBoardType → HailoBoardCompatibility
  | .hailo8 => {
      fwAddresses := {
        bootFwHeader := 0xE0030
        bootKeyCert := 0xE0048
        bootContCert := 0xE0390
        appFwCodeRamBase := 0x60000
        coreCodeRamBase := 0xC0000
        coreFwHeader := 0xA0000 }
      stages := onlyFirst ⟨hailo8FilesStg1, 0xE0980, 3⟩ }
  | .hailo10hLegacy => {
      fwAddresses := {
        bootFwHeader := 0x88000
        bootKeyCert := 0x88018
        bootContCert := 0x886a8
        appFwCodeRamBase := 0x20000
        coreCodeRamBase := 0x60000
        coreFwHeader := 0xC0000 }
      stages := onlyFirst ⟨hailo10hLegacyFilesStg1, 0x88c98, 1⟩ }
  | .hailo10h => {
      fwAddresses := {
        bootFwHeader := 0x88000
        bootKeyCert := 0x88018
        bootContCert := 0x886a8
        appFwCodeRamBase := 0x20000
        coreCodeRamBase := 0
        coreFwHeader := 0 }
      stages := firstAndSecond ⟨hailo10hFilesStg1, 0x88c98, 3⟩
        ⟨hailo10hFamilyFilesStg2, 0x84000000, 4⟩ }
  | .hailo15l => {
      fwAddresses := {
        bootFwHeader := 0x88000
        bootKeyCert := 0x88018
        bootContCert := 0x886a8
        appFwCodeRamBase := 0x20000
        coreCodeRamBase := 0x60000
        coreFwHeader := 0xC0000 }
      stages := onlyFirst ⟨hailo15lFilesStg1, 0x88c98, 1⟩ }
  | .mars => {
      fwAddresses := {
        bootFwHeader := 0x98000
        bootKeyCert := 0x98018
        bootContCert := 0x986a8
        appFwCodeRamBase := 0x20000
        coreCodeRamBase := 0
        coreFwHeader := 0 }
      stages := firstAndSecond ⟨hailo10h2FilesStg1, 0x98c98, 3⟩
        ⟨hailo10hFamilyFilesStg2, 0x84000000, 4⟩ }
  | _ => ⟨⟨0, 0, 0, 0, 0, 0⟩, fun _ => noStage⟩

def hailoPcieGetLoadingStageInfo (boardType : HailoBoardType) (stage : LoadingStages) :
    HailoPcieLoadingStage := (compat boardType).stages stage

/-- The files that `amount_of_files_in_stage` counts. -/
def HailoPcieLoadingStage.files (stageInfo : HailoPcieLoadingStage) : List HailoFileBatch :=
  stageInfo.batch.take stageInfo.amountOfFilesInStage.toNat

/-- `hailo_set_device_type`, where it does not return `-EINVAL`. -/
def hailoSetDeviceType : HailoBoardType → Option HailoAcceleratorType
  | .hailo8 | .hailo10hLegacy | .hailo15l => some .nnc
  | .hailo10h | .mars => some .soc
  | .hailo15 | .count => none

/-- A file in kernel memory, where `request_firmware_direct` put it. -/
structure LoadedFile extends Firmware where
  address : Nat

def LoadedFile.host (file : LoadedFile) : Nat → UInt8 :=
  overlay (fun _ => 0) file.address file.data

structure RequestError where
  val : Int32
  val_neg : val < 0

abbrev FirmwareStore := Option String → Except RequestError LoadedFile

section
variable {σ : Type} (ops : ResourceOps σ) (resources : HailoPcieResources)

/-- The headers are offsets into the file. -/
def hailoWriteAppFirmware (file : LoadedFile) (fwHeader fwCert : Nat) (s : σ) : Exec σ := do
  let fwAddresses := (compat resources.boardType).fwAddresses
  let fwCode := file.address + fwHeader + 24
  let keyData := file.address + fwCert + 8
  let keySize := wordIn file.data fwCert
  let contentData := keyData + keySize.toNat
  let s ← writeMemory ops resources file.host fwAddresses.bootFwHeader.toUInt64
    (file.address + fwHeader) firmwareHeaderSize s
  let s ← writeMemory ops resources file.host fwAddresses.appFwCodeRamBase.toUInt64 fwCode
    (wordIn file.data (fwHeader + 20)) s
  let s ← writeMemory ops resources file.host fwAddresses.bootKeyCert.toUInt64 keyData keySize s
  writeMemory ops resources file.host fwAddresses.bootContCert.toUInt64 contentData
    (wordIn file.data (fwCert + 4)) s

def hailoWriteCoreFirmware (file : LoadedFile) (fwHeader : Nat) (s : σ) : Exec σ := do
  let fwAddresses := (compat resources.boardType).fwAddresses
  let fwCode := file.address + fwHeader + 24
  let s ← writeMemory ops resources file.host fwAddresses.coreCodeRamBase.toUInt64 fwCode
    (wordIn file.data (fwHeader + 20)) s
  writeMemory ops resources file.host fwAddresses.coreFwHeader.toUInt64
    (file.address + fwHeader) firmwareHeaderSize s

def hailoTriggerFirmwareBoot (stage : LoadingStages) (s : σ) : Exec σ :=
  let pcieFinished : Nat → UInt8 := overlay (fun _ => 0) 0 (wordBytes 1)
  writeMemory ops resources pcieFinished
    (hailoPcieGetLoadingStageInfo resources.boardType stage).triggerAddress.toUInt64 0 4 s

/-- A header that is `NULL` is followed all the same. -/
def followed : Option (Option Nat) → Exec Nat
  | some (some offset) => .ok offset
  | _ => .error .nullDereference

/-- What `write_single_file` does with a file whose headers were found. -/
def writeImage (fileInfo : HailoFileBatch) (file : LoadedFile) (found : OutParams) (s : σ) :
    Exec σ := do
  let app ← followed found.appFirmwareHeader
  let cert ← followed found.firmwareCert
  let s ← hailoWriteAppFirmware ops resources file app cert s
  if fileInfo.hasCore then
    let core ← followed found.coreFirmwareHeader
    hailoWriteCoreFirmware ops resources file core s
  else .ok s

variable (request : FirmwareStore)

def writeSingleFile (fileInfo : HailoFileBatch) (s : σ) : Exec (Int32 × σ) :=
  match request fileInfo.filename with
  | .error err => .ok (err.val, s)
  | .ok file =>
    if file.size > fileInfo.maxSize then .ok (-efbig, s)
    else if fileInfo.hasHeader then
      match validateFwHeaders file.toFirmware ⟨some none, some none, some none⟩
          resources.boardType resources.acceleratorType with
      -- A read past the end of the file is a bad pointer too.
      | none => .error .nullDereference
      | some (err, found) =>
        if err < 0 then .ok (err, s)
        else do
          let s ← writeImage ops resources fileInfo file found s
          .ok (0, s)
    else do
      let s ← writeMemory ops resources file.host fileInfo.address.toUInt64 file.address
        file.size.toUInt32 s
      .ok (0, s)

/-- The loop of `hailo_pcie_write_firmware_batch`: negative when it returns from inside. -/
def writeFiles : List HailoFileBatch → σ → Exec (Int32 × σ)
  | [], s => .ok (0, s)
  | fileInfo :: rest, s => do
    let (err, s) ← writeSingleFile ops resources request fileInfo s
    if err < 0 ∧ fileInfo.isMandatory then .ok (err, s) else writeFiles rest s

def hailoPcieWriteFirmwareBatch (stage : LoadingStages) (s : σ) : Exec (Int32 × σ) := do
  let (err, s) ← writeFiles ops resources request
    (hailoPcieGetLoadingStageInfo resources.boardType stage).files s
  if err < 0 then .ok (err, s)
  else
    let s ← hailoTriggerFirmwareBoot ops resources stage s
    .ok (0, s)

end

end HailortDrivers.FirmwareLoading
