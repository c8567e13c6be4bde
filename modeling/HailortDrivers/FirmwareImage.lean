import HailortDrivers.LittleEndian
import HailortDrivers.VdmaTypes

/-!
`fw_validation.c` and `FW_VALIDATION__validate_fw_headers`: which byte strings
are accepted as a firmware image. A pointer into the image is its offset from
`firmware_base_address`; reading at or past the end of the image is a stop of
its own, which no run of the validation reaches.
-/
namespace HailortDrivers.FirmwareImage
open LittleEndian VdmaTypes

/-- `enum hailo_board_type`; `count` stands for the values that name no board. -/
inductive HailoBoardType
  | hailo8
  | hailo15
  | hailo15l
  | hailo10h
  | hailo10hLegacy
  | mars
  | count
deriving DecidableEq

inductive HailoAcceleratorType
  | nnc
  | soc
deriving DecidableEq

/-- The bytes at `firmware_base_address`, `firmware_size` of them. -/
structure Firmware where
  data : List UInt8
  length_lt : data.length < 2 ^ 64

def Firmware.size (firmware : Firmware) : UInt64 := UInt64.ofNat firmware.data.length

inductive Stop
  | readPastEnd
  | fail (err : Int32)
deriving DecidableEq

abbrev Validation := Except Stop

def firmwareHeaderSize : UInt32 := 24
def certificateHeaderSize : UInt32 := 8
def minimumFirmwareCodeSize : UInt32 := 20 * 4
def maximumFirmwareCertKeySize : UInt32 := 0x1000
def maximumFirmwareCertContentSize : UInt32 := 0x1000
def maximumAppFirmwareCodeSize : UInt32 := 0x40000
def maximumCoreFirmwareCodeSize : UInt32 := 0x20000
def firmwareHeaderMagicHailo8 : UInt32 := 0x1DD89DE0
def firmwareHeaderMagicHailo15 : UInt32 := 0xE905DAAB
def firmwareHeaderMagicHailo15l : UInt32 := 0xF94739AB
def firmwareHeaderMagicMars : UInt32 := 0xF94739AB
def firmwareHeaderVersionInitial : UInt32 := 0

def Firmware.load32 (firmware : Firmware) (offset : Nat) : Validation UInt32 :=
  if offset + 4 ≤ firmware.data.length then .ok (wordIn firmware.data offset)
  else .error .readPastEnd

/-- `CONSUME_FIRMWARE` -/
def consumeFirmware (firmware : Firmware) (consumed size : UInt32) : Validation UInt32 :=
  let consumed := consumed + size
  if firmware.size < size.toUInt64 ∨ firmware.size < consumed.toUInt64 then
    .error (.fail (-einval))
  else
    .ok consumed

def expectedFirmwareMagic : HailoBoardType → Option UInt32
  | .hailo8 => some firmwareHeaderMagicHailo8
  | .hailo10hLegacy => some firmwareHeaderMagicHailo15
  | .hailo15 => some firmwareHeaderMagicHailo15
  | .hailo10h => some firmwareHeaderMagicHailo15
  | .hailo15l => some firmwareHeaderMagicHailo15l
  | .mars => some firmwareHeaderMagicMars
  | .count => none

/-- The consumed offset after the header and its code, and the header. -/
def validateFwHeader (firmware : Firmware) (maxCodeSize outerConsumed : UInt32)
    (boardType : HailoBoardType) : Validation (UInt32 × Nat) := do
  let firmwareHeader := outerConsumed.toNat
  let consumed ← consumeFirmware firmware outerConsumed firmwareHeaderSize
  match expectedFirmwareMagic boardType with
  | none => .error (.fail (-einval))
  | some expected =>
    let magic ← firmware.load32 firmwareHeader
    if expected ≠ magic then .error (.fail (-einval)) else
    let headerVersion ← firmware.load32 (firmwareHeader + 4)
    if headerVersion ≠ firmwareHeaderVersionInitial then .error (.fail (-einval)) else
    let codeSize ← firmware.load32 (firmwareHeader + 20)
    if minimumFirmwareCodeSize > codeSize then .error (.fail (-einval)) else
    if maxCodeSize < codeSize then .error (.fail (-einval)) else
    let consumed ← consumeFirmware firmware consumed codeSize
    .ok (consumed, firmwareHeader)

def validateCertHeader (firmware : Firmware) (outerConsumed : UInt32) :
    Validation (UInt32 × Nat) := do
  let firmwareCert := outerConsumed.toNat
  let consumed ← consumeFirmware firmware outerConsumed certificateHeaderSize
  let keySize ← firmware.load32 firmwareCert
  let contentSize ← firmware.load32 (firmwareCert + 4)
  if maximumFirmwareCertKeySize < keySize ∨ maximumFirmwareCertContentSize < contentSize then
    .error (.fail (-einval))
  else
    let consumed ← consumeFirmware firmware consumed keySize
    let consumed ← consumeFirmware firmware consumed contentSize
    .ok (consumed, firmwareCert)

/-- The headers that were found; `none` is the `NULL` of a core header not looked for. -/
structure FoundHeaders where
  appFirmwareHeader : Nat
  firmwareCert : Nat
  coreFirmwareHeader : Option Nat
deriving DecidableEq

def findHeaders (firmware : Firmware) (boardType : HailoBoardType)
    (acceleratorType : HailoAcceleratorType) : Validation FoundHeaders := do
  let (consumed, app) ← validateFwHeader firmware maximumAppFirmwareCodeSize 0 boardType
  let (consumed, cert) ← validateCertHeader firmware consumed
  let (consumed, core) ← match acceleratorType with
    | .nnc => do
      let (consumed, core) ←
        validateFwHeader firmware maximumCoreFirmwareCodeSize consumed boardType
      .ok (consumed, some core)
    | .soc => .ok (consumed, none)
  if consumed.toUInt64 ≠ firmware.size then .error (.fail (-einval))
  else .ok ⟨app, cert, core⟩

/-- The out parameters: `none` is one not asked for, else what the caller's variable holds. -/
structure OutParams where
  appFirmwareHeader : Option (Option Nat)
  coreFirmwareHeader : Option (Option Nat)
  firmwareCert : Option (Option Nat)
deriving DecidableEq

def OutParams.write (outs : OutParams) (found : FoundHeaders) : OutParams where
  appFirmwareHeader := outs.appFirmwareHeader.map fun _ => some found.appFirmwareHeader
  coreFirmwareHeader := outs.coreFirmwareHeader.map fun _ => found.coreFirmwareHeader
  firmwareCert := outs.firmwareCert.map fun _ => some found.firmwareCert

/-- What is returned and the out parameters after; `none` if a byte past the end was read. -/
def validateFwHeaders (firmware : Firmware) (outs : OutParams) (boardType : HailoBoardType)
    (acceleratorType : HailoAcceleratorType) : Option (Int32 × OutParams) :=
  match findHeaders firmware boardType acceleratorType with
  | .ok found => some (0, outs.write found)
  | .error (.fail _) => some (-einval, outs)
  | .error .readPastEnd => none

/-! The format, as strings of bytes. -/

structure IsFwHeader (magic : UInt32) (maxCodeSize : Nat) (header code : List UInt8) : Prop where
  length_eq : header.length = 24
  magic_eq : wordIn header 0 = magic
  version_eq : wordIn header 4 = 0
  codeSize_eq : (wordIn header 20).toNat = code.length
  code_ge : 80 ≤ code.length
  code_le : code.length ≤ maxCodeSize

structure IsCertificate (header key content : List UInt8) : Prop where
  length_eq : header.length = 8
  keySize_eq : (wordIn header 0).toNat = key.length
  contentSize_eq : (wordIn header 4).toNat = content.length
  key_le : key.length ≤ 0x1000
  content_le : content.length ≤ 0x1000

structure ImageParts where
  appHeader : List UInt8
  appCode : List UInt8
  certHeader : List UInt8
  key : List UInt8
  content : List UInt8
  core : Option (List UInt8 × List UInt8)

def coreBytes : Option (List UInt8 × List UInt8) → List UInt8
  | none => []
  | some (header, code) => header ++ code

def ImageParts.bytes (parts : ImageParts) : List UInt8 :=
  parts.appHeader ++ (parts.appCode ++ (parts.certHeader ++ (parts.key ++ (parts.content ++
    coreBytes parts.core))))

/-- A core part is there on an NNC board and only there. -/
def IsCore (magic : UInt32) : HailoAcceleratorType → Option (List UInt8 × List UInt8) → Prop
  | .nnc, some (header, code) => IsFwHeader magic 0x20000 header code
  | .soc, none => True
  | _, _ => False

structure ImageParts.WellFormed (parts : ImageParts) (boardType : HailoBoardType)
    (acceleratorType : HailoAcceleratorType) (magic : UInt32) : Prop where
  magic_eq : expectedFirmwareMagic boardType = some magic
  app : IsFwHeader magic 0x40000 parts.appHeader parts.appCode
  certificate : IsCertificate parts.certHeader parts.key parts.content
  core : IsCore magic acceleratorType parts.core

/-- Where the headers of an image lie. -/
def ImageParts.headers (parts : ImageParts) : FoundHeaders where
  appFirmwareHeader := 0
  firmwareCert := 24 + parts.appCode.length
  coreFirmwareHeader := parts.core.map fun _ =>
    24 + parts.appCode.length + 8 + parts.key.length + parts.content.length

end HailortDrivers.FirmwareImage
