import HailortDrivers.ByteViews
import HailortDrivers.VdmaTypes

/-!
The firmware controls of a NNC board: what a request is checked for, the mailbox
that the request and the response go through, and the two reads of the response.
-/
namespace HailortDrivers.FirmwareControl
open LittleEndian ResourceAccess ByteViews VdmaTypes

def enomem : Int32 := 12
def enodev : Int32 := 19

def controlProtocolMaxControlLength : UInt32 := 1500
def controlProtocolMaxVdmaChannelsPerEngine : Nat := 32
def pcieRequestSizeOffset : Nat := 0x640
def fwAccessAppCpuControlMask : UInt32 := 1
def fwAccessCoreCpuControlMask : UInt32 := 2
def hailoControlOpcodeContextSwitchSetContextInfo : Nat := 33

/-- `sizeof(CONTROL_PROTOCOL__response_t)`: a status and the largest parameters -/
def controlResponseSize : Nat := 8 + 1500

inductive CpuId
  | appCpu
  | coreCpu
deriving DecidableEq

/-- `g_fw_control__cpu_id`, the runs of equal entries in the order of
`CONTROL_PROTOCOL__OPCODES_VARIABLES` -/
def gFwControlCpuId : List CpuId :=
  [(32, CpuId.appCpu), (2, .coreCpu), (2, .appCpu), (2, .coreCpu), (3, .appCpu), (2, .coreCpu),
    (2, .appCpu), (1, .coreCpu), (6, .appCpu), (3, .coreCpu), (4, .appCpu), (1, .coreCpu),
    (8, .appCpu), (5, .coreCpu), (1, .appCpu), (6, .coreCpu)].flatMap fun run =>
      List.replicate run.1 run.2

/-- `HAILO_CONTROL_OPCODE_COUNT` -/
def hailoControlOpcodeCount : Nat := gFwControlCpuId.length

/-- `request` and `response` are the bytes of the two fields, by their offset. -/
structure HailoFwControl where
  requestLen : UInt32
  request : Nat → UInt8
  responseLen : UInt32
  response : Nat → UInt8

def HailoFwControl.opcode (command : HailoFwControl) : Nat := (wordAt command.request 0).toNat

/-- A `uint64_t` of a packed structure. -/
def dwordAt (bytes : Nat → UInt8) (x : Nat) : UInt64 :=
  (wordAt bytes x).toUInt64 ||| ((wordAt bytes (x + 4)).toUInt64 <<< 32)

def dwordBytes (value : UInt64) : List UInt8 :=
  wordBytes value.toUInt32 ++ wordBytes (value >>> 32).toUInt32

section
variable (find : UInt64 → Option UInt64)

/-- The rounds of the loop from `i` on; `find` gives the `dma_address` of the descriptors
list of a handle. -/
def translateHandles : Nat → Nat → (Nat → UInt8) → Except Int32 (Nat → UInt8)
  | 0, _, request => .ok request
  | rounds + 1, i, request =>
    match find (dwordAt request (5 + 8 * i)) with
    | none => .error (-einval)
    | some dmaAddress =>
      translateHandles rounds (i + 1) (overlay request (261 + 8 * i) (dwordBytes dmaAddress))

/-- The translation table starts right after the opcode: `handle_count`, `handles` and
`dma_addrs`. -/
def hailoFwControlPreprocess (request : Nat → UInt8) : Except Int32 (Nat → UInt8) :=
  if (wordAt request 0).toNat ≠ hailoControlOpcodeContextSwitchSetContextInfo then .ok request
  else if controlProtocolMaxVdmaChannelsPerEngine < (request 4).toNat then .error (-einval)
  else translateHandles find (request 4).toNat 0 request

end

/-- `request_size` of `hailo_pcie_write_firmware_control` -/
def requestSize (requestLen : UInt32) : Nat := (4 + requestLen.toNat + 3) / 4 * 4

/-- The bytes of the command that are written to the device. -/
def HailoFwControl.requestBytes (command : HailoFwControl) : List UInt8 :=
  wordBytes command.requestLen ++ bytesFrom command.request 0 (requestSize command.requestLen - 4)

/-- The checks of `hailo_pcie_write_firmware_control`. -/
def checkFirmwareControl (isFirmwareLoaded : Bool) (command : HailoFwControl) : Int32 :=
  if !isFirmwareLoaded then -enodev
  else if hailoControlOpcodeCount ≤ command.opcode then -einval
  else if controlProtocolMaxControlLength < command.requestLen then -einval
  else 0

/-- The value that `hailo_pcie_write_firmware_control` writes to `raise_ready_offset`. -/
def accessBit (command : HailoFwControl) : UInt32 :=
  if gFwControlCpuId[command.opcode]? = some .appCpu then fwAccessAppCpuControlMask
  else fwAccessCoreCpuControlMask

/-- The BAR of the mailbox, which the kernel maps at a page. -/
structure FwAccess extends HailoResource where
  address_aligned : address % 4 = 0

section
variable (fwAccess : FwAccess)

/-- `command` is the address of the command of the board. -/
def writeRequest (address : Nat) (command : HailoFwControl) (device : Nat → UInt8) :
    Int32 × (Nat → UInt8) :=
  hailoResourceWriteBuffer ram fwAccess.toHailoResource 0 command.requestBytes address device

/-- The first half of `hailo_pcie_read_firmware_control`. -/
def readResponseLen (address : Nat) (device : Nat → UInt8) : UInt32 :=
  wordIn (hailoResourceReadBuffer ram fwAccess.toHailoResource pcieRequestSizeOffset 4
    address device).1 0

/-- The second half. -/
def readResponse (address : Nat) (command : HailoFwControl) (device : Nat → UInt8) :
    HailoFwControl :=
  { command with
    response := overlay command.response 0
      (hailoResourceReadBuffer ram fwAccess.toHailoResource (pcieRequestSizeOffset + 4)
        command.responseLen.toNat address device).1 }

end

end HailortDrivers.FirmwareControl
