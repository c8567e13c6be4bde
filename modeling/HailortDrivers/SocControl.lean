import HailortDrivers.ChannelControl
import HailortDrivers.VdmaMemory

/-!
Connecting and closing the channels of a SoC device (`soc.c`). What the device does for a
request and what it shows of it is given from outside: it may connect or close channels
although no answer arrives. A shift past the bits of a word has no result.
-/
namespace HailortDrivers.SocControl
open KernelExec VdmaTypes VdmaMemory ChannelControl DescriptorsListCreation

def hailoPcieSocControlCodeConnect : UInt32 := 0x100
def hailoPcieSocControlCodeClose : UInt32 := 0x101

/-- `hailo_pcie_soc_response`, with the union read as the answer to a connect request. -/
structure HailoPcieSocResponse where
  controlCode : UInt32
  status : Int32
  inputChannelIndex : UInt8
  outputChannelIndex : UInt8
deriving DecidableEq

/-- `channels` are those that the device connects, or closes, for the request; `waited` is
what waiting for its answer returned. -/
structure SocAnswer where
  channels : UInt32
  waited : Int32
  response : HailoPcieSocResponse
deriving DecidableEq

def socControl (controlCode : UInt32) (answer : SocAnswer) : Int32 :=
  if answer.waited = 0 then -etimedout
  else if answer.waited < 0 then answer.waited
  else if answer.response.status < 0 then answer.response.status
  else if answer.response.controlCode ≠ controlCode then -einval
  else 0

/-- `hailo_descriptors_list_buffer`, as far as a connection reads it -/
structure HailoDescriptorsListBuffer where
  handle : UInt64
  dmaAddress : UInt64
  descCount : UInt32
deriving DecidableEq

structure HailoFileContext where
  descriptorsBufferList : List HailoDescriptorsListBuffer
  socUsedChannelsBitmap : UInt32
deriving DecidableEq

/-- The channels connected on the device, and the host registers of the channels. -/
structure SocBoard where
  connected : UInt32
  hostRegs : Nat → RegisterWindow

def hailoVdmaFindDescriptorsBuffer (context : HailoFileContext) (descHandle : UInt64) :
    Option HailoDescriptorsListBuffer :=
  context.descriptorsBufferList.find? (fun cur => cur.handle = descHandle)

/-- `1 << bit` -/
def bitAt (bit : UInt8) : UInt32 := 1 <<< bit.toUInt32

def hailoCheckChannelIndex (channelIndex : UInt8) (srcChannelsBitmask : UInt32)
    (isInputChannel : Bool) : Option Bool :=
  if channelIndex.toNat < maxVdmaChannelsPerEngine then
    some (hailoTestBit channelIndex.toNat srcChannelsBitmask == isInputChannel)
  else none

def hailoSetBit (nr : UInt8) (bits : UInt32) : UInt32 := bits ||| bitAt nr

def hailoClearBit (bit : UInt8) (bits : UInt32) : UInt32 := bits &&& ~~~bitAt bit

section Bits

theorem hailoTestBit_bitAt {bit : UInt8} (hbit : bit.toNat < 32) (pos : Nat) :
    hailoTestBit pos (bitAt bit) = decide (pos = bit.toNat) := by
  have hshift : bit.toUInt32.toNat % 32 = bit.toNat := by
    rw [UInt8.toNat_toUInt32, Nat.mod_eq_of_lt hbit]
  have hpow : 2 ^ bit.toNat < 2 ^ 32 := Nat.pow_lt_pow_right (by decide) hbit
  have hone : (1 : UInt32).toNat = 1 := rfl
  have hword : (bitAt bit).toNat = 2 ^ bit.toNat := by
    rw [bitAt, UInt32.toNat_shiftLeft, hshift, hone, Nat.shiftLeft_eq, Nat.one_mul,
      Nat.mod_eq_of_lt hpow]
  rw [hailoTestBit, hword, Nat.testBit_two_pow]
  exact decide_eq_decide.mpr eq_comm

theorem hailoTestBit_setBit {nr : UInt8} (hnr : nr.toNat < 32) (pos : Nat) (bits : UInt32) :
    hailoTestBit pos (hailoSetBit nr bits) =
      (hailoTestBit pos bits || decide (pos = nr.toNat)) := by
  rw [hailoSetBit, hailoTestBit_or, hailoTestBit_bitAt hnr]

end Bits

structure HailoSocConnectParams where
  portNumber : UInt16
  inputChannelIndex : UInt8
  outputChannelIndex : UInt8
  inputDescHandle : UInt64
  outputDescHandle : UInt64
deriving DecidableEq

/-- `readable` and `writable`: the two copies from and to the user's memory succeed. -/
structure ConnectCall where
  params : HailoSocConnectParams
  readable : Bool
  writable : Bool
  answer : SocAnswer

/-- The parameters with the channels of the device's answer. -/
def ConnectCall.answered (call : ConnectCall) : HailoSocConnectParams :=
  { call.params with
    inputChannelIndex := call.answer.response.inputChannelIndex
    outputChannelIndex := call.answer.response.outputChannelIndex }

section Connect
variable (vdmaHw : HailoVdmaHw)

def SocBoard.startChannel (board : SocBoard) (channelIndex : UInt8)
    (buffer : HailoDescriptorsListBuffer) : SocBoard :=
  { board with
    hostRegs := Function.update board.hostRegs channelIndex.toNat
      (hailoVdmaStartChannel buffer.dmaAddress buffer.descCount vdmaHw.ddrDataId
        (board.hostRegs channelIndex.toNat)) }

/-- The lists of the handles, if both are there and of lengths that are powers of two. -/
def findDescriptorsBuffers (context : HailoFileContext) (params : HailoSocConnectParams) :
    Except Int32 (HailoDescriptorsListBuffer × HailoDescriptorsListBuffer) :=
  match hailoVdmaFindDescriptorsBuffer context params.inputDescHandle,
      hailoVdmaFindDescriptorsBuffer context params.outputDescHandle with
  | some input, some output =>
    if !isPowerof2 input.descCount.toUInt64 || !isPowerof2 output.descCount.toUInt64 then
      .error (-einval)
    else .ok (input, output)
  | _, _ => .error (-einval)

/-- What `hailo_soc_connect_ioctl` checks once the device has answered. -/
def validateConnect (context : HailoFileContext) (params : HailoSocConnectParams) :
    Option (Except Int32 (HailoDescriptorsListBuffer × HailoDescriptorsListBuffer)) :=
  match hailoCheckChannelIndex params.inputChannelIndex vdmaHw.srcChannelsBitmask true with
  | none => none
  | some false => some (.error (-einval))
  | some true =>
    match hailoCheckChannelIndex params.outputChannelIndex vdmaHw.srcChannelsBitmask false with
    | none => none
    | some false => some (.error (-einval))
    | some true => some (findDescriptorsBuffers context params)

/-- The result, what the user's memory holds then, the board and the file. -/
abbrev ConnectResult := Int32 × HailoSocConnectParams × SocBoard × HailoFileContext

def startChannels (call : ConnectCall) (input output : HailoDescriptorsListBuffer)
    (board : SocBoard) (context : HailoFileContext) : ConnectResult :=
  let params := call.answered
  let board := board.startChannel vdmaHw params.inputChannelIndex input
  let board := board.startChannel vdmaHw params.outputChannelIndex output
  let context := { context with
    socUsedChannelsBitmap := hailoSetBit params.outputChannelIndex
      (hailoSetBit params.inputChannelIndex context.socUsedChannelsBitmap) }
  if call.writable then (0, params, board, context) else (-enomem, call.params, board, context)

def hailoSocConnectIoctl (call : ConnectCall) (board : SocBoard) (context : HailoFileContext) :
    Option ConnectResult :=
  if !call.readable then some (-enomem, call.params, board, context)
  else
    -- the device has the request from here on
    let board := { board with connected := board.connected ||| call.answer.channels }
    let err := socControl hailoPcieSocControlCodeConnect call.answer
    if err < 0 then some (err, call.params, board, context)
    else
      match validateConnect vdmaHw context call.answered with
      | none => none
      | some (.error err) => some (err, call.params, board, context)
      | some (.ok (input, output)) => some (startChannels vdmaHw call input output board context)

end Connect

section Close

/-- The loop over the channels, and the request. -/
def closeChannels (channelsBitmap : UInt32) (answer : SocAnswer) (board : SocBoard) :
    Int32 × SocBoard :=
  (socControl hailoPcieSocControlCodeClose answer,
    { connected := board.connected &&& ~~~answer.channels
      hostRegs := fun channelIndex =>
        if hailoTestBit channelIndex channelsBitmap then
          hailoVdmaStopChannel (board.hostRegs channelIndex)
        else board.hostRegs channelIndex })

structure HailoSocCloseParams where
  inputChannelIndex : UInt8
  outputChannelIndex : UInt8
deriving DecidableEq

structure CloseCall where
  params : HailoSocCloseParams
  readable : Bool
  answer : SocAnswer

/-- `(1 << params.input_channel_index) | (1 << params.output_channel_index)` -/
def HailoSocCloseParams.channelsBitmap (params : HailoSocCloseParams) : UInt32 :=
  bitAt params.inputChannelIndex ||| bitAt params.outputChannelIndex

def hailoSocCloseIoctl (call : CloseCall) (board : SocBoard) (context : HailoFileContext) :
    Option (Int32 × SocBoard × HailoFileContext) :=
  let params := call.params
  if !call.readable then some (-enomem, board, context)
  else if maxVdmaChannelsPerEngine ≤ params.inputChannelIndex.toNat ∨
      maxVdmaChannelsPerEngine ≤ params.outputChannelIndex.toNat then none
  else
    let (err, board) := closeChannels params.channelsBitmap call.answer board
    if err ≠ 0 then some (err, board, context)
    else
      some (err, board, { context with
        socUsedChannelsBitmap := hailoClearBit params.outputChannelIndex
          (hailoClearBit params.inputChannelIndex context.socUsedChannelsBitmap) })

def hailoSocFileContextFinalize (context : HailoFileContext) (answer : SocAnswer)
    (board : SocBoard) : SocBoard :=
  if context.socUsedChannelsBitmap ≠ 0 then
    (closeChannels context.socUsedChannelsBitmap answer board).2
  else board

end Close

end HailortDrivers.SocControl
