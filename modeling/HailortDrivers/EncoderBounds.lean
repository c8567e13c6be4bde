import HailortDrivers.ControlByteOrder

/-!
How far the encoders of `control_protocol.h` write. Eight of them append data of the caller's
length, one copies a name of the caller's length into a field, and one sets as many entries of
two arrays as the caller counts; no length is compared with anything.
-/
namespace HailortDrivers.EncoderBounds
open LittleEndian HostOrder ControlProtocol
open ControlByteOrder (length_stored)
open FirmwareControl (controlProtocolMaxVdmaChannelsPerEngine)

/-- `CONTROL_PROTOCOL__MAX_CONTROL_LENGTH`, and the size of `max_request_size`, which is the
largest member of `CONTROL_PROTOCOL__request_parameters_t` -/
def maxControlLength : Nat := 1500

/-- `sizeof(CONTROL_PROTOCOL__request_t)` -/
def requestSize : Nat := 4 + maxControlLength

/-- `sizeof(CONTROL_PROTOCOL__communication_config_prams_t)` -/
def communicationConfigParamsSize : Nat := 35

/-- Fields that are stored one behind another from `offset` of the request on. -/
structure Piece where
  offset : Nat
  fields : List Field

section Pieces

def stored (order : ByteOrder) (fields : List Field) : List (Option UInt8) :=
  fields.flatMap (Field.stored order)

/-- The bytes of a request after some were stored at an offset. -/
def writeAt (offset : Nat) (bytes : List (Option UInt8)) (request : Nat → UInt8) : Nat → UInt8 :=
  fun x => if offset ≤ x then (bytes[x - offset]?.getD none).getD (request x) else request x

def Piece.write (order : ByteOrder) (piece : Piece) : (Nat → UInt8) → Nat → UInt8 :=
  writeAt piece.offset (stored order piece.fields)

def writeAll (order : ByteOrder) (pieces : List Piece) (request : Nat → UInt8) : Nat → UInt8 :=
  pieces.foldl (fun request piece => piece.write order request) request

/-- Byte `x` of the request is one that the piece stores. -/
def Piece.Writes (order : ByteOrder) (piece : Piece) (x : Nat) : Prop :=
  ∃ k b, x = piece.offset + k ∧ (stored order piece.fields)[k]? = some (some b)

def width (fields : List Field) : Nat := (stored .little fields).length

variable {order : ByteOrder}

theorem length_fields (fields : List Field) : (stored order fields).length = width fields := by
  rw [width, stored, stored, List.length_flatMap, List.length_flatMap]
  exact congrArg List.sum (List.map_congr_left fun field _ => length_stored order field)

theorem width_append (fields fields' : List Field) :
    width (fields ++ fields') = width fields + width fields' := by
  rw [width, stored, List.flatMap_append, List.length_append]
  rfl

theorem width_memcpy (data : Nat → UInt8) (length : Nat) : width [memcpy data length] = length := by
  simp [width, stored, memcpy, Field.stored]

theorem width_htodll (values : List UInt64) :
    width (values.map Field.htodll) = 8 * values.length := by
  induction values with
  | nil => rfl
  | cons value values ih =>
    have hone : width [Field.htodll value] = 8 := rfl
    rw [List.map_cons, ← List.singleton_append, width_append, ih, hone, List.length_cons]
    omega

theorem width_flatMap {ι : Type} {fields : ι → List Field} {w : Nat}
    (hwidth : ∀ i, width (fields i) = w) (is : List ι) :
    width (is.flatMap fields) = is.length * w := by
  induction is with
  | nil => exact (Nat.zero_mul w).symm
  | cons i is ih =>
    rw [List.flatMap_cons, width_append, hwidth, ih, List.length_cons, Nat.succ_mul, Nat.add_comm]

theorem Piece.Writes.lt {piece : Piece} {x : Nat} (h : piece.Writes order x) :
    x < piece.offset + width piece.fields := by
  obtain ⟨k, b, rfl, hk⟩ := h
  rw [← @length_fields order]
  exact Nat.add_lt_add_left (List.getElem?_eq_some_iff.mp hk).1 _

/-- A piece whose fields are all stored stores all of its bytes. -/
theorem Piece.writes_of_lt {piece : Piece}
    (hstored : ∀ byte ∈ stored order piece.fields, byte.isSome = true) {k : Nat}
    (hk : k < width piece.fields) : piece.Writes order (piece.offset + k) := by
  rw [← @length_fields order] at hk
  obtain ⟨b, hb⟩ := Option.isSome_iff_exists.mp (hstored _ (List.getElem_mem hk))
  exact ⟨k, b, rfl, by rw [List.getElem?_eq_getElem hk, hb]⟩

theorem writeAt_append (offset : Nat) (bytes bytes' : List (Option UInt8))
    (request : Nat → UInt8) :
    writeAt offset (bytes ++ bytes') request =
      writeAt (offset + bytes.length) bytes' (writeAt offset bytes request) := by
  funext x
  by_cases hoffset : offset ≤ x
  · by_cases hlast : offset + bytes.length ≤ x
    · simp only [writeAt, if_pos hoffset, if_pos hlast]
      rw [List.getElem?_append_right (by omega), List.getElem?_eq_none (l := bytes) (by omega),
        Nat.sub_sub]
      rfl
    · simp only [writeAt, if_pos hoffset, if_neg hlast]
      rw [List.getElem?_append_left (by omega)]
  · have hlast : ¬ offset + bytes.length ≤ x := by omega
    simp only [writeAt, if_neg hoffset, if_neg hlast]

theorem writeAt_untouched (offset count : Nat) (request : Nat → UInt8) :
    writeAt offset (stored order [.untouched count]) request = request := by
  rw [show stored order [.untouched count] = List.replicate count none from List.append_nil _]
  funext x
  rw [writeAt]
  split
  · rw [List.getElem?_replicate]
    split
    · rfl
    · rfl
  · rfl

theorem writeAt_fields (offset : Nat) (fields fields' : List Field) (request : Nat → UInt8) :
    writeAt offset (stored order (fields ++ fields')) request =
      writeAt (offset + width fields) (stored order fields')
        (writeAt offset (stored order fields) request) := by
  rw [stored, List.flatMap_append, writeAt_append, ← @length_fields order]
  rfl

/-- Untouched bytes between fields only move the fields after them. -/
theorem writeAt_gap (offset count : Nat) (fields fields' : List Field) (request : Nat → UInt8) :
    writeAt offset (stored order (fields ++ (.untouched count :: fields'))) request =
      writeAt (offset + width fields + count) (stored order fields')
        (writeAt offset (stored order fields) request) := by
  have hcount : width [.untouched count] = count := by
    rw [width, show stored .little [.untouched count] = List.replicate count none from
      List.append_nil _, List.length_replicate]
  rw [writeAt_fields, ← List.singleton_append, writeAt_fields, writeAt_untouched, hcount]

theorem stored_nothing (fields : List Field) :
    stored order (fields ++ [.bytes []]) = stored order fields := by
  rw [stored, List.flatMap_append]
  exact List.append_nil _

/-- A request without gaps is one piece. -/
theorem write_packed (packed : PackedRequest) (request : Nat → UInt8) :
    packed.write order request = writeAll order [⟨0, packed.fields⟩] request := by
  funext x
  rw [PackedRequest.write, writeAll, List.foldl_cons, List.foldl_nil, Piece.write, writeAt,
    if_pos (Nat.zero_le x)]
  rfl

end Pieces

/-- The arguments of `CONTROL_PROTOCOL__pack_sensor_store_config_request` -/
structure SensorStoreConfig where
  isFirst : UInt32
  sectionIndex : UInt32
  startOffset : UInt32
  resetDataSize : UInt32
  sensorType : UInt32
  totalDataSize : UInt32
  data : Nat → UInt8
  dataLength : UInt32
  configHeight : UInt16
  configWidth : UInt16
  configFps : UInt16
  configNameLength : UInt32
  configName : Nat → UInt8

/-- `CONTROL_PROTOCOL__context_switch_context_info_chunk_t`. What the handles and addresses are
from index 32 on lies behind the arrays. -/
structure ContextInfo where
  handleCount : UInt8
  handles : Nat → UInt64
  dmaAddrs : Nat → UInt64
  isFirstChunkPerContext : Bool
  isLastChunkPerContext : Bool
  contextType : UInt8
  contextNetworkDataLength : UInt32
  contextNetworkData : Nat → UInt8

/-- Neither of the two functions with arguments of their own, and the bytes of a copied union are
those that the member leaves of it. -/
def SizedUnion : PackCall → Prop
  | .sensorStoreConfigRequest .. => False
  | .contextSwitchSetContextInfoRequest _ => False
  | .configStreamMipiOutputRequest _ _ _ _ _ beyond =>
    beyond.length = communicationConfigParamsSize - 16
  | .configStreamPcieInputRequest _ _ _ beyond => beyond.length = communicationConfigParamsSize - 2
  | .configStreamPcieOutputRequest _ _ _ beyond => beyond.length = communicationConfigParamsSize - 3
  | _ => True

/-- A call of one of the encoders, with any arguments. -/
inductive EncoderCall
  | pack (call : PackCall) (sized : SizedUnion call)
  | sensorStoreConfig (config : SensorStoreConfig)
  | setContextInfo (info : ContextInfo)

section Encoders

def SensorStoreConfig.header (config : SensorStoreConfig) : List Field :=
  [.htodl HailoControlOpcode.sensorStoreConfig.value, .htodl config.sectionIndex,
    .htodl config.isFirst, .htodl config.startOffset, .htodl config.resetDataSize,
    .htodl config.sensorType, .htodl config.totalDataSize, .htods config.configHeight,
    .htods config.configWidth, .htods config.configFps, .htodl (UInt32.ofNat maxConfigNameLen)]

def SensorStoreConfig.pieces (config : SensorStoreConfig) : List Piece :=
  [⟨0, config.header⟩,
    ⟨38, [memcpy config.configName config.configNameLength.toNat]⟩,
    ⟨138, [.htodl config.dataLength, memcpy config.data config.dataLength.toNat]⟩]

def ContextInfo.header (info : ContextInfo) : List Field :=
  [.htodl HailoControlOpcode.contextSwitchSetContextInfo.value, .u8 info.handleCount]

def ContextInfo.trailer (info : ContextInfo) : List Field :=
  [flag info.isFirstChunkPerContext, flag info.isLastChunkPerContext,
    .u8 info.contextType, .htodl info.contextNetworkDataLength,
    memcpy info.contextNetworkData info.contextNetworkDataLength.toNat]

def ContextInfo.pieces (info : ContextInfo) : List Piece :=
  [⟨0, info.header⟩,
    ⟨5, ((List.range info.handleCount.toNat).map info.handles).map .htodll⟩,
    ⟨261, ((List.range info.handleCount.toNat).map info.dmaAddrs).map .htodll⟩,
    ⟨517, info.trailer⟩]

def EncoderCall.pieces : EncoderCall → List Piece
  | .pack call _ => [⟨0, call.run.fields⟩]
  | .sensorStoreConfig config => config.pieces
  | .setContextInfo info => info.pieces

/-- The length that the call returns. -/
def EncoderCall.size : EncoderCall → Nat
  | .pack call _ => call.run.size
  | .sensorStoreConfig config => 4 + 138 + config.dataLength.toNat
  | .setContextInfo info => 4 + 520 + info.contextNetworkDataLength.toNat

end Encoders

/-- The call writes inside the request only, and returns no more than a control may have. -/
def Inside (order : ByteOrder) (call : EncoderCall) : Prop :=
  (∀ piece ∈ call.pieces, ∀ x, piece.Writes order x → x < requestSize) ∧
    call.size ≤ maxControlLength

/-- The data that a call appends has room behind its header. -/
def DataFits : PackCall → Prop
  | .writeMemoryRequest _ _ dataLength => dataLength.toNat ≤ maxControlLength - 12
  | .writeUserConfigRequest _ _ dataLength => dataLength.toNat ≤ maxControlLength - 12
  | .writeBoardConfigRequest _ _ dataLength => dataLength.toNat ≤ maxControlLength - 12
  | .writeFirmwareUpdateRequest _ _ dataLength => dataLength.toNat ≤ maxControlLength - 12
  | .writeSecondStageToInternalMemoryRequest _ _ dataLength =>
    dataLength.toNat ≤ maxControlLength - 12
  | .i2cWriteRequest _ _ _ _ _ _ length => length.toNat ≤ maxControlLength - 22
  | _ => True

/-- The lengths and counts with which a call stays inside: a name may run over the data, and
handles over addresses and data, as long as the request does not end. -/
def EncoderCall.LengthsFit : EncoderCall → Prop
  | .pack call _ => DataFits call
  | .sensorStoreConfig config =>
    config.configNameLength.toNat ≤ requestSize - 38 ∧
      config.dataLength.toNat ≤ maxControlLength - 142
  | .setContextInfo info =>
    info.handleCount.toNat ≤ (requestSize - 261) / 8 ∧
      info.contextNetworkDataLength.toNat ≤ maxControlLength - 524

section Packed

theorem width_cons (field : Field) (fields : List Field) :
    width (field :: fields) = width [field] + width fields := width_append [field] fields

theorem width_packed (packed : PackedRequest) :
    width packed.fields = packed.size + packed.beyond.length := by
  have hopcode : width [.htodl packed.opcode.value] = 4 := rfl
  have hbeyond : width [.bytes packed.beyond] = packed.beyond.length := by
    simp [width, stored, Field.stored]
  rw [PackedRequest.fields, width_append, width_cons, hopcode, hbeyond]
  rfl

theorem packWrite_size_le_iff (opcode : HailoControlOpcode) (address : UInt32) (data : Nat → UInt8)
    (dataLength : UInt32) : (packWrite opcode address data dataLength).size ≤ maxControlLength ↔
      dataLength.toNat ≤ maxControlLength - 12 := by
  have hheader : width [.htodl address, .htodl dataLength] = 8 := rfl
  have hsize : (packWrite opcode address data dataLength).size =
      4 + width ([.htodl address, .htodl dataLength] ++ [memcpy data dataLength.toNat]) := rfl
  have hmax : maxControlLength = 1500 := rfl
  rw [hsize, width_append, hheader, width_memcpy]
  omega

theorem packI2cWrite_size_le_iff (registerAddress : UInt32) (endianness : UInt8)
    (slaveAddress : UInt16) (registerAddressSize busIndex : UInt8) (data : Nat → UInt8)
    (length : UInt32) :
    (packI2cWriteRequest registerAddress endianness slaveAddress registerAddressSize busIndex data
      length).size ≤ maxControlLength ↔ length.toNat ≤ maxControlLength - 22 := by
  have hheader : width (slaveConfigFields endianness slaveAddress registerAddressSize busIndex
      false ++ [.htodl 4, .htodl registerAddress, .htodl length]) = 18 := rfl
  have hsize : (packI2cWriteRequest registerAddress endianness slaveAddress registerAddressSize
      busIndex data length).size = 4 + width ((slaveConfigFields endianness slaveAddress
        registerAddressSize busIndex false ++ [.htodl 4, .htodl registerAddress, .htodl length]) ++
        [memcpy data length.toNat]) := rfl
  have hmax : maxControlLength = 1500 := rfl
  rw [hsize, width_append, hheader, width_memcpy]
  omega

/-- All channels of all engines, four bytes each, and their count. -/
theorem width_channelsInfo (info : HwInferChannelsInfo) : width info.fields = 385 := by
  have hcount : width [.u8 info.channelCount] = 1 := rfl
  rw [HwInferChannelsInfo.fields, width_append, hcount,
    width_flatMap (w := 4) (fun i => rfl), List.length_finRange]
  rfl

theorem packChangeHwInferStatus_size_le (hwInferState networkGroupIndex : UInt8)
    (dynamicBatchSize batchCount : UInt16) (channelsInfo : HwInferChannelsInfo)
    (boundaryChannelMode : UInt32) :
    (packChangeHwInferStatusRequest hwInferState networkGroupIndex dynamicBatchSize batchCount
      channelsInfo boundaryChannelMode).size ≤ maxControlLength := by
  have hheader : width [.u8 hwInferState, .u8 networkGroupIndex, .htods dynamicBatchSize,
      .htods batchCount] = 6 := rfl
  have hmode : width [.u8 boundaryChannelMode.toUInt8] = 1 := rfl
  have hsize : (packChangeHwInferStatusRequest hwInferState networkGroupIndex dynamicBatchSize
      batchCount channelsInfo boundaryChannelMode).size = 4 + width ([.u8 hwInferState,
        .u8 networkGroupIndex, .htods dynamicBatchSize, .htods batchCount] ++
        channelsInfo.fields ++ [.u8 boundaryChannelMode.toUInt8]) := rfl
  rw [hsize, width_append, width_append, hheader, hmode, width_channelsInfo]
  decide

/-- Only the encoders that append data can return too much. -/
theorem size_le_iff {call : PackCall} (sized : SizedUnion call) :
    call.run.size ≤ maxControlLength ↔ DataFits call := by
  cases call with
  | writeMemoryRequest => exact packWrite_size_le_iff _ _ _ _
  | writeUserConfigRequest => exact packWrite_size_le_iff _ _ _ _
  | writeBoardConfigRequest => exact packWrite_size_le_iff _ _ _ _
  | writeFirmwareUpdateRequest => exact packWrite_size_le_iff _ _ _ _
  | writeSecondStageToInternalMemoryRequest => exact packWrite_size_le_iff _ _ _ _
  | i2cWriteRequest => exact packI2cWrite_size_le_iff _ _ _ _ _ _ _
  | changeHwInferStatusRequest =>
    exact iff_of_true (packChangeHwInferStatus_size_le _ _ _ _ _ _) trivial
  | sensorStoreConfigRequest => exact absurd sized not_false
  | contextSwitchSetContextInfoRequest => exact absurd sized not_false
  | _ => exact iff_of_true (Nat.le_of_ble_eq_true rfl) trivial

/-- What is copied past the returned length is the rest of the union of a stream's parameters. -/
theorem beyond_le {call : PackCall} (sized : SizedUnion call)
    (hsize : call.run.size ≤ maxControlLength) :
    call.run.size + call.run.beyond.length ≤ requestSize := by
  have hrequest : maxControlLength ≤ requestSize := by decide
  cases call with
  | configStreamMipiOutputRequest params common mipiTxId fifoThresholdPercent deskewEnable beyond =>
    have hbeyond : beyond.length = 19 := sized
    have hrun : (PackCall.configStreamMipiOutputRequest params common mipiTxId
        fifoThresholdPercent deskewEnable beyond).run.size = 45 := rfl
    rw [hrun]
    change 45 + beyond.length ≤ _
    rw [hbeyond]
    decide
  | configStreamPcieInputRequest params pcieChannelIndex pcieDataflowType beyond =>
    have hbeyond : beyond.length = 33 := sized
    change 31 + beyond.length ≤ _
    rw [hbeyond]
    decide
  | configStreamPcieOutputRequest params pcieChannelIndex descPageSize beyond =>
    have hbeyond : beyond.length = 32 := sized
    change 32 + beyond.length ≤ _
    rw [hbeyond]
    decide
  | sensorStoreConfigRequest => exact absurd sized not_false
  | contextSwitchSetContextInfoRequest => exact absurd sized not_false
  | _ => exact Nat.le_trans hsize hrequest

theorem inside_pack_iff {order : ByteOrder} {call : PackCall} (sized : SizedUnion call) :
    Inside order (.pack call sized) ↔ DataFits call := by
  rw [← size_le_iff sized]
  constructor
  · exact fun h => h.2
  · intro hsize
    refine ⟨fun piece hpiece x hx => ?_, hsize⟩
    obtain rfl := List.mem_singleton.mp hpiece
    have hlt := hx.lt
    rw [Nat.zero_add, width_packed] at hlt
    exact Nat.lt_of_lt_of_le hlt (beyond_le sized hsize)

end Packed

section CallerSized

variable {order : ByteOrder}

/-- A piece ends inside the request exactly when it writes inside it, as long as it writes at all
and has no gaps. -/
theorem writes_inside_iff {offset : Nat} {fields : List Field}
    (hstored : ∀ byte ∈ stored order fields, byte.isSome = true) (hoffset : offset ≤ requestSize) :
    (∀ x, Piece.Writes order ⟨offset, fields⟩ x → x < requestSize) ↔
      offset + width fields ≤ requestSize := by
  constructor
  · intro h
    by_cases hempty : width fields = 0
    · rw [hempty]
      exact hoffset
    · have hlast := h (offset + (width fields - 1))
        (@Piece.writes_of_lt order ⟨offset, fields⟩ hstored _ (by dsimp only; omega))
      omega
  · exact fun h x hx => Nat.lt_of_lt_of_le hx.lt h

theorem stored_memcpy (data : Nat → UInt8) (length : Nat) :
    ∀ byte ∈ stored order [memcpy data length], byte.isSome = true := by
  simp [stored, memcpy, Field.stored]

theorem stored_htodll (values : List UInt64) :
    ∀ byte ∈ stored order (values.map Field.htodll), byte.isSome = true := by
  intro byte hbyte
  rw [stored, List.mem_flatMap] at hbyte
  obtain ⟨field, hfield, hbyte⟩ := hbyte
  obtain ⟨value, -, rfl⟩ := List.mem_map.mp hfield
  obtain ⟨b, -, rfl⟩ := List.mem_map.mp hbyte
  rfl

theorem width_handles (count : UInt8) (values : Nat → UInt64) :
    width (((List.range count.toNat).map values).map Field.htodll) = 8 * count.toNat := by
  rw [width_htodll, List.length_map, List.length_range]

theorem inside_sensorStoreConfig_iff (config : SensorStoreConfig) :
    Inside order (.sensorStoreConfig config) ↔
      (EncoderCall.sensorStoreConfig config).LengthsFit := by
  have hrequest : requestSize = 1504 := rfl
  have hmax : maxControlLength = 1500 := rfl
  have hsize : (EncoderCall.sensorStoreConfig config).size = 4 + 138 + config.dataLength.toNat :=
    rfl
  have hfit : (EncoderCall.sensorStoreConfig config).LengthsFit ↔
      config.configNameLength.toNat ≤ requestSize - 38 ∧
        config.dataLength.toNat ≤ maxControlLength - 142 := Iff.rfl
  have hname := @writes_inside_iff order 38 _
    (stored_memcpy config.configName config.configNameLength.toNat) (by decide)
  rw [width_memcpy] at hname
  constructor
  · rintro ⟨hinside, hlength⟩
    have hnameInside :=
      hname.mp (hinside _ (by simp [EncoderCall.pieces, SensorStoreConfig.pieces]))
    rw [hfit]
    omega
  · rw [hfit]
    rintro ⟨hnameLength, hdataLength⟩
    refine ⟨fun piece hpiece x hx => ?_, by omega⟩
    simp only [EncoderCall.pieces, SensorStoreConfig.pieces, List.mem_cons, List.not_mem_nil,
      or_false] at hpiece
    rcases hpiece with rfl | rfl | rfl
    · exact Nat.lt_of_lt_of_le hx.lt (by decide : 0 + 38 ≤ requestSize)
    · exact hname.mpr (by omega) x hx
    · have hlt := hx.lt
      have hheader : width [.htodl config.dataLength] = 4 := rfl
      rw [width_cons, hheader, width_memcpy] at hlt
      dsimp only at hlt
      omega

/-- The addresses end where the handles do, 256 bytes further on. -/
theorem inside_setContextInfo_iff (info : ContextInfo) :
    Inside order (.setContextInfo info) ↔ (EncoderCall.setContextInfo info).LengthsFit := by
  have hrequest : requestSize = 1504 := rfl
  have hmax : maxControlLength = 1500 := rfl
  have hsize : (EncoderCall.setContextInfo info).size =
      4 + 520 + info.contextNetworkDataLength.toNat := rfl
  have hfit : (EncoderCall.setContextInfo info).LengthsFit ↔
      info.handleCount.toNat ≤ (requestSize - 261) / 8 ∧
        info.contextNetworkDataLength.toNat ≤ maxControlLength - 524 := Iff.rfl
  have haddrs := @writes_inside_iff order 261 _
    (stored_htodll ((List.range info.handleCount.toNat).map info.dmaAddrs)) (by decide)
  rw [width_handles] at haddrs
  constructor
  · rintro ⟨hinside, hlength⟩
    have haddrsInside := haddrs.mp (hinside _ (by simp [EncoderCall.pieces, ContextInfo.pieces]))
    rw [hfit]
    omega
  · rw [hfit]
    rintro ⟨hcount, hdataLength⟩
    refine ⟨fun piece hpiece x hx => ?_, by omega⟩
    simp only [EncoderCall.pieces, ContextInfo.pieces, List.mem_cons, List.not_mem_nil,
      or_false] at hpiece
    rcases hpiece with rfl | rfl | rfl | rfl
    · exact Nat.lt_of_lt_of_le hx.lt (by decide : 0 + 5 ≤ requestSize)
    · have hlt := hx.lt
      rw [width_handles] at hlt
      dsimp only at hlt
      omega
    · exact haddrs.mpr (by omega) x hx
    · have hlt := hx.lt
      have hheader : width [flag info.isFirstChunkPerContext, flag info.isLastChunkPerContext,
          .u8 info.contextType, .htodl info.contextNetworkDataLength] = 7 := rfl
      rw [show info.trailer = [flag info.isFirstChunkPerContext, flag info.isLastChunkPerContext,
          .u8 info.contextType, .htodl info.contextNetworkDataLength] ++
          [memcpy info.contextNetworkData info.contextNetworkDataLength.toNat] from rfl,
        width_append, hheader, width_memcpy] at hlt
      dsimp only at hlt
      omega

/-- An encoder stays inside the request exactly when the lengths that it is given fit. -/
theorem inside_iff (order : ByteOrder) (call : EncoderCall) :
    Inside order call ↔ call.LengthsFit := by
  cases call with
  | pack call sized => exact inside_pack_iff sized
  | sensorStoreConfig config => exact inside_sensorStoreConfig_iff config
  | setContextInfo info => exact inside_setContextInfo_iff info

/-- A name that its field has room for is stored as the request without gaps has it. -/
theorem writeAll_sensorStoreConfig (config : SensorStoreConfig) (name : ConfigName)
    (hname : bytesFrom config.configName 0 config.configNameLength.toNat = name.name)
    (request : Nat → UInt8) :
    writeAll order config.pieces request =
      (packSensorStoreConfigRequest config.isFirst config.sectionIndex config.startOffset
        config.resetDataSize config.sensorType config.totalDataSize config.data config.dataLength
        config.configHeight config.configWidth config.configFps name).write order request := by
  have hlength : name.name.length = config.configNameLength.toNat := by
    rw [← hname, length_bytesFrom]
  have hle := name.length_le
  have hfields : (packSensorStoreConfigRequest config.isFirst config.sectionIndex
      config.startOffset config.resetDataSize config.sensorType config.totalDataSize config.data
      config.dataLength config.configHeight config.configWidth config.configFps name).fields =
      (config.header ++ [memcpy config.configName config.configNameLength.toNat] ++
        (.untouched (maxConfigNameLen - name.name.length) ::
          [.htodl config.dataLength, memcpy config.data config.dataLength.toNat])) ++
        [.bytes []] := by
    rw [memcpy, hname]
    rfl
  have hheader : width config.header = 38 := rfl
  have hdata : 0 + width (config.header ++
      [memcpy config.configName config.configNameLength.toNat]) +
        (maxConfigNameLen - name.name.length) = 138 := by
    have hmax : maxConfigNameLen = 100 := rfl
    rw [width_append, hheader, width_memcpy]
    omega
  rw [write_packed, hfields]
  simp only [writeAll, SensorStoreConfig.pieces, List.foldl_cons, List.foldl_nil, Piece.write]
  rw [stored_nothing, writeAt_gap, hdata, writeAt_fields, hheader]

/-- The entries that a translation table has room for are stored as in the request without
gaps. -/
theorem writeAll_setContextInfo (info : ContextInfo) (table : TranslationTable)
    (htable : table.entries =
      (List.range info.handleCount.toNat).map fun i => (info.handles i, info.dmaAddrs i))
    (request : Nat → UInt8) :
    writeAll order info.pieces request =
      (packContextSwitchSetContextInfoRequest ⟨table, info.isFirstChunkPerContext,
        info.isLastChunkPerContext, info.contextType, info.contextNetworkDataLength,
        info.contextNetworkData⟩).write order request := by
  have hlength : table.entries.length = info.handleCount.toNat := by
    rw [htable, List.length_map, List.length_range]
  have hle := table.length_le
  have hmax : controlProtocolMaxVdmaChannelsPerEngine = 32 := rfl
  have hcount : UInt8.ofNat table.entries.length = info.handleCount := by
    rw [hlength, UInt8.ofNat_toNat]
  have hhandles : table.entries.map Prod.fst =
      (List.range info.handleCount.toNat).map info.handles := by
    rw [htable, List.map_map]
    rfl
  have haddrs : table.entries.map Prod.snd =
      (List.range info.handleCount.toNat).map info.dmaAddrs := by
    rw [htable, List.map_map]
    rfl
  have hfields : (packContextSwitchSetContextInfoRequest ⟨table, info.isFirstChunkPerContext,
      info.isLastChunkPerContext, info.contextType, info.contextNetworkDataLength,
      info.contextNetworkData⟩).fields =
      (info.header ++ (table.entries.map Prod.fst).map .htodll ++
        (.untouched (8 * (controlProtocolMaxVdmaChannelsPerEngine -
          (table.entries.map Prod.fst).length)) ::
        ((table.entries.map Prod.snd).map .htodll ++
          (.untouched (8 * (controlProtocolMaxVdmaChannelsPerEngine -
            (table.entries.map Prod.snd).length)) :: info.trailer)))) ++ [.bytes []] := by
    rw [ContextInfo.header, ← hcount]
    simp only [PackedRequest.fields, packContextSwitchSetContextInfoRequest, packed,
      TranslationTable.fields, handleArray, ContextInfo.trailer, List.cons_append,
      List.append_assoc, List.nil_append]
  have hheader : width info.header = 5 := rfl
  have hhandlesEnd : 0 + width (info.header ++ (table.entries.map Prod.fst).map .htodll) +
      8 * (controlProtocolMaxVdmaChannelsPerEngine - (table.entries.map Prod.fst).length) =
        261 := by
    rw [width_append, hheader, width_htodll, List.length_map]
    omega
  have haddrsEnd : 261 + width ((table.entries.map Prod.snd).map .htodll) +
      8 * (controlProtocolMaxVdmaChannelsPerEngine - (table.entries.map Prod.snd).length) =
        517 := by
    rw [width_htodll, List.length_map]
    omega
  rw [write_packed, hfields]
  simp only [writeAll, ContextInfo.pieces, List.foldl_cons, List.foldl_nil, Piece.write]
  rw [stored_nothing, writeAt_gap, hhandlesEnd, writeAt_gap, haddrsEnd, writeAt_fields, hheader,
    hhandles, haddrs]

end CallerSized

/-- A write of 1600 bytes of a firmware update, behind a header of 12. -/
def largeUpdate : EncoderCall :=
  .pack (.writeFirmwareUpdateRequest 0 (fun _ => 0) 1600) trivial

/-- 200 handles and no data: the request that is returned has 524 bytes, the addresses end at
byte 1861. -/
def manyHandles : EncoderCall :=
  .setContextInfo ⟨200, fun _ => 0, fun _ => 0, true, true, 0, 0, fun _ => 0⟩

theorem largeUpdate_not_inside :
    ¬ Inside .little largeUpdate ∧ ¬ Inside .little manyHandles ∧
      ¬ ∀ (order : ByteOrder) (call : EncoderCall), Inside order call := by
  have hupdate : ¬ Inside .little largeUpdate := by
    intro h
    have hfits : DataFits (.writeFirmwareUpdateRequest 0 (fun _ => 0) 1600) :=
      (inside_pack_iff _).mp h
    exact absurd hfits (by decide : ¬ (1600 : Nat) ≤ maxControlLength - 12)
  have hhandles : ¬ Inside .little manyHandles := by
    intro h
    exact absurd ((inside_setContextInfo_iff _).mp h).1
      (by decide : ¬ (200 : Nat) ≤ (requestSize - 261) / 8)
  exact ⟨hupdate, hhandles, fun h => hupdate (h _ _)⟩

end HailortDrivers.EncoderBounds
