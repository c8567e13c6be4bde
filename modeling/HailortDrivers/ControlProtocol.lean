import HailortDrivers.FirmwareControl
import HailortDrivers.HostOrder

/-!
The requests of `control_protocol.h`: what each `CONTROL_PROTOCOL__pack_*` function stores in
the packed structures, field by field, and which fields it converts to the device's order.
-/
namespace HailortDrivers.ControlProtocol
open LittleEndian HostOrder FirmwareControl

/-- `CONTROL_PROTOCOL__OPCODE_t`, in the order of `CONTROL_PROTOCOL__OPCODES_VARIABLES` -/
inductive HailoControlOpcode
  | identify
  | writeMemory
  | readMemory
  | configStream
  | openStream
  | closeStream
  | phyOperation
  | reset
  | configCoreTop
  | powerMeasuement
  | setPowerMeasuement
  | getPowerMeasuement
  | startPowerMeasuement
  | stopPowerMeasuement
  | startFirmwareUpdate
  | writeFirmwareUpdate
  | validateFirmwareUpdate
  | finishFirmwareUpdate
  | examineUserConfig
  | readUserConfig
  | eraseUserConfig
  | writeUserConfig
  | i2cWrite
  | i2cRead
  | nnCoreLatencyMeasurementConfig
  | nnCoreLatencyMeasurementRead
  | sensorStoreConfig
  | sensorGetConfig
  | sensorSetGenericI2cSlave
  | sensorLoadAndStart
  | sensorReset
  | sensorGetSectionsInfo
  | contextSwitchSetNetworkGroupHeader
  | contextSwitchSetContextInfo
  | idleTimeSetMeasurement
  | idleTimeGetMeasurement
  | downloadContextActionList
  | changeContextSwitchStatus
  | appWdEnable
  | appWdConfig
  | appPreviousSystemState
  | setDataflowInterrupt
  | coreIdentify
  | d2hEventManagerSetHostInfo
  | d2hEventManagerSendEventHostInfo
  | switchApplication
  | getChipTemperature
  | readBoardConfig
  | writeBoardConfig
  | getSocId
  | enableDebugging
  | getDeviceInformation
  | configContextSwitchBreakpoint
  | getContextSwitchBreakpointStatus
  | getContextSwitchMainHeader
  | setFwLogger
  | writeSecondStageToInternalMemory
  | copySecondStageToFlash
  | setPauseFrames
  | configContextSwitchTimestamp
  | runBistTest
  | setClockFreq
  | getHealthInformation
  | setThrottlingState
  | getThrottlingState
  | sensorSetI2cBusIndex
  | setOvercurrentState
  | getOvercurrentState
  | corePreviousSystemState
  | coreWdEnable
  | coreWdConfig
  | contextSwitchClearConfiguredApps
  | getHwConsts
  | setSleepState
  | changeHwInferStatus
  | signalDriverDown
  | contextSwitchInitCacheInfo
  | contextSwitchGetCacheInfo
  | contextSwitchUpdateCacheReadOffset
  | contextSwitchSignalCacheUpdated
deriving DecidableEq

def HailoControlOpcode.value (opcode : HailoControlOpcode) : UInt32 := UInt32.ofNat opcode.ctorIdx

/-- The CPU that the opcode is listed with. -/
def HailoControlOpcode.cpuId : HailoControlOpcode → CpuId
  | .contextSwitchSetNetworkGroupHeader | .contextSwitchSetContextInfo
  | .downloadContextActionList | .changeContextSwitchStatus | .setDataflowInterrupt
  | .coreIdentify | .switchApplication | .configContextSwitchBreakpoint
  | .getContextSwitchBreakpointStatus | .getContextSwitchMainHeader
  | .configContextSwitchTimestamp | .corePreviousSystemState | .coreWdEnable | .coreWdConfig
  | .contextSwitchClearConfiguredApps | .getHwConsts | .changeHwInferStatus | .signalDriverDown
  | .contextSwitchInitCacheInfo | .contextSwitchGetCacheInfo
  | .contextSwitchUpdateCacheReadOffset | .contextSwitchSignalCacheUpdated => .coreCpu
  | _ => .appCpu

/-- A field of a request: set to a value, converted or as the host has it, copied byte by byte,
or not written. -/
inductive Field
  | u8 (value : UInt8)
  | u16 (value : UInt16)
  | u32 (value : UInt32)
  | htods (value : UInt16)
  | htodl (value : UInt32)
  | htodll (value : UInt64)
  | bytes (data : List UInt8)
  | untouched (count : Nat)

/-- The bytes that a host stores for a field. -/
def Field.stored (order : ByteOrder) : Field → List (Option UInt8)
  | .u8 value => [some value]
  | .u16 value => (order.arrange (halfBytes value)).map some
  | .u32 value => (order.arrange (wordBytes value)).map some
  | .htods value => (order.arrange (halfBytes (HostOrder.htods order value))).map some
  | .htodl value => (order.arrange (wordBytes (HostOrder.htodl order value))).map some
  | .htodll value => (order.arrange (dwordBytes (HostOrder.htodll order value))).map some
  | .bytes data => data.map some
  | .untouched count => List.replicate count none

/-- `beyond` are the bytes of a copied union past the member that the request is about. -/
structure PackedRequest where
  opcode : HailoControlOpcode
  parameters : List Field
  beyond : List UInt8

/-- The fields in the order of the packed structures. -/
def PackedRequest.fields (packed : PackedRequest) : List Field :=
  .htodl packed.opcode.value :: packed.parameters ++ [.bytes packed.beyond]

def PackedRequest.stored (order : ByteOrder) (packed : PackedRequest) : List (Option UInt8) :=
  packed.fields.flatMap (Field.stored order)

/-- The request after the call, over what it held before. -/
def PackedRequest.write (order : ByteOrder) (packed : PackedRequest) (request : Nat → UInt8) :
    Nat → UInt8 := fun x => ((packed.stored order)[x]?.getD none).getD (request x)

/-- The size that the call returns. -/
def PackedRequest.size (packed : PackedRequest) : Nat :=
  4 + (packed.parameters.flatMap (Field.stored .little)).length

def packed (opcode : HailoControlOpcode) (parameters : List Field) : PackedRequest :=
  ⟨opcode, parameters, []⟩

section Structures

def maxCfgChannels : Nat := 4
def maxVdmaEnginesCount : Nat := 3
def maxTotalChannelCount : Nat := 96
def maxConfigNameLen : Nat := 100
def md5DigestLength : Nat := 16

structure NnStreamConfig where
  coreBytesPerBuffer : UInt16
  coreBuffersPerFrame : UInt16
  periphBytesPerBuffer : UInt16
  periphBuffersPerFrame : UInt16
  featurePaddingPayload : UInt16
  bufferPaddingPayload : UInt32
  bufferPadding : UInt16
  isCoreHwPaddingConfigInDfc : Bool

structure MipiCommonConfigParams where
  dataType : UInt8
  imgWidthPixels : UInt16
  imgHeightPixels : UInt16
  pixelsPerClock : UInt8
  numberOfLanes : UInt8
  clockSelection : UInt8
  virtualChannelIndex : UInt8
  dataRate : UInt32

structure IspConfigParams where
  ispEnable : Bool
  ispImgInOrder : UInt8
  ispImgOutDataType : UInt8
  ispCropEnable : Bool
  ispCropOutputWidthPixels : UInt16
  ispCropOutputHeightPixels : UInt16
  ispCropOutputWidthStartOffsetPixels : UInt16
  ispCropOutputHeightStartOffsetPixels : UInt16
  ispTestPatternEnable : Bool
  ispConfigurationBypass : Bool
  ispRunTimeAeEnable : Bool
  ispRunTimeAwbEnable : Bool
  ispRunTimeAdtEnable : Bool
  ispRunTimeAfEnable : Bool
  ispRunTimeCalculationsIntervalMs : UInt16
  ispLightFrequency : UInt8

/-- What the four kinds of `CONTROL_PROTOCOL__config_stream_request_t` have in common. -/
structure ConfigStreamRequest where
  streamIndex : UInt8
  isInput : UInt8
  communicationType : UInt32
  skipNnStreamConfig : UInt8
  powerMode : UInt8
  nnStreamConfig : NnStreamConfig

structure ApplicationHeader where
  dynamicContextsCount : UInt16
  preliminaryRunAsap : Bool
  batchRegisterConfig : Bool
  canFastBatchSwitch : Bool
  isAbbaleSupported : Bool
  networksCount : UInt8
  csmBufferSize : UInt16
  batchSize : UInt16
  externalActionListAddress : UInt32
  boundaryChannelsBitmap : Fin maxVdmaEnginesCount → UInt32
  configChannelsCount : UInt8
  packedVdmaChannelId : Fin maxCfgChannels → UInt8

/-- The first `handle_count` handles of a translation table, each with its address. -/
structure TranslationTable where
  entries : List (UInt64 × UInt64)
  length_le : entries.length ≤ controlProtocolMaxVdmaChannelsPerEngine

structure ContextInfoChunk where
  translationTable : TranslationTable
  isFirstChunkPerContext : Bool
  isLastChunkPerContext : Bool
  contextType : UInt8
  contextNetworkDataLength : UInt32
  contextNetworkData : Nat → UInt8

structure ContextSwitchBreakpointData where
  breakAtAnyApplicationIndex : Bool
  applicationIndex : UInt8
  breakAtAnyBatchIndex : Bool
  batchIndex : UInt16
  breakAtAnyContextIndex : Bool
  contextIndex : UInt16
  breakAtAnyActionIndex : Bool
  actionIndex : UInt16

structure HwInferChannelInfo where
  channelIndex : UInt8
  engineIndex : UInt8
  descProgramed : UInt16

structure HwInferChannelsInfo where
  channelInfo : Fin maxTotalChannelCount → HwInferChannelInfo
  channelCount : UInt8

/-- A name that the array of a sensor's configuration has room for. -/
structure ConfigName where
  name : List UInt8
  length_le : name.length ≤ maxConfigNameLen

end Structures

section Fields

def flag (value : Bool) : Field := .u8 (if value then 1 else 0)

/-- `memcpy` of `length` bytes -/
def memcpy (data : Nat → UInt8) (length : Nat) : Field := .bytes (bytesFrom data 0 length)

def NnStreamConfig.fields (config : NnStreamConfig) : List Field :=
  [.htods config.coreBytesPerBuffer, .htods config.coreBuffersPerFrame,
    .htods config.periphBytesPerBuffer, .htods config.periphBuffersPerFrame,
    .htods config.featurePaddingPayload, .htodl config.bufferPaddingPayload,
    .htods config.bufferPadding, flag config.isCoreHwPaddingConfigInDfc]

def MipiCommonConfigParams.fields (common : MipiCommonConfigParams) : List Field :=
  [.u8 common.dataType, .htods common.imgWidthPixels, .htods common.imgHeightPixels,
    .u8 common.pixelsPerClock, .u8 common.numberOfLanes, .u8 common.clockSelection,
    .u8 common.virtualChannelIndex, .htodl common.dataRate]

def IspConfigParams.fields (isp : IspConfigParams) : List Field :=
  [flag isp.ispEnable, .u8 isp.ispImgInOrder, .u8 isp.ispImgOutDataType, flag isp.ispCropEnable,
    .htods isp.ispCropOutputWidthPixels, .htods isp.ispCropOutputHeightPixels,
    .htods isp.ispCropOutputWidthStartOffsetPixels,
    .htods isp.ispCropOutputHeightStartOffsetPixels, flag isp.ispTestPatternEnable,
    flag isp.ispConfigurationBypass, flag isp.ispRunTimeAeEnable, flag isp.ispRunTimeAwbEnable,
    flag isp.ispRunTimeAdtEnable, flag isp.ispRunTimeAfEnable,
    .htods isp.ispRunTimeCalculationsIntervalMs, .u8 isp.ispLightFrequency]

/-- `control_protocol__swap_config_stream_common`, on a copy of the parameters -/
def ConfigStreamRequest.fields (cs : ConfigStreamRequest) : List Field :=
  [.u8 cs.streamIndex, .u8 cs.isInput, .htodl cs.communicationType, .u8 cs.skipNnStreamConfig,
    .u8 cs.powerMode] ++ cs.nnStreamConfig.fields

/-- The header is copied as the host has it. -/
def ApplicationHeader.fields (header : ApplicationHeader) : List Field :=
  [.u16 header.dynamicContextsCount, flag header.preliminaryRunAsap,
    flag header.batchRegisterConfig, flag header.canFastBatchSwitch,
    flag header.isAbbaleSupported, .u8 header.networksCount, .u16 header.csmBufferSize,
    .u16 header.batchSize, .u32 header.externalActionListAddress] ++
  (List.finRange maxVdmaEnginesCount).map (fun i => .u32 (header.boundaryChannelsBitmap i)) ++
  [.u8 header.configChannelsCount] ++
  (List.finRange maxCfgChannels).map (fun i => .u8 (header.packedVdmaChannelId i))

/-- An array of 32 of which the first values are set. -/
def handleArray (values : List UInt64) : List Field :=
  values.map Field.htodll ++
    [.untouched (8 * (controlProtocolMaxVdmaChannelsPerEngine - values.length))]

def TranslationTable.fields (table : TranslationTable) : List Field :=
  .u8 (UInt8.ofNat table.entries.length) ::
    (handleArray (table.entries.map Prod.fst) ++ handleArray (table.entries.map Prod.snd))

/-- The data is copied as the host has it. -/
def ContextSwitchBreakpointData.fields (data : ContextSwitchBreakpointData) : List Field :=
  [flag data.breakAtAnyApplicationIndex, .u8 data.applicationIndex,
    flag data.breakAtAnyBatchIndex, .u16 data.batchIndex, flag data.breakAtAnyContextIndex,
    .u16 data.contextIndex, flag data.breakAtAnyActionIndex, .u16 data.actionIndex]

/-- The channels are copied as the host has them. -/
def HwInferChannelsInfo.fields (info : HwInferChannelsInfo) : List Field :=
  (List.finRange maxTotalChannelCount).flatMap (fun i =>
    [.u8 (info.channelInfo i).channelIndex, .u8 (info.channelInfo i).engineIndex,
      .u16 (info.channelInfo i).descProgramed]) ++ [.u8 info.channelCount]

/-- `CONTROL_PROTOCOL__i2c_slave_config_t` -/
def slaveConfigFields (endianness : UInt8) (slaveAddress : UInt16)
    (registerAddressSize busIndex : UInt8) (shouldHoldBus : Bool) : List Field :=
  [.u8 endianness, .htods slaveAddress, .u8 registerAddressSize, .u8 busIndex,
    flag shouldHoldBus]

end Fields

section Packers

def packIdentifyRequest : PackedRequest := packed .identify []

def packCoreIdentifyRequest : PackedRequest := packed .coreIdentify []

def packSetFwLoggerRequest (level interfaceMask : UInt8) : PackedRequest :=
  packed .setFwLogger [.u8 level, .u8 interfaceMask]

def packSetClockFreqRequest (clockFreq : UInt32) : PackedRequest :=
  packed .setClockFreq [.htodl clockFreq]

def packSetThrottlingStateRequest (shouldActivate : Bool) : PackedRequest :=
  packed .setThrottlingState [flag shouldActivate]

def packGetThrottlingStateRequest : PackedRequest := packed .getThrottlingState []

def packSetOvercurrentStateRequest (shouldActivate : Bool) : PackedRequest :=
  packed .setOvercurrentState [flag shouldActivate]

def packGetOvercurrentStateRequest : PackedRequest := packed .getOvercurrentState []

def packGetHwConstsRequest : PackedRequest := packed .getHwConsts []

/-- A request that writes data at an address or an offset. -/
def packWrite (opcode : HailoControlOpcode) (address : UInt32) (data : Nat → UInt8)
    (dataLength : UInt32) : PackedRequest :=
  packed opcode [.htodl address, .htodl dataLength, memcpy data dataLength.toNat]

/-- A request that reads data from an address. -/
def packRead (opcode : HailoControlOpcode) (address dataLength : UInt32) : PackedRequest :=
  packed opcode [.htodl address, .htodl dataLength]

def packWriteMemoryRequest := packWrite .writeMemory

def packReadMemoryRequest := packRead .readMemory

def packOpenStreamRequest (dataflowManagerId isInput : UInt8) : PackedRequest :=
  packed .openStream [.u8 dataflowManagerId, .u8 isInput]

def packCloseStreamRequest (dataflowManagerId isInput : UInt8) : PackedRequest :=
  packed .closeStream [.u8 dataflowManagerId, .u8 isInput]

def packConfigStreamMipiInputRequest (params : ConfigStreamRequest)
    (common : MipiCommonConfigParams) (mipiRxId : UInt8) (isp : IspConfigParams) :
    PackedRequest :=
  packed .configStream (params.fields ++ common.fields ++ [.u8 mipiRxId] ++ isp.fields)

def packConfigStreamMipiOutputRequest (params : ConfigStreamRequest)
    (common : MipiCommonConfigParams) (mipiTxId fifoThresholdPercent deskewEnable : UInt8)
    (beyond : List UInt8) : PackedRequest :=
  ⟨.configStream, params.fields ++ common.fields ++
    [.u8 mipiTxId, .u8 fifoThresholdPercent, .u8 deskewEnable], beyond⟩

def packConfigStreamPcieInputRequest (params : ConfigStreamRequest)
    (pcieChannelIndex pcieDataflowType : UInt8) (beyond : List UInt8) : PackedRequest :=
  ⟨.configStream, params.fields ++ [.u8 pcieChannelIndex, .u8 pcieDataflowType], beyond⟩

def packConfigStreamPcieOutputRequest (params : ConfigStreamRequest)
    (pcieChannelIndex : UInt8) (descPageSize : UInt16) (beyond : List UInt8) : PackedRequest :=
  ⟨.configStream, params.fields ++ [.u8 pcieChannelIndex, .htods descPageSize], beyond⟩

def packResetRequest (resetType : UInt32) : PackedRequest := packed .reset [.htodl resetType]

def packPowerMeasurementRequest (dvm measurementType : UInt32) : PackedRequest :=
  packed .powerMeasuement [.htodl dvm, .htodl measurementType]

def packSetPowerMeasurementRequest (index dvm measurementType : UInt32) : PackedRequest :=
  packed .setPowerMeasuement [.htodl index, .htodl dvm, .htodl measurementType]

def packGetPowerMeasurementRequest (index : UInt32) (shouldClear : Bool) : PackedRequest :=
  packed .getPowerMeasuement [.htodl index, flag shouldClear]

def packStartPowerMeasurementRequest (delayMilliseconds averagingFactor samplingPeriod : UInt32) :
    PackedRequest :=
  packed .startPowerMeasuement [.htodl delayMilliseconds, .htods averagingFactor.toUInt16,
    .htods samplingPeriod.toUInt16]

def packStopPowerMeasurementRequest : PackedRequest := packed .stopPowerMeasuement []

def packI2cWriteRequest (registerAddress : UInt32) (endianness : UInt8) (slaveAddress : UInt16)
    (registerAddressSize busIndex : UInt8) (data : Nat → UInt8) (length : UInt32) :
    PackedRequest :=
  packed .i2cWrite
    (slaveConfigFields endianness slaveAddress registerAddressSize busIndex false ++
      [.htodl 4, .htodl registerAddress, .htodl length, memcpy data length.toNat])

def packI2cReadRequest (registerAddress : UInt32) (endianness : UInt8) (slaveAddress : UInt16)
    (registerAddressSize busIndex : UInt8) (length : UInt32) (shouldHoldBus : Bool) :
    PackedRequest :=
  packed .i2cRead
    (slaveConfigFields endianness slaveAddress registerAddressSize busIndex shouldHoldBus ++
      [.htodl 4, .htodl registerAddress, .htodl length])

def packPhyOperationRequest (operationType : UInt32) : PackedRequest :=
  packed .phyOperation [.htodl operationType]

def packConfigCoreTopRequest (configType : UInt32) (enableUse64bitDataOnly : UInt8) :
    PackedRequest :=
  packed .configCoreTop [.htodl configType, .u8 enableUse64bitDataOnly]

def packSetPauseFramesRequest (rxPauseFramesEnable : UInt8) : PackedRequest :=
  packed .setPauseFrames [.u8 rxPauseFramesEnable]

def packGetChipTemperatureRequest : PackedRequest := packed .getChipTemperature []

def packExamineUserConfigRequest : PackedRequest := packed .examineUserConfig []

def packReadUserConfigRequest := packRead .readUserConfig

def packWriteUserConfigRequest := packWrite .writeUserConfig

def packEraseUserConfigRequest : PackedRequest := packed .eraseUserConfig []

def packReadBoardConfigRequest := packRead .readBoardConfig

def packWriteBoardConfigRequest := packWrite .writeBoardConfig

def packStartFirmwareUpdateRequest : PackedRequest := packed .startFirmwareUpdate []

def packFinishFirmwareUpdateRequest : PackedRequest := packed .finishFirmwareUpdate []

def packWriteFirmwareUpdateRequest := packWrite .writeFirmwareUpdate

/-- A request with the sum that a number of bytes should have. -/
def packMd5 (opcode : HailoControlOpcode) (expectedMd5 : Nat → UInt8) (size : UInt32) :
    PackedRequest :=
  packed opcode [memcpy expectedMd5 md5DigestLength, .htodl size]

def packValidateFirmwareUpdateRequest := packMd5 .validateFirmwareUpdate

def packWriteSecondStageToInternalMemoryRequest := packWrite .writeSecondStageToInternalMemory

def packCopySecondStageToFlashRequest := packMd5 .copySecondStageToFlash

def packLatencyMeasurementConfigRequest (latencyMeasurementEn : UInt8)
    (inboundStartBufferNumber outboundStopBufferNumber inboundStreamIndex
      outboundStreamIndex : UInt32) : PackedRequest :=
  packed .nnCoreLatencyMeasurementConfig [.u8 latencyMeasurementEn,
    .htodl inboundStartBufferNumber, .htodl outboundStopBufferNumber, .htodl inboundStreamIndex,
    .htodl outboundStreamIndex]

def packLatencyMeasurementReadRequest : PackedRequest := packed .nnCoreLatencyMeasurementRead []

def packSensorStoreConfigRequest (isFirst sectionIndex startOffset resetDataSize sensorType
      totalDataSize : UInt32) (data : Nat → UInt8) (dataLength : UInt32)
    (configHeight configWidth configFps : UInt16) (configName : ConfigName) : PackedRequest :=
  packed .sensorStoreConfig [.htodl sectionIndex, .htodl isFirst, .htodl startOffset,
    .htodl resetDataSize, .htodl sensorType, .htodl totalDataSize, .htods configHeight,
    .htods configWidth, .htods configFps, .htodl (UInt32.ofNat maxConfigNameLen),
    .bytes configName.name, .untouched (maxConfigNameLen - configName.name.length),
    .htodl dataLength, memcpy data dataLength.toNat]

def packSensorGetConfigRequest (sectionIndex offset dataLength : UInt32) : PackedRequest :=
  packed .sensorGetConfig [.htodl sectionIndex, .htodl offset, .htodl dataLength]

def packSensorSetI2cBusIndexRequest (sensorType busIndex : UInt32) : PackedRequest :=
  packed .sensorSetI2cBusIndex [.htodl sensorType, .htodl busIndex]

def packSensorLoadAndStartConfigRequest (sectionIndex : UInt32) : PackedRequest :=
  packed .sensorLoadAndStart [.htodl sectionIndex]

def packSensorResetRequest (sectionIndex : UInt32) : PackedRequest :=
  packed .sensorReset [.htodl sectionIndex]

def packSensorSetGenericI2cSlaveRequest (slaveAddress : UInt16)
    (registerAddressSize busIndex shouldHoldBus endianness : UInt8) : PackedRequest :=
  packed .sensorSetGenericI2cSlave [.htods slaveAddress, .u8 registerAddressSize, .u8 busIndex,
    .u8 shouldHoldBus, .u8 endianness]

def packSensorGetSectionsInfoRequest : PackedRequest := packed .sensorGetSectionsInfo []

def packIdleTimeGetMeasuremmentRequest : PackedRequest := packed .idleTimeGetMeasurement []

def packIdleTimeSetMeasuremmentRequest (measurementEnable : UInt8) : PackedRequest :=
  packed .idleTimeSetMeasurement [.u8 measurementEnable]

def packContextSwitchSetNetworkGroupHeaderRequest (networkGroupHeader : ApplicationHeader) :
    PackedRequest :=
  packed .contextSwitchSetNetworkGroupHeader networkGroupHeader.fields

def packContextSwitchSetContextInfoRequest (contextInfo : ContextInfoChunk) : PackedRequest :=
  packed .contextSwitchSetContextInfo (contextInfo.translationTable.fields ++
    [flag contextInfo.isFirstChunkPerContext, flag contextInfo.isLastChunkPerContext,
      .u8 contextInfo.contextType, .htodl contextInfo.contextNetworkDataLength,
      memcpy contextInfo.contextNetworkData contextInfo.contextNetworkDataLength.toNat])

def packContextSwitchSignalCacheUpdatedRequest : PackedRequest :=
  packed .contextSwitchSignalCacheUpdated []

def packContextSwitchClearConfiguredAppsRequest : PackedRequest :=
  packed .contextSwitchClearConfiguredApps []

def packDownloadContextActionListRequest (networkGroupId contextType : UInt32)
    (contextIndex actionListOffset : UInt16) : PackedRequest :=
  packed .downloadContextActionList [.htodl networkGroupId, .u8 contextType.toUInt8,
    .htods contextIndex, .htods actionListOffset]

def packChangeContextSwitchStatusRequest (stateMachineStatus : UInt32)
    (applicationIndex : UInt8) (dynamicBatchSize batchCount : UInt16) : PackedRequest :=
  packed .changeContextSwitchStatus [.u8 stateMachineStatus.toUInt8, .u8 applicationIndex,
    .htods dynamicBatchSize, .htods batchCount]

/-- `CPU_ID_CORE_CPU` -/
def cpuIdCoreCpu : UInt8 := 1

def packWdEnable (cpuId : UInt8) (shouldEnable : Bool) : PackedRequest :=
  packed (if cpuIdCoreCpu = cpuId then .coreWdEnable else .appWdEnable) [flag shouldEnable]

def packWdConfig (cpuId : UInt8) (wdCycles wdMode : UInt32) : PackedRequest :=
  packed (if cpuIdCoreCpu = cpuId then .coreWdConfig else .appWdConfig)
    [.htodl wdCycles, .u8 wdMode.toUInt8]

def packPreviousSystemStateRequest (cpuId : UInt8) : PackedRequest :=
  packed (if cpuIdCoreCpu = cpuId then .corePreviousSystemState else .appPreviousSystemState) []

def packSetDataflowInterruptRequest (interruptType interruptIndex interruptSubIndex : UInt8) :
    PackedRequest :=
  packed .setDataflowInterrupt [.u8 interruptType, .u8 interruptIndex, .u8 interruptSubIndex]

def packConfigContextSwitchBreakpointRequest (breakpointId : UInt8) (breakpointControl : UInt32)
    (breakpointData : ContextSwitchBreakpointData) : PackedRequest :=
  packed .configContextSwitchBreakpoint ([.htodl breakpointId.toUInt32,
    .u8 breakpointControl.toUInt8] ++ breakpointData.fields)

def packGetContextSwitchBreakpointStatusRequest (breakpointId : UInt8) : PackedRequest :=
  packed .getContextSwitchBreakpointStatus [.htodl breakpointId.toUInt32]

def packGetContextSwitchMainHeaderRequest : PackedRequest :=
  packed .getContextSwitchMainHeader []

def packConfigContextSwitchTimestampRequest (batchIndex : UInt16)
    (enableUserConfiguration : Bool) : PackedRequest :=
  packed .configContextSwitchTimestamp [.htods batchIndex, flag enableUserConfiguration]

def packD2hEventManagerSetHostInfoRequest (connectionType : UInt8) (hostPort : UInt16)
    (hostIpAddress : UInt32) : PackedRequest :=
  packed .d2hEventManagerSetHostInfo [.u8 connectionType, .htodl hostIpAddress, .htods hostPort]

def packD2hEventManagerSendHostInfoEventRequest (eventPriority : UInt8) : PackedRequest :=
  packed .d2hEventManagerSendEventHostInfo [.u8 eventPriority]

def packEnableDebuggingRequest (isRma : Bool) : PackedRequest :=
  packed .enableDebugging [flag isRma]

def packGetExtendedDeviceInformationRequest : PackedRequest := packed .getDeviceInformation []

def packGetHealthInformationRequest : PackedRequest := packed .getHealthInformation []

def packRunBistTestRequest (isTopTest : Bool) (topBypassBitmap : UInt32) (clusterIndex : UInt8)
    (clusterBypassBitmap0 clusterBypassBitmap1 : UInt32) : PackedRequest :=
  packed .runBistTest [flag isTopTest, .htodl topBypassBitmap, .u8 clusterIndex,
    .htodl clusterBypassBitmap0, .htodl clusterBypassBitmap1]

def packSetSleepStateRequest (sleepState : UInt8) : PackedRequest :=
  packed .setSleepState [.u8 sleepState]

def packChangeHwInferStatusRequest (hwInferState networkGroupIndex : UInt8)
    (dynamicBatchSize batchCount : UInt16) (channelsInfo : HwInferChannelsInfo)
    (boundaryChannelMode : UInt32) : PackedRequest :=
  packed .changeHwInferStatus ([.u8 hwInferState, .u8 networkGroupIndex,
    .htods dynamicBatchSize, .htods batchCount] ++ channelsInfo.fields ++
    [.u8 boundaryChannelMode.toUInt8])

end Packers

/-- A call of one of the pack functions, with its arguments. -/
inductive PackCall
  | identifyRequest
  | coreIdentifyRequest
  | setFwLoggerRequest (level interfaceMask : UInt8)
  | setClockFreqRequest (clockFreq : UInt32)
  | setThrottlingStateRequest (shouldActivate : Bool)
  | getThrottlingStateRequest
  | setOvercurrentStateRequest (shouldActivate : Bool)
  | getOvercurrentStateRequest
  | getHwConstsRequest
  | writeMemoryRequest (address : UInt32) (data : Nat → UInt8) (dataLength : UInt32)
  | readMemoryRequest (address dataLength : UInt32)
  | openStreamRequest (dataflowManagerId isInput : UInt8)
  | closeStreamRequest (dataflowManagerId isInput : UInt8)
  | configStreamMipiInputRequest (params : ConfigStreamRequest) (common : MipiCommonConfigParams)
    (mipiRxId : UInt8) (isp : IspConfigParams)
  | configStreamMipiOutputRequest (params : ConfigStreamRequest) (common : MipiCommonConfigParams)
    (mipiTxId fifoThresholdPercent deskewEnable : UInt8) (beyond : List UInt8)
  | configStreamPcieInputRequest (params : ConfigStreamRequest)
    (pcieChannelIndex pcieDataflowType : UInt8) (beyond : List UInt8)
  | configStreamPcieOutputRequest (params : ConfigStreamRequest) (pcieChannelIndex : UInt8)
    (descPageSize : UInt16) (beyond : List UInt8)
  | resetRequest (resetType : UInt32)
  | powerMeasurementRequest (dvm measurementType : UInt32)
  | setPowerMeasurementRequest (index dvm measurementType : UInt32)
  | getPowerMeasurementRequest (index : UInt32) (shouldClear : Bool)
  | startPowerMeasurementRequest (delayMilliseconds averagingFactor samplingPeriod : UInt32)
  | stopPowerMeasurementRequest
  | i2cWriteRequest (registerAddress : UInt32) (endianness : UInt8) (slaveAddress : UInt16)
    (registerAddressSize busIndex : UInt8) (data : Nat → UInt8) (length : UInt32)
  | i2cReadRequest (registerAddress : UInt32) (endianness : UInt8) (slaveAddress : UInt16)
    (registerAddressSize busIndex : UInt8) (length : UInt32) (shouldHoldBus : Bool)
  | phyOperationRequest (operationType : UInt32)
  | configCoreTopRequest (configType : UInt32) (enableUse64bitDataOnly : UInt8)
  | setPauseFramesRequest (rxPauseFramesEnable : UInt8)
  | getChipTemperatureRequest
  | examineUserConfigRequest
  | readUserConfigRequest (address dataLength : UInt32)
  | writeUserConfigRequest (address : UInt32) (data : Nat → UInt8) (dataLength : UInt32)
  | eraseUserConfigRequest
  | readBoardConfigRequest (address dataLength : UInt32)
  | writeBoardConfigRequest (address : UInt32) (data : Nat → UInt8) (dataLength : UInt32)
  | startFirmwareUpdateRequest
  | finishFirmwareUpdateRequest
  | writeFirmwareUpdateRequest (address : UInt32) (data : Nat → UInt8) (dataLength : UInt32)
  | validateFirmwareUpdateRequest (expectedMd5 : Nat → UInt8) (size : UInt32)
  | writeSecondStageToInternalMemoryRequest (address : UInt32) (data : Nat → UInt8)
    (dataLength : UInt32)
  | copySecondStageToFlashRequest (expectedMd5 : Nat → UInt8) (size : UInt32)
  | latencyMeasurementConfigRequest (latencyMeasurementEn : UInt8) (inboundStartBufferNumber
    outboundStopBufferNumber inboundStreamIndex outboundStreamIndex : UInt32)
  | latencyMeasurementReadRequest
  | sensorStoreConfigRequest
    (isFirst sectionIndex startOffset resetDataSize sensorType totalDataSize : UInt32)
    (data : Nat → UInt8) (dataLength : UInt32) (configHeight configWidth configFps : UInt16)
    (configName : ConfigName)
  | sensorGetConfigRequest (sectionIndex offset dataLength : UInt32)
  | sensorSetI2cBusIndexRequest (sensorType busIndex : UInt32)
  | sensorLoadAndStartConfigRequest (sectionIndex : UInt32)
  | sensorResetRequest (sectionIndex : UInt32)
  | sensorSetGenericI2cSlaveRequest (slaveAddress : UInt16)
    (registerAddressSize busIndex shouldHoldBus endianness : UInt8)
  | sensorGetSectionsInfoRequest
  | idleTimeGetMeasuremmentRequest
  | idleTimeSetMeasuremmentRequest (measurementEnable : UInt8)
  | contextSwitchSetNetworkGroupHeaderRequest (networkGroupHeader : ApplicationHeader)
  | contextSwitchSetContextInfoRequest (contextInfo : ContextInfoChunk)
  | contextSwitchSignalCacheUpdatedRequest
  | contextSwitchClearConfiguredAppsRequest
  | downloadContextActionListRequest (networkGroupId contextType : UInt32)
    (contextIndex actionListOffset : UInt16)
  | changeContextSwitchStatusRequest (stateMachineStatus : UInt32) (applicationIndex : UInt8)
    (dynamicBatchSize batchCount : UInt16)
  | wdEnable (cpuId : UInt8) (shouldEnable : Bool)
  | wdConfig (cpuId : UInt8) (wdCycles wdMode : UInt32)
  | previousSystemStateRequest (cpuId : UInt8)
  | setDataflowInterruptRequest (interruptType interruptIndex interruptSubIndex : UInt8)
  | configContextSwitchBreakpointRequest (breakpointId : UInt8) (breakpointControl : UInt32)
    (breakpointData : ContextSwitchBreakpointData)
  | getContextSwitchBreakpointStatusRequest (breakpointId : UInt8)
  | getContextSwitchMainHeaderRequest
  | configContextSwitchTimestampRequest (batchIndex : UInt16) (enableUserConfiguration : Bool)
  | d2hEventManagerSetHostInfoRequest (connectionType : UInt8) (hostPort : UInt16)
    (hostIpAddress : UInt32)
  | d2hEventManagerSendHostInfoEventRequest (eventPriority : UInt8)
  | enableDebuggingRequest (isRma : Bool)
  | getExtendedDeviceInformationRequest
  | getHealthInformationRequest
  | runBistTestRequest (isTopTest : Bool) (topBypassBitmap : UInt32) (clusterIndex : UInt8)
    (clusterBypassBitmap0 clusterBypassBitmap1 : UInt32)
  | setSleepStateRequest (sleepState : UInt8)
  | changeHwInferStatusRequest (hwInferState networkGroupIndex : UInt8)
    (dynamicBatchSize batchCount : UInt16) (channelsInfo : HwInferChannelsInfo)
    (boundaryChannelMode : UInt32)

def PackCall.run : PackCall → PackedRequest
  | .identifyRequest => packIdentifyRequest
  | .coreIdentifyRequest => packCoreIdentifyRequest
  | .setFwLoggerRequest level interfaceMask => packSetFwLoggerRequest level interfaceMask
  | .setClockFreqRequest clockFreq => packSetClockFreqRequest clockFreq
  | .setThrottlingStateRequest shouldActivate => packSetThrottlingStateRequest shouldActivate
  | .getThrottlingStateRequest => packGetThrottlingStateRequest
  | .setOvercurrentStateRequest shouldActivate => packSetOvercurrentStateRequest shouldActivate
  | .getOvercurrentStateRequest => packGetOvercurrentStateRequest
  | .getHwConstsRequest => packGetHwConstsRequest
  | .writeMemoryRequest address data dataLength => packWriteMemoryRequest address data dataLength
  | .readMemoryRequest address dataLength => packReadMemoryRequest address dataLength
  | .openStreamRequest dataflowManagerId isInput => packOpenStreamRequest dataflowManagerId isInput
  | .closeStreamRequest dataflowManagerId isInput =>
    packCloseStreamRequest dataflowManagerId isInput
  | .configStreamMipiInputRequest params common mipiRxId isp =>
    packConfigStreamMipiInputRequest params common mipiRxId isp
  | .configStreamMipiOutputRequest params common mipiTxId fifoThresholdPercent deskewEnable beyond
    =>
    packConfigStreamMipiOutputRequest params common mipiTxId fifoThresholdPercent deskewEnable
      beyond
  | .configStreamPcieInputRequest params pcieChannelIndex pcieDataflowType beyond =>
    packConfigStreamPcieInputRequest params pcieChannelIndex pcieDataflowType beyond
  | .configStreamPcieOutputRequest params pcieChannelIndex descPageSize beyond =>
    packConfigStreamPcieOutputRequest params pcieChannelIndex descPageSize beyond
  | .resetRequest resetType => packResetRequest resetType
  | .powerMeasurementRequest dvm measurementType => packPowerMeasurementRequest dvm measurementType
  | .setPowerMeasurementRequest index dvm measurementType =>
    packSetPowerMeasurementRequest index dvm measurementType
  | .getPowerMeasurementRequest index shouldClear =>
    packGetPowerMeasurementRequest index shouldClear
  | .startPowerMeasurementRequest delayMilliseconds averagingFactor samplingPeriod =>
    packStartPowerMeasurementRequest delayMilliseconds averagingFactor samplingPeriod
  | .stopPowerMeasurementRequest => packStopPowerMeasurementRequest
  | .i2cWriteRequest registerAddress endianness slaveAddress registerAddressSize busIndex data
    length =>
    packI2cWriteRequest registerAddress endianness slaveAddress registerAddressSize busIndex data
      length
  | .i2cReadRequest registerAddress endianness slaveAddress registerAddressSize busIndex length
    shouldHoldBus =>
    packI2cReadRequest registerAddress endianness slaveAddress registerAddressSize busIndex length
      shouldHoldBus
  | .phyOperationRequest operationType => packPhyOperationRequest operationType
  | .configCoreTopRequest configType enableUse64bitDataOnly =>
    packConfigCoreTopRequest configType enableUse64bitDataOnly
  | .setPauseFramesRequest rxPauseFramesEnable => packSetPauseFramesRequest rxPauseFramesEnable
  | .getChipTemperatureRequest => packGetChipTemperatureRequest
  | .examineUserConfigRequest => packExamineUserConfigRequest
  | .readUserConfigRequest address dataLength => packReadUserConfigRequest address dataLength
  | .writeUserConfigRequest address data dataLength =>
    packWriteUserConfigRequest address data dataLength
  | .eraseUserConfigRequest => packEraseUserConfigRequest
  | .readBoardConfigRequest address dataLength => packReadBoardConfigRequest address dataLength
  | .writeBoardConfigRequest address data dataLength =>
    packWriteBoardConfigRequest address data dataLength
  | .startFirmwareUpdateRequest => packStartFirmwareUpdateRequest
  | .finishFirmwareUpdateRequest => packFinishFirmwareUpdateRequest
  | .writeFirmwareUpdateRequest address data dataLength =>
    packWriteFirmwareUpdateRequest address data dataLength
  | .validateFirmwareUpdateRequest expectedMd5 size =>
    packValidateFirmwareUpdateRequest expectedMd5 size
  | .writeSecondStageToInternalMemoryRequest address data dataLength =>
    packWriteSecondStageToInternalMemoryRequest address data dataLength
  | .copySecondStageToFlashRequest expectedMd5 size =>
    packCopySecondStageToFlashRequest expectedMd5 size
  | .latencyMeasurementConfigRequest latencyMeasurementEn inboundStartBufferNumber
    outboundStopBufferNumber inboundStreamIndex outboundStreamIndex =>
    packLatencyMeasurementConfigRequest latencyMeasurementEn inboundStartBufferNumber
      outboundStopBufferNumber inboundStreamIndex outboundStreamIndex
  | .latencyMeasurementReadRequest => packLatencyMeasurementReadRequest
  | .sensorStoreConfigRequest isFirst sectionIndex startOffset resetDataSize sensorType
    totalDataSize data dataLength configHeight configWidth configFps configName =>
    packSensorStoreConfigRequest isFirst sectionIndex startOffset resetDataSize sensorType
      totalDataSize data dataLength configHeight configWidth configFps configName
  | .sensorGetConfigRequest sectionIndex offset dataLength =>
    packSensorGetConfigRequest sectionIndex offset dataLength
  | .sensorSetI2cBusIndexRequest sensorType busIndex =>
    packSensorSetI2cBusIndexRequest sensorType busIndex
  | .sensorLoadAndStartConfigRequest sectionIndex =>
    packSensorLoadAndStartConfigRequest sectionIndex
  | .sensorResetRequest sectionIndex => packSensorResetRequest sectionIndex
  | .sensorSetGenericI2cSlaveRequest slaveAddress registerAddressSize busIndex shouldHoldBus
    endianness =>
    packSensorSetGenericI2cSlaveRequest slaveAddress registerAddressSize busIndex shouldHoldBus
      endianness
  | .sensorGetSectionsInfoRequest => packSensorGetSectionsInfoRequest
  | .idleTimeGetMeasuremmentRequest => packIdleTimeGetMeasuremmentRequest
  | .idleTimeSetMeasuremmentRequest measurementEnable =>
    packIdleTimeSetMeasuremmentRequest measurementEnable
  | .contextSwitchSetNetworkGroupHeaderRequest networkGroupHeader =>
    packContextSwitchSetNetworkGroupHeaderRequest networkGroupHeader
  | .contextSwitchSetContextInfoRequest contextInfo =>
    packContextSwitchSetContextInfoRequest contextInfo
  | .contextSwitchSignalCacheUpdatedRequest => packContextSwitchSignalCacheUpdatedRequest
  | .contextSwitchClearConfiguredAppsRequest => packContextSwitchClearConfiguredAppsRequest
  | .downloadContextActionListRequest networkGroupId contextType contextIndex actionListOffset =>
    packDownloadContextActionListRequest networkGroupId contextType contextIndex actionListOffset
  | .changeContextSwitchStatusRequest stateMachineStatus applicationIndex dynamicBatchSize
    batchCount =>
    packChangeContextSwitchStatusRequest stateMachineStatus applicationIndex dynamicBatchSize
      batchCount
  | .wdEnable cpuId shouldEnable => packWdEnable cpuId shouldEnable
  | .wdConfig cpuId wdCycles wdMode => packWdConfig cpuId wdCycles wdMode
  | .previousSystemStateRequest cpuId => packPreviousSystemStateRequest cpuId
  | .setDataflowInterruptRequest interruptType interruptIndex interruptSubIndex =>
    packSetDataflowInterruptRequest interruptType interruptIndex interruptSubIndex
  | .configContextSwitchBreakpointRequest breakpointId breakpointControl breakpointData =>
    packConfigContextSwitchBreakpointRequest breakpointId breakpointControl breakpointData
  | .getContextSwitchBreakpointStatusRequest breakpointId =>
    packGetContextSwitchBreakpointStatusRequest breakpointId
  | .getContextSwitchMainHeaderRequest => packGetContextSwitchMainHeaderRequest
  | .configContextSwitchTimestampRequest batchIndex enableUserConfiguration =>
    packConfigContextSwitchTimestampRequest batchIndex enableUserConfiguration
  | .d2hEventManagerSetHostInfoRequest connectionType hostPort hostIpAddress =>
    packD2hEventManagerSetHostInfoRequest connectionType hostPort hostIpAddress
  | .d2hEventManagerSendHostInfoEventRequest eventPriority =>
    packD2hEventManagerSendHostInfoEventRequest eventPriority
  | .enableDebuggingRequest isRma => packEnableDebuggingRequest isRma
  | .getExtendedDeviceInformationRequest => packGetExtendedDeviceInformationRequest
  | .getHealthInformationRequest => packGetHealthInformationRequest
  | .runBistTestRequest isTopTest topBypassBitmap clusterIndex clusterBypassBitmap0
    clusterBypassBitmap1 =>
    packRunBistTestRequest isTopTest topBypassBitmap clusterIndex clusterBypassBitmap0
      clusterBypassBitmap1
  | .setSleepStateRequest sleepState => packSetSleepStateRequest sleepState
  | .changeHwInferStatusRequest hwInferState networkGroupIndex dynamicBatchSize batchCount
    channelsInfo boundaryChannelMode =>
    packChangeHwInferStatusRequest hwInferState networkGroupIndex dynamicBatchSize batchCount
      channelsInfo boundaryChannelMode

end HailortDrivers.ControlProtocol
