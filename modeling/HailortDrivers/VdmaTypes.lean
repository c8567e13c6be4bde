import HailortDrivers.KernelExec

/-! The vDMA data model of `vdma_common.h` and `hailo_ioctl_common.h`, on a
64-bit kernel. Every scalar keeps the width the C type has. A descriptors list
is the memory behind `desc_list`, indexed without a bound, so a store past
`desc_count` is visible as a change at that index. Pointers to kernel objects
are addresses, and `none` is `NULL`. -/
namespace HailortDrivers.VdmaTypes
open KernelExec

def efault : Int32 := 14
def einval : Int32 := 22
def erange : Int32 := 34
def econnreset : Int32 := 104
def enobufs : Int32 := 105

def maxVdmaChannelsPerEngine : Nat := 32
def maxVdmaEngines : Nat := 3
def hailoVdmaMaxOngoingTransfers : UInt64 := 128
def hailoVdmaMaxOngoingTransfersMask : UInt64 := hailoVdmaMaxOngoingTransfers - 1
def hailoMaxBuffersPerSingleTransfer : Nat := 8
def maxDirtyDescriptorsPerTransfer : Nat := hailoMaxBuffersPerSingleTransfer + 1
def channelIrqTimestampsSize : Nat := hailoVdmaMaxOngoingTransfers.toNat * 2
def maxPowerOf2Value : UInt32 := 0x80000000
def invalidVdmaChannel : UInt8 := 0xff
def defaultStride : UInt32 := 0

/-- `enum hailo_vdma_interrupts_domain`: the source tests it bit by bit. -/
abbrev HailoVdmaInterruptsDomain := UInt32
def hailoVdmaInterruptsDomainNone : HailoVdmaInterruptsDomain := 0
def hailoVdmaInterruptsDomainDevice : HailoVdmaInterruptsDomain := 1
def hailoVdmaInterruptsDomainHost : HailoVdmaInterruptsDomain := 2

structure HailoVdmaDescriptor where
  pageSizeDescControl : UInt32
  addrLRsvdDataID : UInt32
  addrH : UInt32
  remainingPageSizeStatus : UInt32
deriving DecidableEq

structure HailoVdmaDescriptorsList where
  descList : Nat → HailoVdmaDescriptor
  descCount : UInt32
  descCountMask : UInt32
  descPageSize : UInt16
  isCircular : Bool

namespace HailoVdmaDescriptorsList

/-- The same list over other descriptors. -/
def withDescs (l : HailoVdmaDescriptorsList) (descs : Nat → HailoVdmaDescriptor) :
    HailoVdmaDescriptorsList := { l with descList := descs }

/-- `l->desc_list[index] = desc` -/
def store (l : HailoVdmaDescriptorsList) (index : UInt32) (desc : HailoVdmaDescriptor) :
    HailoVdmaDescriptorsList := l.withDescs (Function.update l.descList index.toNat desc)

section
variable (l : HailoVdmaDescriptorsList) (descs descs' : Nat → HailoVdmaDescriptor)

@[simp] theorem withDescs_descList : (l.withDescs descs).descList = descs := rfl
@[simp] theorem withDescs_descCount : (l.withDescs descs).descCount = l.descCount := rfl
@[simp] theorem withDescs_descCountMask :
    (l.withDescs descs).descCountMask = l.descCountMask := rfl
@[simp] theorem withDescs_descPageSize : (l.withDescs descs).descPageSize = l.descPageSize := rfl
@[simp] theorem withDescs_isCircular : (l.withDescs descs).isCircular = l.isCircular := rfl
@[simp] theorem withDescs_withDescs :
    (l.withDescs descs).withDescs descs' = l.withDescs descs' := rfl

theorem store_self (index : UInt32) : l.store index (l.descList index.toNat) = l := by
  rw [store, Function.update_eq_self, withDescs]

end

end HailoVdmaDescriptorsList

/-- One DMA entry of a mapped `scatterlist`. -/
structure ScatterEntry where
  dmaAddress : UInt64
  dmaLen : UInt32
deriving DecidableEq

/-- The table is embedded in a mapped buffer; `embeddedIn` is that buffer's address. -/
structure SgTable where
  embeddedIn : Nat
  sgl : List ScatterEntry
deriving DecidableEq

/-- `opaqueBuffer` is the field `opaque`, the address of the mapped buffer. -/
structure HailoVdmaMappedTransferBuffer where
  sgTable : SgTable
  size : UInt32
  offset : UInt32
  opaqueBuffer : Nat
deriving DecidableEq

/-- `buffers` and `dirtyDescs` are the used prefixes of the C arrays, so
`buffers_count` and `dirty_descs_count` are their lengths. -/
structure HailoOngoingTransfer where
  lastDesc : UInt16
  buffers : List HailoVdmaMappedTransferBuffer
  dirtyDescs : List UInt16
  isDebug : Bool
deriving DecidableEq

theorem toNat_zero_lt : (0 : UInt64).toNat < 128 := by decide

/-- Every write masks the index it stores, so both stay inside the array. -/
structure HailoOngoingTransfersList where
  head : UInt64
  tail : UInt64
  transfers : Nat → HailoOngoingTransfer
  head_lt : head.toNat < 128
  tail_lt : tail.toNat < 128

structure HailoVdmaChannelState where
  numAvail : UInt16
  numProc : UInt16
  descCountMask : UInt32
deriving DecidableEq

structure HailoChannelInterruptTimestamp where
  timestampNs : UInt64
  descNumProcessed : UInt16
deriving DecidableEq

structure HailoChannelInterruptTimestampList where
  head : Nat
  tail : Nat
  timestamps : Nat → HailoChannelInterruptTimestamp

def vdmaTransferDataChannelNotActive : UInt8 := 0xff
def vdmaTransferDataChannelWithError : UInt8 := 0xfe

/-- `data` is the amount of transfers done or one of the two values above. -/
structure HailoVdmaInterruptsChannelData where
  engineIndex : UInt8
  channelIndex : UInt8
  data : UInt8
deriving DecidableEq

/-- `lastDescList` is the address of the attached descriptors list. The register
windows `host_regs` and `device_regs` are passed beside the channel. -/
structure HailoVdmaChannel where
  index : UInt8
  lastDescList : Option Nat
  state : HailoVdmaChannelState
  ongoingTransfers : HailoOngoingTransfersList
  timestampMeasureEnabled : Bool
  timestampList : HailoChannelInterruptTimestampList

/-- The descriptors lists the driver has allocated, by address. -/
abbrev DescListHeap := Nat → Option HailoVdmaDescriptorsList

/-- Follow a pointer to a descriptors list. -/
def loadDescList (heap : DescListHeap) : Option Nat → Exec HailoVdmaDescriptorsList
  | none => .error .nullDereference
  | some address =>
    match heap address with
    | none => .error (.usedAfterFree .descriptorsList address)
    | some descList => .ok descList

theorem loadDescList_ok {heap : DescListHeap} {pointer : Option Nat}
    {descList : HailoVdmaDescriptorsList} (h : loadDescList heap pointer = .ok descList) :
    ∃ address, pointer = some address ∧ heap address = some descList := by
  cases pointer with
  | none => cases h
  | some address =>
    rw [loadDescList] at h
    split at h
    · cases h
    · next hheap =>
      cases h
      exact ⟨address, rfl, hheap⟩

/-- Write back through a pointer to a descriptors list. -/
def storeDescList (heap : DescListHeap) (pointer : Option Nat)
    (descList : HailoVdmaDescriptorsList) : DescListHeap :=
  match pointer with
  | none => heap
  | some address => Function.update heap address (some descList)

structure HailoVdmaEngine where
  index : UInt8
  enabledChannels : UInt32
  interruptedChannels : UInt32
  channels : Fin maxVdmaChannelsPerEngine → HailoVdmaChannel

structure HailoVdmaHw where
  getMaskedChannelId : UInt8 → UInt64
  ddrDataId : UInt8
  hostInterruptsBitmask : UInt64
  deviceInterruptsBitmask : UInt64
  srcChannelsBitmask : UInt32

/-- The only vDMA hardware object of the repository (`pcie_common.c`). -/
def hailoPcieVdmaHw : HailoVdmaHw where
  getMaskedChannelId := fun _ => 0
  ddrDataId := 0
  hostInterruptsBitmask := 0x20
  deviceInterruptsBitmask := 0x10
  srcChannelsBitmask := 0x0000FFFF

/-- The 32-bit words of a channel's two register windows, by byte offset. -/
structure ChannelRegs where
  hostRegs : Nat → UInt32
  deviceRegs : Nat → UInt32

end HailortDrivers.VdmaTypes
