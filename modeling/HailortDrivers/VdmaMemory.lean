import HailortDrivers.DescriptorsListCreation

/-! The kernel objects of an open file (`vdma.h`, `memory.c`): mapped buffers with
their reference counts, descriptors lists, and how a file finds them. Which pages
a mapping covers and at which address the kernel allocates is given from outside. -/
namespace HailortDrivers.VdmaMemory
open KernelExec VdmaTypes

def enomem : Int32 := 12
def pageShift : UInt64 := 12

/-- `enum hailo_dma_buffer_type`, as a request carries it -/
inductive HailoDmaBufferType
  | userPtrBuffer
  | dmabufBuffer
  | other (value : UInt32)
deriving DecidableEq

/-- `enum hailo_dma_data_direction`, as a request carries it -/
inductive HailoDmaDataDirection
  | bidirectional
  | toDevice
  | fromDevice
  | other (value : UInt32)
deriving DecidableEq

/-- `enum dma_data_direction` -/
inductive DmaDataDirection
  | bidirectional
  | toDevice
  | fromDevice
  | none
deriving DecidableEq

def getDmaDirection : HailoDmaDataDirection → DmaDataDirection
  | .bidirectional => .bidirectional
  | .toDevice => .toDevice
  | .fromDevice => .fromDevice
  | .other _ => .none

def dmaDirectionEquals (a b : DmaDataDirection) : Bool :=
  a == .bidirectional || b == .bidirectional || a == b

/-- `isDmabuf` stands for `dmabuf_info.dmabuf` not being `NULL`. -/
structure HailoVdmaBuffer where
  handle : UInt64
  kref : Nat
  bufferType : HailoDmaBufferType
  size : UInt32
  addrOrFd : UInt64
  dataDirection : DmaDataDirection
  sgTable : List ScatterEntry
  isMmio : Bool
  isDmabuf : Bool

/-- The mapped buffers the driver has allocated, by address. -/
abbrev MappedBufferHeap := Nat → Option HailoVdmaBuffer

def loadMappedBuffer (buffers : MappedBufferHeap) (address : Nat) : Exec HailoVdmaBuffer :=
  match buffers address with
  | none => .error (.usedAfterFree .mappedBuffer address)
  | some buffer => .ok buffer

/-- The descriptors list is the memory at `descListAddress`. -/
structure HailoDescriptorsListBuffer where
  handle : UInt64
  descListAddress : Nat
deriving DecidableEq

/-- The file lists that channels and transfers may refer to; the newest comes first. -/
structure HailoVdmaFileContext (n : Nat) where
  lastVdmaUserBufferHandle : Int32
  mappedUserBufferList : List Nat
  lastVdmaHandle : Int32
  descriptorsBufferList : List HailoDescriptorsListBuffer
  enabledChannelsBitmap : Fin n → UInt32

/-- `kzalloc` of the context and `hailo_vdma_file_context_init` -/
def hailoVdmaFileContextInit (n : Nat) : HailoVdmaFileContext n where
  lastVdmaUserBufferHandle := 0
  mappedUserBufferList := []
  lastVdmaHandle := 0
  descriptorsBufferList := []
  enabledChannelsBitmap := fun _ => 0

/-- What mapping the memory of a request came to. `dmabufFromPointer`: the user
pointer turned out to belong to a dmabuf. -/
structure MappedMemory where
  address : Nat
  sgTable : List ScatterEntry
  isMmio : Bool
  dmabufFromPointer : Bool

def hailoVdmaBufferMap (addrOrFd size : UInt64) (direction : DmaDataDirection)
    (bufferType : HailoDmaBufferType) (memory : MappedMemory) : HailoVdmaBuffer where
  handle := 0
  kref := 1
  bufferType := if memory.dmabufFromPointer then .userPtrBuffer else bufferType
  size := size.toUInt32
  addrOrFd := addrOrFd
  dataDirection := direction
  sgTable := memory.sgTable
  isMmio := memory.isMmio
  isDmabuf := memory.dmabufFromPointer || bufferType == .dmabufBuffer

/-- The last reference frees the buffer. -/
def hailoVdmaBufferPut (buffers : MappedBufferHeap) (address : Nat) : Exec MappedBufferHeap := do
  let buffer ← loadMappedBuffer buffers address
  if buffer.kref ≤ 1 then
    return Function.update buffers address none
  else
    return Function.update buffers address (some { buffer with kref := buffer.kref - 1 })

theorem hailoVdmaBufferPut_last {buffers : MappedBufferHeap} {address : Nat}
    {buffer : HailoVdmaBuffer} (hbuffer : buffers address = some buffer)
    (hkref : buffer.kref = 1) :
    hailoVdmaBufferPut buffers address = .ok (Function.update buffers address none) := by
  simp only [hailoVdmaBufferPut, loadMappedBuffer, hbuffer, ok_bind, hkref, Nat.le_refl, if_true]
  rfl

/-- `vdma_sync_buffer_interval`: the entries that are handed over, from the one at
offset `current` on. -/
def vdmaSyncBufferInterval (syncStart syncEnd : Nat) : Nat → List ScatterEntry → List ScatterEntry
  | _, [] => []
  | current, e :: es =>
    let rest := vdmaSyncBufferInterval syncStart syncEnd (current + e.dmaLen.toNat) es
    if max syncStart current ≤ min syncEnd (current + e.dmaLen.toNat) then e :: rest else rest

/-- The DMA ranges that a sync hands over. -/
def hailoVdmaBufferSync (buffer : HailoVdmaBuffer) (offset size : UInt32) : List ScatterEntry :=
  if buffer.isMmio || buffer.isDmabuf then []
  else if offset = 0 ∧ size = buffer.size then buffer.sgTable
  else vdmaSyncBufferInterval offset.toNat (offset.toNat + size.toNat) 0 buffer.sgTable

/-- `list_for_each_entry` over the mapped buffers of a file. -/
def findMappedBuffer (buffers : MappedBufferHeap) (p : HailoVdmaBuffer → Bool) :
    List Nat → Exec (Option Nat)
  | [] => .ok none
  | address :: addresses => do
    let cur ← loadMappedBuffer buffers address
    if p cur then return some address else findMappedBuffer buffers p addresses

section Find
variable {n : Nat} (context : HailoVdmaFileContext n) (buffers : MappedBufferHeap)

def hailoVdmaFindMappedBufferByFd (fd size : UInt64) (direction : DmaDataDirection) :
    Exec (Option Nat) :=
  findMappedBuffer buffers (fun cur =>
    cur.addrOrFd = fd ∧ cur.size.toUInt64 ≥ size ∧ cur.bufferType = .dmabufBuffer ∧
      dmaDirectionEquals cur.dataDirection direction) context.mappedUserBufferList

def hailoVdmaFindMappedBufferByAddress (userAddress size : UInt64)
    (direction : DmaDataDirection) : Exec (Option Nat) :=
  findMappedBuffer buffers (fun cur =>
    cur.addrOrFd ≤ userAddress ∧ cur.addrOrFd + cur.size.toUInt64 ≥ userAddress + size ∧
      cur.bufferType = .userPtrBuffer ∧ dmaDirectionEquals cur.dataDirection direction)
    context.mappedUserBufferList

def hailoVdmaFindMappedBufferByHandle (bufferHandle : UInt64) : Exec (Option Nat) :=
  findMappedBuffer buffers (fun cur => cur.handle = bufferHandle) context.mappedUserBufferList

def hailoVdmaFindDescriptorsBuffer (descHandle : UInt64) : Option HailoDescriptorsListBuffer :=
  context.descriptorsBufferList.find? (fun cur => cur.handle = descHandle)

end Find

/-- `hailo_vdma_clear_mapped_user_buffer_list` -/
def hailoVdmaClearMappedUserBufferList (addresses : List Nat) (buffers : MappedBufferHeap) :
    Exec MappedBufferHeap := addresses.foldlM hailoVdmaBufferPut buffers

def hailoDescListRelease (heap : DescListHeap) (descriptors : HailoDescriptorsListBuffer) :
    DescListHeap := Function.update heap descriptors.descListAddress none

/-- `hailo_vdma_clear_descriptors_buffer_list` -/
def hailoVdmaClearDescriptorsBufferList (descriptors : List HailoDescriptorsListBuffer)
    (heap : DescListHeap) : DescListHeap := descriptors.foldl hailoDescListRelease heap

end HailortDrivers.VdmaMemory
