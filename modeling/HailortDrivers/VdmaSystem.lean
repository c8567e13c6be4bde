import HailortDrivers.EngineSteps
import HailortDrivers.VdmaIoctl

/-! A board with any number of open files: the requests of the files, interrupts, and
the state after each of them. A run is a sequence of requests; the kernel allocates
only where nothing is allocated. -/
namespace HailortDrivers.VdmaSystem
open KernelExec VdmaTypes ChannelTransfers LaunchSteps VdmaEngine VdmaMemory VdmaIoctl EngineSteps

/-- `files` are the contexts of the open files, by `filp`. -/
structure SystemState (n : Nat) where
  kernel : KernelState n
  files : Nat → Option (HailoVdmaFileContext n)

inductive Request (n : Nat)
  | openFile (filp : Nat)
  | closeFile (filp : Nat)
  | enableChannels (filp : Nat) (channelsBitmapPerEngine : Fin n → UInt32)
      (enableTimestampsMeasure : Bool)
  | disableChannels (filp : Nat) (channelsBitmapPerEngine : Fin n → UInt32)
  | interruptsWait (filp : Nat) (channelsBitmapPerEngine : Nat → UInt32)
      (regs : Fin n → ChannelIndex → ChannelRegs)
  | launchTransfer (filp : Nat) (params : HailoVdmaLaunchTransferParams) (regs : ChannelRegs)
  | bufferMap (filp : Nat) (params : HailoVdmaBufferMapParams)
      (mapped : Except Int32 MappedMemory) (copied : Bool)
  | bufferUnmap (filp : Nat) (mappedHandle : UInt64)
  | descListCreate (filp : Nat) (params : HailoDescListCreateParams) (address : Option Nat)
      (memory : Option (Nat → HailoVdmaDescriptor)) (copied : Bool)
  | descListRelease (filp : Nat) (descHandle : UInt64)
  | interrupt (e : Fin n) (channelsBitmap : UInt32)

variable {n : Nat}

/-- Run a request of an open file and store its context back. -/
def withFile (s : SystemState n) (filp : Nat)
    (f : HailoVdmaFileContext n → Exec (Int32 × KernelState n × HailoVdmaFileContext n)) :
    Exec (Int32 × SystemState n) :=
  match s.files filp with
  | none => .ok (-einval, s)
  | some context => do
    let (ret, kernel, context) ← f context
    return (ret, { kernel := kernel, files := Function.update s.files filp (some context) })

/-- `hailo_vdma_ioctl`, opening, closing and the interrupt handler -/
def handle (vdmaHw : HailoVdmaHw) (s : SystemState n) :
    Request n → Exec (Int32 × SystemState n)
  | .openFile filp =>
    match s.files filp with
    | some _ => .ok (-einval, s)
    | none => .ok (0, { s with
        files := Function.update s.files filp (some (hailoVdmaFileContextInit n)) })
  | .closeFile filp =>
    match s.files filp with
    | none => .ok (-einval, s)
    | some context => do
      let kernel ← hailoVdmaFileContextFinalize s.kernel context
      return (0, { kernel := kernel, files := Function.update s.files filp none })
  | .enableChannels filp bitmaps enableTimestampsMeasure =>
    withFile s filp fun context =>
      .ok (hailoVdmaEnableChannelsIoctl s.kernel context bitmaps enableTimestampsMeasure)
  | .disableChannels filp bitmaps =>
    withFile s filp fun context => hailoVdmaDisableChannelsIoctl s.kernel context bitmaps
  | .interruptsWait filp bitmaps regs =>
    withFile s filp fun context => do
      let (ret, c) ← hailoVdmaInterruptsWaitIoctl s.kernel bitmaps regs
      return (ret, c.kernel, context)
  | .launchTransfer filp params regs =>
    withFile s filp fun context => do
      let (ret, kernel) ← hailoVdmaLaunchTransferIoctl vdmaHw s.kernel context params regs
      return (ret, kernel, context)
  | .bufferMap filp params mapped copied =>
    withFile s filp fun context =>
      hailoVdmaBufferMapIoctl s.kernel context params mapped copied
  | .bufferUnmap filp mappedHandle =>
    withFile s filp fun context => hailoVdmaBufferUnmapIoctl s.kernel context mappedHandle
  | .descListCreate filp params address memory copied =>
    withFile s filp fun context =>
      .ok (hailoDescListCreateIoctl s.kernel context params address memory copied)
  | .descListRelease filp descHandle =>
    withFile s filp fun context =>
      .ok (hailoDescListReleaseIoctl s.kernel context descHandle)
  | .interrupt e channelsBitmap =>
    .ok (0, { s with
      kernel := { s.kernel with
        engines := Function.update s.kernel.engines e
          (hailoVdmaEngineSetChannelInterrupts (s.kernel.engines e) channelsBitmap) } })

/-- The kernel never allocates an object over one that is allocated. -/
def AllocatesFresh (s : SystemState n) : Request n → Prop
  | .bufferMap _ _ (.ok memory) _ => s.kernel.buffers memory.address = none
  | .descListCreate _ _ (some address) _ _ => s.kernel.descLists address = none
  | _ => True

/-- A request that runs to its end, where requests are admitted under a condition. -/
def Steps (vdmaHw : HailoVdmaHw) (Admitted : SystemState n → Request n → Prop)
    (s s' : SystemState n) : Prop :=
  ∃ request ret, AllocatesFresh s request ∧ Admitted s request ∧
    handle vdmaHw s request = .ok (ret, s')

/-- Right after the controller was initialized over some memory, with no file open. -/
def initialState (memory : Fin n → HailoVdmaEngine) : SystemState n where
  kernel :=
    { engines := fun e => hailoVdmaEngineInit (memory e) (UInt8.ofNat e)
      descLists := fun _ => none
      buffers := fun _ => none }
  files := fun _ => none

theorem withFile_ok {s s' : SystemState n} {filp : Nat} {ret : Int32}
    {f : HailoVdmaFileContext n → Exec (Int32 × KernelState n × HailoVdmaFileContext n)}
    (h : withFile s filp f = .ok (ret, s')) :
    s.files filp = none ∧ s' = s ∨ ∃ context kernel' context', s.files filp = some context ∧
      f context = .ok (ret, kernel', context') ∧
      s' = ⟨kernel', Function.update s.files filp (some context')⟩ := by
  rw [withFile] at h
  split at h
  · next hclosed =>
    cases h
    exact Or.inl ⟨hclosed, rfl⟩
  · next context hcontext =>
    obtain ⟨⟨ret', kernel', context'⟩, hf, h⟩ := bind_ok h
    cases h
    exact Or.inr ⟨context, kernel', context', hcontext, hf, rfl⟩

/-- The request gives nothing up. -/
def Acquires : Request n → Prop
  | .closeFile _ | .disableChannels _ _ | .bufferUnmap _ _ | .descListRelease _ _ => False
  | _ => True

/-- The state after a request, unchanged by one that faults. -/
def after (s : SystemState n) (request : Request n) : SystemState n :=
  match handle hailoPcieVdmaHw s request with
  | .error _ => s
  | .ok (_, s') => s'

/-- The memory of one engine. -/
def idleMemory : Fin 1 → HailoVdmaEngine := fun _ => ⟨0, 0, 0, fun _ => idleChannel⟩

def mapRequest : Request 1 :=
  .bufferMap 1 ⟨4096, 64, .bidirectional, .userPtrBuffer⟩
    (.ok ⟨5, [⟨65536, 64⟩], false, false⟩) true

def listRequest : Request 1 :=
  .descListCreate 1 ⟨4, 64, true⟩ (some 7) (some fun _ => ⟨0, 0, 0, 0⟩) true

def launchRequest : Request 1 :=
  .launchTransfer 1 ⟨0, 0, 4096, 0, true, [⟨.userPtrBuffer, 4096, 64⟩],
    hailoVdmaInterruptsDomainNone, hailoVdmaInterruptsDomainHost, false⟩ activeRegs

/-- File 1 has a transfer of the mapped buffer 5 over the list 7 under way. -/
def busyState : SystemState 1 :=
  [.openFile 1, .enableChannels 1 (fun _ => 1) false, mapRequest, listRequest,
    launchRequest].foldl after (initialState idleMemory)

theorem busyState_run {Admitted : SystemState 1 → Request 1 → Prop}
    (hadmitted : ∀ s request, Acquires request → Admitted s request) :
    Relation.ReflTransGen (Steps hailoPcieVdmaHw Admitted) (initialState idleMemory)
      busyState :=
  .head ⟨.openFile 1, _, trivial, hadmitted _ _ trivial, rfl⟩ <|
  .head ⟨.enableChannels 1 (fun _ => 1) false, _, trivial, hadmitted _ _ trivial, rfl⟩ <|
  .head ⟨mapRequest, _, rfl, hadmitted _ _ trivial, rfl⟩ <|
  .head ⟨listRequest, _, rfl, hadmitted _ _ trivial, rfl⟩ <|
  .single ⟨launchRequest, 1, trivial, hadmitted _ _ trivial, rfl⟩

end HailortDrivers.VdmaSystem
