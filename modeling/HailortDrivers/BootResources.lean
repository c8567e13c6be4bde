import HailortDrivers.BootProgramming
import HailortDrivers.BufferMapping
import HailortDrivers.ChannelControl

/-!
What `pcie_write_firmware_batch_over_dma` takes for the eight channels of a boot and gives back.
The pointers of a channel stay what they were when their memory is given back, and the release
goes by them alone. A resource is named by the pointer it was stored in; so a stale pointer
names what was given back before. A `goto` is written out as what the label does.
-/
namespace HailortDrivers.BootResources
open ResourceLedger BootProgramming
open BufferMapping (Errno enxio pageSize)
open VdmaTypes (enobufs)
open VdmaMemory (enomem)
open ChannelControl (etimedout)

/-- Where `kvmalloc_array` took its memory from. -/
inductive PagesMemory
  | kmalloc
  | vmalloc
deriving DecidableEq

inductive BootResource
  | hostDescriptors (c : Nat)
  | deviceDescriptors (c : Nat)
  | kernelAddrs (c : Nat)
  | pages (c : Nat) (memory : PagesMemory)
  | sgTable (c : Nat)
  | dmaMapping (c : Nat)
deriving DecidableEq

abbrev Boot := Ledgered BootResource

/-- What of `hailo_pcie_boot_dma_channel_state` decides what is released: which of the three
addresses is not `NULL`, and whether the table has entries. -/
structure BootChannel where
  hostDescriptors : Bool
  deviceDescriptors : Bool
  kernelAddrs : Bool
  sgl : Bool

/-- The answers of the kernel for a channel; a memory that it does not have is `false`. -/
structure ChannelOps where
  hostDescriptors : Bool
  deviceDescriptors : Bool
  vmalloc : Bool
  kvmallocArray : Option PagesMemory
  vmallocToPage : Nat → Bool
  sgAllocTable : Except Errno Unit
  dmaMapSg : Nat

/-- A call, with what programming the batch returns and whether the transfer completes in time. -/
structure BatchCall where
  descPageSize : UInt32
  ops : Nat → ChannelOps
  programEntireBatch : Int32
  completed : Bool

section Channel

/-- `kfree` gives back what `kmalloc` took. -/
def kfree (c : Nat) : Boot Unit := release (.pages c .kmalloc)

def dmaUnmapSg (c : Nat) (channel : BootChannel) : Boot Unit :=
  if channel.sgl then release (.dmaMapping c) else return ()

/-- A table without entries has nothing to free. -/
def sgFreeTable (c : Nat) (channel : BootChannel) : Boot BootChannel :=
  if channel.sgl then do
    release (.sgTable c)
    return { channel with sgl := false }
  else return channel

def pcieVdmaReleaseNoncontinuousMemory (c : Nat) (channel : BootChannel) : Boot BootChannel := do
  dmaUnmapSg c channel
  let channel ← sgFreeTable c channel
  release (.kernelAddrs c)
  return channel

def pcieVdmaAllocateNoncontinuousMemory (c : Nat) (ops : ChannelOps) (bufferSize : UInt64)
    (channel : BootChannel) : Boot (Int32 × BootChannel) :=
  if ops.vmalloc then do
    acquire (.kernelAddrs c)
    let channel := { channel with kernelAddrs := true }
    let npages := (bufferSize.toNat + pageSize - 1) / pageSize
    match ops.kvmallocArray with
    | none =>
      release (.kernelAddrs c)
      return (-enomem, channel)
    | some memory =>
      acquire (.pages c memory)
      if (List.range npages).all ops.vmallocToPage then
        match ops.sgAllocTable with
        | .error err =>
          kfree c
          release (.kernelAddrs c)
          return (err.value, { channel with sgl := false })
        | .ok () =>
          acquire (.sgTable c)
          let channel := { channel with sgl := true }
          if ops.dmaMapSg = 0 then
            dmaUnmapSg c channel
            kfree c
            release (.kernelAddrs c)
            return (-enxio, channel)
          else
            acquire (.dmaMapping c)
            kfree c
            return (0, channel)
      else
        kfree c
        release (.kernelAddrs c)
        return (-enomem, channel)
  else return (-enomem, { channel with kernelAddrs := false })

/-- A descriptors list: the first error of `hailo_desc_list_create` cannot be, for the count of
descriptors is a constant. -/
def hailoDescListCreate (list : BootResource) (allocated : Bool) : Boot Int32 :=
  if allocated then do
    acquire list
    return 0
  else return -enobufs

end Channel

section Channels

def bufferSize (descPageSize : UInt32) : UInt64 := (maxSgDescsCount * descPageSize).toUInt64

/-- One turn of the loop of `pcie_vdme_allocate_boot_resources`. -/
def allocateChannel (c : Nat) (ops : ChannelOps) (descPageSize : UInt32) (channel : BootChannel) :
    Boot (Int32 × BootChannel) := do
  let channel := { channel with hostDescriptors := ops.hostDescriptors }
  let err ← hailoDescListCreate (.hostDescriptors c) ops.hostDescriptors
  if err < 0 then return (err, channel)
  else
    let channel := { channel with deviceDescriptors := ops.deviceDescriptors }
    let err ← hailoDescListCreate (.deviceDescriptors c) ops.deviceDescriptors
    if err < 0 then return (err, channel)
    else pcieVdmaAllocateNoncontinuousMemory c ops (bufferSize descPageSize) channel

def allocateChannels (call : BatchCall) : List Nat → (Nat → BootChannel) →
    Boot (Int32 × (Nat → BootChannel))
  | [], channels => return (0, channels)
  | c :: cs, channels => do
    let (err, channel) ← allocateChannel c (call.ops c) call.descPageSize (channels c)
    if err < 0 then return (err, Function.update channels c channel)
    else allocateChannels call cs (Function.update channels c channel)

/-- One turn of the loop of `pcie_vdme_release_boot_resources`. -/
def releaseChannel (c : Nat) (channel : BootChannel) : Boot BootChannel := do
  if channel.hostDescriptors then release (.hostDescriptors c)
  if channel.deviceDescriptors then release (.deviceDescriptors c)
  if channel.kernelAddrs then pcieVdmaReleaseNoncontinuousMemory c channel
  else return channel

def releaseChannels : List Nat → (Nat → BootChannel) → Boot (Nat → BootChannel)
  | [], channels => return channels
  | c :: cs, channels => do
    let channel ← releaseChannel c (channels c)
    releaseChannels cs (Function.update channels c channel)

def pcieVdmeReleaseBootResources (channels : Nat → BootChannel) : Boot (Nat → BootChannel) :=
  releaseChannels (List.range hailoPciOverVdmaNumChannels) channels

def pcieVdmeAllocateBootResources (call : BatchCall) (channels : Nat → BootChannel) :
    Boot (Int32 × (Nat → BootChannel)) := do
  let (err, channels) ←
    allocateChannels call (List.range hailoPciOverVdmaNumChannels) channels
  if err < 0 then
    let channels ← pcieVdmeReleaseBootResources channels
    return (err, channels)
  else return (0, channels)

def pcieWriteFirmwareBatchOverDma (call : BatchCall) (channels : Nat → BootChannel) :
    Boot (Int32 × (Nat → BootChannel)) := do
  let (err, channels) ← pcieVdmeAllocateBootResources call channels
  if err < 0 then return (err, channels)
  else
    let channels ← pcieVdmeReleaseBootResources channels
    if call.programEntireBatch < 0 then return (call.programEntireBatch, channels)
    else if call.completed then return (call.programEntireBatch, channels)
    else return (-etimedout, channels)

end Channels

/-- How many of a channel's lists and its area can be had before the first that cannot. -/
def ChannelOps.reached (ops : ChannelOps) : Nat :=
  if ops.hostDescriptors then if ops.deviceDescriptors then if ops.vmalloc then 3 else 2 else 1
  else 0

/-- The area is mapped for the device: the array for its pages is there, taken by `kmalloc`, and
nothing fails after it. -/
structure ChannelOps.Maps (ops : ChannelOps) (bufferSize : UInt64) : Prop where
  pages : ops.kvmallocArray = some .kmalloc
  found : (List.range ((bufferSize.toNat + pageSize - 1) / pageSize)).all ops.vmallocToPage = true
  table : ops.sgAllocTable = .ok ()
  mapped : ops.dmaMapSg ≠ 0

namespace BatchCall
variable (call : BatchCall)

def reachedFrom : List Nat → Nat
  | [] => 0
  | c :: cs => if (call.ops c).reached = 3 then 3 + reachedFrom cs else (call.ops c).reached

/-- How many lists and areas of all channels can be had before the first that cannot. -/
def reached : Nat := call.reachedFrom (List.range hailoPciOverVdmaNumChannels)

/-- Each area that is had is mapped. -/
def Mapped : Prop :=
  ∀ c < hailoPciOverVdmaNumChannels, 3 * c + 3 ≤ call.reached →
    (call.ops c).Maps (bufferSize call.descPageSize)

def MappedFrom : List Nat → Prop
  | [] => True
  | c :: cs => (call.ops c).reached = 3 →
      (call.ops c).Maps (bufferSize call.descPageSize) ∧ MappedFrom cs

end BatchCall

section Owed

/-- What releasing a channel gives back. -/
def owed (c : Nat) (channel : BootChannel) : List BootResource :=
  (if channel.hostDescriptors then [.hostDescriptors c] else []) ++
    (if channel.deviceDescriptors then [.deviceDescriptors c] else []) ++
    if channel.kernelAddrs then
      (if channel.sgl then [.dmaMapping c, .sgTable c] else []) ++ [.kernelAddrs c]
    else []

def owedAll (cs : List Nat) (channels : Nat → BootChannel) : List BootResource :=
  cs.flatMap fun c => owed c (channels c)

theorem releaseChannel_moves (c : Nat) (channel : BootChannel) :
    (releaseChannel c channel).moves = (owed c channel).map .release := by
  obtain ⟨_ | _, _ | _, _ | _, _ | _⟩ := channel <;> rfl

theorem owedAll_update {c : Nat} {cs : List Nat} (hc : c ∉ cs) (channels : Nat → BootChannel)
    (channel : BootChannel) :
    owedAll cs (Function.update channels c channel) = owedAll cs channels := by
  refine List.flatMap_congr fun c' hc' => ?_
  rw [Function.update_of_ne (ne_of_mem_of_not_mem hc' hc)]

theorem releaseChannels_moves {cs : List Nat} (hcs : cs.Nodup) (channels : Nat → BootChannel) :
    (releaseChannels cs channels).moves = (owedAll cs channels).map .release := by
  induction cs generalizing channels with
  | nil => rfl
  | cons c cs ih =>
    obtain ⟨hc, hcs⟩ := List.nodup_cons.mp hcs
    rw [releaseChannels, moves_bind, releaseChannel_moves, ih hcs, owedAll_update hc,
      ← List.map_append]
    rfl

/-- Whatever a call does, it ends with the release of all channels. -/
theorem call_ends (call : BatchCall) (channels : Nat → BootChannel) :
    (pcieWriteFirmwareBatchOverDma call channels).moves =
        (allocateChannels call (List.range hailoPciOverVdmaNumChannels) channels).moves ++
          (pcieVdmeReleaseBootResources (allocateChannels call
            (List.range hailoPciOverVdmaNumChannels) channels).value.2).moves ∧
      (pcieWriteFirmwareBatchOverDma call channels).value.2 =
        (pcieVdmeReleaseBootResources (allocateChannels call
          (List.range hailoPciOverVdmaNumChannels) channels).value.2).value := by
  rw [pcieWriteFirmwareBatchOverDma, pcieVdmeAllocateBootResources]
  obtain ⟨⟨err, left⟩, moves⟩ :=
    allocateChannels call (List.range hailoPciOverVdmaNumChannels) channels
  by_cases herr : err < 0
  · simp [moves_bind, moves_pure, herr]
  · have hzero : ¬ (0 : Int32) < 0 := by decide
    simp only [moves_bind, moves_pure, value_bind, value_pure, herr, hzero, if_false]
    split
    · simp [moves_pure]
    · split
      · simp [moves_pure]
      · simp [moves_pure]

end Owed

section Allocated

/-- What a channel has taken when allocating ends at the first that it cannot have. -/
def taken (c : Nat) (ops : ChannelOps) : List BootResource :=
  if ops.hostDescriptors then
    if ops.deviceDescriptors then
      if ops.vmalloc then
        [.dmaMapping c, .sgTable c, .kernelAddrs c, .deviceDescriptors c, .hostDescriptors c]
      else [.deviceDescriptors c, .hostDescriptors c]
    else [.hostDescriptors c]
  else []

/-- The channel then: the pointers past the first that is `NULL` are the old ones. -/
def ChannelOps.allocated (ops : ChannelOps) (channel : BootChannel) : BootChannel :=
  if ops.hostDescriptors then
    if ops.deviceDescriptors then
      if ops.vmalloc then ⟨true, true, true, true⟩ else ⟨true, true, false, channel.sgl⟩
    else ⟨true, false, channel.kernelAddrs, channel.sgl⟩
  else { channel with hostDescriptors := false }

variable {ops : ChannelOps} {bufferSize : UInt64} {c : Nat}

theorem allocateNoncontinuousMemory_of_maps (hvmalloc : ops.vmalloc = true)
    (hmaps : ops.Maps bufferSize) (channel : BootChannel) (held : Multiset BootResource) :
    (pcieVdmaAllocateNoncontinuousMemory c ops bufferSize channel).Runs held
      (0, { channel with kernelAddrs := true, sgl := true })
      (.dmaMapping c ::ₘ .sgTable c ::ₘ .kernelAddrs c ::ₘ held) := by
  obtain ⟨hpages, hfound, htable, hmapped⟩ := hmaps
  rw [pcieVdmaAllocateNoncontinuousMemory, if_pos hvmalloc]
  refine (runs_acquire _ _).bind ?_
  rw [hpages]
  refine (runs_acquire _ _).bind ?_
  rw [if_pos hfound, htable]
  refine (runs_acquire _ _).bind ?_
  rw [if_neg hmapped]
  refine (runs_acquire _ _).bind ?_
  rw [Multiset.cons_swap (BootResource.sgTable c) (.pages c .kmalloc),
    Multiset.cons_swap (BootResource.dmaMapping c) (.pages c .kmalloc)]
  exact (runs_release _ _).bind (.pure _ _)

/-- The end of the ladder: the array and the area are given back, if the array can be. -/
theorem heldAfter_freed {memory : PagesMemory} {held held' : Multiset BootResource}
    (hpages : .pages c .kmalloc ∉ held)
    (h : heldAfter held [.acquire (.kernelAddrs c), .acquire (.pages c memory),
      .release (.pages c .kmalloc), .release (.kernelAddrs c)] = some held') : held = held' := by
  cases memory with
  | kmalloc => simpa [heldAfter] using h
  | vmalloc => simp [heldAfter, hpages] at h

/-- An area that is not mapped has been given back, or something else was given back that never
was taken; its address stays in the channel. -/
theorem allocateNoncontinuousMemory_of_not_maps (hvmalloc : ops.vmalloc = true)
    (hmaps : ¬ ops.Maps bufferSize) (channel : BootChannel) {held held' : Multiset BootResource}
    (hkernelAddrs : .kernelAddrs c ∉ held) (hdmaMapping : .dmaMapping c ∉ held)
    (hpages : .pages c .kmalloc ∉ held)
    (htakes : (pcieVdmaAllocateNoncontinuousMemory c ops bufferSize channel).Takes held held') :
    .kernelAddrs c ∉ held' ∧
      (pcieVdmaAllocateNoncontinuousMemory c ops bufferSize channel).value.1 < 0 ∧
      (pcieVdmaAllocateNoncontinuousMemory c ops bufferSize channel).value.2.kernelAddrs =
        true := by
  have henomem : -enomem < 0 := by decide
  rw [pcieVdmaAllocateNoncontinuousMemory, if_pos hvmalloc] at htakes ⊢
  cases hkvmalloc : ops.kvmallocArray with
  | none =>
    have hheld : held = held' := by
      simpa [Ledgered.Takes, hkvmalloc, moves_bind, moves_pure, acquire, release, heldAfter]
        using htakes
    exact ⟨hheld ▸ hkernelAddrs, henomem, rfl⟩
  | some memory =>
    by_cases hfound :
        (List.range ((bufferSize.toNat + pageSize - 1) / pageSize)).all ops.vmallocToPage = true
    · cases htable : ops.sgAllocTable with
      | error err =>
        simp only [hkvmalloc, if_pos hfound, htable] at htakes ⊢
        have hheld : held = held' := heldAfter_freed hpages htakes
        exact ⟨hheld ▸ hkernelAddrs, err.negative, rfl⟩
      | ok _ =>
        simp only [hkvmalloc, if_pos hfound, htable] at htakes
        by_cases hmap : ops.dmaMapSg = 0
        · -- the table is unmapped that could not be mapped
          rw [if_pos hmap] at htakes
          simp [Ledgered.Takes, moves_bind, acquire, release, heldAfter, dmaUnmapSg,
            hdmaMapping] at htakes
        · have hmemory : memory ≠ .kmalloc := by
            rintro rfl
            exact hmaps ⟨hkvmalloc, hfound, htable, hmap⟩
          rw [if_neg hmap] at htakes
          cases memory with
          | kmalloc => exact absurd rfl hmemory
          | vmalloc =>
            simp [Ledgered.Takes, moves_bind, moves_pure, acquire, release, heldAfter, kfree,
              hpages] at htakes
    · simp only [hkvmalloc, if_neg hfound] at htakes ⊢
      have hheld : held = held' := heldAfter_freed hpages htakes
      exact ⟨hheld ▸ hkernelAddrs, henomem, rfl⟩

theorem reached_eq_three_iff : ops.reached = 3 ↔
    ops.hostDescriptors = true ∧ ops.deviceDescriptors = true ∧ ops.vmalloc = true := by
  rw [ChannelOps.reached]
  cases ops.hostDescriptors <;> cases ops.deviceDescriptors <;> cases ops.vmalloc <;> decide

theorem allocateChannel_of_lists (hhost : ops.hostDescriptors = true)
    (hdevice : ops.deviceDescriptors = true) (descPageSize : UInt32) (channel : BootChannel) :
    allocateChannel c ops descPageSize channel = (do
      acquire (.hostDescriptors c)
      acquire (.deviceDescriptors c)
      pcieVdmaAllocateNoncontinuousMemory c ops (BootResources.bufferSize descPageSize)
        ⟨true, true, channel.kernelAddrs, channel.sgl⟩) := by
  rw [allocateChannel, hhost, hdevice]
  rfl

/-- A turn of the loop where no mapping fails, or none is tried. -/
theorem allocateChannel_runs {descPageSize : UInt32}
    (hmaps : ops.reached = 3 → ops.Maps (BootResources.bufferSize descPageSize))
    (channel : BootChannel) (held : Multiset BootResource) :
    ∃ err : Int32, (err < 0 ↔ ops.reached ≠ 3) ∧
      (allocateChannel c ops descPageSize channel).Runs held (err, ops.allocated channel)
        (taken c ops + held) := by
  have hzero : ¬ (0 : Int32) < 0 := by decide
  have henobufs : -enobufs < 0 := by decide
  have henomem : -enomem < 0 := by decide
  cases hhost : ops.hostDescriptors with
  | false =>
    refine ⟨-enobufs, iff_of_true henobufs ?_, ?_⟩
    · simp [reached_eq_three_iff, hhost]
    · rw [allocateChannel, ChannelOps.allocated, taken, hhost, if_neg Bool.false_ne_true,
        if_neg Bool.false_ne_true, Multiset.coe_nil, Multiset.zero_add]
      exact ⟨rfl, rfl⟩
  | true =>
    cases hdevice : ops.deviceDescriptors with
    | false =>
      refine ⟨-enobufs, iff_of_true henobufs ?_, ?_⟩
      · simp [reached_eq_three_iff, hdevice]
      · rw [allocateChannel, ChannelOps.allocated, taken, hhost, hdevice, if_pos rfl, if_pos rfl,
          if_neg Bool.false_ne_true, if_neg Bool.false_ne_true, Multiset.coe_singleton,
          Multiset.singleton_add]
        exact ⟨rfl, rfl⟩
    | true =>
      rw [allocateChannel_of_lists hhost hdevice, ChannelOps.allocated, taken, hhost, hdevice]
      simp only [if_true]
      cases hvmalloc : ops.vmalloc with
      | false =>
        refine ⟨-enomem, iff_of_true henomem ?_, ?_⟩
        · simp [reached_eq_three_iff, hvmalloc]
        · rw [pcieVdmaAllocateNoncontinuousMemory, hvmalloc]
          simp only [Bool.false_eq_true, if_false, ← Multiset.cons_coe, Multiset.cons_add,
            Multiset.coe_nil, Multiset.zero_add]
          exact ⟨rfl, rfl⟩
      | true =>
        have hreached : ops.reached = 3 := reached_eq_three_iff.mpr ⟨hhost, hdevice, hvmalloc⟩
        refine ⟨0, iff_of_false hzero (not_not.mpr hreached), ?_⟩
        simp only [if_true, ← Multiset.cons_coe, Multiset.cons_add, Multiset.coe_nil,
          Multiset.zero_add]
        exact (runs_acquire _ _).bind ((runs_acquire _ _).bind
          (allocateNoncontinuousMemory_of_maps hvmalloc (hmaps hreached) _ _))

theorem allocateChannel_of_not_maps {descPageSize : UInt32} (hreached : ops.reached = 3)
    (hmaps : ¬ ops.Maps (BootResources.bufferSize descPageSize)) (channel : BootChannel)
    {held held' : Multiset BootResource} (hkernelAddrs : .kernelAddrs c ∉ held)
    (hdmaMapping : .dmaMapping c ∉ held) (hpages : .pages c .kmalloc ∉ held)
    (htakes : (allocateChannel c ops descPageSize channel).Takes held held') :
    .kernelAddrs c ∉ held' ∧ (allocateChannel c ops descPageSize channel).value.1 < 0 ∧
      (allocateChannel c ops descPageSize channel).value.2.kernelAddrs = true := by
  obtain ⟨hhost, hdevice, hvmalloc⟩ := reached_eq_three_iff.mp hreached
  rw [allocateChannel_of_lists hhost hdevice] at htakes ⊢
  exact @allocateNoncontinuousMemory_of_not_maps ops _ c hvmalloc hmaps _
    (.deviceDescriptors c ::ₘ .hostDescriptors c ::ₘ held) held' (by simpa using hkernelAddrs)
    (by simpa using hdmaMapping) (by simpa using hpages) htakes

end Allocated

section Loop
variable (call : BatchCall)

def takenAll : List Nat → List BootResource
  | [] => []
  | c :: cs =>
    if (call.ops c).reached = 3 then takenAll cs ++ taken c (call.ops c) else taken c (call.ops c)

def allocatedAll : List Nat → (Nat → BootChannel) → Nat → BootChannel
  | [], channels => channels
  | c :: cs, channels =>
    let channels' := Function.update channels c ((call.ops c).allocated (channels c))
    if (call.ops c).reached = 3 then allocatedAll cs channels' else channels'

variable {call} {cs : List Nat}

theorem allocateChannels_runs (hmaps : call.MappedFrom cs) (channels : Nat → BootChannel)
    (held : Multiset BootResource) :
    ∃ err, (allocateChannels call cs channels).Runs held (err, allocatedAll call cs channels)
      (takenAll call cs + held) := by
  induction cs generalizing channels held with
  | nil =>
    rw [takenAll, Multiset.coe_nil, Multiset.zero_add]
    exact ⟨0, .pure _ _⟩
  | cons c cs ih =>
    obtain ⟨err, herr, hrun⟩ := allocateChannel_runs (c := c) (fun h => (hmaps h).1)
      (channels c) held
    rw [allocateChannels, takenAll, allocatedAll]
    by_cases hreached : (call.ops c).reached = 3
    · obtain ⟨err', hrest⟩ := ih (hmaps hreached).2
        (Function.update channels c ((call.ops c).allocated (channels c)))
        (taken c (call.ops c) + held)
      refine ⟨err', hrun.bind ?_⟩
      simp only [if_neg (fun h => herr.mp h hreached), if_pos hreached]
      rw [← Multiset.coe_add, Multiset.add_assoc]
      exact hrest
    · refine ⟨err, hrun.bind ?_⟩
      simp only [if_pos (herr.mpr hreached), if_neg hreached]
      exact .pure _ _

/-- The channel whose pointer a resource was stored in. -/
def BootResource.channel : BootResource → Nat
  | .hostDescriptors c | .deviceDescriptors c | .kernelAddrs c | .pages c _ | .sgTable c
  | .dmaMapping c => c

theorem channel_of_mem_taken {c : Nat} {ops : ChannelOps} {r : BootResource}
    (hr : r ∈ taken c ops) : r.channel = c := by
  have hall : r ∈ [BootResource.dmaMapping c, .sgTable c, .kernelAddrs c, .deviceDescriptors c,
      .hostDescriptors c] := by
    rw [taken] at hr
    split_ifs at hr <;> simp_all
  simp only [List.mem_cons, List.not_mem_nil, or_false] at hall
  rcases hall with rfl | rfl | rfl | rfl | rfl <;> rfl

/-- One area that is not mapped is enough: its address is released although it is not held. -/
theorem allocateChannels_of_not_mapped (hcs : cs.Nodup) (hmaps : ¬ call.MappedFrom cs)
    (channels : Nat → BootChannel) {held held' : Multiset BootResource}
    (hheld : ∀ r ∈ held, r.channel ∉ cs)
    (htakes : (allocateChannels call cs channels).Takes held held') :
    ∃ c ∈ cs, .kernelAddrs c ∉ held' ∧
      ((allocateChannels call cs channels).value.2 c).kernelAddrs = true := by
  induction cs generalizing channels held with
  | nil => exact absurd trivial hmaps
  | cons c cs ih =>
    obtain ⟨hc, hcs⟩ := List.nodup_cons.mp hcs
    have hreached : (call.ops c).reached = 3 := by
      by_contra hreached
      exact hmaps fun h => absurd h hreached
    have hfree (r : BootResource) (hr : r.channel = c) : r ∉ held :=
      fun hmem => hheld r hmem (hr ▸ List.mem_cons_self)
    rw [allocateChannels] at htakes ⊢
    by_cases hmapped : (call.ops c).Maps (bufferSize call.descPageSize)
    · obtain ⟨err, herr, hrun⟩ := allocateChannel_runs (c := c) (fun _ => hmapped) (channels c) held
      have hrest : ¬ call.MappedFrom cs := fun h => hmaps fun _ => ⟨hmapped, h⟩
      rw [Ledgered.Takes, moves_bind, heldAfter_append hrun.takes, hrun.value] at htakes
      rw [value_bind, hrun.value]
      simp only [if_neg (fun h => herr.mp h hreached)] at htakes ⊢
      have hgrown (r : BootResource) (hr : r ∈ ↑(taken c (call.ops c)) + held) :
          r.channel ∉ cs := by
        rcases Multiset.mem_add.mp hr with htaken | hold
        · rw [channel_of_mem_taken (Multiset.mem_coe.mp htaken)]
          exact hc
        · exact fun hmem => hheld r hold (List.mem_cons_of_mem _ hmem)
      obtain ⟨c', hc', hfound⟩ := ih hcs hrest _ hgrown htakes
      exact ⟨c', List.mem_cons_of_mem _ hc', hfound⟩
    · rw [Ledgered.Takes, moves_bind, heldAfter_append_iff] at htakes
      obtain ⟨between, hchannel, hrest⟩ := htakes
      obtain ⟨hkernelAddrs, herr, haddress⟩ := allocateChannel_of_not_maps hreached hmapped
        (channels c) (hfree _ rfl) (hfree _ rfl) (hfree _ rfl) hchannel
      rw [value_bind]
      simp only [if_pos herr, moves_pure] at hrest ⊢
      cases hrest
      refine ⟨c, List.mem_cons_self, hkernelAddrs, ?_⟩
      exact (congrArg BootChannel.kernelAddrs (Function.update_self ..)).trans haddress

/-- What releasing a channel gives back beyond what allocating took: what the pointers past the
first that is `NULL` held before. -/
def stale (c : Nat) (ops : ChannelOps) (channel : BootChannel) : List BootResource :=
  if ops.hostDescriptors then
    if ops.deviceDescriptors then []
    else owed c { channel with hostDescriptors := false, deviceDescriptors := false }
  else owed c { channel with hostDescriptors := false }

theorem owed_allocated (c : Nat) (ops : ChannelOps) (channel : BootChannel) :
    (owed c (ops.allocated channel)).Perm (taken c ops ++ stale c ops channel) := by
  rw [ChannelOps.allocated, taken, stale]
  cases ops.hostDescriptors with
  | false => exact .refl _
  | true =>
    cases ops.deviceDescriptors with
    | false => exact .refl _
    | true =>
      cases ops.vmalloc with
      | false => exact .swap _ _ _
      | true =>
        exact (@List.perm_append_comm _ [BootResource.hostDescriptors c, .deviceDescriptors c]
          [.dmaMapping c, .sgTable c, .kernelAddrs c]).trans (.append_left _ (.swap _ _ _))

def staleAll (call : BatchCall) : List Nat → (Nat → BootChannel) → List BootResource
  | [], _ => []
  | c :: cs, channels =>
    if (call.ops c).reached = 3 then staleAll call cs channels
    else stale c (call.ops c) (channels c) ++ owedAll cs channels

theorem stale_of_reached {c : Nat} {ops : ChannelOps} (h : ops.reached = 3)
    (channel : BootChannel) : stale c ops channel = [] := by
  obtain ⟨hhost, hdevice, -⟩ := reached_eq_three_iff.mp h
  rw [stale, hhost, hdevice]
  rfl

theorem staleAll_update {c : Nat} (hc : c ∉ cs) (channels : Nat → BootChannel)
    (channel : BootChannel) :
    staleAll call cs (Function.update channels c channel) = staleAll call cs channels := by
  induction cs with
  | nil => rfl
  | cons c' cs ih =>
    rw [List.mem_cons, not_or] at hc
    rw [staleAll, staleAll, ih hc.2, owedAll_update hc.2, Function.update_of_ne (Ne.symm hc.1)]

theorem allocatedAll_of_not_mem {c : Nat} (hc : c ∉ cs) (channels : Nat → BootChannel) :
    allocatedAll call cs channels c = channels c := by
  induction cs generalizing channels with
  | nil => rfl
  | cons c' cs ih =>
    rw [List.mem_cons, not_or] at hc
    rw [allocatedAll]
    split
    · rw [ih hc.2, Function.update_of_ne hc.1]
    · exact Function.update_of_ne hc.1 _ _

theorem owedAll_allocatedAll (hcs : cs.Nodup) (channels : Nat → BootChannel) :
    (owedAll cs (allocatedAll call cs channels)).Perm
      (takenAll call cs ++ staleAll call cs channels) := by
  induction cs generalizing channels with
  | nil => exact .refl _
  | cons c cs ih =>
    obtain ⟨hc, hcs⟩ := List.nodup_cons.mp hcs
    have howed := owed_allocated c (call.ops c) (channels c)
    rw [owedAll, List.flatMap_cons, allocatedAll, takenAll, staleAll]
    by_cases hreached : (call.ops c).reached = 3
    · rw [stale_of_reached hreached, List.append_nil] at howed
      simp only [if_pos hreached]
      rw [allocatedAll_of_not_mem hc, Function.update_self, List.append_assoc]
      have hrest := ih hcs (Function.update channels c ((call.ops c).allocated (channels c)))
      rw [staleAll_update hc] at hrest
      exact (howed.append hrest).trans (List.perm_append_comm_assoc _ _ _)
    · simp only [if_neg hreached]
      rw [Function.update_self, ← List.append_assoc]
      refine howed.append ?_
      exact .of_eq (owedAll_update hc channels _)

end Loop

/-- A call gives back what it took exactly when all its areas are mapped and no pointer that it
did not come to is left over. -/
theorem call_takes_iff (call : BatchCall) (channels : Nat → BootChannel) :
    (pcieWriteFirmwareBatchOverDma call channels).Takes 0 0 ↔
      call.MappedFrom (List.range hailoPciOverVdmaNumChannels) ∧
        staleAll call (List.range hailoPciOverVdmaNumChannels) channels = [] := by
  have hnodup : (List.range hailoPciOverVdmaNumChannels).Nodup := List.nodup_range
  rw [Ledgered.Takes, (call_ends call channels).1, pcieVdmeReleaseBootResources,
    releaseChannels_moves hnodup, heldAfter_append_iff]
  simp only [heldAfter_releases]
  by_cases hmaps : call.MappedFrom (List.range hailoPciOverVdmaNumChannels)
  · obtain ⟨err, hrun⟩ := allocateChannels_runs hmaps channels 0
    rw [hrun.value, and_iff_right hmaps]
    have hperm := @owedAll_allocatedAll call _ hnodup channels
    constructor
    · rintro ⟨held, htakes, rfl⟩
      have htaken := hrun.takes.unique htakes
      rw [Multiset.add_zero, Multiset.coe_eq_coe] at htaken
      have hlength := (htaken.trans hperm).length_eq
      rw [List.length_append] at hlength
      exact List.length_eq_zero_iff.mp (by omega)
    · intro hstale
      refine ⟨_, hrun.takes, ?_⟩
      rw [hstale, List.append_nil] at hperm
      rw [Multiset.add_zero, Multiset.coe_eq_coe]
      exact hperm.symm
  · refine iff_of_false ?_ (fun h => hmaps h.1)
    rintro ⟨held, htakes, rfl⟩
    obtain ⟨c, hc, hnot, haddress⟩ := allocateChannels_of_not_mapped hnodup hmaps channels
      (fun r hr => absurd hr (Multiset.notMem_zero r)) htakes
    refine hnot (Multiset.mem_coe.mpr (List.mem_flatMap.mpr ⟨c, hc, ?_⟩))
    rw [owed, haddress]
    simp

end HailortDrivers.BootResources
