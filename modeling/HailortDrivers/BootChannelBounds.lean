import HailortDrivers.BootActivation
import HailortDrivers.BootDelivery

/-!
Which of the boot channels programming a batch looks at. The channel index goes up whenever a
channel is full and is never compared with the number of channels. What a file still takes, and
what was taken before, add up to the same number of descriptors over all rounds, and this number
decides, also for channels that earlier batches have used.
-/
namespace HailortDrivers.BootChannelBounds
open KernelExec MachineWord VdmaTypes PagePacking ProgrammedPages FirmwareLoading BootProgramming
open BootDescriptors BootRounds BootBatch BootSuccess BootDelivery BootActivation

/-- The channels that a round looks at: the current one, and the next one if that is full. -/
def roundAccesses (s : BootState) : List UInt8 :=
  [s.currChannelIndex, (selectChannel s).currChannelIndex]

/-- The channels that the loop over a file looks at. -/
def roundsAccesses (file : Nat) (fileAddress : UInt32) (raiseInt : Bool) :
    Nat → FileCursor → List UInt8
  | 0, _ => []
  | rounds + 1, c =>
    if c.remainingSize = 0 then []
    else roundAccesses c.boot ++
      match programRound file fileAddress raiseInt c with
      | .ok (.next c) => roundsAccesses file fileAddress raiseInt rounds c
      | _ => []

section
variable (request : FirmwareStore) (rounds : Nat)

def fileAccesses (file : Nat) (fileInfo : HailoFileBatch) (raiseInt : Bool) (boot : BootState) :
    List UInt8 :=
  match request fileInfo.filename with
  | .error _ => []
  | .ok firmware =>
    roundsAccesses file fileInfo.address raiseInt rounds ⟨firmware.size.toNat, 0, 0, boot⟩

def filesAccesses : Nat → List HailoFileBatch → BootState → List UInt8
  | _, [], _ => []
  | file, fileInfo :: rest, boot =>
    if fileInfo.filename = none then []
    else fileAccesses request rounds file fileInfo rest.isEmpty boot ++
      match pcieVdmaProgramOneFile request rounds file fileInfo rest.isEmpty boot with
      | .ok (some (err, boot)) => if err < 0 then [] else filesAccesses (file + 1) rest boot
      | _ => []

/-- The indices at which `pcie_vdma_program_entire_batch` looks at `channels`. -/
def batchAccesses (stageInfo : HailoPcieLoadingStage) (boot : BootState) : List UInt8 :=
  filesAccesses request rounds 0 stageInfo.files boot

end

/-- The counters as the probe and earlier batches leave them. -/
structure Counters (s : BootState) : Prop where
  index : s.currChannelIndex.toNat < hailoPciOverVdmaNumChannels
  count : s.currChannel.descProgramNum.toNat ≤ 65535
  later : ∀ c < hailoPciOverVdmaNumChannels, s.currChannelIndex.toNat < c →
    (s.channels c).descProgramNum = 0

/-- The channels have their memory. -/
structure Usable (s : BootState) : Prop extends Counters s where
  ready : ∀ c < hailoPciOverVdmaNumChannels, ChannelReady (s.channels c)
  space : ∀ c < hailoPciOverVdmaNumChannels, ChannelRoom (s.channels c)

/-- The descriptors up to the first free one of the current channel. -/
def used (s : BootState) : Nat :=
  s.currChannelIndex.toNat * 65535 + s.currChannel.descProgramNum.toNat

/-- With those that the rest of the file takes. -/
def demand (c : FileCursor) : Nat := used c.boot + c.remainingSize ⌈/⌉ 512

section Allocation
variable (beyond : Nat → HailoPcieBootDmaChannelState) {s : BootState}
  (resources : Nat → AllocatedChannel)

theorem counters_probedBoot : Counters (probedBoot beyond) ∧ used (probedBoot beyond) = 0 := by
  have hnone (c : Nat) (hc : c < hailoPciOverVdmaNumChannels) :
      ((probedBoot beyond).channels c).descProgramNum.toNat = 0 := by
    rw [probedBoot_descProgramNum beyond hc]
    rfl
  have hcurr : (probedBoot beyond).currChannel.descProgramNum.toNat = 0 := hnone 0 (by decide)
  have hindex : (probedBoot beyond).currChannelIndex = 0 := rfl
  refine ⟨⟨?_, by omega, fun c hc _ => probedBoot_descProgramNum beyond hc⟩, ?_⟩
  · rw [hindex]
    decide
  · rw [used, hcurr, hindex]
    decide

/-- Allocating gives the channels memory and leaves the counters alone. -/
theorem Counters.allocate (h : Counters s) :
    Usable (allocateBootResources (fun c => (resources c).toBootChannelResources) s) ∧
      used (allocateBootResources (fun c => (resources c).toBootChannelResources) s) = used s := by
  have hcurr : (allocateBootResources (fun c => (resources c).toBootChannelResources)
      s).currChannel.descProgramNum = s.currChannel.descProgramNum :=
    allocate_descProgramNum _ _ _
  refine ⟨⟨⟨h.index, by rw [hcurr]; exact h.count, fun c hc hlater => ?_⟩, fun c hc => ?_,
    fun c hc => ?_⟩, ?_⟩
  · rw [allocate_descProgramNum]
    exact h.later c hc hlater
  · rw [allocate_of_lt _ _ hc]
    exact ⟨(resources c).ready.host, (resources c).ready.device, (resources c).ready.pages⟩
  · rw [allocate_of_lt _ _ hc]
    exact ⟨(resources c).room.table, (resources c).room.buffer⟩
  · rw [used, hcurr]
    rfl

end Allocation

section Select
variable {s : BootState}

/-- A state with room for a descriptor, after a full channel was left. -/
theorem Usable.select (h : Usable s) (hroom : used s < hailoPciOverVdmaNumChannels * 65535) :
    Usable (selectChannel s) ∧ used (selectChannel s) = used s ∧
      (selectChannel s).currChannel.descProgramNum.toNat < 65535 := by
  have hmax : (maxSgDescsCount - 1).toNat = 65535 := rfl
  have hnum : hailoPciOverVdmaNumChannels = 8 := rfl
  have hindex := h.index
  have hcount := h.count
  by_cases hfull : maxSgDescsCount - 1 = s.currChannel.descProgramNum
  · have hcount : s.currChannel.descProgramNum.toNat = 65535 := by rw [← hfull, hmax]
    rw [used] at hroom
    have hnext : (s.currChannelIndex + 1).toNat = s.currChannelIndex.toNat + 1 := by
      have hone : (1 : UInt8).toNat = 1 := rfl
      rw [UInt8.toNat_add, hone]
      omega
    have hempty : (s.channels (s.currChannelIndex.toNat + 1)).descProgramNum = 0 :=
      h.later _ (by omega) (Nat.lt_succ_self _)
    have hcurr : (selectChannel s).currChannel = s.channels (s.currChannelIndex.toNat + 1) := by
      rw [BootState.currChannel, selectChannel, if_pos hfull]
      simp only [hnext]
    have hzero : (selectChannel s).currChannel.descProgramNum.toNat = 0 := by
      rw [hcurr, hempty]
      rfl
    have hmoved : (selectChannel s).currChannelIndex.toNat = s.currChannelIndex.toNat + 1 := by
      rw [selectChannel, if_pos hfull]
      exact hnext
    have hchannels : (selectChannel s).channels = s.channels := by
      rw [selectChannel, if_pos hfull]
    refine ⟨⟨⟨by omega, by omega, fun c hc hlater => ?_⟩, ?_, ?_⟩, ?_, by omega⟩
    · rw [hchannels]
      exact h.later c hc (by omega)
    · rw [hchannels]
      exact h.ready
    · rw [hchannels]
      exact h.space
    · rw [used, used, hmoved, hzero, hcount]
      omega
  · have hne : s.currChannel.descProgramNum.toNat ≠ 65535 := fun heq =>
      hfull (UInt32.toNat_inj.mp (hmax.trans heq.symm))
    rw [selectChannel, if_neg hfull]
    exact ⟨h, rfl, by omega⟩

/-- Where all channels are full, the next index is past them. -/
theorem Usable.select_full (h : Usable s) (hfull : used s = hailoPciOverVdmaNumChannels * 65535) :
    (selectChannel s).currChannelIndex.toNat = hailoPciOverVdmaNumChannels := by
  have hnum : hailoPciOverVdmaNumChannels = 8 := rfl
  have hindex := h.index
  have hcount := h.count
  rw [used] at hfull
  have hlast : s.currChannelIndex.toNat = 7 := by omega
  have hmax : maxSgDescsCount - 1 = s.currChannel.descProgramNum := by
    rw [← UInt32.toNat_inj]
    change 65535 = _
    omega
  have hone : (1 : UInt8).toNat = 1 := rfl
  rw [selectChannel, if_pos hmax]
  simp only
  rw [UInt8.toNat_add, hone, hlast]
  rfl

end Select

/-- A round ends the file or takes whole pages. -/
theorem roundBytes_demand (T remainingSize : Nat) :
    roundBytes T remainingSize ⌈/⌉ 512 + (remainingSize - roundBytes T remainingSize) ⌈/⌉ 512 =
      remainingSize ⌈/⌉ 512 := by
  by_cases hlast : remainingSize ≤ (65535 - T % 65535) * 512
  · rw [roundBytes, Nat.min_eq_left hlast, Nat.sub_self, zero_ceilDiv, Nat.add_zero]
  · obtain ⟨rest, hrest⟩ := Nat.exists_eq_add_of_le (Nat.le_of_not_le hlast)
    rw [roundBytes, Nat.min_eq_right (Nat.le_of_not_le hlast), hrest, Nat.add_sub_cancel_left,
      mul_ceilDiv_self (by decide), ← ceilDiv_mul_add (by decide)]

section Channel
variable {channel : HailoPcieBootDmaChannelState} {remainingSize : Nat}

/-- What a round asks of a channel with room: the bytes fit in its memory, and their descriptors
in its lists. -/
theorem channel_takes (hready : ChannelReady channel) (hspace : ChannelRoom channel)
    (hroom : channel.descProgramNum.toNat < 65535) (hremaining : 0 < remainingSize)
    (file dataOffset : Nat) (fileAddress : UInt32) (channelIndex : UInt8) (raiseInt : Bool) :
    (transferBufferOf channel remainingSize).size.toNat =
        roundBytes channel.descProgramNum.toNat remainingSize ∧
      roundBytes channel.descProgramNum.toNat remainingSize =
        (sgPcopyFromBuffer channel.buffer file dataOffset
          (roundBytes channel.descProgramNum.toNat remainingSize)
          (transferBufferOf channel remainingSize).offset.toNat).1 ∧
      ∃ ret channel', pcieVdmaProgramOneFileDescriptors
          (copyIn channel file dataOffset
            (roundBytes channel.descProgramNum.toNat remainingSize)
            (transferBufferOf channel remainingSize).offset.toNat)
          fileAddress (transferBufferOf channel remainingSize) channelIndex raiseInt =
            .ok (ret, channel') ∧
        ¬ ret < 0 ∧ ChannelReady channel' ∧ ChannelRoom channel' ∧
        (channel'.descProgramNum + ret.toUInt32).toNat = channel.descProgramNum.toNat +
          roundBytes channel.descProgramNum.toNat remainingSize ⌈/⌉ 512 := by
  have hmod := Nat.mod_eq_of_lt hroom
  obtain ⟨hsize, hoffset⟩ := transferBufferOf_spec hmod.symm remainingSize
  have hpos := @roundBytes_pos channel.descProgramNum.toNat _ hremaining
  have hfit := roundBytes_fit channel.descProgramNum.toNat remainingSize
  have hle : channel.descProgramNum.toNat * 512 +
      roundBytes channel.descProgramNum.toNat remainingSize ≤ 65535 * 512 := by
    rw [roundBytes]
    omega
  have hbuffer := hspace.buffer
  rw [hmod] at hfit hoffset
  refine ⟨hsize, ?_, ?_⟩
  · simp only [sgPcopyFromBuffer, hoffset]
    omega
  · have hcopied := hready.copyIn file dataOffset
      (roundBytes channel.descProgramNum.toNat remainingSize)
      (transferBufferOf channel remainingSize).offset.toNat
    obtain ⟨ret, channel', hdescs, hret⟩ := @oneFileDescriptors_total _ fileAddress
      (transferBufferOf channel remainingSize) channelIndex raiseInt hcopied rfl hoffset
      (by rw [hsize]; exact hpos) (by rw [hsize]; exact hle) hspace.table
    obtain ⟨hn, hhost, hdevice, hsgl, hkept, hnum⟩ := oneFileDescriptors_chunks hcopied rfl hoffset
      (by rw [hsize]; exact hpos) (by rw [hsize]; exact hle) hret hdescs
    rw [hsize] at hn
    refine ⟨ret, channel', hdescs, hret, ⟨hhost.bootList, hdevice.bootList, ?_⟩, ⟨?_, ?_⟩, ?_⟩
    · rw [hsgl]
      exact hready.pages
    · rw [hsgl]
      exact hspace.table
    · rw [hkept]
      exact hspace.buffer
    · have hret' := toUInt32_toNat_of_nonneg (r := ret) (by omega)
      have hsame : (copyIn channel file dataOffset
          (roundBytes channel.descProgramNum.toNat remainingSize)
          (transferBufferOf channel remainingSize).offset.toNat).descProgramNum =
          channel.descProgramNum := rfl
      rw [hnum, hsame, toNat_add_of_lt (by omega)]
      omega

end Channel

section Rounds
variable {file : Nat} {fileAddress : UInt32} {raiseInt : Bool} {c : FileCursor}

theorem used_setCurrChannel (s : BootState) (channel : HailoPcieBootDmaChannelState) :
    used (s.setCurrChannel channel) =
      s.currChannelIndex.toNat * 65535 + channel.descProgramNum.toNat := by
  have hcurr : (s.setCurrChannel channel).currChannel = channel := Function.update_self _ _ _
  rw [used, hcurr]
  rfl

theorem Usable.setCurrChannel {s : BootState} (h : Usable s)
    {channel : HailoPcieBootDmaChannelState} (hready : ChannelReady channel)
    (hspace : ChannelRoom channel) (hcount : channel.descProgramNum.toNat ≤ 65535) :
    Usable (s.setCurrChannel channel) where
  ready c hc := by
    rw [channels_setCurrChannel]
    by_cases hcurr : c = s.currChannelIndex.toNat
    · rw [hcurr, Function.update_self]
      exact hready
    · rw [Function.update_of_ne hcurr]
      exact h.ready c hc
  space c hc := by
    rw [channels_setCurrChannel]
    by_cases hcurr : c = s.currChannelIndex.toNat
    · rw [hcurr, Function.update_self]
      exact hspace
    · rw [Function.update_of_ne hcurr]
      exact h.space c hc
  index := h.index
  count := by
    have hcurr : (s.setCurrChannel channel).currChannel = channel := Function.update_self _ _ _
    rw [hcurr]
    exact hcount
  later c hc hlater := by
    have hne : c ≠ s.currChannelIndex.toNat := (Nat.ne_of_lt hlater).symm
    rw [channels_setCurrChannel, Function.update_of_ne hne]
    exact h.later c hc hlater

/-- A round with room goes on, and the descriptors it takes are those the file no longer needs. -/
theorem Usable.round (h : Usable c.boot)
    (hroom : used c.boot < hailoPciOverVdmaNumChannels * 65535) (hremaining : 0 < c.remainingSize) :
    ∃ c', programRound file fileAddress raiseInt c = .ok (.next c') ∧ Usable c'.boot ∧
      demand c' = demand c ∧ c'.remainingSize < c.remainingSize ∧ ¬ c'.descProgrammed < 0 := by
  obtain ⟨hselect, hused, hcount⟩ := h.select hroom
  have hready : ChannelReady (selectChannel c.boot).currChannel := hselect.ready _ hselect.index
  have hspace : ChannelRoom (selectChannel c.boot).currChannel := hselect.space _ hselect.index
  obtain ⟨channel, hcurr⟩ : ∃ channel, (selectChannel c.boot).currChannel = channel := ⟨_, rfl⟩
  rw [hcurr] at hcount hready hspace
  obtain ⟨hsize, hcopied, ret, channel', hdescs, hret, hready', hspace', hnum⟩ := channel_takes
    hready hspace hcount hremaining file c.dataOffset
    (UInt32.ofNat (fileAddress.toNat + c.dataOffset)) (selectChannel c.boot).currChannelIndex
    (raisInterruptOnLastChunk channel
      (roundBytes channel.descProgramNum.toNat c.remainingSize) c.remainingSize raiseInt)
  have hpos := @roundBytes_pos channel.descProgramNum.toNat _ hremaining
  have hfit := roundBytes_fit channel.descProgramNum.toNat c.remainingSize
  rw [Nat.mod_eq_of_lt hcount] at hfit
  rw [programRound_of_copied hcurr hsize rfl hcopied, hdescs, ok_bind]
  simp only [if_neg hret]
  refine ⟨_, rfl, hselect.setCurrChannel ⟨hready'.host, hready'.device, hready'.pages⟩
    ⟨hspace'.table, hspace'.buffer⟩ ?_, ?_, Nat.sub_lt hremaining hpos, hret⟩
  · rw [hnum]
    exact hfit
  · rw [demand, demand, used_setCurrChannel, hnum, ← hused, used, hcurr, ← Nat.add_assoc,
      Nat.add_assoc, roundBytes_demand]

theorem Usable.used_le {s : BootState} (h : Usable s) :
    used s ≤ hailoPciOverVdmaNumChannels * 65535 := by
  have hindex := h.index
  have hcount := h.count
  have hnum : hailoPciOverVdmaNumChannels = 8 := rfl
  rw [used]
  omega

theorem demand_done (hdone : c.remainingSize = 0) : demand c = used c.boot := by
  rw [demand, hdone, zero_ceilDiv, Nat.add_zero]

theorem used_lt_of_fits (hfit : demand c ≤ hailoPciOverVdmaNumChannels * 65535)
    (hremaining : c.remainingSize ≠ 0) : used c.boot < hailoPciOverVdmaNumChannels * 65535 := by
  have hpos : 0 < c.remainingSize ⌈/⌉ 512 :=
    ceilDiv_pos (by decide) (Nat.pos_of_ne_zero hremaining)
  rw [demand] at hfit
  omega

/-- A file that fits is programmed, in no more rounds than it has bytes. -/
theorem Usable.programRounds {rounds : Nat} (h : Usable c.boot)
    (hfit : demand c ≤ hailoPciOverVdmaNumChannels * 65535) (hret : ¬ c.descProgrammed < 0) :
    (rounds < c.remainingSize ∧
      programRounds file fileAddress raiseInt rounds c = .ok none) ∨
    ∃ c', programRounds file fileAddress raiseInt rounds c = .ok (some (.next c')) ∧
      Usable c'.boot ∧ used c'.boot = demand c ∧ ¬ c'.descProgrammed < 0 := by
  induction rounds generalizing c with
  | zero =>
    by_cases hdone : c.remainingSize = 0
    · exact Or.inr ⟨c, programRounds_done hdone, h, (demand_done hdone).symm, hret⟩
    · exact Or.inl ⟨Nat.pos_of_ne_zero hdone, programRounds_none hdone⟩
  | succ rounds ih =>
    by_cases hdone : c.remainingSize = 0
    · exact Or.inr ⟨c, programRounds_done hdone, h, (demand_done hdone).symm, hret⟩
    · obtain ⟨c₁, hround, h₁, hdemand, hless, hret₁⟩ := @Usable.round file fileAddress raiseInt _ h
        (used_lt_of_fits hfit hdone) (Nat.pos_of_ne_zero hdone)
      rw [programRounds_succ hdone, hround, ok_bind]
      simp only
      rw [← hdemand] at hfit ⊢
      rcases ih h₁ hfit hret₁ with ⟨hleft, hnone⟩ | hrest
      · exact Or.inl ⟨by omega, hnone⟩
      · exact Or.inr hrest

theorem roundsAccesses_done {rounds : Nat} (hdone : c.remainingSize = 0) :
    roundsAccesses file fileAddress raiseInt rounds c = [] := by
  cases rounds with
  | zero => rfl
  | succ rounds => rw [roundsAccesses, if_pos hdone]

/-- A file that fits stays within the channels. -/
theorem Usable.roundsAccesses_lt {rounds : Nat} (h : Usable c.boot)
    (hfit : demand c ≤ hailoPciOverVdmaNumChannels * 65535) :
    ∀ i ∈ roundsAccesses file fileAddress raiseInt rounds c,
      i.toNat < hailoPciOverVdmaNumChannels := by
  induction rounds generalizing c with
  | zero => exact fun i hi => absurd hi List.not_mem_nil
  | succ rounds ih =>
    by_cases hdone : c.remainingSize = 0
    · rw [roundsAccesses_done hdone]
      exact fun i hi => absurd hi List.not_mem_nil
    · have hroom := used_lt_of_fits hfit hdone
      obtain ⟨c₁, hround, h₁, hdemand, -⟩ := @Usable.round file fileAddress raiseInt _ h hroom
        (Nat.pos_of_ne_zero hdone)
      rw [roundsAccesses, if_neg hdone, hround]
      intro i hi
      rcases List.mem_append.mp hi with hi | hi
      · rcases List.mem_pair.mp hi with rfl | rfl
        · exact h.index
        · exact (h.select hroom).1.index
      · exact ih h₁ (hdemand.trans_le hfit) i hi

/-- A file that does not fit is continued past the last channel. -/
theorem Usable.roundsAccesses_over {rounds : Nat} (h : Usable c.boot)
    (hover : hailoPciOverVdmaNumChannels * 65535 < demand c) (hrounds : c.remainingSize ≤ rounds) :
    ∃ i ∈ roundsAccesses file fileAddress raiseInt rounds c,
      hailoPciOverVdmaNumChannels ≤ i.toNat := by
  have hle := h.used_le
  have hleft : c.remainingSize ≠ 0 := fun hdone => by
    rw [demand_done hdone] at hover
    omega
  induction rounds generalizing c with
  | zero => exact absurd (Nat.le_zero.mp hrounds) hleft
  | succ rounds ih =>
    rw [roundsAccesses, if_neg hleft]
    rcases Nat.lt_or_eq_of_le hle with hroom | hfull
    · obtain ⟨c₁, hround, h₁, hdemand, hless, -⟩ := @Usable.round file fileAddress raiseInt _ h
        hroom (Nat.pos_of_ne_zero hleft)
      rw [← hdemand] at hover
      obtain ⟨i, hi, hpast⟩ := ih h₁ hover (by omega) h₁.used_le fun hdone => by
        rw [demand_done hdone] at hover
        exact absurd h₁.used_le (Nat.not_le.mpr hover)
      rw [hround]
      exact ⟨i, List.mem_append_right _ hi, hpast⟩
    · refine ⟨(selectChannel c.boot).currChannelIndex, ?_, (h.select_full hfull).ge⟩
      exact List.mem_append_left _ (List.mem_cons_of_mem _ List.mem_cons_self)

end Rounds

section Files
variable {request : FirmwareStore} {rounds : Nat} {boot : BootState}

/-- The sizes of the files that come before a missing one. -/
def reachedSizes (request : FirmwareStore) : List HailoFileBatch → List Nat
  | [] => []
  | fileInfo :: rest =>
    if fileInfo.filename = none then []
    else
      match request fileInfo.filename with
      | .error _ => []
      | .ok firmware => firmware.size.toNat :: reachedSizes request rest

/-- The files of a batch up to the first entry without a name. -/
def namedFiles (files : List HailoFileBatch) : List HailoFileBatch :=
  files.takeWhile fun fileInfo => fileInfo.filename.isSome

theorem descsOf_nil : descsOf [] = 0 := rfl

theorem descsOf_cons (size : Nat) (sizes : List Nat) :
    descsOf (size :: sizes) = size ⌈/⌉ 512 + descsOf sizes := by
  rw [descsOf, List.map_cons, List.sum_cons, descsOf]

theorem Usable.oneFile (h : Usable boot) {file : Nat} {fileInfo : HailoFileBatch}
    {raiseInt : Bool} {firmware : LoadedFile} (hload : request fileInfo.filename = .ok firmware)
    (hfit : used boot + firmware.size.toNat ⌈/⌉ 512 ≤ hailoPciOverVdmaNumChannels * 65535) :
    (rounds < firmware.size.toNat ∧
      pcieVdmaProgramOneFile request rounds file fileInfo raiseInt boot = .ok none) ∨
    ∃ ret boot', pcieVdmaProgramOneFile request rounds file fileInfo raiseInt boot =
        .ok (some (ret, boot')) ∧ ¬ ret < 0 ∧ Usable boot' ∧
      used boot' = used boot + firmware.size.toNat ⌈/⌉ 512 := by
  rcases @Usable.programRounds file fileInfo.address raiseInt ⟨firmware.size.toNat, 0, 0, boot⟩
    rounds h hfit (by decide : ¬ (0 : Int32) < 0) with
    ⟨hless, hnone⟩ | ⟨c, hrun, husable, hused, hret⟩
  · refine Or.inl ⟨hless, ?_⟩
    simp only [pcieVdmaProgramOneFile, hload, hnone, ok_bind]
    rfl
  · refine Or.inr ⟨c.descProgrammed, c.boot, ?_, hret, husable, hused⟩
    simp only [pcieVdmaProgramOneFile, hload, hrun, ok_bind]
    rfl

theorem oneFile_missing {file : Nat} {fileInfo : HailoFileBatch} {raiseInt : Bool}
    {err : RequestError} (hload : request fileInfo.filename = .error err) :
    pcieVdmaProgramOneFile request rounds file fileInfo raiseInt boot =
      .ok (some (err.val, boot)) := by
  rw [pcieVdmaProgramOneFile, hload]

theorem reachedSizes_named {fileInfo : HailoFileBatch} {rest : List HailoFileBatch}
    {firmware : LoadedFile} (hnamed : fileInfo.filename ≠ none)
    (hload : request fileInfo.filename = .ok firmware) :
    reachedSizes request (fileInfo :: rest) = firmware.size.toNat :: reachedSizes request rest := by
  rw [reachedSizes, if_neg hnamed, hload]

theorem Usable.filesAccesses_lt (h : Usable boot) {file : Nat} {files : List HailoFileBatch}
    (hfit : used boot + descsOf (reachedSizes request files) ≤
      hailoPciOverVdmaNumChannels * 65535) :
    ∀ i ∈ filesAccesses request rounds file files boot, i.toNat < hailoPciOverVdmaNumChannels := by
  induction files generalizing file boot with
  | nil => exact fun i hi => absurd hi List.not_mem_nil
  | cons fileInfo rest ih =>
    intro i hi
    rw [filesAccesses] at hi
    split at hi
    · exact absurd hi List.not_mem_nil
    next hnamed =>
    cases hload : request fileInfo.filename with
    | error err =>
      rw [fileAccesses, hload, oneFile_missing hload, List.nil_append] at hi
      simp only [if_pos err.val_neg] at hi
      exact absurd hi List.not_mem_nil
    | ok firmware =>
      rw [reachedSizes_named hnamed hload, descsOf_cons, ← Nat.add_assoc] at hfit
      have hfirst := (Nat.le_add_right _ _).trans hfit
      rcases List.mem_append.mp hi with hi | hi
      · rw [fileAccesses, hload] at hi
        exact @Usable.roundsAccesses_lt file fileInfo.address rest.isEmpty
          ⟨firmware.size.toNat, 0, 0, boot⟩ rounds h hfirst i hi
      · rcases @Usable.oneFile request rounds _ h file fileInfo rest.isEmpty _ hload hfirst with
          ⟨-, hnone⟩ | ⟨ret, boot', hrun, hret, h', hused⟩
        · rw [hnone] at hi
          exact absurd hi List.not_mem_nil
        · rw [hrun] at hi
          simp only [if_neg hret] at hi
          rw [← hused] at hfit
          exact ih h' hfit i hi

theorem Usable.filesAccesses_over (h : Usable boot) {file : Nat} {files : List HailoFileBatch}
    (hover : hailoPciOverVdmaNumChannels * 65535 <
      used boot + descsOf (reachedSizes request files))
    (hrounds : ∀ size ∈ reachedSizes request files, size ≤ rounds) :
    ∃ i ∈ filesAccesses request rounds file files boot,
      hailoPciOverVdmaNumChannels ≤ i.toNat := by
  induction files generalizing file boot with
  | nil =>
    rw [reachedSizes, descsOf_nil, Nat.add_zero] at hover
    exact absurd h.used_le (Nat.not_le.mpr hover)
  | cons fileInfo rest ih =>
    by_cases hnamed : fileInfo.filename = none
    · rw [reachedSizes, if_pos hnamed, descsOf_nil, Nat.add_zero] at hover
      exact absurd h.used_le (Nat.not_le.mpr hover)
    cases hload : request fileInfo.filename with
    | error err =>
      rw [reachedSizes, if_neg hnamed, hload] at hover
      simp only [descsOf_nil, Nat.add_zero] at hover
      exact absurd h.used_le (Nat.not_le.mpr hover)
    | ok firmware =>
      rw [reachedSizes_named hnamed hload] at hover hrounds
      rw [descsOf_cons, ← Nat.add_assoc] at hover
      have hsize := hrounds _ List.mem_cons_self
      rw [filesAccesses, if_neg hnamed]
      by_cases hfirst : used boot + firmware.size.toNat ⌈/⌉ 512 ≤
          hailoPciOverVdmaNumChannels * 65535
      · rcases @Usable.oneFile request rounds _ h file fileInfo rest.isEmpty _ hload hfirst with
          ⟨hless, -⟩ | ⟨ret, boot', hrun, hret, h', hused⟩
        · exact absurd hsize (Nat.not_le.mpr hless)
        · rw [hrun]
          simp only [if_neg hret]
          rw [← hused] at hover
          obtain ⟨i, hi, hpast⟩ := @ih _ h' (file + 1) hover
            fun size hmem => hrounds size (List.mem_cons_of_mem _ hmem)
          exact ⟨i, List.mem_append_right _ hi, hpast⟩
      · have hstart : used boot + firmware.size.toNat ⌈/⌉ 512 =
            demand ⟨firmware.size.toNat, 0, 0, boot⟩ := rfl
        rw [hstart] at hfirst
        obtain ⟨i, hi, hpast⟩ := @Usable.roundsAccesses_over file fileInfo.address rest.isEmpty
          ⟨firmware.size.toNat, 0, 0, boot⟩ rounds h (Nat.not_le.mp hfirst) hsize
        refine ⟨i, List.mem_append_left _ ?_, hpast⟩
        rw [fileAccesses, hload]
        exact hi

/-- A batch whose files fit ends with the channels usable, and with an error if one is missing. -/
theorem Usable.programFiles (h : Usable boot) {file : Nat} {files : List HailoFileBatch}
    (hfit : used boot + descsOf (reachedSizes request files) ≤
      hailoPciOverVdmaNumChannels * 65535)
    (hrounds : ∀ size ∈ reachedSizes request files, size ≤ rounds) :
    ∃ err boot', programFiles request rounds file files boot = .ok (some (err, boot')) ∧
      Usable boot' ∧ used boot' = used boot + descsOf (reachedSizes request files) ∧
      (err < 0 ∨ reachedSizes request files = fileSizes request (namedFiles files)) := by
  induction files generalizing file boot with
  | nil =>
    rw [reachedSizes, descsOf_nil, Nat.add_zero]
    exact ⟨0, boot, rfl, h, rfl, Or.inr rfl⟩
  | cons fileInfo rest ih =>
    by_cases hnamed : fileInfo.filename = none
    · rw [reachedSizes, if_pos hnamed, descsOf_nil, Nat.add_zero, BootProgramming.programFiles,
        if_pos hnamed]
      refine ⟨0, boot, rfl, h, rfl, Or.inr ?_⟩
      rw [namedFiles, List.takeWhile_cons_of_neg (by rw [hnamed]; decide)]
      rfl
    rw [BootProgramming.programFiles, if_neg hnamed]
    cases hload : request fileInfo.filename with
    | error err =>
      rw [oneFile_missing hload, ok_bind, reachedSizes, if_neg hnamed, hload]
      simp only [if_pos err.val_neg, descsOf_nil, Nat.add_zero]
      exact ⟨err.val, boot, rfl, h, rfl, Or.inl err.val_neg⟩
    | ok firmware =>
      rw [reachedSizes_named hnamed hload] at hfit hrounds ⊢
      rw [descsOf_cons, ← Nat.add_assoc] at hfit ⊢
      rcases @Usable.oneFile request rounds _ h file fileInfo rest.isEmpty _ hload
        ((Nat.le_add_right _ _).trans hfit) with ⟨hless, -⟩ | ⟨ret, boot₁, hrun, hret, h₁, hused⟩
      · exact absurd (hrounds _ List.mem_cons_self) (Nat.not_le.mpr hless)
      · rw [← hused] at hfit ⊢
        obtain ⟨err, boot', hrest, h', hused', hend⟩ := @ih _ h₁ (file + 1) hfit
          fun size hmem => hrounds size (List.mem_cons_of_mem _ hmem)
        rw [hrun, ok_bind]
        simp only [if_neg hret]
        refine ⟨err, boot', hrest, h', hused', hend.imp_right fun hsame => ?_⟩
        have hsome : fileInfo.filename.isSome = true := Option.isSome_iff_ne_none.mpr hnamed
        rw [namedFiles, List.takeWhile_cons, hsome, if_pos rfl, fileSizes, List.map_cons, hload,
          hsame]
        rfl

end Files

/-- The batch looks at the eight channels only, and is turned down when its files do not fit. -/
structure StaysWithin (request : FirmwareStore) (stageInfo : HailoPcieLoadingStage)
    (boot : BootState) : Prop where
  indices : ∀ rounds, ∀ i ∈ batchAccesses request rounds stageInfo boot,
    i.toNat < hailoPciOverVdmaNumChannels
  turnedDown : hailoPciOverVdmaNumChannels * 65535 <
      used boot + descsOf (fileSizes request (namedFiles stageInfo.files)) →
    ∃ enough, ∀ rounds, enough ≤ rounds → ∃ err boot',
      pcieVdmaProgramEntireBatch request rounds stageInfo boot = .ok (some (err, boot')) ∧ err < 0

section Batch
variable {request : FirmwareStore} {stageInfo : HailoPcieLoadingStage} {boot : BootState}

theorem exists_bound (sizes : List Nat) : ∃ enough, ∀ size ∈ sizes, size ≤ enough :=
  ⟨sizes.sum, fun _ hmem => List.le_sum_of_mem hmem⟩

/-- A batch stays within the channels exactly if they have room for the files that come before a
missing one. -/
theorem staysWithin_iff (h : Usable boot) :
    StaysWithin request stageInfo boot ↔
      used boot + descsOf (reachedSizes request stageInfo.files) ≤
        hailoPciOverVdmaNumChannels * 65535 := by
  obtain ⟨enough, henough⟩ := exists_bound (reachedSizes request stageInfo.files)
  constructor
  · intro hwithin
    by_contra hover
    obtain ⟨i, hi, hpast⟩ := @Usable.filesAccesses_over request enough boot h 0 _
      (Nat.not_le.mp hover) henough
    exact absurd (hwithin.indices enough i hi) (Nat.not_lt.mpr hpast)
  · intro hfit
    refine ⟨fun rounds => h.filesAccesses_lt hfit, fun hover => ⟨enough, fun rounds hrounds => ?_⟩⟩
    obtain ⟨err, boot', hrun, -, -, herr | hall⟩ := @Usable.programFiles request rounds boot h 0 _
      hfit fun size hmem => (henough size hmem).trans hrounds
    · exact ⟨err, boot', hrun, herr⟩
    · rw [hall] at hfit
      exact absurd hfit (Nat.not_le.mpr hover)

end Batch

section Examples
variable {sizeOf : Option String → Nat} (hlt : ∀ name, sizeOf name < 2 ^ 64)

theorem reachedSizes_imagesOf {files : List HailoFileBatch}
    (hnamed : ∀ fileInfo ∈ files, fileInfo.filename ≠ none) :
    reachedSizes (imagesOf hlt) files = files.map fun fileInfo => sizeOf fileInfo.filename := by
  induction files with
  | nil => rfl
  | cons fileInfo rest ih =>
    obtain ⟨firmware, hload⟩ : ∃ firmware, imagesOf hlt fileInfo.filename = .ok firmware :=
      ⟨_, rfl⟩
    rw [reachedSizes_named (hnamed _ List.mem_cons_self) hload, size_imagesOf hlt hload,
      ih fun f hf => hnamed f (List.mem_cons_of_mem _ hf), List.map_cons]

theorem usable_emptyBoot : Usable emptyBoot where
  index := by decide
  count := by decide
  later _ _ _ := rfl
  ready := emptyBoot_fresh.ready
  space c _ := emptyBoot_room c

/-- The file system fills 256 MiB, half of what the table allows it; the others take a page. -/
def largeImage (name : Option String) : Nat :=
  if name = some "hailo/hailo10h/image-fs" then 0x10000000 else 512

theorem largeImage_lt (name : Option String) : largeImage name < 2 ^ 64 := by
  unfold largeImage
  split
  · decide
  · decide

/-- A channel holds one page less than 32 MiB, and the file is continued in a ninth one. -/
theorem largeImage_pastChannels :
    (∃ rounds, ∃ i ∈ batchAccesses (imagesOf largeImage_lt) rounds linuxStage emptyBoot,
      hailoPciOverVdmaNumChannels ≤ i.toNat) ∧
    ¬ StaysWithin (imagesOf largeImage_lt) linuxStage emptyBoot := by
  have hreached : reachedSizes (imagesOf largeImage_lt) linuxStage.files =
      [512, 512, 512, 0x10000000] := by
    rw [reachedSizes_imagesOf largeImage_lt (by decide)]
    decide
  have hused : used emptyBoot = 0 := rfl
  have hover : hailoPciOverVdmaNumChannels * 65535 <
      used emptyBoot + descsOf (reachedSizes (imagesOf largeImage_lt) linuxStage.files) := by
    rw [hreached, hused]
    decide
  obtain ⟨enough, henough⟩ := exists_bound (reachedSizes (imagesOf largeImage_lt) linuxStage.files)
  have hpast : ∃ i ∈ batchAccesses (imagesOf largeImage_lt) enough linuxStage emptyBoot,
      hailoPciOverVdmaNumChannels ≤ i.toNat := usable_emptyBoot.filesAccesses_over hover henough
  refine ⟨⟨enough, hpast⟩, fun hwithin => ?_⟩
  obtain ⟨i, hi, hindex⟩ := hpast
  exact absurd (hwithin.indices enough i hi) (Nat.not_lt.mpr hindex)

theorem staysWithin_iff_hundredBytes :
    StaysWithin (imagesOf hundredBytes_lt) linuxStage emptyBoot := by
  refine (staysWithin_iff usable_emptyBoot).mpr ?_
  have hused : used emptyBoot = 0 := rfl
  rw [reachedSizes_imagesOf hundredBytes_lt (by decide), hused]
  decide

end Examples

end HailortDrivers.BootChannelBounds
