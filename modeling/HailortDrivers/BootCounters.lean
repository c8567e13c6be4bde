import HailortDrivers.BootDelivery

/-!
The counter of the first boot channel. Once a descriptor of it is programmed it stays above
zero, over all rounds and files, whatever the state they start from.
-/
namespace HailortDrivers.BootCounters
open KernelExec MachineWord VdmaTypes DescriptorProgramming PagePacking ProgrammedPages
open FirmwareLoading BootProgramming BootDescriptors BootRounds BootBatch BootSuccess BootDelivery

/-- Channel 0 has descriptors, and no more than its list. -/
structure Counted (boot : BootState) : Prop where
  list : BootList (boot.channels 0).deviceDescriptorsBuffer
  pos : 0 < (boot.channels 0).descProgramNum.toNat
  le : (boot.channels 0).descProgramNum.toNat ≤ 65536

/-- The boot state behind a round. -/
def roundBoot : RoundExit → BootState
  | .next c => c.boot
  | .failed _ boot => boot

section Descriptors
variable {channel channel' : HailoPcieBootDmaChannelState} {ret : Int32}

/-- The device side turns down what does not fit in its list. -/
theorem inChunk_room {l l' : HailoVdmaDescriptorsList} (hl : BootList l) {chunkAddr : UInt64}
    {chunkSize startingDesc : UInt32} (hstart : startingDesc.toNat ≤ 65536)
    (h : hailoVdmaProgramDescriptorsInChunk chunkAddr chunkSize l startingDesc (l.descCount - 1)
      hailoPciEpHostDmaDataId defaultStride 0 = .ok (ret, l')) :
    BootList l' ∧ (¬ ret < 0 → startingDesc.toNat + ret.toUInt32.toNat ≤ 65536) := by
  have hpage : l.descPageSize.toUInt32 = 512 := by
    rw [hl.eq]
    rfl
  have hmax : (l.descCount - 1 + 1).toNat = 65536 := by rw [UInt32.sub_add_cancel, hl.descCount]
  have hsmall : (descsToProgram 512 chunkSize).toNat ≤ 2 ^ 23 := by
    have h512 : (512 : UInt32).toNat = 512 := rfl
    have hlt := (chunkSize + 512 - 1).toNat_lt
    rw [descsToProgram, UInt32.toNat_div, h512]
    omega
  rw [hailoVdmaProgramDescriptorsInChunk_eq hpage (by decide)] at h
  have hpair := Except.ok.inj h
  split at hpair
  · cases hpair
    exact ⟨hl, fun hret => absurd (by decide) hret⟩
  · next hroom =>
    cases hpair
    refine ⟨hl.withDescs _, fun _ => ?_⟩
    rw [gt_iff_lt, UInt32.lt_iff_toNat_lt, hmax, toNat_add_of_lt (by omega)] at hroom
    rw [UInt32.toUInt32_toInt32]
    omega

theorem oneFileDescriptors_room (hlist : BootList channel.deviceDescriptorsBuffer)
    (hle : channel.descProgramNum.toNat ≤ 65536) {fileAddress : UInt32}
    {transferBuffer : HailoVdmaMappedTransferBuffer} {channelIndex : UInt8} {raiseInt : Bool}
    (h : pcieVdmaProgramOneFileDescriptors channel fileAddress transferBuffer channelIndex
      raiseInt = .ok (ret, channel')) :
    BootList channel'.deviceDescriptorsBuffer ∧
      channel'.descProgramNum = channel.descProgramNum ∧
      (¬ ret < 0 → channel.descProgramNum.toNat + ret.toUInt32.toNat ≤ 65536) := by
  obtain ⟨⟨deviceDesc, deviceList⟩, hdevice, h⟩ := bind_ok h
  obtain ⟨hlist', hroom⟩ := inChunk_room hlist hle hdevice
  simp only at h
  split at h
  · cases h
    exact ⟨hlist', rfl, hroom⟩
  obtain ⟨⟨hostDesc, hostList⟩, -, h⟩ := bind_ok h
  simp only at h
  split at h
  · next hneg =>
    cases h
    exact ⟨hlist', rfl, fun hret => absurd hneg hret⟩
  split at h
  · cases h
    exact ⟨hlist', rfl, fun hret => absurd (by decide) hret⟩
  · next hsame =>
    cases h
    rw [not_not.mp hsame]
    exact ⟨hlist', rfl, hroom⟩

end Descriptors

section Rounds
variable {file : Nat} {fileAddress : UInt32} {raiseInt : Bool}

theorem Counted.setCurrChannel {s : BootState} (h : Counted s)
    {channel : HailoPcieBootDmaChannelState}
    (hcurr : s.currChannelIndex.toNat = 0 → BootList channel.deviceDescriptorsBuffer ∧
      0 < channel.descProgramNum.toNat ∧ channel.descProgramNum.toNat ≤ 65536) :
    Counted (s.setCurrChannel channel) := by
  by_cases hzero : s.currChannelIndex.toNat = 0
  · obtain ⟨hlist, hpos, hle⟩ := hcurr hzero
    have hchannel : (s.setCurrChannel channel).channels 0 = channel := by
      rw [channels_setCurrChannel, hzero, Function.update_self]
    exact ⟨by rwa [hchannel], by rwa [hchannel], by rwa [hchannel]⟩
  · have hchannel : (s.setCurrChannel channel).channels 0 = s.channels 0 := by
      rw [channels_setCurrChannel, Function.update_of_ne (Ne.symm hzero)]
    exact ⟨by rw [hchannel]; exact h.list, by rw [hchannel]; exact h.pos,
      by rw [hchannel]; exact h.le⟩

theorem selectChannel_channels (s : BootState) : (selectChannel s).channels = s.channels := by
  unfold selectChannel
  split
  · rfl
  · rfl

theorem Counted.select {s : BootState} (h : Counted s) :
    Counted (selectChannel s) := by
  obtain ⟨hlist, hpos, hle⟩ := h
  rw [← selectChannel_channels] at hlist hpos hle
  exact ⟨hlist, hpos, hle⟩

theorem Counted.round {c : FileCursor} (h : Counted c.boot) {exit : RoundExit}
    (hround : programRound file fileAddress raiseInt c = .ok exit) : Counted (roundBoot exit) := by
  have hselect := h.select
  have hcurr (hzero : (selectChannel c.boot).currChannelIndex.toNat = 0) :
      (selectChannel c.boot).currChannel = (selectChannel c.boot).channels 0 := by
    rw [BootState.currChannel, hzero]
  simp only [programRound] at hround
  split at hround
  · cases hround
    refine hselect.setCurrChannel fun hzero => ?_
    rw [hcurr hzero]
    exact ⟨hselect.list, hselect.pos, hselect.le⟩
  obtain ⟨⟨ret, channel⟩, hdescs, hround⟩ := bind_ok hround
  have hroom (hzero : (selectChannel c.boot).currChannelIndex.toNat = 0) :
      BootList channel.deviceDescriptorsBuffer ∧
        channel.descProgramNum = ((selectChannel c.boot).channels 0).descProgramNum ∧
        (¬ ret < 0 → ((selectChannel c.boot).channels 0).descProgramNum.toNat +
          ret.toUInt32.toNat ≤ 65536) := by
    rw [hcurr hzero] at hdescs
    have hkept := fun hlist hle => oneFileDescriptors_room hlist hle hdescs
    exact hkept hselect.list hselect.le
  have hpos := hselect.pos
  simp only at hround
  split at hround
  · cases hround
    refine hselect.setCurrChannel fun hzero => ?_
    obtain ⟨hlist, hnum, -⟩ := hroom hzero
    rw [hnum]
    exact ⟨hlist, hselect.pos, hselect.le⟩
  · next hret =>
    cases hround
    refine hselect.setCurrChannel fun hzero => ?_
    obtain ⟨hlist, hnum, hle⟩ := hroom hzero
    have hle' := hle hret
    refine ⟨hlist, ?_, ?_⟩
    · rw [hnum, toNat_add_of_lt (by omega)]
      omega
    · rw [hnum, toNat_add_of_lt (by omega)]
      exact hle'

theorem Counted.rounds {rounds : Nat} {c : FileCursor} (h : Counted c.boot) {exit : RoundExit}
    (hrun : programRounds file fileAddress raiseInt rounds c = .ok (some exit)) :
    Counted (roundBoot exit) := by
  induction rounds generalizing c with
  | zero =>
    by_cases hdone : c.remainingSize = 0
    · rw [programRounds_done hdone] at hrun
      cases hrun
      exact h
    · rw [programRounds_none hdone] at hrun
      cases hrun
  | succ rounds ih =>
    by_cases hdone : c.remainingSize = 0
    · rw [programRounds_done hdone] at hrun
      cases hrun
      exact h
    · rw [programRounds_succ hdone] at hrun
      obtain ⟨exit₁, hround, hrun⟩ := bind_ok hrun
      have hcounted := h.round hround
      cases exit₁ with
      | failed err boot =>
        cases hrun
        exact hcounted
      | next c₁ => exact ih hcounted hrun

end Rounds

section Files
variable {request : FirmwareStore} {rounds : Nat}

/-- A file that is found leaves the state that its last round left. -/
theorem oneFile_exit {file : Nat} {fileInfo : HailoFileBatch} {raiseInt : Bool}
    {boot boot' : BootState} {ret : Int32} {firmware : LoadedFile}
    (hload : request fileInfo.filename = .ok firmware)
    (hrun : pcieVdmaProgramOneFile request rounds file fileInfo raiseInt boot =
      .ok (some (ret, boot'))) :
    ∃ exit, programRounds file fileInfo.address raiseInt rounds
      ⟨firmware.size.toNat, 0, 0, boot⟩ = .ok (some exit) ∧ boot' = roundBoot exit := by
  rw [pcieVdmaProgramOneFile, hload] at hrun
  obtain ⟨result, hrounds, hrun⟩ := bind_ok hrun
  cases result with
  | none => cases hrun
  | some exit =>
    refine ⟨exit, hrounds, ?_⟩
    cases exit with
    | failed err boot₁ =>
      cases hrun
      rfl
    | next c =>
      cases hrun
      rfl

theorem Counted.oneFile {file : Nat} {fileInfo : HailoFileBatch} {raiseInt : Bool}
    {boot boot' : BootState} {ret : Int32} (h : Counted boot)
    (hrun : pcieVdmaProgramOneFile request rounds file fileInfo raiseInt boot =
      .ok (some (ret, boot'))) : Counted boot' := by
  cases hload : request fileInfo.filename with
  | error err =>
    rw [pcieVdmaProgramOneFile, hload] at hrun
    cases hrun
    exact h
  | ok firmware =>
    obtain ⟨exit, hrounds, rfl⟩ := oneFile_exit hload hrun
    exact Counted.rounds h hrounds

theorem Counted.files {file : Nat} {files : List HailoFileBatch} {boot boot' : BootState}
    {ret : Int32} (h : Counted boot)
    (hrun : programFiles request rounds file files boot = .ok (some (ret, boot'))) :
    Counted boot' := by
  induction files generalizing file boot with
  | nil =>
    cases hrun
    exact h
  | cons fileInfo rest ih =>
    rw [programFiles] at hrun
    split at hrun
    · cases hrun
      exact h
    obtain ⟨result, hfile, hrun⟩ := bind_ok hrun
    cases result with
    | none => cases hrun
    | some pair =>
      obtain ⟨err, boot₁⟩ := pair
      have hcounted := h.oneFile hfile
      simp only at hrun
      split at hrun
      · cases hrun
        exact hcounted
      · exact ih hcounted hrun

end Files

section Fresh
variable {request : FirmwareStore} {rounds : Nat} {boot boot' : BootState} {ret : Int32}

/-- The batch ends or fails before it comes to a file that has bytes. -/
def ReachesNoBytes (request : FirmwareStore) : List HailoFileBatch → Prop
  | [] => True
  | fileInfo :: rest => fileInfo.filename = none ∨
    match request fileInfo.filename with
    | .error _ => True
    | .ok firmware => firmware.size.toNat = 0 ∧ ReachesNoBytes request rest

theorem oneFile_empty {file : Nat} {fileInfo : HailoFileBatch} {raiseInt : Bool}
    {firmware : LoadedFile} (hload : request fileInfo.filename = .ok firmware)
    (hempty : firmware.size.toNat = 0) :
    pcieVdmaProgramOneFile request rounds file fileInfo raiseInt boot = .ok (some (0, boot)) := by
  have hdone : programRounds file fileInfo.address raiseInt rounds
      ⟨firmware.size.toNat, 0, 0, boot⟩ = .ok (some (.next ⟨firmware.size.toNat, 0, 0, boot⟩)) :=
    programRounds_done hempty
  simp only [pcieVdmaProgramOneFile, hload, hdone, ok_bind]
  rfl

/-- A batch that reaches no bytes leaves the boot state alone. -/
theorem files_noBytes {file : Nat} {files : List HailoFileBatch}
    (hnone : ReachesNoBytes request files)
    (hrun : programFiles request rounds file files boot = .ok (some (ret, boot'))) :
    boot' = boot := by
  induction files generalizing file with
  | nil =>
    cases hrun
    rfl
  | cons fileInfo rest ih =>
    rw [programFiles] at hrun
    split at hrun
    · cases hrun
      rfl
    next hnamed =>
    have hrest := hnone.resolve_left hnamed
    cases hload : request fileInfo.filename with
    | error err =>
      rw [pcieVdmaProgramOneFile, hload, ok_bind] at hrun
      simp only [if_pos err.val_neg] at hrun
      cases hrun
      rfl
    | ok firmware =>
      rw [hload] at hrest
      rw [oneFile_empty hload hrest.1, ok_bind] at hrun
      exact ih hrest.2 hrun

/-- The first round of a file on fresh channels counts its descriptors. -/
theorem counted_of_round (hfresh : FreshBoot boot) (hspace : ∀ c < 8, ChannelRoom (boot.channels c))
    {file size : Nat} (hsize : 0 < size) {fileAddress : UInt32} {raiseInt : Bool}
    {exit : RoundExit}
    (hround : programRound file fileAddress raiseInt ⟨size, 0, 0, boot⟩ = .ok exit) :
    Counted (roundBoot exit) := by
  have h : Programmed (fun _ => fileAddress.toNat) boot [] false boot := hfresh.programmed
  have hlt : ([] : List Page).length < 8 * 65535 := by decide
  obtain ⟨c, hnext⟩ : ∃ c, programRound file fileAddress raiseInt ⟨size, 0, 0, boot⟩ =
      .ok (.next c) := programRound_total hspace h hlt hsize
  cases hround.symm.trans hnext
  obtain ⟨-, -, -, hadd⟩ := programRound_next h rfl hsize (Nat.zero_mul 512).symm hlt hnext
  have hcount : (c.boot.channels 0).descProgramNum.toNat = 0 + roundBytes 0 size ⌈/⌉ 512 :=
    hadd.count
  have hpos : 0 < roundBytes 0 size ⌈/⌉ 512 := ceilDiv_pos (by decide) (roundBytes_pos hsize)
  have hfit : 0 + roundBytes 0 size ⌈/⌉ 512 ≤ 65535 := roundBytes_fit 0 size
  exact ⟨hadd.device.bootList, by rw [roundBoot, hcount]; omega, by rw [roundBoot, hcount]; omega⟩

theorem counted_of_rounds (hfresh : FreshBoot boot)
    (hspace : ∀ c < 8, ChannelRoom (boot.channels c)) {file size : Nat} (hsize : 0 < size)
    {fileAddress : UInt32} {raiseInt : Bool} {exit : RoundExit}
    (hrun : programRounds file fileAddress raiseInt rounds ⟨size, 0, 0, boot⟩ = .ok (some exit)) :
    Counted (roundBoot exit) := by
  have hleft : (⟨size, 0, 0, boot⟩ : FileCursor).remainingSize ≠ 0 := hsize.ne'
  cases rounds with
  | zero =>
    rw [programRounds_none hleft] at hrun
    cases hrun
  | succ rounds =>
    rw [programRounds_succ hleft] at hrun
    obtain ⟨exit₁, hround, hrun⟩ := bind_ok hrun
    have hcounted := counted_of_round hfresh hspace hsize hround
    cases exit₁ with
    | failed err boot₁ =>
      cases hrun
      exact hcounted
    | next c => exact Counted.rounds hcounted hrun

/-- A batch that reaches bytes on fresh channels counts descriptors, also when it fails. -/
theorem counted_of_files (hfresh : FreshBoot boot)
    (hspace : ∀ c < 8, ChannelRoom (boot.channels c)) {file : Nat} {files : List HailoFileBatch}
    (hbytes : ¬ ReachesNoBytes request files)
    (hrun : programFiles request rounds file files boot = .ok (some (ret, boot'))) :
    Counted boot' := by
  induction files generalizing file with
  | nil => exact absurd trivial hbytes
  | cons fileInfo rest ih =>
    have hbytes' := not_or.mp hbytes
    rw [programFiles, if_neg hbytes'.1] at hrun
    cases hload : request fileInfo.filename with
    | error err =>
      rw [hload] at hbytes'
      exact absurd trivial hbytes'.2
    | ok firmware =>
      rw [hload] at hbytes'
      by_cases hempty : firmware.size.toNat = 0
      · rw [oneFile_empty hload hempty, ok_bind] at hrun
        exact ih (fun hrest => hbytes'.2 ⟨hempty, hrest⟩) hrun
      · obtain ⟨result, hfile, hrun⟩ := bind_ok hrun
        cases result with
        | none => cases hrun
        | some pair =>
          obtain ⟨err, boot₁⟩ := pair
          obtain ⟨exit, hrounds, rfl⟩ := oneFile_exit hload hfile
          have hcounted := counted_of_rounds hfresh hspace (Nat.pos_of_ne_zero hempty) hrounds
          simp only at hrun
          split at hrun
          · cases hrun
            exact hcounted
          · exact hcounted.files hrun

end Fresh

end HailortDrivers.BootCounters
