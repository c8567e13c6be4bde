import HailortDrivers.BootActivation
import HailortDrivers.BootCounters
import HailortDrivers.BootTransfer

/-!
Whether each run of a batch over vDMA does what one behind the probe does. The probe alone sets
up the counters of the channels, their index and the bitmap, so this holds as long as no batch
reached the bytes of a file and no interrupt reported channel 0.
-/
namespace HailortDrivers.CleanBoot
open KernelExec KernelCompletion EventRuns VdmaTypes SoftReset PagePacking FirmwareLoading
open BootProgramming BootRounds BootBatch BootSuccess BootDelivery BootInterrupts BootTransfer
open BootActivation BootCounters

/-- What a run of `pcie_write_firmware_batch_over_dma` does: the descriptors it leaves, what it
starts the channels with, and on which interrupts the transfer counts as done. -/
inductive BatchRun
  | unallocated (err : Int32)
  | programmed (err : Int32) (hostDescs deviceDescs : Nat → Nat → HailoVdmaDescriptor)
      (numAvail : Nat → Option UInt16) (signals : List HailoPcieInterruptSource → Bool)

/-- Channels without descriptors are not started. -/
def numAvail (boot : BootState) (c : Nat) : Option UInt16 :=
  if c < hailoPciOverVdmaNumChannels ∧ (boot.channels c).descProgramNum ≠ 0 then
    some (boot.channels c).descProgramNum.toUInt16
  else none

def signalsOn (s : HailoPcieBoard) (irqSources : List HailoPcieInterruptSource) : Bool :=
  (irqSources.foldl HailoPcieBoard.bootIrqHandler s).vdmaBootCompletion.done != 0

def observe (env : BatchEnv) (err : Int32) (s : HailoPcieBoard) : BatchRun :=
  match env.allocation with
  | .failed _ _ _ => .unallocated err
  | .created _ =>
    .programmed err (fun c d => (s.boot.channels c).hostDescriptorsBuffer.descList d)
      (fun c d => (s.boot.channels c).deviceDescriptorsBuffer.descList d)
      (if err < 0 then fun _ => none else numAvail s.boot) (signalsOn s)

def batchRun (stageInfo : HailoPcieLoadingStage) (env : BatchEnv) (s : HailoPcieBoard) :
    Exec (Option BatchRun) := do
  match ← pcieWriteFirmwareBatchOverDma stageInfo env s with
  | none => return none
  | some (err, s) => return some (observe env err s)

/-- With the same memory and files, a run does what it would do behind the probe. -/
def RunsLikeFirst (stageInfo : HailoPcieLoadingStage)
    (beyond : Nat → HailoPcieBootDmaChannelState) (s : HailoPcieBoard) : Prop :=
  ∀ env, batchRun stageInfo env s = batchRun stageInfo env (probedBoard beyond)

/-- The run gets no memory, or its batch reaches no bytes. -/
def ProgramsNothing (stageInfo : HailoPcieLoadingStage) (env : BatchEnv) : Prop :=
  match env.allocation with
  | .failed _ _ _ => True
  | .created _ => ReachesNoBytes env.request stageInfo.files

def KeepsBootClean (stageInfo : HailoPcieLoadingStage) : LoadEvent → Prop
  | .bootIrqHandler irqSource => irqSource.swInterrupts &&& hailoPcieBootIrq ≠ 0 ∨
      hailoTestBit 0 irqSource.vdmaChannelsBitmap = false
  | .writeFirmwareBatchOverDma env => ProgramsNothing stageInfo env
  | _ => True

/-- The boot state is as the probe set it up, but for what allocating puts into the channels. -/
structure LikeProbed (beyond : Nat → HailoPcieBootDmaChannelState) (boot : BootState) : Prop where
  index : boot.currChannelIndex = 0
  bitmap : boot.bootUsedChannelBitmap = 1
  noDescs : ∀ c < hailoPciOverVdmaNumChannels, (boot.channels c).descProgramNum = 0
  outside : ∀ c, hailoPciOverVdmaNumChannels ≤ c → boot.channels c = beyond c

section Probed
variable {beyond : Nat → HailoPcieBootDmaChannelState} {boot : BootState}

theorem likeProbed_probedBoot : LikeProbed beyond (probedBoot beyond) where
  index := rfl
  bitmap := rfl
  noDescs _ hc := probedBoot_descProgramNum beyond hc
  outside _ hc := if_neg (Nat.not_lt.mpr hc)

/-- Allocating wipes out all that a state of this kind can hold. -/
theorem LikeProbed.allocate (h : LikeProbed beyond boot)
    (resources : Nat → BootChannelResources) :
    allocateBootResources resources boot =
      allocateBootResources resources (probedBoot beyond) := by
  have hchannels : (allocateBootResources resources boot).channels =
      (allocateBootResources resources (probedBoot beyond)).channels := by
    funext c
    by_cases hc : c < hailoPciOverVdmaNumChannels
    · rw [allocate_of_lt _ _ hc, allocate_of_lt _ _ hc, h.noDescs c hc,
        probedBoot_descProgramNum beyond hc]
    · rw [allocate_of_le _ _ (Nat.not_lt.mp hc), allocate_of_le _ _ (Nat.not_lt.mp hc),
        h.outside c (Nat.not_lt.mp hc)]
      exact (if_neg hc).symm
  have hindex : (allocateBootResources resources boot).currChannelIndex =
      (allocateBootResources resources (probedBoot beyond)).currChannelIndex := h.index
  have hbitmap : (allocateBootResources resources boot).bootUsedChannelBitmap =
      (allocateBootResources resources (probedBoot beyond)).bootUsedChannelBitmap := h.bitmap
  rw [BootState.mk.injEq]
  exact ⟨hchannels, hindex, hbitmap⟩

theorem LikeProbed.allocated (h : LikeProbed beyond boot)
    (resources : Nat → BootChannelResources) :
    LikeProbed beyond (allocateBootResources resources boot) where
  index := h.index
  bitmap := h.bitmap
  noDescs c hc := by
    rw [allocate_descProgramNum]
    exact h.noDescs c hc
  outside c hc := by
    rw [allocate_of_le _ _ hc]
    exact h.outside c hc

/-- With its memory, such a state is a fresh one. -/
theorem LikeProbed.freshBoot (h : LikeProbed beyond boot) (resources : Nat → AllocatedChannel) :
    FreshBoot (allocateBootResources (fun c => (resources c).toBootChannelResources) boot) where
  index := h.index
  ready c hc := by
    rw [allocate_of_lt _ _ hc, h.noDescs c hc]
    exact (resources c).ready
  noDescs := (h.allocated _).noDescs
  unwritten c hc := by
    rw [allocate_of_lt _ _ hc]
    exact (resources c).unwritten
  distinct c hc := by
    rw [allocate_of_lt _ _ hc]
    exact (resources c).distinct

theorem LikeProbed.room (h : LikeProbed beyond boot) (resources : Nat → AllocatedChannel) :
    ∀ c < 8, ChannelRoom ((allocateBootResources
      (fun c => (resources c).toBootChannelResources) boot).channels c) := by
  intro c hc
  rw [allocate_of_lt _ _ hc, h.noDescs c hc]
  exact (resources c).room

end Probed

section Signals
variable {s s' : HailoPcieBoard}

/-- The handler looks at the bitmap and the completion of the transfer. -/
theorem signalsOn_congr (hbitmap : s.boot.bootUsedChannelBitmap = s'.boot.bootUsedChannelBitmap)
    (hcompletion : s.vdmaBootCompletion = s'.vdmaBootCompletion) : signalsOn s = signalsOn s' := by
  funext irqSources
  induction irqSources generalizing s s' with
  | nil => simp only [signalsOn, List.foldl_nil, hcompletion]
  | cons irqSource irqSources ih =>
    refine ih ?_ ?_
    · simp only [HailoPcieBoard.bootIrqHandler, HailoPcieBoard.fwBoot, completeBoot, hbitmap]
      split
      · rfl
      · rfl
    · simp only [HailoPcieBoard.bootIrqHandler, HailoPcieBoard.fwBoot, completeBoot, hbitmap,
        hcompletion]
      split
      · rfl
      · rfl

end Signals

section Runs
variable {stageInfo : HailoPcieLoadingStage} {beyond : Nat → HailoPcieBootDmaChannelState}
  {env : BatchEnv} {s s' : HailoPcieBoard} {err : Int32}

theorem writeFirmwareBatch_failed {left : Nat → BootChannelResources} {neg : err < 0}
    (hallocation : env.allocation = .failed err neg left) :
    pcieWriteFirmwareBatchOverDma stageInfo env s =
      .ok (some (err, { s with boot := allocateBootResources left s.boot })) := by
  rw [pcieWriteFirmwareBatchOverDma, hallocation]

theorem writeFirmwareBatch_created {resources : Nat → AllocatedChannel}
    (hallocation : env.allocation = .created resources) :
    pcieWriteFirmwareBatchOverDma stageInfo env s = (do
      match ← pcieVdmaProgramEntireBatch env.request env.rounds stageInfo
          (allocateBootResources (fun c => (resources c).toBootChannelResources) s.boot) with
      | none => return none
      | some (err, boot) =>
        return some (err, { s with
          boot := boot
          vdmaBootCompletion := s.vdmaBootCompletion.reinit })) := by
  cases env with
  | mk allocation request rounds =>
    cases hallocation
    rfl

theorem batchRun_failed {left : Nat → BootChannelResources} {neg : err < 0}
    (hallocation : env.allocation = .failed err neg left) :
    batchRun stageInfo env s = .ok (some (.unallocated err)) := by
  rw [batchRun, writeFirmwareBatch_failed hallocation, ok_bind]
  simp only [observe, hallocation]
  rfl

/-- What is seen of a run depends on the channels that its batch leaves. -/
theorem batchRun_created {resources : Nat → AllocatedChannel}
    (hallocation : env.allocation = .created resources) :
    batchRun stageInfo env s = (do
      match ← pcieVdmaProgramEntireBatch env.request env.rounds stageInfo
          (allocateBootResources (fun c => (resources c).toBootChannelResources) s.boot) with
      | none => return none
      | some (err, boot) => return some (observe env err ⟨boot, .init, .init, .idle⟩)) := by
  rw [batchRun, writeFirmwareBatch_created hallocation]
  cases hrun : pcieVdmaProgramEntireBatch env.request env.rounds stageInfo
      (allocateBootResources (fun c => (resources c).toBootChannelResources) s.boot) with
  | error fault => rfl
  | ok result =>
    cases result with
    | none => rfl
    | some pair =>
      have hsignals :
          signalsOn ⟨pair.2, s.fwLoadedCompletion, s.vdmaBootCompletion.reinit, s.phase⟩ =
          signalsOn ⟨pair.2, .init, .init, .idle⟩ := signalsOn_congr rfl rfl
      simp only [ok_bind]
      change Except.ok (some (observe env pair.1 _)) = Except.ok (some (observe env pair.1 _))
      simp only [observe, hallocation, hsignals]

theorem LikeProbed.runsLikeFirst (h : LikeProbed beyond s.boot) :
    RunsLikeFirst stageInfo beyond s := by
  intro env
  cases hallocation : env.allocation with
  | failed err neg left => rw [batchRun_failed hallocation, batchRun_failed hallocation]
  | created resources =>
    rw [batchRun_created hallocation, batchRun_created hallocation, h.allocate]
    rfl

end Runs

/-- Memory of one piece, as `emptyBoot` has it. -/
def onePieceChannel : AllocatedChannel where
  hostDescriptorsBuffer := (emptyBoot.channels 0).hostDescriptorsBuffer
  deviceDescriptorsBuffer := (emptyBoot.channels 0).deviceDescriptorsBuffer
  sgTable := (emptyBoot.channels 0).sgTable
  buffer := (emptyBoot.channels 0).buffer
  ready := emptyBoot_fresh.ready 0 (by decide)
  room := emptyBoot_room 0
  unwritten := emptyBoot_fresh.unwritten 0 (by decide)
  distinct := emptyBoot_fresh.distinct 0 (by decide)

theorem noBytes_lt (_ : Option String) : 0 < 2 ^ 64 := by decide

/-- A run that gets its memory and finds all files empty. -/
def quietEnv : BatchEnv := ⟨.created fun _ => onePieceChannel, imagesOf noBytes_lt, 0⟩

section Quiet
variable {stageInfo : HailoPcieLoadingStage} {beyond : Nat → HailoPcieBootDmaChannelState}
  {s : HailoPcieBoard}

theorem programFiles_noBytes {rounds file : Nat} {files : List HailoFileBatch} {boot : BootState} :
    programFiles (imagesOf noBytes_lt) rounds file files boot = .ok (some (0, boot)) := by
  induction files generalizing file with
  | nil => rfl
  | cons fileInfo rest ih =>
    rw [programFiles]
    split
    · rfl
    · have hload : imagesOf noBytes_lt fileInfo.filename = .ok ⟨⟨[], by decide⟩, 0⟩ := rfl
      rw [oneFile_empty hload rfl, ok_bind]
      exact ih

/-- Such a run shows the counters and the bitmap. -/
theorem batchRun_quiet : batchRun stageInfo quietEnv s = .ok (some (observe quietEnv 0
    ⟨allocateBootResources (fun _ => onePieceChannel.toBootChannelResources) s.boot, .init, .init,
      .idle⟩)) := by
  have hrun : pcieVdmaProgramEntireBatch quietEnv.request quietEnv.rounds stageInfo
      (allocateBootResources (fun _ => onePieceChannel.toBootChannelResources) s.boot) =
      .ok (some (0,
        allocateBootResources (fun _ => onePieceChannel.toBootChannelResources) s.boot)) :=
    programFiles_noBytes
  have hallocation : quietEnv.allocation = .created fun _ => onePieceChannel := rfl
  rw [batchRun_created hallocation, hrun]
  rfl

theorem RunsLikeFirst.shown (h : RunsLikeFirst stageInfo beyond s) :
    numAvail (allocateBootResources (fun _ => onePieceChannel.toBootChannelResources) s.boot) =
        numAvail (allocateBootResources (fun _ => onePieceChannel.toBootChannelResources)
          (probedBoot beyond)) ∧
      signalsOn ⟨allocateBootResources (fun _ => onePieceChannel.toBootChannelResources) s.boot,
          .init, .init, .idle⟩ =
        signalsOn ⟨allocateBootResources (fun _ => onePieceChannel.toBootChannelResources)
          (probedBoot beyond), .init, .init, .idle⟩ := by
  have hquiet := h quietEnv
  rw [batchRun_quiet, batchRun_quiet] at hquiet
  have hseen := Option.some.inj (Except.ok.inj hquiet)
  simp only [observe, quietEnv, if_neg (by decide : ¬ (0 : Int32) < 0)] at hseen
  obtain ⟨-, -, -, hnumAvail, hsignals⟩ := BatchRun.programmed.inj hseen
  exact ⟨hnumAvail, hsignals⟩

theorem RunsLikeFirst.noDescs (h : RunsLikeFirst stageInfo beyond s) {c : Nat}
    (hc : c < hailoPciOverVdmaNumChannels) : (s.boot.channels c).descProgramNum = 0 := by
  have hsame := congrFun h.shown.1 c
  have hprobed : ¬ (c < hailoPciOverVdmaNumChannels ∧ ((allocateBootResources
      (fun _ => onePieceChannel.toBootChannelResources) (probedBoot beyond)).channels
        c).descProgramNum ≠ 0) := by
    rw [allocate_descProgramNum, probedBoot_descProgramNum beyond hc]
    exact fun hne => hne.2 rfl
  rw [numAvail, numAvail, if_neg hprobed, allocate_descProgramNum] at hsame
  split at hsame
  · cases hsame
  · next hzero => exact not_not.mp fun hne => hzero ⟨hc, hne⟩

theorem signalsOn_once (boot : BootState) (channels : UInt32) :
    signalsOn ⟨boot, .init, .init, .idle⟩ [⟨0, channels⟩] =
      decide (boot.bootUsedChannelBitmap &&& (~~~channels).toUInt16 = 0) := by
  have hboot : ¬ ((0 : UInt32) &&& hailoPcieBootIrq ≠ 0) := by decide
  change ((completeBoot ⟨0, channels⟩ _).vdmaBootCompletion.done != 0) = _
  rw [completeBoot, if_neg hboot]
  change ((if boot.bootUsedChannelBitmap &&& (~~~channels).toUInt16 = 0 then
    Completion.init.completeAll else Completion.init).done != 0) = _
  by_cases hzero : boot.bootUsedChannelBitmap &&& (~~~channels).toUInt16 = 0
  · rw [if_pos hzero, decide_eq_true hzero]
    rfl
  · rw [if_neg hzero, decide_eq_false hzero]
    rfl

/-- An interrupt of all channels but the first leaves only its bit. -/
theorem RunsLikeFirst.firstBit (h : RunsLikeFirst stageInfo beyond s) :
    usesChannel s.boot.bootUsedChannelBitmap 0 = true := by
  have hsame := congrFun h.shown.2 [⟨0, 0xFFFFFFFE⟩]
  have hone : (~~~(0xFFFFFFFE : UInt32)).toUInt16 = 1 := by decide
  have hprobed : (probedBoot beyond).bootUsedChannelBitmap = 1 := rfl
  rw [signalsOn_once, signalsOn_once, allocate_bitmap, allocate_bitmap, hone, hprobed,
    decide_eq_false (by decide : ¬ ((1 : UInt16) &&& 1 = 0)), decide_eq_false_iff_not,
    ← UInt16.toNat_inj, UInt16.toNat_and] at hsame
  have hbit : s.boot.bootUsedChannelBitmap.toNat &&& (1 : UInt16).toNat =
      s.boot.bootUsedChannelBitmap.toNat % 2 := Nat.and_one_is_mod _
  have hzero : (0 : UInt16).toNat = 0 := rfl
  rw [hbit, hzero] at hsame
  rw [usesChannel, Nat.testBit_zero, decide_eq_true_eq]
  omega

end Quiet

section Steps
variable {stageInfo : HailoPcieLoadingStage} {beyond : Nat → HailoPcieBootDmaChannelState}
  {s s' : HailoPcieBoard} {event : LoadEvent}

theorem usesChannel_inj {a b : UInt16} (h : ∀ c, usesChannel a c = usesChannel b c) : a = b :=
  UInt16.toNat_inj.mp (Nat.eq_of_testBit_eq h)

/-- Of the bits that an interrupt reports, only that of channel 0 matters. -/
theorem LikeProbed.bootIrqHandler (h : LikeProbed beyond s.boot)
    {irqSource : HailoPcieInterruptSource}
    (hkeeps : KeepsBootClean stageInfo (.bootIrqHandler irqSource)) :
    LikeProbed beyond (s.bootIrqHandler irqSource).boot := by
  refine ⟨h.index, usesChannel_inj fun c => ?_, h.noDescs, h.outside⟩
  have hbits : usesChannel (s.bootIrqHandler irqSource).boot.bootUsedChannelBitmap c =
      (usesChannel s.boot.bootUsedChannelBitmap c &&
        (irqSource.swInterrupts &&& hailoPcieBootIrq != 0 ||
          !hailoTestBit c irqSource.vdmaChannelsBitmap)) := usesChannel_completeBoot c
  rw [hbits, h.bitmap, usesChannel_one]
  by_cases hc : c = 0
  · subst hc
    rw [decide_eq_true rfl, Bool.true_and]
    cases hkeeps with
    | inl hboot => rw [bne_iff_ne.mpr hboot, Bool.true_or]
    | inr hclear => rw [hclear, Bool.not_false, Bool.or_true]
  · rw [decide_eq_false hc, Bool.false_and]

theorem not_runsLikeFirst_bootIrqHandler {irqSource : HailoPcieInterruptSource}
    (hkeeps : ¬ KeepsBootClean stageInfo (.bootIrqHandler irqSource)) :
    ¬ RunsLikeFirst stageInfo beyond (s.bootIrqHandler irqSource) := by
  intro hlike
  obtain ⟨hboot, hset⟩ := not_or.mp hkeeps
  have hbits : usesChannel (s.bootIrqHandler irqSource).boot.bootUsedChannelBitmap 0 =
      (usesChannel s.boot.bootUsedChannelBitmap 0 &&
        (irqSource.swInterrupts &&& hailoPcieBootIrq != 0 ||
          !hailoTestBit 0 irqSource.vdmaChannelsBitmap)) := usesChannel_completeBoot 0
  rw [hlike.firstBit, not_not.mp hboot, Bool.eq_true_of_not_eq_false hset, bne_self_eq_false,
    Bool.not_true, Bool.or_false, Bool.and_false] at hbits
  cases hbits

/-- A run that programs nothing leaves the counters, the index and the bitmap. -/
theorem LikeProbed.writeFirmwareBatch (h : LikeProbed beyond s.boot) {env : BatchEnv} {err : Int32}
    (hkeeps : ProgramsNothing stageInfo env)
    (hrun : pcieWriteFirmwareBatchOverDma stageInfo env s = .ok (some (err, s'))) :
    LikeProbed beyond s'.boot := by
  cases hallocation : env.allocation with
  | failed err neg left =>
    rw [writeFirmwareBatch_failed hallocation] at hrun
    cases hrun
    exact h.allocated left
  | created resources =>
    rw [writeFirmwareBatch_created hallocation] at hrun
    obtain ⟨result, hbatch, hrun⟩ := bind_ok hrun
    cases result with
    | none => cases hrun
    | some pair =>
      rw [ProgramsNothing, hallocation] at hkeeps
      have hboot := files_noBytes hkeeps hbatch
      cases hrun
      simp only [hboot]
      exact h.allocated _

theorem not_runsLikeFirst_writeFirmwareBatch (h : LikeProbed beyond s.boot) {env : BatchEnv}
    {err : Int32} (hkeeps : ¬ ProgramsNothing stageInfo env)
    (hrun : pcieWriteFirmwareBatchOverDma stageInfo env s = .ok (some (err, s')))
    (phase : LoadPhase) : ¬ RunsLikeFirst stageInfo beyond (s'.setPhase phase) := by
  cases hallocation : env.allocation with
  | failed err neg left =>
    rw [ProgramsNothing, hallocation] at hkeeps
    exact absurd trivial hkeeps
  | created resources =>
    rw [writeFirmwareBatch_created hallocation] at hrun
    obtain ⟨result, hbatch, hrun⟩ := bind_ok hrun
    cases result with
    | none => cases hrun
    | some pair =>
      rw [ProgramsNothing, hallocation] at hkeeps
      have hcounted := counted_of_files (h.freshBoot resources) (h.room resources) hkeeps hbatch
      cases hrun
      intro hlike
      have hzero : (pair.2.channels 0).descProgramNum = 0 :=
        hlike.noDescs (by decide : 0 < hailoPciOverVdmaNumChannels)
      have hpos := hcounted.pos
      rw [hzero] at hpos
      exact absurd hpos (by decide)

theorem LikeProbed.step (h : LikeProbed beyond s.boot) (hkeeps : KeepsBootClean stageInfo event)
    (hstep : step stageInfo s event = some s') : LikeProbed beyond s'.boot := by
  cases event with
  | activateBoard isFirmwareLoaded =>
    rw [BootActivation.step] at hstep
    split at hstep
    · split at hstep
      · cases hstep
        exact h
      · cases hstep
        exact h
    · cases hstep
  | bootIrqHandler irqSource =>
    rw [BootActivation.step] at hstep
    split at hstep
    · cases hstep
    · cases hstep
      exact h.bootIrqHandler hkeeps
  | writeFirmwareBatchOverDma env =>
    rw [BootActivation.step] at hstep
    split at hstep
    · split at hstep
      · next err s₁ hrun =>
        cases hstep
        have hkept : LikeProbed beyond s₁.boot :=
          LikeProbed.writeFirmwareBatch (by exact h) hkeeps hrun
        exact hkept
      · cases hstep
    · cases hstep
  | triggerBoot =>
    rw [BootActivation.step] at hstep
    split at hstep
    · cases hstep
      exact h
    · cases hstep
  | firmwareLoaded =>
    rw [BootActivation.step] at hstep
    split at hstep
    · cases hstep
      exact h
    · cases hstep
  | loadReturns =>
    rw [BootActivation.step] at hstep
    split at hstep
    · cases hstep
    · cases hstep
      exact h

theorem not_runsLikeFirst_step (h : LikeProbed beyond s.boot)
    (hkeeps : ¬ KeepsBootClean stageInfo event) (hstep : step stageInfo s event = some s') :
    ¬ RunsLikeFirst stageInfo beyond s' := by
  cases event with
  | bootIrqHandler irqSource =>
    rw [BootActivation.step] at hstep
    split at hstep
    · cases hstep
    · cases hstep
      exact not_runsLikeFirst_bootIrqHandler hkeeps
  | writeFirmwareBatchOverDma env =>
    rw [BootActivation.step] at hstep
    split at hstep
    · split at hstep
      · next hrun =>
        cases hstep
        exact not_runsLikeFirst_writeFirmwareBatch (by exact h) hkeeps hrun _
      · cases hstep
    · cases hstep
  | _ => exact absurd trivial hkeeps

end Steps

/-- Along a run of activations from the probe on, every run of the batch does what one behind the
probe does, if and only if no batch reached the bytes of a file and no interrupt reported
channel 0. -/
theorem runsLikeFirst_iff {stageInfo : HailoPcieLoadingStage}
    {beyond : Nat → HailoPcieBootDmaChannelState} {events : List LoadEvent} {s : HailoPcieBoard}
    (hrun : runEvents stageInfo (probedBoard beyond) events = some s) :
    (∀ earlier s₁, earlier <+: events →
        runEvents stageInfo (probedBoard beyond) earlier = some s₁ →
          RunsLikeFirst stageInfo beyond s₁) ↔
      ∀ event ∈ events, KeepsBootClean stageInfo event :=
  @allowed_iff_of_prefixes HailoPcieBoard LoadEvent (step stageInfo)
    (fun s => LikeProbed beyond s.boot) (RunsLikeFirst stageInfo beyond) (KeepsBootClean stageInfo)
    (fun _ h => h.runsLikeFirst) (fun _ _ _ h hkeeps hstep => h.step hkeeps hstep)
    (fun _ _ _ h hkeeps hstep => not_runsLikeFirst_step h hkeeps hstep) _ _ _ hrun
    likeProbed_probedBoot

/-- There is no memory for the lists. -/
def noMemoryEnv : BatchEnv :=
  ⟨.failed (-enobufs) (by decide) fun _ => onePieceChannel.toBootChannelResources,
    imagesOf hundredBytes_lt, 100⟩

/-- The board is loaded in vain and resumed. -/
def noMemoryEvents : List LoadEvent :=
  [.activateBoard false, .bootIrqHandler ⟨2, 0⟩, .writeFirmwareBatchOverDma noMemoryEnv,
    .loadReturns, .activateBoard false]

theorem runsLikeFirst_iff_noMemory :
    ∃ s, runEvents linuxStage (probedBoard fun _ => zeroChannel) noMemoryEvents = some s ∧
      ((∀ earlier s₁, earlier <+: noMemoryEvents →
          runEvents linuxStage (probedBoard fun _ => zeroChannel) earlier = some s₁ →
            RunsLikeFirst linuxStage (fun _ => zeroChannel) s₁) ↔
        ∀ event ∈ noMemoryEvents, KeepsBootClean linuxStage event) :=
  ⟨_, rfl, runsLikeFirst_iff rfl⟩

section SecondLoad

/-- Files of hundred bytes each. -/
def smallFilesEnv : BatchEnv := ⟨.created fun _ => onePieceChannel, imagesOf hundredBytes_lt, 100⟩

theorem allocate_emptyBoot : allocateBootResources
    (fun _ => onePieceChannel.toBootChannelResources) (probedBoot emptyBoot.channels) =
      emptyBoot := by
  have hchannels : (allocateBootResources (fun _ => onePieceChannel.toBootChannelResources)
      (probedBoot emptyBoot.channels)).channels = emptyBoot.channels := by
    funext c
    by_cases hc : c < hailoPciOverVdmaNumChannels
    · rw [allocate_of_lt _ _ hc, probedBoot_descProgramNum _ hc]
      rfl
    · rw [allocate_of_le _ _ (Nat.not_lt.mp hc)]
      exact if_neg hc
  rw [BootState.mk.injEq]
  exact ⟨hchannels, rfl, rfl⟩

/-- The first load programs four descriptors of channel 0, which is all that is waited for. -/
theorem smallFiles_programmed :
    ∃ boot', pcieVdmaProgramEntireBatch (imagesOf hundredBytes_lt) 100 linuxStage emptyBoot =
        .ok (some (0, boot')) ∧
      (boot'.channels 0).descProgramNum.toNat = 4 ∧ boot'.bootUsedChannelBitmap = 1 := by
  have hfiles := (linuxStage_bootFiles hundredBytes_lt fun _ => by decide).toNonemptyFiles
  have hsizes : fileSizes (imagesOf hundredBytes_lt) linuxStage.files = [100, 100, 100, 100] := by
    rw [fileSizes_imagesOf]
    rfl
  obtain ⟨boot', hrun⟩ := linuxStage_total hundredBytes_lt (fun _ => by decide)
    (fun _ => le_rfl) (by decide)
  have h := programmed_of_run hfiles emptyBoot_fresh (by rw [hsizes]; decide) hrun
  rw [hsizes] at h
  have hlength : (pagesFrom 512 0 [100, 100, 100, 100]).length = 4 := by
    rw [length_pagesFrom]
    decide
  refine ⟨boot', hrun, ?_, usesChannel_inj fun c => ?_⟩
  · rw [h.count 0 (by decide), hlength]
    decide
  · rw [Bool.eq_iff_iff, usesChannel_iff h rfl, hlength, usesChannel_one, decide_eq_true_eq]
    omega

theorem runEvents_cons {stageInfo : HailoPcieLoadingStage} {s s' : HailoPcieBoard}
    {event : LoadEvent} {events : List LoadEvent} (hstep : step stageInfo s event = some s') :
    runEvents stageInfo s (event :: events) = runEvents stageInfo s' events := by
  rw [BootActivation.runEvents, List.foldlM_cons, hstep]
  rfl

/-- The board is probed and loaded. When it is resumed after a suspend, the counter of channel 0
is still four and nothing is left to wait for. -/
theorem secondLoad_differs :
    ∃ s, runEvents linuxStage (probedBoard emptyBoot.channels)
        [.activateBoard false, .bootIrqHandler ⟨2, 0⟩, .writeFirmwareBatchOverDma smallFilesEnv,
          .bootIrqHandler ⟨0, 1⟩, .triggerBoot, .bootIrqHandler ⟨2, 0⟩, .firmwareLoaded,
          .loadReturns, .activateBoard false, .bootIrqHandler ⟨2, 0⟩] = some s ∧
      ¬ RunsLikeFirst linuxStage emptyBoot.channels s := by
  obtain ⟨boot', hrun, hcount, hbitmap⟩ := smallFiles_programmed
  have hwrite : pcieWriteFirmwareBatchOverDma linuxStage smallFilesEnv
      ⟨probedBoot emptyBoot.channels, .init, .init, .firstStage⟩ =
        .ok (some (0, ⟨boot', .init, .init, .firstStage⟩)) := by
    have hallocation : smallFilesEnv.allocation = .created fun _ => onePieceChannel := rfl
    have hbatch : pcieVdmaProgramEntireBatch smallFilesEnv.request smallFilesEnv.rounds linuxStage
        emptyBoot = .ok (some (0, boot')) := hrun
    rw [writeFirmwareBatch_created hallocation, allocate_emptyBoot, hbatch]
    rfl
  have hstep : step linuxStage ⟨probedBoot emptyBoot.channels, .completeAll .init, .init,
      .firstStage⟩ (.writeFirmwareBatchOverDma smallFilesEnv) =
        some ⟨boot', .init, .init, .transferring⟩ := by
    have hreinit : (Completion.completeAll .init).reinit = .init := rfl
    rw [BootActivation.step, if_pos ⟨rfl, by decide⟩]
    simp only [hreinit, hwrite]
    rfl
  have hirq : (⟨boot', .init, .init, .transferring⟩ : HailoPcieBoard).bootIrqHandler ⟨0, 1⟩ =
      ⟨{ boot' with bootUsedChannelBitmap := 0 }, .init, .completeAll .init, .transferring⟩ := by
    simp only [HailoPcieBoard.bootIrqHandler, HailoPcieBoard.fwBoot, hbitmap]
    rfl
  have hstep' : step linuxStage ⟨boot', .init, .init, .transferring⟩ (.bootIrqHandler ⟨0, 1⟩) =
      some ⟨{ boot' with bootUsedChannelBitmap := 0 }, .init, .completeAll .init,
        .transferring⟩ := by
    rw [BootActivation.step, if_neg LoadPhase.noConfusion, hirq]
  refine ⟨⟨{ boot' with bootUsedChannelBitmap := 0 }, .completeAll .init, .init, .firstStage⟩,
    ?_, fun hlike => ?_⟩
  · have hactivate : step linuxStage (probedBoard emptyBoot.channels) (.activateBoard false) =
        some ⟨probedBoot emptyBoot.channels, .init, .init, .firstStage⟩ := rfl
    have hfirst : step linuxStage ⟨probedBoot emptyBoot.channels, .init, .init, .firstStage⟩
        (.bootIrqHandler ⟨2, 0⟩) =
          some ⟨probedBoot emptyBoot.channels, .completeAll .init, .init, .firstStage⟩ := rfl
    rw [runEvents_cons hactivate, runEvents_cons hfirst, runEvents_cons hstep,
      runEvents_cons hstep']
    rfl
  · have hzero : (boot'.channels 0).descProgramNum = 0 :=
      hlike.noDescs (by decide : 0 < hailoPciOverVdmaNumChannels)
    rw [hzero] at hcount
    cases hcount

end SecondLoad

end HailortDrivers.CleanBoot
