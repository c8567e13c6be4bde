import HailortDrivers.BoardAccounting
import HailortDrivers.EventRuns

/-!
The device after remove. Nothing touches it any more if, at the moment the BARs are
unmapped, no call is on its way to it: calls that come later do not get there.
-/
namespace HailortDrivers.DeviceRemoval
open FirmwareImage DeviceAccesses BoardCalls BoardSteps BoardAccounting EventRuns

variable {F C : Type}

/-- A message that is not printed. -/
def Silent (p : DriverParams) : Access → Prop
  | .pDev | .register => False
  | .log level => p.oDbg < level

theorem accesses_silent {p : DriverParams} {l : List Access} (h : ∀ access ∈ l, Silent p access)
    (d : BoardDevice) : d.accesses p l = d := by
  induction l generalizing d with
  | nil => rfl
  | cons access l ih =>
    have hfirst := h access List.mem_cons_self
    have hsame : d.access p access = d := by
      cases access with
      | pDev => exact hfirst.elim
      | register => exact hfirst.elim
      | log level => exact if_neg (not_le.mpr hfirst)
    change (d.access p access).accesses p l = d
    rw [hsame]
    exact ih (fun access haccess => h access (List.mem_cons_of_mem _ haccess)) d

/-- The ioctl gets to the device, or marks it in use so that the release of the file will. -/
def ReachesDevice (p : DriverParams) (cmd : IoctlCmd) : Prop :=
  cmd.acceleratorType.all (· = p.acceleratorType) = true ∧
    match cmd with
    | .queryDeviceProperties | .vdmaEnableChannels | .vdmaDisableChannels
    | .vdmaInterruptsWait | .vdmaLaunchTransfer | .socConnect | .socClose | .socPowerOff
    | .fwControl | .readLog => True
    | .markAsInUse => p.acceleratorType = .nnc
    | _ => False

/-- An ioctl or an mmap in this phase does not get to the device any more. -/
def CallQuiet (p : DriverParams) : CallPhase F → Prop
  | .idle => True
  | .ioctlWaits _ cmd | .ioctlHolds _ cmd => p.oDbg < kernErr ∧ ¬ ReachesDevice p cmd
  | .fwControlWaits _ | .fwControlHolds _ | .fwControlAwaits _ => False
  | .eventWaits _ cmd =>
    cmd = .readNotification ∧ p.oDbg < kernInfo ∨ cmd = .vdmaInterruptsWait ∧ p.oDbg < kernDebug
  | .eventLocks _ cmd | .eventHolds _ cmd => cmd = .readNotification ∧ p.oDbg < kernInfo
  | .ioctlLogs _ => p.oDbg < kernDebug
  | .mmapWaits _ | .mmapHolds _ => p.oDbg < kernErr

/-- Releasing the file shuts nothing down on the device. -/
def ShutsNothing (p : DriverParams) (b : HailoPcieBoard F C) (f : F) : Prop :=
  match p.acceleratorType with
  | .nnc => b.usedByFilp ≠ some f
  | .soc => ∀ context, b.openFilesList f = some context → context.socUsedChannelsBitmap = 0

/-- An open or a release of `f` in this phase does not get to the device any more. -/
def FileQuiet (p : DriverParams) (b : HailoPcieBoard F C) (f : F) : FilePhase → Prop
  | .closed | .openDrops => True
  | .openWaits | .openHolds => False
  | .opened => p.oDbg < kernInfo ∧ ShutsNothing p b f
  | .releaseWaits | .releaseHolds =>
    p.oDbg < kernDebug ∧ (p.powerModeEnabled = true → p.oDbg < kernInfo) ∧ ShutsNothing p b f
  | .releaseFrees | .releaseLogs => p.oDbg < kernDebug

structure Quiet (p : DriverParams) (s : BoardSystem F C) : Prop where
  files : ∀ f, FileQuiet p s.board f (s.files f)
  calls : ∀ t, CallQuiet p (s.calls t)

/-- Remove takes the device away only when no call is on its way to it. -/
def DetachesQuietly (p : DriverParams) (s : BoardSystem F C) : Action F C → Prop
  | .remove => s.removing = .unlisted → Quiet p s
  | _ => True

variable {p : DriverParams} {b b' : HailoPcieBoard F C} {f : F}

/-- Closing a file or taking its mark away shuts down no more than before. -/
theorem FileQuiet.mono {phase : FilePhase} (h : FileQuiet p b f phase)
    (hused : p.acceleratorType = .nnc → b'.usedByFilp = b.usedByFilp ∨ b'.usedByFilp = none)
    (hcontexts : b'.openFilesList f = b.openFilesList f ∨ b'.openFilesList f = none) :
    FileQuiet p b' f phase := by
  have hshuts : ShutsNothing p b f → ShutsNothing p b' f := by
    intro hnothing
    unfold ShutsNothing at hnothing ⊢
    split
    · next hnnc =>
      rw [hnnc] at hnothing
      rcases hused hnnc with hsame | hnone
      · exact hsame ▸ hnothing
      · rw [hnone]
        simp
    · next hsoc =>
      rw [hsoc] at hnothing
      intro context hcontext
      rcases hcontexts with hsame | hnone
      · exact hnothing context (hsame ▸ hcontext)
      · rw [hnone] at hcontext
        cases hcontext
  cases phase with
  | opened => exact ⟨h.1, hshuts h.2⟩
  | releaseWaits => exact ⟨h.1, h.2.1, hshuts h.2.2⟩
  | releaseHolds => exact ⟨h.1, h.2.1, hshuts h.2.2⟩
  | _ => exact h

/-- What a step leaves as it was once the device is gone. -/
structure Leaves (p : DriverParams) (b b' : HailoPcieBoard F C) : Prop where
  device : b'.device = b.device
  inBoardList : b'.inBoardList = b.inBoardList
  usedByFilp : p.acceleratorType = .nnc → b'.usedByFilp = b.usedByFilp ∨ b'.usedByFilp = none
  openFilesList : ∀ f, b'.openFilesList f = b.openFilesList f ∨ b'.openFilesList f = none

theorem leaves_access {l : List Access} (h : ∀ access ∈ l, Silent p access) :
    Leaves p b (b.use.access p l) :=
  ⟨accesses_silent h _, rfl, fun _ => Or.inl rfl, fun _ => Or.inl rfl⟩

theorem leaves_use (p : DriverParams) (b : HailoPcieBoard F C) : Leaves p b b.use :=
  ⟨rfl, rfl, fun _ => Or.inl rfl, fun _ => Or.inl rfl⟩

theorem Leaves.setMutex (h : Leaves p b b') (owner : Option (MutexOwner F C)) :
    Leaves p b (b'.setMutex owner) :=
  ⟨h.device, h.inBoardList, h.usedByFilp, h.openFilesList⟩

theorem Leaves.setRefCount (h : Leaves p b b') (count : Int) : Leaves p b (b'.setRefCount count) :=
  ⟨h.device, h.inBoardList, h.usedByFilp, h.openFilesList⟩

theorem silent_log {level : Int} (h : p.oDbg < level) :
    ∀ access ∈ [Access.log level], Silent p access := by
  intro access haccess
  rw [List.mem_singleton.mp haccess]
  exact h

theorem down_leaves {owner : MutexOwner F C} {α : Type} {next last : α}
    (h : (b.down owner).map (fun b => (b, next)) = some (b', last)) :
    Leaves p b b' ∧ last = next := by
  obtain ⟨held, hdown, hnext⟩ := Option.map_eq_some_iff.mp h
  obtain ⟨-, rfl⟩ := down_eq_some hdown
  cases hnext
  exact ⟨(leaves_use p b).setMutex _, rfl⟩

/-- Neither `pDev` nor `vdma.dev` is set. -/
structure Absent (d : BoardDevice) : Prop where
  pDev : d.pDev = none
  vdmaDev : d.vdmaDev = false

theorem disableInterrupts_absent {d : BoardDevice} (h : Absent d) :
    hailoDisableInterrupts p d = d := by
  rw [hailoDisableInterrupts, h.pDev]
  rfl

theorem powerDown_absent {d : BoardDevice} (h : Absent d)
    (hsilent : p.powerModeEnabled = true → p.oDbg < kernInfo) (powered : Bool) :
    powerDown p d powered = d := by
  unfold powerDown
  rw [disableInterrupts_absent h]
  split
  · next hmode =>
    rw [accesses_silent (silent_log (hsilent hmode)), powerOff, h.pDev]
    rfl
  · rfl

structure Untouched (p : DriverParams) (s : BoardSystem F C) : Prop where
  accounted : Accounted s
  untouched : s.board.device.touchedAbsent = false
  quiet : Detached s.removing → Quiet p s ∧ Absent s.board.device

variable {s s' : BoardSystem F C}

theorem Quiet.sameFiles {removing' : RemovePhase} (h : Quiet p s)
    (hused : b'.usedByFilp = s.board.usedByFilp)
    (hcontexts : b'.openFilesList = s.board.openFilesList) :
    Quiet p ⟨b', removing', s.files, s.calls⟩ :=
  ⟨fun f => (h.files f).mono (fun _ => Or.inl hused) (Or.inl (hcontexts ▸ rfl)), h.calls⟩

theorem untouched_remove {removing' : RemovePhase} (h : Untouched p s)
    (hquiet : s.removing = .unlisted → Quiet p s)
    (hstep : removeStep p s.board s.removing = some (b', removing')) :
    b'.device.touchedAbsent = false ∧ (Detached removing' →
      Quiet p ⟨b', removing', s.files, s.calls⟩ ∧ Absent b'.device) := by
  have hgone := h.quiet
  cases hremoving : s.removing with
  | notCalled =>
    rw [hremoving] at hstep
    cases hstep
    exact ⟨h.untouched, False.elim⟩
  | waits =>
    rw [hremoving] at hstep
    obtain ⟨hleaves, rfl⟩ := down_leaves (p := p) hstep
    exact ⟨hleaves.device ▸ h.untouched, False.elim⟩
  | holds =>
    rw [hremoving] at hstep
    cases hstep
    exact ⟨h.untouched, False.elim⟩
  | unlisted =>
    have hattached : ¬ Detached s.removing := by
      rw [hremoving]
      exact id
    have hdevice := disableInterrupts_samePresence p s.board.device
    rw [hremoving] at hstep
    cases hstep
    refine ⟨?_, fun _ => ⟨(hquiet hremoving).sameFiles rfl rfl, rfl, rfl⟩⟩
    exact (hdevice.touched (h.accounted.present.mpr hattached)
      (h.accounted.mapped.mpr hattached)).trans h.untouched
  | removed =>
    obtain ⟨hquiet, habsent⟩ := hgone (hremoving ▸ trivial)
    rw [hremoving] at hstep
    cases hstep
    exact ⟨h.untouched, fun _ => ⟨hquiet.sameFiles rfl rfl, habsent⟩⟩
  | sawUnused =>
    obtain ⟨hquiet, habsent⟩ := hgone (hremoving ▸ trivial)
    rw [hremoving] at hstep
    cases hstep
    exact ⟨h.untouched, fun _ => ⟨hquiet.sameFiles rfl rfl, habsent⟩⟩
  | sawUsed =>
    obtain ⟨hquiet, habsent⟩ := hgone (hremoving ▸ trivial)
    rw [hremoving] at hstep
    cases hstep
    exact ⟨h.untouched, fun _ => ⟨hquiet.sameFiles rfl rfl, habsent⟩⟩
  | done =>
    rw [hremoving] at hstep
    cases hstep

variable [DecidableEq F]

theorem finalizeFile_absent (habsent : Absent b.device) (hshuts : ShutsNothing p b f)
    {context : HailoFileContext} (hcontext : b.openFilesList f = some context)
    (hvalid : context.isValid = true) (answers : ReleaseAnswers) :
    finalizeFile p b.use f context answers = b.device := by
  have hfinal : finalizeAccelerator p b.usedByFilp f context b.device answers = b.device := by
    unfold finalizeAccelerator
    unfold ShutsNothing at hshuts
    split
    · next hnnc =>
      rw [hnnc] at hshuts
      exact if_neg hshuts
    · next hsoc =>
      rw [hsoc] at hshuts
      exact if_pos (hshuts context hcontext)
  rw [finalizeFile, hvalid]
  change vdmaFinalizeDevice p (finalizeAccelerator p b.usedByFilp f context b.device answers) = _
  rw [hfinal, vdmaFinalizeDevice, habsent.vdmaDev]
  rfl

theorem closeFile_leaves (b : HailoPcieBoard F C) (f : F) : Leaves p b (closeFile b.use f) := by
  refine ⟨rfl, rfl, fun _ => ?_, fun g => ?_⟩
  · change (if b.usedByFilp = some f then none else b.usedByFilp) = b.usedByFilp ∨
      (if b.usedByFilp = some f then none else b.usedByFilp) = none
    split
    · exact Or.inr rfl
    · exact Or.inl rfl
  · change Function.update b.openFilesList f none g = _ ∨
      Function.update b.openFilesList f none g = _
    by_cases hgf : g = f
    · exact Or.inr (by rw [hgf, Function.update_self])
    · exact Or.inl (Function.update_of_ne hgf _ _)

theorem releaseSection_quiet (habsent : Absent b.device)
    (hcontext : ∃ context, b.openFilesList f = some context ∧ context.isValid = true)
    (hquiet : FileQuiet p b f .releaseHolds) (answers : ReleaseAnswers) :
    Leaves p b (releaseSection p b.use f answers).1 ∧
      FileQuiet p (releaseSection p b.use f answers).1 f (releaseSection p b.use f answers).2 := by
  obtain ⟨hdebug, hinfo, hshuts⟩ := hquiet
  obtain ⟨context, hcontext, hvalid⟩ := hcontext
  have hfinal := finalizeFile_absent habsent hshuts hcontext hvalid answers
  have hclosed := closeFile_leaves (p := p) b f
  simp only [releaseSection, show b.use.openFilesList f = some context from hcontext, hfinal]
  split
  · rw [powerDown_absent habsent hinfo, accesses_silent (silent_log hdebug), habsent.pDev]
    exact ⟨⟨rfl, hclosed.inBoardList, hclosed.usedByFilp, hclosed.openFilesList⟩, hdebug⟩
  · exact ⟨⟨rfl, hclosed.inBoardList, hclosed.usedByFilp, hclosed.openFilesList⟩, hdebug⟩

theorem fileStep_quiet {phase phase' : FilePhase} {action : FileAction}
    (h : fileStep p b f phase action = some (b', phase')) (habsent : Absent b.device)
    (hlisted : b.inBoardList = false)
    (hcontext : HasContext phase →
      ∃ context, b.openFilesList f = some context ∧ context.isValid = true)
    (hquiet : FileQuiet p b f phase) : Leaves p b b' ∧ FileQuiet p b' f phase' := by
  unfold fileStep at h
  split at h
  · rw [hlisted] at h
    cases h
    exact ⟨⟨rfl, rfl, fun _ => Or.inl rfl, fun _ => Or.inl rfl⟩, trivial⟩
  · exact hquiet.elim
  · exact hquiet.elim
  · exact hquiet.elim
  · cases h
    exact ⟨(leaves_use p b).setRefCount _, trivial⟩
  · cases h
    have hleaves := leaves_access (b := b) (silent_log hquiet.1)
    refine ⟨hleaves, hquiet.1.trans (by decide), fun _ => hquiet.1, ?_⟩
    exact hquiet.2
  · obtain ⟨hleaves, rfl⟩ := down_leaves (p := p) h
    have hwaits : FileQuiet p b f .releaseWaits := hquiet
    exact ⟨hleaves, hwaits.mono hleaves.usedByFilp (hleaves.openFilesList f)⟩
  · next answers =>
    have heffect := releaseSection_quiet habsent (hcontext trivial) hquiet answers
    rw [Option.some.inj h] at heffect
    exact heffect
  · cases h
    exact ⟨⟨accesses_silent (silent_log hquiet) _, rfl, fun _ => Or.inl rfl, fun _ => Or.inl rfl⟩,
      trivial⟩
  · cases h
    rw [HailoPcieBoard.lastLog, if_neg (not_le.mpr hquiet)]
    exact ⟨⟨rfl, rfl, fun _ => Or.inl rfl, fun _ => Or.inl rfl⟩, trivial⟩
  · cases h

theorem handlerAccesses_silent {cmd : IoctlCmd} (hsilent : p.oDbg < kernErr)
    (hreaches : ¬ ReachesDevice p cmd)
    (htype : cmd.acceleratorType.all (· = p.acceleratorType) = true) (outcome : Outcome) :
    ∀ access ∈ handlerAccesses cmd outcome, Silent p access := by
  have herr := silent_log hsilent
  have hinfo := silent_log (hsilent.trans (by decide : kernErr < kernInfo))
  cases cmd with
  | queryDriverInfo => exact hinfo
  | disableNotification => exact hinfo
  | readNotification =>
    cases outcome with
    | rejected => exact hinfo
    | failed => exact herr
    | _ => exact fun _ h => by cases h
  | unknown =>
    cases outcome with
    | rejected => exact herr
    | _ => exact fun _ h => by cases h
  | queryDeviceProperties => exact absurd ⟨htype, trivial⟩ hreaches
  | vdmaEnableChannels => exact absurd ⟨htype, trivial⟩ hreaches
  | vdmaDisableChannels => exact absurd ⟨htype, trivial⟩ hreaches
  | vdmaInterruptsWait => exact absurd ⟨htype, trivial⟩ hreaches
  | vdmaLaunchTransfer => exact absurd ⟨htype, trivial⟩ hreaches
  | socConnect => exact absurd ⟨htype, trivial⟩ hreaches
  | socClose => exact absurd ⟨htype, trivial⟩ hreaches
  | socPowerOff => exact absurd ⟨htype, trivial⟩ hreaches
  | readLog => exact absurd ⟨htype, trivial⟩ hreaches
  | _ => exact fun _ h => by cases h

theorem applyHandler_leaves {cmd : IoctlCmd} (hreaches : ¬ ReachesDevice p cmd)
    (htype : cmd.acceleratorType.all (· = p.acceleratorType) = true) (context : HailoFileContext)
    (outcome : Outcome) : Leaves p b (applyHandler b.use f context cmd outcome) := by
  have huse := leaves_use p b
  unfold applyHandler
  split
  · split
    · exact ⟨rfl, rfl, fun hnnc => absurd ⟨htype, hnnc⟩ hreaches, fun _ => Or.inl rfl⟩
    · exact huse
  · exact absurd ⟨htype, trivial⟩ hreaches
  · exact absurd ⟨htype, trivial⟩ hreaches
  · exact huse

theorem ioctlSection_quiet {cmd : IoctlCmd} (hsilent : p.oDbg < kernErr)
    (hreaches : ¬ ReachesDevice p cmd) (outcome : Outcome) :
    Leaves p b (ioctlSection p b.use f cmd outcome).1 ∧
      CallQuiet p (ioctlSection p b.use f cmd outcome).2 := by
  have herr := (leaves_access (b := b) (silent_log hsilent)).setMutex none
  have hup := (leaves_use p b).setMutex none
  have hinfo : p.oDbg < kernInfo := hsilent.trans (by decide)
  have hdebug : p.oDbg < kernDebug := hsilent.trans (by decide)
  unfold ioctlSection
  split
  · exact ⟨herr, trivial⟩
  · next context hcontext =>
    split_ifs with hvalid htype
    · exact ⟨herr, trivial⟩
    · exact ⟨herr, hdebug⟩
    · have htype : cmd.acceleratorType.all (· = p.acceleratorType) = true := by
        cases hcmd : cmd.acceleratorType with
        | none => rfl
        | some acceleratorType => simpa [hcmd] using htype
      split
      · exact absurd ⟨htype, trivial⟩ hreaches
      · exact ⟨hup, hdebug⟩
      · exact ⟨hup, Or.inl ⟨rfl, hinfo⟩⟩
      · exact absurd ⟨htype, trivial⟩ hreaches
      · exact absurd ⟨htype, trivial⟩ hreaches
      · exact absurd ⟨htype, trivial⟩ hreaches
      · have happlied := applyHandler_leaves (b := b) (f := f) hreaches htype context outcome
        refine ⟨⟨?_, happlied.inBoardList, happlied.usedByFilp, happlied.openFilesList⟩, hdebug⟩
        exact (accesses_silent (handlerAccesses_silent hsilent hreaches htype outcome) _).trans
          happlied.device

theorem callStep_quiet {t : C} {phase phase' : CallPhase F} {action : CallAction F}
    (h : callStep p b t phase action = some (b', phase')) (habsent : Absent b.device)
    (hmmap : ∀ f, action = .mmap f → p.oDbg < kernInfo) (hquiet : CallQuiet p phase) :
    Leaves p b b' ∧ CallQuiet p phase' := by
  have huse := leaves_use p b
  have hlog : ∀ {level}, p.oDbg < level → Leaves p b (b.use.access p [.log level]) :=
    fun hlevel => leaves_access (silent_log hlevel)
  unfold callStep at h
  split at h
  · rw [habsent.pDev] at h
    cases h
    exact ⟨huse, trivial⟩
  · next filp =>
    rw [habsent.pDev] at h
    cases h
    exact ⟨hlog (hmmap filp rfl), trivial⟩
  · cases h
    exact ⟨hlog hquiet.1, trivial⟩
  · obtain ⟨hleaves, rfl⟩ := down_leaves (p := p) h
    exact ⟨hleaves, hquiet⟩
  · next filp cmd outcome =>
    have heffect := ioctlSection_quiet (b := b) (f := filp) hquiet.1 hquiet.2 outcome
    rw [Option.some.inj h] at heffect
    exact heffect
  · exact hquiet.elim
  · exact hquiet.elim
  · exact hquiet.elim
  · exact hquiet.elim
  · exact hquiet.elim
  · exact hquiet.elim
  · exact hquiet.elim
  · next filp cmd =>
    cases h
    rcases hquiet with ⟨rfl, hsilent⟩ | ⟨rfl, hsilent⟩
    · exact ⟨hlog hsilent, hsilent.trans (by decide)⟩
    · exact ⟨leaves_access fun _ h => (by cases h), hsilent⟩
  · next filp cmd =>
    rcases hquiet with ⟨rfl, hsilent⟩ | ⟨rfl, hsilent⟩
    · cases h
      exact ⟨huse, rfl, hsilent⟩
    · rw [habsent.pDev] at h
      cases h
  · obtain ⟨rfl, hsilent⟩ := hquiet
    cases h
    exact ⟨hlog hsilent, hsilent.trans (by decide)⟩
  · obtain ⟨hleaves, rfl⟩ := down_leaves (p := p) h
    exact ⟨hleaves, hquiet⟩
  · next filp cmd outcome =>
    obtain ⟨rfl, hsilent⟩ := hquiet
    rw [eventOutcome, habsent.pDev] at h
    cases h
    exact ⟨(hlog hsilent).setMutex none, hsilent.trans (by decide)⟩
  · cases h
    exact ⟨hlog hquiet, trivial⟩
  · cases h
    exact ⟨hlog hquiet, trivial⟩
  · obtain ⟨hleaves, rfl⟩ := down_leaves (p := p) h
    exact ⟨hleaves, hquiet⟩
  · split at h
    · cases h
      exact ⟨(hlog hquiet).setMutex none, trivial⟩
    · next context hcontext =>
      cases h
      refine ⟨(leaves_access ?_).setMutex none, trivial⟩
      split
      · exact fun _ h => by cases h
      · exact silent_log hquiet
  · cases h

theorem untouched_file {phase' : FilePhase} {action : FileAction} (h : Untouched p s)
    (hnext : fileStep p s.board f (s.files f) action = some (b', phase')) :
    b'.device.touchedAbsent = false ∧
      (Detached s.removing → Quiet p (afterFile s f b' phase') ∧ Absent b'.device) := by
  by_cases hdetached : Detached s.removing
  · obtain ⟨hquiet, habsent⟩ := h.quiet hdetached
    have hlisted : s.board.inBoardList = false := by
      by_contra hlisted
      exact not_detached_of_listed (h.accounted.listed (Bool.not_eq_false _ ▸ hlisted)) hdetached
    have hcontext : HasContext (s.files f) →
        ∃ context, s.board.openFilesList f = some context ∧ context.isValid = true := by
      intro hphase
      obtain ⟨context, hcontext⟩ := Option.isSome_iff_exists.mp (h.accounted.contexts f hphase)
      exact ⟨context, hcontext, h.accounted.valid f context hcontext⟩
    obtain ⟨hleaves, hfile⟩ := fileStep_quiet hnext habsent hlisted hcontext (hquiet.files f)
    refine ⟨hleaves.device ▸ h.untouched, fun _ => ⟨⟨fun g => ?_, hquiet.calls⟩, ?_⟩⟩
    · change FileQuiet p b' g (Function.update s.files f phase' g)
      by_cases hgf : g = f
      · rw [hgf, Function.update_self]
        exact hfile
      · rw [Function.update_of_ne hgf]
        exact (hquiet.files g).mono hleaves.usedByFilp (hleaves.openFilesList g)
    · exact hleaves.device ▸ habsent
  · have hdevice := (fileEffect_attached (fileStep_effect hnext (h.accounted.contexts f))).2
    refine ⟨?_, fun hgone => absurd hgone hdetached⟩
    rw [hdevice.touched (h.accounted.present.mpr hdetached) (h.accounted.mapped.mpr hdetached)]
    exact h.untouched

variable [DecidableEq C]

theorem untouched_call {t : C} {phase' : CallPhase F} {action : CallAction F}
    (h : Untouched p s) (hallows : KernelAllows s (.call t action))
    (hnext : callStep p s.board t (s.calls t) action = some (b', phase')) :
    b'.device.touchedAbsent = false ∧
      (Detached s.removing → Quiet p (afterCall s t b' phase') ∧ Absent b'.device) := by
  by_cases hdetached : Detached s.removing
  · obtain ⟨hquiet, habsent⟩ := h.quiet hdetached
    have hmmap : ∀ f, action = .mmap f → p.oDbg < kernInfo := by
      rintro f rfl
      have hopened : s.files f = .opened := hallows
      have hfile := hquiet.files f
      rw [hopened] at hfile
      exact hfile.1
    obtain ⟨hleaves, hcall⟩ := callStep_quiet hnext habsent hmmap (hquiet.calls t)
    refine ⟨hleaves.device ▸ h.untouched, fun _ => ⟨⟨fun g => ?_, fun t' => ?_⟩, ?_⟩⟩
    · exact (hquiet.files g).mono hleaves.usedByFilp (hleaves.openFilesList g)
    · change CallQuiet p (Function.update s.calls t phase' t')
      by_cases htt : t' = t
      · rw [htt, Function.update_self]
        exact hcall
      · rw [Function.update_of_ne htt]
        exact hquiet.calls t'
    · exact hleaves.device ▸ habsent
  · have hdevice := (callStep_effect hnext).uses.device
    refine ⟨?_, fun hgone => absurd hgone hdetached⟩
    rw [hdevice.touched (h.accounted.present.mpr hdetached) (h.accounted.mapped.mpr hdetached)]
    exact h.untouched

theorem untouched_step {action : Action F C} (h : Untouched p s) (hallows : KernelAllows s action)
    (hquiet : DetachesQuietly p s action) (hstep : step p s action = some s') :
    Untouched p s' := by
  have haccounted := accounted_step h.accounted hallows hstep
  cases action with
  | remove =>
    obtain ⟨⟨b', removing'⟩, hnext, rfl⟩ := Option.map_eq_some_iff.mp hstep
    obtain ⟨huntouched, hgone⟩ := untouched_remove h hquiet hnext
    exact ⟨haccounted, huntouched, hgone⟩
  | file f action =>
    obtain ⟨⟨b', phase'⟩, hnext, rfl⟩ := Option.map_eq_some_iff.mp hstep
    obtain ⟨huntouched, hgone⟩ := untouched_file h hnext
    exact ⟨haccounted, huntouched, hgone⟩
  | call t action =>
    obtain ⟨⟨b', phase'⟩, hnext, rfl⟩ := Option.map_eq_some_iff.mp hstep
    obtain ⟨huntouched, hgone⟩ := untouched_call h hallows hnext
    exact ⟨haccounted, huntouched, hgone⟩

/-- In every run in which remove detaches the device while no call is on its way to it, the
device is not touched after that. -/
theorem untouched_of_run
    (hrun : Relation.ReflTransGen (Steps p (DetachesQuietly p)) (probedSystem p) s) :
    s.board.device.touchedAbsent = false := by
  have h : Untouched p s := by
    refine inv_of_run ?_ hrun ⟨accounted_probed _, rfl, False.elim⟩
    rintro s s' h ⟨action, hallows, hadmitted, hstep⟩
    exact untouched_step h hallows hadmitted hstep
  exact h.untouched

/-- File 0 is open over remove and released after that. -/
theorem untouched_of_run_openFile :
    ∃ s : BoardSystem Nat Nat, s.removing = .done ∧ s.files 0 = .closed ∧ s.board.freed = 1 ∧
      s.board.device.touchedAbsent = false := by
  obtain ⟨s, hrun, hdone, hclosed, hfreed⟩ : ∃ s : BoardSystem Nat Nat,
      Relation.ReflTransGen (Steps nncParams (DetachesQuietly nncParams))
        (probedSystem nncParams) s ∧ s.removing = .done ∧ s.files 0 = .closed ∧
        s.board.freed = 1 := by
    refine ⟨_, .head ⟨.file 0 .getBoardIndex, trivial, trivial, rfl⟩ <|
      .head ⟨.file 0 .down, trivial, trivial, rfl⟩ <|
      .head ⟨.file 0 (.openSection granted), trivial, trivial, rfl⟩ <|
      .head ⟨.remove, trivial, nofun, rfl⟩ <|
      .head ⟨.remove, trivial, nofun, rfl⟩ <|
      .head ⟨.remove, trivial, nofun, rfl⟩ <|
      .head ⟨.remove, trivial, fun _ => ⟨fun f => ?_, fun _ => trivial⟩, rfl⟩ <|
      .head ⟨.remove, trivial, nofun, rfl⟩ <|
      .head ⟨.remove, trivial, nofun, rfl⟩ <|
      .head ⟨.call 0 (.ioctl 0 .queryDeviceProperties true), rfl, trivial, rfl⟩ <|
      .head ⟨.file 0 .release, fun thread => ?_, trivial, rfl⟩ <|
      .head ⟨.file 0 .down, trivial, trivial, rfl⟩ <|
      .head ⟨.file 0 (.releaseSection answered), trivial, trivial, rfl⟩ <|
      .single ⟨.file 0 .kfree, trivial, trivial, rfl⟩, rfl, rfl, rfl⟩
    · by_cases hf : f = 0
      · subst hf
        exact ⟨by decide, nofun⟩
      · simp [hf, probedSystem, FileQuiet]
    · by_cases hthread : thread = 0
      · subst hthread
        exact nofun
      · simp [hthread, probedSystem, CallPhase.filp]
  exact ⟨s, hdone, hclosed, hfreed, untouched_of_run hrun⟩

/-- An open that has the board and waits for its mutex, an ioctl past its check that waits
for it, and the release of the file that marked the device in use: each touches the device
after remove. -/
theorem waitingCalls_touchDevice :
    (∃ s : BoardSystem Nat Nat, Relation.ReflTransGen (Steps nncParams fun _ _ => True)
      (probedSystem nncParams) s ∧ s.files 0 = .opened ∧ s.board.device.touchedAbsent = true) ∧
    (∃ s : BoardSystem Nat Nat, Relation.ReflTransGen (Steps nncParams fun _ _ => True)
      (probedSystem nncParams) s ∧ s.calls 0 = .ioctlLogs 0 ∧ s.board.device.touchedAbsent = true) ∧
    ∃ s : BoardSystem Nat Nat, Relation.ReflTransGen (Steps nncParams fun _ _ => True)
      (probedSystem nncParams) s ∧ s.files 0 = .releaseFrees ∧
      s.board.device.touchedAbsent = true := by
  refine ⟨⟨_, .head ⟨.remove, trivial, trivial, rfl⟩ <|
      .head ⟨.remove, trivial, trivial, rfl⟩ <|
      .head ⟨.file 0 .getBoardIndex, trivial, trivial, rfl⟩ <|
      .head ⟨.remove, trivial, trivial, rfl⟩ <|
      .head ⟨.remove, trivial, trivial, rfl⟩ <|
      .head ⟨.file 0 .down, trivial, trivial, rfl⟩ <|
      .single ⟨.file 0 (.openSection granted), trivial, trivial, rfl⟩, rfl, rfl⟩,
    ⟨_, .head ⟨.file 0 .getBoardIndex, trivial, trivial, rfl⟩ <|
      .head ⟨.file 0 .down, trivial, trivial, rfl⟩ <|
      .head ⟨.file 0 (.openSection granted), trivial, trivial, rfl⟩ <|
      .head ⟨.remove, trivial, trivial, rfl⟩ <|
      .head ⟨.remove, trivial, trivial, rfl⟩ <|
      .head ⟨.call 0 (.ioctl 0 .queryDeviceProperties true), rfl, trivial, rfl⟩ <|
      .head ⟨.remove, trivial, trivial, rfl⟩ <|
      .head ⟨.remove, trivial, trivial, rfl⟩ <|
      .head ⟨.call 0 .down, trivial, trivial, rfl⟩ <|
      .single ⟨.call 0 (.section (.done 0)), trivial, trivial, rfl⟩, rfl, rfl⟩,
    ⟨_, .head ⟨.file 0 .getBoardIndex, trivial, trivial, rfl⟩ <|
      .head ⟨.file 0 .down, trivial, trivial, rfl⟩ <|
      .head ⟨.file 0 (.openSection granted), trivial, trivial, rfl⟩ <|
      .head ⟨.call 0 (.ioctl 0 .markAsInUse true), rfl, trivial, rfl⟩ <|
      .head ⟨.call 0 .down, trivial, trivial, rfl⟩ <|
      .head ⟨.call 0 (.section (.done 0)), trivial, trivial, rfl⟩ <|
      .head ⟨.call 0 .log, trivial, trivial, rfl⟩ <|
      .head ⟨.remove, trivial, trivial, rfl⟩ <|
      .head ⟨.remove, trivial, trivial, rfl⟩ <|
      .head ⟨.remove, trivial, trivial, rfl⟩ <|
      .head ⟨.remove, trivial, trivial, rfl⟩ <|
      .head ⟨.remove, trivial, trivial, rfl⟩ <|
      .head ⟨.remove, trivial, trivial, rfl⟩ <|
      .head ⟨.file 0 .release, fun thread => ?_, trivial, rfl⟩ <|
      .head ⟨.file 0 .down, trivial, trivial, rfl⟩ <|
      .single ⟨.file 0 (.releaseSection answered), trivial, trivial, rfl⟩, rfl, rfl⟩⟩
  by_cases hthread : thread = 0
  · subst hthread
    exact nofun
  · simp [hthread, probedSystem, CallPhase.filp]

end HailortDrivers.DeviceRemoval
