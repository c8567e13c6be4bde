import HailortDrivers.BoardCalls

/-! What a step of each call can do to the board: which references it takes or gives
up, when it frees, and when it reads the board at all. -/
namespace HailortDrivers.BoardSteps
open FirmwareImage DeviceAccesses BoardCalls

/-- An open or a release in this phase counts in `ref_count`. -/
def HoldsBoard : FilePhase → Prop
  | .openWaits | .openHolds | .openDrops | .opened | .releaseWaits | .releaseHolds => True
  | .closed | .releaseFrees | .releaseLogs => False

def HasContext : FilePhase → Prop
  | .opened | .releaseWaits | .releaseHolds => True
  | _ => False

/-- The board was read or written, and is as alive, listed and attached as before. -/
structure Uses {F C : Type} (b b' : HailoPcieBoard F C) : Prop where
  freed : b'.freed = b.freed
  inBoardList : b'.inBoardList = b.inBoardList
  device : SamePresence b.device b'.device
  usedAfterFree : b'.usedAfterFree = b.use.usedAfterFree

section Uses
variable {F C : Type} {b b' : HailoPcieBoard F C}

theorem uses_use (b : HailoPcieBoard F C) : Uses b b.use := ⟨rfl, rfl, .refl _, rfl⟩

theorem Uses.access (h : Uses b b') (p : DriverParams) (accesses : List Access) :
    Uses b (b'.access p accesses) :=
  ⟨h.freed, h.inBoardList, h.device.trans (accesses_samePresence p _ _), h.usedAfterFree⟩

theorem Uses.setDevice (h : Uses b b') {d : BoardDevice} (hd : SamePresence b.device d) :
    Uses b (b'.setDevice d) := ⟨h.freed, h.inBoardList, hd, h.usedAfterFree⟩

theorem Uses.setMutex (h : Uses b b') (owner : Option (MutexOwner F C)) :
    Uses b (b'.setMutex owner) := ⟨h.freed, h.inBoardList, h.device, h.usedAfterFree⟩

theorem Uses.setFwControlMutex (h : Uses b b') (owner : Option C) :
    Uses b (b'.setFwControlMutex owner) := ⟨h.freed, h.inBoardList, h.device, h.usedAfterFree⟩

theorem Uses.setRefCount (h : Uses b b') (count : Int) : Uses b (b'.setRefCount count) :=
  ⟨h.freed, h.inBoardList, h.device, h.usedAfterFree⟩

theorem Uses.setUsedByFilp (h : Uses b b') (filp : Option F) : Uses b (b'.setUsedByFilp filp) :=
  ⟨h.freed, h.inBoardList, h.device, h.usedAfterFree⟩

theorem Uses.setContext [DecidableEq F] (h : Uses b b') (filp : F)
    (context : Option HailoFileContext) : Uses b (b'.setContext filp context) :=
  ⟨h.freed, h.inBoardList, h.device, h.usedAfterFree⟩

theorem down_eq_some {owner : MutexOwner F C} (h : b.down owner = some b') :
    b.mutex = none ∧ b' = b.use.setMutex (some owner) := by
  rw [HailoPcieBoard.down] at h
  split at h
  · next hfree => exact ⟨Option.isNone_iff_eq_none.mp hfree, (Option.some.inj h).symm⟩
  · cases h

end Uses

variable {F C : Type}

/-- What a step of an open or a release of `f` can do. -/
inductive FileEffect [DecidableEq F] (p : DriverParams) (f : F) (b : HailoPcieBoard F C) :
    FilePhase → FileAction → HailoPcieBoard F C → FilePhase → Prop
  | absent : FileEffect p f b .closed .getBoardIndex b .closed
  | acquires {b'} (hlisted : b.inBoardList = true) (huses : Uses b b')
      (hcount : b'.refCount = b.refCount + 1) (hcontexts : b'.openFilesList = b.openFilesList) :
      FileEffect p f b .closed .getBoardIndex b' .openWaits
  | keeps {b' phase action phase'} (hholds : HoldsBoard phase) (hholds' : HoldsBoard phase')
      (hopened : phase = .opened → action = .release)
      (hcontext : HasContext phase' → HasContext phase) (huses : Uses b b')
      (hcount : b'.refCount = b.refCount) (hcontexts : b'.openFilesList = b.openFilesList) :
      FileEffect p f b phase action b' phase'
  | opens {b' answers} (huses : Uses b b') (hcount : b'.refCount = b.refCount)
      (hcontexts : b'.openFilesList = Function.update b.openFilesList f (some ⟨true, 0⟩)) :
      FileEffect p f b .openHolds (.openSection answers) b' .opened
  | drops {b'} (huses : Uses b b') (hcount : b'.refCount = b.refCount - 1)
      (hcontexts : b'.openFilesList = b.openFilesList) :
      FileEffect p f b .openDrops .decRefCount b' .closed
  | releases {b' answers phase'} (huses : Uses b b') (hcount : b'.refCount = b.refCount - 1)
      (hcontexts : b'.openFilesList = Function.update b.openFilesList f none)
      (hphase' : phase' =
        if b.refCount = 1 ∧ b.device.pDev.isNone = true then .releaseFrees else .releaseLogs) :
      FileEffect p f b .releaseHolds (.releaseSection answers) b' phase'
  | frees {b'} (hfreed : b'.freed = b.freed + 1) (hlisted : b'.inBoardList = b.inBoardList)
      (hdevice : SamePresence b.device b'.device)
      (hused : b'.usedAfterFree = b.use.usedAfterFree) (hcount : b'.refCount = b.refCount)
      (hcontexts : b'.openFilesList = b.openFilesList) :
      FileEffect p f b .releaseFrees .kfree b' .closed
  | logs {b'} (huses : b' = b ∨ kernDebug ≤ p.oDbg ∧ Uses b b')
      (hcount : b'.refCount = b.refCount) (hcontexts : b'.openFilesList = b.openFilesList) :
      FileEffect p f b .releaseLogs .log b' .closed

variable {p : DriverParams} {b b' : HailoPcieBoard F C} {f : F}

theorem lastLog_uses (b : HailoPcieBoard F C) :
    b.lastLog p = b ∨ kernDebug ≤ p.oDbg ∧ Uses b (b.lastLog p) := by
  rw [HailoPcieBoard.lastLog]
  split
  · next hdebug => exact Or.inr ⟨hdebug, (uses_use b).access p _⟩
  · exact Or.inl rfl

/-- An ioctl or an mmap starts on a file, stays on it and ends. -/
def FollowsFile (phase : CallPhase F) (action : CallAction F) (phase' : CallPhase F) : Prop :=
  phase'.filp = none ∨ phase'.filp = phase.filp ∨
    ∃ f, phase'.filp = some f ∧
      ((∃ cmd accessOk, action = .ioctl f cmd accessOk) ∨ action = .mmap f)

/-- The same files have a context, as valid as before. -/
def SameContexts (b b' : HailoPcieBoard F C) : Prop :=
  ∀ f, (b'.openFilesList f).map HailoFileContext.isValid =
    (b.openFilesList f).map HailoFileContext.isValid

/-- What an ioctl or an mmap can do: it takes no reference and closes no file. -/
structure CallEffect (b : HailoPcieBoard F C) (phase : CallPhase F) (action : CallAction F)
    (b' : HailoPcieBoard F C) (phase' : CallPhase F) : Prop where
  uses : Uses b b'
  refCount : b'.refCount = b.refCount
  contexts : SameContexts b b'
  follows : FollowsFile phase action phase'

theorem down_callEffect {owner : MutexOwner F C} {phase phase' last : CallPhase F}
    (h : (b.down owner).map (fun b => (b, phase')) = some (b', last))
    (hfilp : phase'.filp = phase.filp) : CallEffect b phase .down b' last := by
  obtain ⟨held, hdown, hnext⟩ := Option.map_eq_some_iff.mp h
  obtain ⟨-, rfl⟩ := down_eq_some hdown
  cases hnext
  exact ⟨(uses_use b).setMutex _, rfl, fun _ => rfl, Or.inr (Or.inl hfilp)⟩

variable [DecidableEq F]

theorem down_effect {owner : MutexOwner F C} {phase phase' last : FilePhase}
    (h : (b.down owner).map (fun b => (b, phase')) = some (b', last))
    (hholds : HoldsBoard phase) (hholds' : HoldsBoard phase') (hopened : phase ≠ .opened)
    (hcontext : HasContext phase' → HasContext phase) :
    FileEffect p f b phase .down b' last := by
  obtain ⟨held, hdown, hnext⟩ := Option.map_eq_some_iff.mp h
  obtain ⟨-, rfl⟩ := down_eq_some hdown
  cases hnext
  exact .keeps hholds hholds' (fun h => absurd h hopened) hcontext ((uses_use b).setMutex _) rfl rfl

theorem openSection_effect (answers : OpenAnswers) :
    FileEffect p f b .openHolds (.openSection answers) (openSection p b.use f answers).1
      (openSection p b.use f answers).2 := by
  have hdevice : SamePresence b.device (openDevice p b.use.device answers).1 :=
    openDevice_samePresence p b.use.device answers
  unfold openSection
  split
  · rcases hopen : openDevice p b.use.device answers with ⟨d, ok⟩
    rw [hopen] at hdevice
    have huses := (uses_use b).setDevice hdevice
    cases ok with
    | true => exact .opens ((huses.setContext f _).setMutex none) rfl rfl
    | false =>
      exact .keeps trivial trivial (fun h => by cases h) False.elim (huses.setMutex none) rfl rfl
  · exact .keeps trivial trivial (fun h => by cases h) False.elim
      (((uses_use b).access p _).setMutex none) rfl rfl

theorem finalizeAccelerator_samePresence (usedByFilp : Option F) (context : HailoFileContext)
    (d : BoardDevice) (answers : ReleaseAnswers) :
    SamePresence d (finalizeAccelerator p usedByFilp f context d answers) := by
  unfold finalizeAccelerator
  split
  · split
    · exact accesses_samePresence p d _
    · exact .refl d
  · split
    · exact .refl d
    · exact closeChannels_samePresence p d _

theorem finalizeFile_samePresence (b : HailoPcieBoard F C) (context : HailoFileContext)
    (answers : ReleaseAnswers) : SamePresence b.device (finalizeFile p b f context answers) :=
  ((accesses_samePresence p b.device _).trans
    (finalizeAccelerator_samePresence b.usedByFilp context _ answers)).trans
    (vdmaFinalizeDevice_samePresence p _)

theorem closeFile_uses (h : Uses b b') : Uses b (closeFile b' f) :=
  (h.setUsedByFilp _).setContext f none

theorem releaseSection_effect (answers : ReleaseAnswers)
    (hcontext : (b.openFilesList f).isSome = true) :
    FileEffect p f b .releaseHolds (.releaseSection answers)
      (releaseSection p b.use f answers).1 (releaseSection p b.use f answers).2 := by
  obtain ⟨context, hcontext⟩ := Option.isSome_iff_exists.mp hcontext
  have hfinal : SamePresence b.device (finalizeFile p b.use f context answers) :=
    finalizeFile_samePresence b.use context answers
  have hclosed := (closeFile_uses (f := f) (uses_use b)).setRefCount (b.refCount - 1)
  simp only [releaseSection, show b.use.openFilesList f = some context from hcontext]
  split
  · next hlast =>
    have hcount : b.refCount = 1 := by
      have : b.refCount - 1 = 0 := hlast
      omega
    have hpower := (hfinal.trans (powerDown_samePresence p _ answers.powered)).trans
      (accesses_samePresence p _ [.log kernDebug])
    refine .releases ((hclosed.setDevice hpower).setMutex none) rfl rfl ?_
    rw [← Option.not_isSome, hpower.pDev]
    simp [hcount]
  · next hmore =>
    have hcount : b.refCount ≠ 1 := fun hone => hmore (by
      change b.refCount - 1 = 0
      omega)
    refine .releases ((hclosed.setDevice hfinal).setMutex none) rfl rfl ?_
    rw [if_neg fun h => hcount h.1]

theorem fileStep_effect {phase phase' : FilePhase} {action : FileAction}
    (h : fileStep p b f phase action = some (b', phase'))
    (hcontext : HasContext phase → (b.openFilesList f).isSome = true) :
    FileEffect p f b phase action b' phase' := by
  unfold fileStep at h
  split at h
  · split at h
    · next hlisted =>
      cases h
      exact .acquires hlisted ((uses_use b).setRefCount _) rfl rfl
    · cases h
      exact .absent
  · cases h
    exact .keeps trivial trivial (fun h => by cases h) id ((uses_use b).access p _) rfl rfl
  · exact down_effect h trivial trivial (fun h => by cases h) id
  · next answers =>
    have heffect := openSection_effect (p := p) (b := b) (f := f) answers
    rw [Option.some.inj h] at heffect
    exact heffect
  · cases h
    exact .drops ((uses_use b).setRefCount _) rfl rfl
  · cases h
    exact .keeps trivial trivial (fun _ => rfl) (fun _ => trivial) ((uses_use b).access p _) rfl rfl
  · exact down_effect h trivial trivial (fun h => by cases h) fun _ => trivial
  · next answers =>
    have heffect := releaseSection_effect (p := p) answers (hcontext trivial)
    rw [Option.some.inj h] at heffect
    exact heffect
  · cases h
    exact .frees rfl rfl (accesses_samePresence p _ _) rfl rfl rfl
  · cases h
    refine .logs (lastLog_uses b) ?_ ?_
    · unfold HailoPcieBoard.lastLog
      split <;> rfl
    · unfold HailoPcieBoard.lastLog
      split <;> rfl
  · cases h

theorem setContext_sameContexts {context context' : HailoFileContext}
    (hcontext : b.openFilesList f = some context) (hvalid : context'.isValid = context.isValid) :
    SameContexts b (b.setContext f (some context')) := by
  intro g
  by_cases hgf : g = f
  · simp [HailoPcieBoard.setContext, hgf, hcontext, hvalid]
  · simp [HailoPcieBoard.setContext, hgf]

theorem applyHandler_effect {context : HailoFileContext}
    (hcontext : b.use.openFilesList f = some context) (cmd : IoctlCmd) (outcome : Outcome) :
    Uses b (applyHandler b.use f context cmd outcome) ∧
      (applyHandler b.use f context cmd outcome).refCount = b.refCount ∧
      SameContexts b (applyHandler b.use f context cmd outcome) := by
  have huses := uses_use b
  unfold applyHandler
  split
  · split
    · exact ⟨huses.setUsedByFilp _, rfl, fun _ => rfl⟩
    · exact ⟨huses, rfl, fun _ => rfl⟩
  · exact ⟨huses.setContext f _, rfl, setContext_sameContexts (b := b.use) hcontext rfl⟩
  · exact ⟨huses.setContext f _, rfl, setContext_sameContexts (b := b.use) hcontext rfl⟩
  · exact ⟨huses, rfl, fun _ => rfl⟩

theorem ioctlSection_effect (cmd : IoctlCmd) (outcome : Outcome) :
    CallEffect b (.ioctlHolds f cmd) (.section outcome) (ioctlSection p b.use f cmd outcome).1
      (ioctlSection p b.use f cmd outcome).2 := by
  have hup : ∀ l, Uses b ((b.use.access p l).setMutex none) :=
    fun l => ((uses_use b).access p l).setMutex none
  have hdone : Uses b (b.use.setMutex none) := (uses_use b).setMutex none
  unfold ioctlSection
  split
  · exact ⟨hup _, rfl, fun _ => rfl, Or.inl rfl⟩
  · next context hcontext =>
    split_ifs
    · exact ⟨hup _, rfl, fun _ => rfl, Or.inl rfl⟩
    · exact ⟨hup _, rfl, fun _ => rfl, Or.inr (Or.inl rfl)⟩
    · split
      · exact ⟨hdone, rfl, fun _ => rfl, Or.inr (Or.inl rfl)⟩
      · exact ⟨hdone, rfl, fun _ => rfl, Or.inr (Or.inl rfl)⟩
      · exact ⟨hdone, rfl, fun _ => rfl, Or.inr (Or.inl rfl)⟩
      · exact ⟨hdone, rfl, fun _ => rfl, Or.inr (Or.inl rfl)⟩
      · exact ⟨hdone, rfl, fun _ => rfl, Or.inr (Or.inl rfl)⟩
      · exact ⟨hdone, rfl, fun _ => rfl, Or.inr (Or.inl rfl)⟩
      · have heffect := applyHandler_effect hcontext
        exact ⟨((heffect _ _).1.access p _).setMutex none, (heffect _ _).2.1, (heffect _ _).2.2,
          Or.inr (Or.inl rfl)⟩

theorem callStep_effect {thread : C} {phase phase' : CallPhase F} {action : CallAction F}
    (h : callStep p b thread phase action = some (b', phase')) :
    CallEffect b phase action b' phase' := by
  have haccess : ∀ l, Uses b (b.use.access p l) := fun l => (uses_use b).access p l
  unfold callStep at h
  split at h
  · next filp cmd accessOk =>
    have hstarts : FollowsFile .idle (.ioctl filp cmd accessOk) (.ioctlWaits filp cmd) :=
      Or.inr (Or.inr ⟨filp, rfl, Or.inl ⟨cmd, accessOk, rfl⟩⟩)
    split_ifs at h
    · cases h
      exact ⟨uses_use b, rfl, fun _ => rfl, Or.inl rfl⟩
    · cases h
      exact ⟨haccess _, rfl, fun _ => rfl, hstarts⟩
    · cases h
      exact ⟨haccess _, rfl, fun _ => rfl, Or.inl rfl⟩
  · next filp =>
    split_ifs at h
    · cases h
      exact ⟨haccess _, rfl, fun _ => rfl, Or.inl rfl⟩
    · cases h
      exact ⟨haccess _, rfl, fun _ => rfl, Or.inr (Or.inr ⟨filp, rfl, Or.inr rfl⟩)⟩
  · cases h
    exact ⟨haccess _, rfl, fun _ => rfl, Or.inl rfl⟩
  · exact down_callEffect h rfl
  · next filp cmd outcome =>
    have heffect := ioctlSection_effect (p := p) (b := b) (f := filp) cmd outcome
    rw [Option.some.inj h] at heffect
    exact heffect
  · cases h
    exact ⟨haccess _, rfl, fun _ => rfl, Or.inr (Or.inl rfl)⟩
  · split at h
    · cases h
      exact ⟨(uses_use b).setFwControlMutex _, rfl, fun _ => rfl, Or.inr (Or.inl rfl)⟩
    · cases h
  · cases h
    exact ⟨(haccess _).setFwControlMutex _, rfl, fun _ => rfl, Or.inr (Or.inl rfl)⟩
  · cases h
    exact ⟨(haccess _).setFwControlMutex _, rfl, fun _ => rfl, Or.inr (Or.inl rfl)⟩
  · cases h
    exact ⟨haccess _, rfl, fun _ => rfl, Or.inr (Or.inl rfl)⟩
  · cases h
    exact ⟨(haccess _).setFwControlMutex _, rfl, fun _ => rfl, Or.inr (Or.inl rfl)⟩
  · cases h
    exact ⟨(haccess _).setFwControlMutex _, rfl, fun _ => rfl, Or.inr (Or.inl rfl)⟩
  · cases h
    exact ⟨haccess _, rfl, fun _ => rfl, Or.inr (Or.inl rfl)⟩
  · split at h
    · cases h
    · cases h
      exact ⟨uses_use b, rfl, fun _ => rfl, Or.inr (Or.inl rfl)⟩
  · cases h
    exact ⟨haccess _, rfl, fun _ => rfl, Or.inr (Or.inl rfl)⟩
  · exact down_callEffect h rfl
  · cases h
    exact ⟨(haccess _).setMutex _, rfl, fun _ => rfl, Or.inr (Or.inl rfl)⟩
  · cases h
    exact ⟨haccess _, rfl, fun _ => rfl, Or.inl rfl⟩
  · cases h
    exact ⟨haccess _, rfl, fun _ => rfl, Or.inl rfl⟩
  · exact down_callEffect h rfl
  · split at h
    · cases h
      exact ⟨(haccess _).setMutex _, rfl, fun _ => rfl, Or.inl rfl⟩
    · cases h
      exact ⟨(haccess _).setMutex _, rfl, fun _ => rfl, Or.inl rfl⟩
  · cases h

/-- A call that takes a step is on a file already or starts on one. -/
theorem callStep_onFile {thread : C} {phase phase' : CallPhase F} {action : CallAction F}
    (h : callStep p b thread phase action = some (b', phase')) :
    ∃ f, phase.filp = some f ∨ (∃ cmd accessOk, action = .ioctl f cmd accessOk) ∨
      action = .mmap f := by
  cases phase with
  | idle =>
    cases action with
    | ioctl filp cmd accessOk => exact ⟨filp, Or.inr (Or.inl ⟨cmd, accessOk, rfl⟩)⟩
    | mmap filp => exact ⟨filp, Or.inr (Or.inr rfl)⟩
    | _ => cases h
  | _ => exact ⟨_, Or.inl rfl⟩

end HailortDrivers.BoardSteps
