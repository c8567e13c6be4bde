import HailortDrivers.BoardAccounting
import HailortDrivers.EventRuns

/-!
A board that nobody uses has no references, no file contexts and its interrupts off, as long
as a failing open does not give back the last reference: only a release disables interrupts.
-/
namespace HailortDrivers.IdleBoard
open FirmwareImage DeviceAccesses BoardCalls BoardSteps BoardAccounting HeldReferences EventRuns

section Interrupts
variable (p : DriverParams)

@[simp] theorem accesses_interruptsEnabled (d : BoardDevice) (accesses : List Access) :
    (d.accesses p accesses).interruptsEnabled = d.interruptsEnabled := by
  induction accesses generalizing d with
  | nil => rfl
  | cons access accesses ih =>
    refine (ih _).trans ?_
    cases access with
    | log level =>
      simp only [BoardDevice.access]
      split <;> rfl
    | _ => rfl

theorem disableInterrupts_interruptsEnabled {d : BoardDevice} (hpDev : d.pDev.isSome = true) :
    (hailoDisableInterrupts p d).interruptsEnabled = false := by
  have hpresent : d.pDev.isNone = false := by
    rw [← Option.not_isSome, hpDev]
    rfl
  unfold hailoDisableInterrupts
  rw [hpresent]
  cases henabled : d.interruptsEnabled with
  | false => exact henabled
  | true => exact accesses_interruptsEnabled p _ _

theorem powerOff_interruptsEnabled (d : BoardDevice) (powered : Bool) :
    (powerOff p d powered).interruptsEnabled = d.interruptsEnabled := by
  unfold powerOff
  split_ifs
  · rfl
  · exact accesses_interruptsEnabled p d _
  · exact accesses_interruptsEnabled p d _

theorem powerDown_interruptsEnabled {d : BoardDevice} (hpDev : d.pDev.isSome = true)
    (powered : Bool) : (powerDown p d powered).interruptsEnabled = false := by
  have hdisabled := disableInterrupts_interruptsEnabled p hpDev
  unfold powerDown
  split
  · rwa [powerOff_interruptsEnabled, accesses_interruptsEnabled]
  · exact hdisabled

end Interrupts

variable {F C : Type}

/-- No call is in progress and no file is open. -/
def Idle (s : BoardSystem F C) : Prop := ∀ f, s.files f = .closed

structure AtRest (b : HailoPcieBoard F C) : Prop where
  refCount : b.refCount = 0
  openFilesList : ∀ f, b.openFilesList f = none
  interruptsEnabled : b.device.interruptsEnabled = false

/-- Calls are opens and releases, and an open that fails with the last reference does so with
the interrupts off. -/
def KeepsLastReference (s : BoardSystem F C) : Action F C → Prop
  | .file _ .decRefCount => s.board.refCount = 1 → s.board.device.interruptsEnabled = false
  | .file _ _ => True
  | _ => False

/-- What holds between the steps of the calls: interrupts are on only for a reference. -/
structure Covered (s : BoardSystem F C) : Prop where
  accounted : Accounted s
  attached : s.removing = .notCalled
  contexts : ∀ f, ¬ HasContext (s.files f) → s.board.openFilesList f = none
  interrupts : s.board.device.interruptsEnabled = true → s.board.refCount ≠ 0

theorem Covered.pDev {s : BoardSystem F C} (h : Covered s) :
    s.board.device.pDev.isSome = true :=
  h.accounted.present.mpr (h.attached ▸ id)

theorem Covered.atRest {s : BoardSystem F C} (h : Covered s) (hidle : Idle s) :
    AtRest s.board := by
  have hcount : s.board.refCount = 0 := by
    rw [h.accounted.counted.eq_zero_iff]
    intro f
    rw [hidle f]
    exact id
  refine ⟨hcount, fun f => h.contexts f ?_, ?_⟩
  · rw [hidle f]
    exact id
  · cases henabled : s.board.device.interruptsEnabled with
    | false => rfl
    | true => exact absurd hcount (h.interrupts henabled)

theorem keepsLastReference_of_ne {s : BoardSystem F C} {f : F} (h : s.board.refCount ≠ 1) :
    KeepsLastReference s (.file f .decRefCount) := fun hone => absurd hone h

theorem allows_release {s : BoardSystem F C} {f : F} (h : ∀ t, s.calls t = .idle) :
    KernelAllows s (.file f .release) := by
  intro t hcall
  rw [h t] at hcall
  cases hcall

theorem covered_probed (p : DriverParams) : Covered (probedSystem p : BoardSystem F C) where
  accounted := accounted_probed p
  attached := rfl
  contexts := fun _ _ => rfl
  interrupts := fun h => by cases h

variable {p : DriverParams} {b b' : HailoPcieBoard F C} {f : F}
  {phase phase' : FilePhase} {action : FileAction}

theorem down_openFilesList {owner : MutexOwner F C} {next : FilePhase}
    (h : (b.down owner).map (fun b => (b, next)) = some (b', phase')) :
    b'.openFilesList = b.openFilesList ∧ phase' = next := by
  obtain ⟨held, hdown, hnext⟩ := Option.map_eq_some_iff.mp h
  obtain ⟨-, rfl⟩ := down_eq_some hdown
  cases hnext
  exact ⟨rfl, rfl⟩

variable [DecidableEq F]

theorem openSection_eq {answers : OpenAnswers} (h : openSection p b f answers = (b', phase')) :
    HoldsBoard phase' ∧ (¬ HasContext phase' → b'.openFilesList = b.openFilesList) := by
  unfold openSection at h
  split at h
  · rcases hopen : openDevice p b.device answers with ⟨d, ok⟩
    rw [hopen] at h
    cases ok with
    | true =>
      cases h
      exact ⟨trivial, fun hcontext => absurd trivial hcontext⟩
    | false =>
      cases h
      exact ⟨trivial, fun _ => rfl⟩
  · cases h
    exact ⟨trivial, fun _ => rfl⟩

theorem releaseSection_openFilesList {answers : ReleaseAnswers}
    (h : releaseSection p b f answers = (b', phase')) : b'.openFilesList f = none := by
  unfold releaseSection at h
  split at h
  · next hnone =>
    cases h
    exact hnone
  · simp only at h
    split at h
    · cases h
      exact Function.update_self _ _ _
    · cases h
      exact Function.update_self _ _ _

/-- An open or a release that has no context leaves none behind. -/
theorem fileStep_openFilesList (h : fileStep p b f phase action = some (b', phase'))
    (hbefore : ¬ HasContext phase → b.openFilesList f = none) (hcontext : ¬ HasContext phase') :
    b'.openFilesList f = none := by
  unfold fileStep at h
  split at h
  · split at h
    · cases h
      exact hbefore id
    · cases h
      exact hbefore id
  · cases h
    exact hbefore id
  · rw [(down_openFilesList h).1]
    exact hbefore id
  · next answers =>
    rw [(openSection_eq (Option.some.inj h)).2 hcontext]
    exact hbefore id
  · cases h
    exact hbefore id
  · cases h
    exact absurd trivial hcontext
  · rw [(down_openFilesList h).2] at hcontext
    exact absurd trivial hcontext
  · next answers => exact releaseSection_openFilesList (Option.some.inj h)
  · cases h
    exact hbefore id
  · cases h
    unfold HailoPcieBoard.lastLog
    split <;> exact hbefore id
  · cases h

/-- The last release turns the interrupts off. -/
theorem releaseSection_interrupts {answers : ReleaseAnswers}
    (h : releaseSection p b f answers = (b', phase')) (hpDev : b.device.pDev.isSome = true)
    (hcontext : (b.openFilesList f).isSome = true) (hzero : b'.refCount = 0) :
    b'.device.interruptsEnabled = false := by
  obtain ⟨context, hcontext⟩ := Option.isSome_iff_exists.mp hcontext
  simp only [releaseSection, hcontext] at h
  split at h
  · cases h
    refine (accesses_interruptsEnabled p _ _).trans (powerDown_interruptsEnabled p ?_ _)
    exact (finalizeFile_samePresence b context answers).pDev.trans hpDev
  · next hmore =>
    cases h
    exact absurd hzero hmore

/-- A step after which nobody refers to the board leaves its interrupts off. -/
theorem fileStep_interrupts (h : fileStep p b f phase action = some (b', phase'))
    (hpDev : b.device.pDev.isSome = true)
    (hcontext : HasContext phase → (b.openFilesList f).isSome = true)
    (hbefore : b.device.interruptsEnabled = true → b.refCount ≠ 0)
    (hlast : action = .decRefCount → b.refCount = 1 → b.device.interruptsEnabled = false)
    (hholds : ¬ HoldsBoard phase') (henabled : b'.device.interruptsEnabled = true) :
    b'.refCount ≠ 0 := by
  unfold fileStep at h
  split at h
  · split at h
    · cases h
      exact absurd trivial hholds
    · cases h
      exact hbefore henabled
  · cases h
    exact absurd trivial hholds
  · obtain ⟨held, -, hnext⟩ := Option.map_eq_some_iff.mp h
    cases hnext
    exact absurd trivial hholds
  · next answers => exact absurd (openSection_eq (Option.some.inj h)).1 hholds
  · cases h
    intro hzero
    have hone : b.refCount = 1 := by
      have : b.refCount - 1 = 0 := hzero
      omega
    cases henabled.symm.trans (hlast rfl hone)
  · cases h
    exact absurd trivial hholds
  · obtain ⟨held, -, hnext⟩ := Option.map_eq_some_iff.mp h
    cases hnext
    exact absurd trivial hholds
  · next answers =>
    intro hzero
    have hoff := releaseSection_interrupts (Option.some.inj h) hpDev (hcontext trivial) hzero
    cases henabled.symm.trans hoff
  · cases h
    exact hbefore ((accesses_interruptsEnabled p _ _).symm.trans henabled)
  · cases h
    revert henabled
    unfold HailoPcieBoard.lastLog
    split
    · exact fun henabled => hbefore ((accesses_interruptsEnabled p _ _).symm.trans henabled)
    · exact hbefore
  · cases h

variable [DecidableEq C] {s s' : BoardSystem F C}

theorem covered_step {action : Action F C} (h : Covered s) (hallows : KernelAllows s action)
    (hadmitted : KeepsLastReference s action) (hstep : step p s action = some s') :
    Covered s' := by
  have haccounted := accounted_step h.accounted hallows hstep
  cases action with
  | remove => exact hadmitted.elim
  | call t action => exact hadmitted.elim
  | file f action =>
    obtain ⟨⟨b', phase'⟩, hnext, rfl⟩ := Option.map_eq_some_iff.mp hstep
    have hlast : action = .decRefCount → s.board.refCount = 1 →
        s.board.device.interruptsEnabled = false := by
      rintro rfl
      exact hadmitted
    refine ⟨haccounted, h.attached, fun g hg => ?_, fun henabled => ?_⟩
    · change ¬ HasContext (Function.update s.files f phase' g) at hg
      by_cases hgf : g = f
      · subst hgf
        rw [Function.update_self] at hg
        exact fileStep_openFilesList hnext (h.contexts g) hg
      · rw [Function.update_of_ne hgf] at hg
        have hbefore := h.contexts g hg
        rcases fileEffect_openFilesList (fileStep_effect hnext (h.accounted.contexts f)) with
          ⟨hsame, -⟩ | hset | ⟨hset, -⟩
        · exact (congrFun hsame g).trans hbefore
        · exact (congrFun hset g).trans ((Function.update_of_ne hgf _ _).trans hbefore)
        · exact (congrFun hset g).trans ((Function.update_of_ne hgf _ _).trans hbefore)
    · by_cases hholds : HoldsBoard phase'
      · refine haccounted.refCount_ne_zero (f := f) ?_
        change HoldsBoard (Function.update s.files f phase' f)
        rwa [Function.update_self]
      · exact fileStep_interrupts hnext h.pDev (h.accounted.contexts f) h.interrupts hlast hholds
          henabled

theorem atRest_of_run
    (hrun : Relation.ReflTransGen (Steps p KeepsLastReference) (probedSystem p) s)
    (hidle : Idle s) : AtRest s.board := by
  refine Covered.atRest (inv_of_run ?_ hrun (covered_probed p)) hidle
  rintro s s' h ⟨action, hallows, hadmitted, hstep⟩
  exact covered_step h hallows hadmitted hstep

/-- File 1 is opened in vain while file 0 is open, and file 0 is released after that. -/
theorem atRest_of_run_failedOpen : ∃ s : BoardSystem Nat Nat, AtRest s.board := by
  obtain ⟨s, hrun, hidle⟩ : ∃ s : BoardSystem Nat Nat,
      Relation.ReflTransGen (Steps nncParams KeepsLastReference) (probedSystem nncParams) s ∧
        Idle s := by
    refine ⟨_, .head ⟨.file 0 .getBoardIndex, trivial, trivial, rfl⟩ <|
      .head ⟨.file 0 .down, trivial, trivial, rfl⟩ <|
      .head ⟨.file 0 (.openSection granted), trivial, trivial, rfl⟩ <|
      .head ⟨.file 1 .getBoardIndex, trivial, trivial, rfl⟩ <|
      .head ⟨.file 1 .interrupted, trivial, trivial, rfl⟩ <|
      .head ⟨.file 1 .decRefCount, trivial, keepsLastReference_of_ne (by decide), rfl⟩ <|
      .head ⟨.file 0 .release, allows_release fun _ => rfl, trivial, rfl⟩ <|
      .head ⟨.file 0 .down, trivial, trivial, rfl⟩ <|
      .head ⟨.file 0 (.releaseSection answered), trivial, trivial, rfl⟩ <|
      .single ⟨.file 0 .log, trivial, trivial, rfl⟩, fun f => ?_⟩
    by_cases h0 : f = 0
    · subst h0
      rfl
    · by_cases h1 : f = 1
      · subst h1
        rfl
      · simp [h0, h1, probedSystem]
  exact ⟨s, atRest_of_run hrun hidle⟩

/-- The open of file 1 counts while file 0 is released, and is interrupted after that. -/
theorem interruptedOpen_leavesInterruptsOn :
    ∃ s : BoardSystem Nat Nat,
      Relation.ReflTransGen (Steps nncParams fun _ action => ∃ f a, action = .file f a)
        (probedSystem nncParams) s ∧
      Idle s ∧ s.board.refCount = 0 ∧ s.board.device.interruptsEnabled = true ∧
      ¬ AtRest s.board := by
  obtain ⟨s, hrun, hidle, hcount, henabled⟩ : ∃ s : BoardSystem Nat Nat,
      Relation.ReflTransGen (Steps nncParams fun _ action => ∃ f a, action = .file f a)
        (probedSystem nncParams) s ∧
      Idle s ∧ s.board.refCount = 0 ∧ s.board.device.interruptsEnabled = true := by
    refine ⟨_, .head ⟨.file 0 .getBoardIndex, trivial, ⟨_, _, rfl⟩, rfl⟩ <|
      .head ⟨.file 0 .down, trivial, ⟨_, _, rfl⟩, rfl⟩ <|
      .head ⟨.file 0 (.openSection granted), trivial, ⟨_, _, rfl⟩, rfl⟩ <|
      .head ⟨.file 1 .getBoardIndex, trivial, ⟨_, _, rfl⟩, rfl⟩ <|
      .head ⟨.file 0 .release, allows_release fun _ => rfl, ⟨_, _, rfl⟩, rfl⟩ <|
      .head ⟨.file 0 .down, trivial, ⟨_, _, rfl⟩, rfl⟩ <|
      .head ⟨.file 0 (.releaseSection answered), trivial, ⟨_, _, rfl⟩, rfl⟩ <|
      .head ⟨.file 0 .log, trivial, ⟨_, _, rfl⟩, rfl⟩ <|
      .head ⟨.file 1 .interrupted, trivial, ⟨_, _, rfl⟩, rfl⟩ <|
      .single ⟨.file 1 .decRefCount, trivial, ⟨_, _, rfl⟩, rfl⟩, fun f => ?_, rfl, rfl⟩
    by_cases h0 : f = 0
    · subst h0
      rfl
    · by_cases h1 : f = 1
      · subst h1
        rfl
      · simp [h0, h1, probedSystem]
  refine ⟨s, hrun, hidle, hcount, henabled, fun h => ?_⟩
  cases henabled.symm.trans h.interruptsEnabled

end HailortDrivers.IdleBoard
