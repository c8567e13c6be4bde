import HailortDrivers.BoardAccounting
import HailortDrivers.EventRuns

/-!
Who frees the board. As long as the device is there nobody does; once it was removed,
either `hailo_pcie_remove` found no reference left, or the last release frees.
-/
namespace HailortDrivers.BoardLifetime
open FirmwareImage DeviceAccesses BoardCalls BoardSteps HeldReferences BoardAccounting EventRuns

variable {F C : Type}

structure Alive (s : BoardSystem F C) : Prop where
  freed : s.board.freed = 0
  nobody : ∀ f, s.files f ≠ .releaseFrees
  unused : s.removing = .sawUnused → s.board.refCount = 0
  used : s.removing = .sawUsed ∨ s.removing = .done → s.board.refCount ≠ 0

/-- The release of `f` dropped the last reference and is about to free. -/
structure Dying (s : BoardSystem F C) (f : F) : Prop where
  freed : s.board.freed = 0
  removing : s.removing = .sawUsed ∨ s.removing = .done
  refCount : s.board.refCount = 0
  frees : s.files f = .releaseFrees
  only : ∀ g, s.files g = .releaseFrees → g = f

structure Dead (p : DriverParams) (s : BoardSystem F C) : Prop where
  freed : s.board.freed = 1
  removing : s.removing = .done
  refCount : s.board.refCount = 0
  nobody : ∀ f, s.files f ≠ .releaseFrees
  silent : kernDebug ≤ p.oDbg → ∀ f, s.files f ≠ .releaseLogs

inductive Fate (p : DriverParams) (s : BoardSystem F C) : Prop
  | alive (h : Alive s)
  | dying (f : F) (h : Dying s f)
  | dead (h : Dead p s)

/-- Nobody frees while someone else has the board still to read. -/
def FreesLast (p : DriverParams) (s : BoardSystem F C) : Action F C → Prop
  | .file _ (.releaseSection _) =>
    s.board.refCount = 1 → s.board.device.pDev.isNone = true → s.removing ≠ .removed
  | .file _ .decRefCount =>
    s.board.refCount = 1 → s.removing ≠ .sawUsed ∧ s.removing ≠ .done
  | .file _ .kfree =>
    s.removing = .done ∧ (kernDebug ≤ p.oDbg → ∀ f, s.files f ≠ .releaseLogs)
  | .remove =>
    s.removing = .sawUnused → kernDebug ≤ p.oDbg → ∀ f, s.files f ≠ .releaseLogs
  | _ => True

variable {p : DriverParams} {s s' : BoardSystem F C} {b' : HailoPcieBoard F C} {f : F}
  {phase' : FilePhase} {action : FileAction}

theorem alive_of_holds (h : Accounted s) (hfate : Fate p s) (hf : HoldsBoard (s.files f)) :
    Alive s := by
  have hcount := h.refCount_ne_zero hf
  cases hfate with
  | alive halive => exact halive
  | dying g hdying => exact absurd hdying.refCount hcount
  | dead hdead => exact absurd hdead.refCount hcount

theorem unused_of_freed (huses : b'.usedAfterFree = s.board.use.usedAfterFree)
    (hused : s.board.usedAfterFree = false) (hfreed : s.board.freed = 0) :
    b'.usedAfterFree = false := by
  rw [huses, HailoPcieBoard.use, hused, hfreed]
  rfl

section Files
variable [DecidableEq F]

/-- The next phase of `f` frees nothing, so nobody who did not free before does now. -/
theorem nobody_update (h : ∀ g, s.files g ≠ .releaseFrees) (hphase' : phase' ≠ .releaseFrees)
    (g : F) : Function.update s.files f phase' g ≠ .releaseFrees := by
  by_cases hgf : g = f
  · rw [hgf, Function.update_self]
    exact hphase'
  · rw [Function.update_of_ne hgf]
    exact h g

theorem before_closed {phase : FilePhase} {g : F} (hphase : phase ≠ .closed)
    (h : Function.update s.files f .closed g = phase) : g ≠ f ∧ s.files g = phase := by
  by_cases hgf : g = f
  · rw [hgf, Function.update_self] at h
    exact absurd h.symm hphase
  · rw [Function.update_of_ne hgf] at h
    exact ⟨hgf, h⟩

/-- A live board stays alive while somebody counts in it. -/
theorem Alive.afterFile (h : Alive s) (huses : Uses s.board b') (hphase' : phase' ≠ .releaseFrees)
    (hread : s.removing ≠ .sawUnused)
    (hcount : s.removing = .sawUsed ∨ s.removing = .done → b'.refCount ≠ 0) :
    Alive (afterFile s f b' phase') where
  freed := huses.freed.trans h.freed
  nobody := nobody_update h.nobody hphase'
  unused := fun hunused => absurd hunused hread
  used := hcount

/-- The last release after remove has read the reference count becomes the one that frees. -/
theorem fate_release (h : Accounted s) (halive : Alive s)
    (hlast : s.board.refCount = 1 → s.board.device.pDev.isNone = true → s.removing ≠ .removed)
    (hphase : s.files f = .releaseHolds) (huses : Uses s.board b')
    (hcount : b'.refCount = s.board.refCount - 1)
    (hphase' : phase' = if s.board.refCount = 1 ∧ s.board.device.pDev.isNone = true
      then .releaseFrees else .releaseLogs) : Fate p (afterFile s f b' phase') := by
  have hread : s.removing ≠ .sawUnused := fun hunused =>
    h.refCount_ne_zero (f := f) (hphase ▸ trivial) (halive.unused hunused)
  split at hphase'
  · next hfrees =>
    obtain ⟨hone, habsent⟩ := hfrees
    have hdetached : Detached s.removing := by
      by_contra hattached
      have hpresent := h.present.mpr hattached
      rw [Option.isNone_iff_eq_none] at habsent
      rw [habsent] at hpresent
      cases hpresent
    have hnotRemoved := hlast hone habsent
    refine .dying f ⟨huses.freed.trans halive.freed, ?_, ?_, ?_, ?_⟩
    · change s.removing = .sawUsed ∨ s.removing = .done
      cases hremoving : s.removing with
      | sawUsed => exact Or.inl rfl
      | done => exact Or.inr rfl
      | removed => exact absurd hremoving hnotRemoved
      | sawUnused => exact absurd hremoving hread
      | _ =>
        rw [hremoving] at hdetached
        exact hdetached.elim
    · change b'.refCount = 0
      omega
    · exact (Function.update_self ..).trans hphase'
    · intro g hg
      by_contra hgf
      exact halive.nobody g ((Function.update_of_ne hgf _ _).symm.trans hg)
  · next hnot =>
    refine .alive (halive.afterFile huses (by rw [hphase']; decide) hread fun hremoving => ?_)
    have habsent : s.board.device.pDev.isNone = true := by
      rw [← Option.not_isSome, Bool.not_eq_true']
      by_contra hpresent
      refine h.present.mp (Bool.not_eq_false _ ▸ hpresent) ?_
      rcases hremoving with hremoving | hremoving <;> exact hremoving ▸ trivial
    intro hzero
    exact hnot ⟨by omega, habsent⟩

theorem fate_file (h : Accounted s) (hfate : Fate p s) (hadmitted : FreesLast p s (.file f action))
    (heffect : FileEffect p f s.board (s.files f) action b' phase') :
    Fate p (afterFile s f b' phase') := by
  generalize hphase : s.files f = phase at heffect
  have hread : HoldsBoard phase → s.removing ≠ .sawUnused := fun hholds hunused =>
    h.refCount_ne_zero (hphase ▸ hholds) ((alive_of_holds h hfate (hphase ▸ hholds)).unused hunused)
  cases heffect with
  | absent =>
    rw [afterFile, ← hphase, Function.update_eq_self]
    exact hfate
  | acquires hlisted huses =>
    have hattached := not_detached_of_listed (h.listed hlisted)
    have hnot : ∀ removing, s.removing = removing → Detached removing → False :=
      fun removing hremoving hdetached => hattached (hremoving ▸ hdetached)
    cases hfate with
    | alive halive =>
      refine .alive (halive.afterFile huses (by decide) (fun hunused => hnot _ hunused trivial) ?_)
      rintro (hremoving | hremoving)
      · exact (hnot _ hremoving trivial).elim
      · exact (hnot _ hremoving trivial).elim
    | dying g hdying =>
      rcases hdying.removing with hremoving | hremoving
      · exact (hnot _ hremoving trivial).elim
      · exact (hnot _ hremoving trivial).elim
    | dead hdead => exact (hnot _ hdead.removing trivial).elim
  | keeps hholds hholds' _ _ huses hcount =>
    have halive := alive_of_holds h hfate (hphase ▸ hholds)
    refine .alive (halive.afterFile huses ?_ (hread hholds) fun _ => ?_)
    · rintro rfl
      exact hholds'
    · rw [hcount]
      exact h.refCount_ne_zero (hphase ▸ hholds)
  | opens huses hcount =>
    have halive := alive_of_holds h hfate (f := f) (hphase ▸ trivial)
    refine .alive (halive.afterFile huses (by decide) (hread trivial) fun _ => ?_)
    rw [hcount]
    exact h.refCount_ne_zero (f := f) (hphase ▸ trivial)
  | drops huses hcount =>
    have halive := alive_of_holds h hfate (f := f) (hphase ▸ trivial)
    refine .alive (halive.afterFile huses (by decide) (hread trivial) fun hremoving hzero => ?_)
    obtain ⟨hused, hdone⟩ := hadmitted (by omega)
    rcases hremoving with hremoving | hremoving
    · exact hused hremoving
    · exact hdone hremoving
  | releases huses hcount _ hphase' =>
    have halive := alive_of_holds h hfate (f := f) (hphase ▸ trivial)
    exact fate_release h halive hadmitted hphase huses hcount hphase'
  | frees hfreed hlisted hdevice hused hcount =>
    cases hfate with
    | alive halive => exact absurd hphase (halive.nobody f)
    | dead hdead => exact absurd hphase (hdead.nobody f)
    | dying g hdying =>
      obtain rfl := hdying.only f hphase
      refine .dead ⟨?_, hadmitted.1, hcount.trans hdying.refCount, ?_, ?_⟩
      · exact hfreed.trans (by rw [hdying.freed])
      · intro g hg
        obtain ⟨hgf, hbefore⟩ := before_closed (by decide) hg
        exact hgf (hdying.only g hbefore)
      · intro hdebug g hg
        exact hadmitted.2 hdebug g (before_closed (by decide) hg).2
  | logs huses hcount =>
    have hfreed : b'.freed = s.board.freed := by
      rcases huses with rfl | ⟨-, huses⟩
      · rfl
      · exact huses.freed
    cases hfate with
    | alive halive =>
      exact .alive ⟨hfreed.trans halive.freed, nobody_update halive.nobody (by decide),
        fun hunused => hcount.trans (halive.unused hunused),
        fun hremoving => hcount ▸ halive.used hremoving⟩
    | dying g hdying =>
      have hgf : g ≠ f := by
        rintro rfl
        cases hphase.symm.trans hdying.frees
      exact .dying g ⟨hfreed.trans hdying.freed, hdying.removing, hcount.trans hdying.refCount,
        (Function.update_of_ne hgf _ _).trans hdying.frees,
        fun g' hg' => hdying.only g' (before_closed (by decide) hg').2⟩
    | dead hdead =>
      exact .dead ⟨hfreed.trans hdead.freed, hdead.removing, hcount.trans hdead.refCount,
        nobody_update hdead.nobody (by decide),
        fun hdebug g hg => hdead.silent hdebug g (before_closed (by decide) hg).2⟩

end Files

theorem usedAfterFree_file [DecidableEq F] (h : Accounted s) (hfate : Fate p s)
    (hused : s.board.usedAfterFree = false)
    (heffect : FileEffect p f s.board (s.files f) action b' phase') :
    b'.usedAfterFree = false := by
  generalize hphase : s.files f = phase at heffect
  have hholder : ∀ {b' : HailoPcieBoard F C}, HoldsBoard phase → Uses s.board b' →
      b'.usedAfterFree = false := fun hholds huses =>
    unused_of_freed huses.usedAfterFree hused (alive_of_holds h hfate (hphase ▸ hholds)).freed
  cases heffect with
  | absent => exact hused
  | acquires hlisted huses =>
    have hattached := not_detached_of_listed (h.listed hlisted)
    cases hfate with
    | alive halive => exact unused_of_freed huses.usedAfterFree hused halive.freed
    | dying g hdying => exact unused_of_freed huses.usedAfterFree hused hdying.freed
    | dead hdead => exact absurd (hdead.removing ▸ trivial) hattached
  | keeps hholds _ _ _ huses => exact hholder hholds huses
  | opens huses => exact hholder trivial huses
  | drops huses => exact hholder trivial huses
  | releases huses => exact hholder trivial huses
  | frees _ _ _ huses =>
    cases hfate with
    | alive halive => exact absurd hphase (halive.nobody f)
    | dying g hdying => exact unused_of_freed huses hused hdying.freed
    | dead hdead => exact absurd hphase (hdead.nobody f)
  | logs huses =>
    rcases huses with rfl | ⟨hdebug, huses⟩
    · exact hused
    · cases hfate with
      | alive halive => exact unused_of_freed huses.usedAfterFree hused halive.freed
      | dying g hdying => exact unused_of_freed huses.usedAfterFree hused hdying.freed
      | dead hdead => exact absurd hphase (hdead.silent hdebug f)

structure Safe (p : DriverParams) (s : BoardSystem F C) : Prop where
  accounted : Accounted s
  fate : Fate p s
  unused : s.board.usedAfterFree = false

/-- An ioctl or an mmap is on an open file, which holds a reference. -/
theorem fate_call [DecidableEq C] {t : C} {action : CallAction F} {phase' : CallPhase F}
    (h : Safe p s) (hallows : KernelAllows s (.call t action))
    (hfile : ∃ f, (s.calls t).filp = some f ∨ (∃ cmd accessOk, action = .ioctl f cmd accessOk) ∨
      action = .mmap f)
    (heffect : CallEffect s.board (s.calls t) action b' phase') :
    Fate p (afterCall s t b' phase') ∧ b'.usedAfterFree = false := by
  obtain ⟨f, hopened⟩ : ∃ f, s.files f = .opened := by
    obtain ⟨f, hcall | hstarts⟩ := hfile
    · exact ⟨f, h.accounted.calls t f hcall⟩
    · exact ⟨f, opened_of_starts hallows hstarts⟩
  have halive := alive_of_holds h.accounted h.fate (f := f) (hopened ▸ trivial)
  have huses := heffect.uses
  refine ⟨.alive ⟨?_, halive.nobody, ?_, ?_⟩,
    unused_of_freed huses.usedAfterFree h.unused halive.freed⟩
  · exact huses.freed.trans halive.freed
  · exact fun hunused => heffect.refCount.trans (halive.unused hunused)
  · exact fun hremoving => heffect.refCount ▸ halive.used hremoving

theorem Safe.alive_of_unread (h : Safe p s) (hused : s.removing ≠ .sawUsed)
    (hdone : s.removing ≠ .done) : Alive s := by
  cases h.fate with
  | alive halive => exact halive
  | dying g hdying => exact absurd hdying.removing (by simp [hused, hdone])
  | dead hdead => exact absurd hdead.removing hdone

theorem fate_remove {removing' : RemovePhase} (h : Safe p s)
    (hadmitted : s.removing = .sawUnused → kernDebug ≤ p.oDbg → ∀ f, s.files f ≠ .releaseLogs)
    (hstep : removeStep p s.board s.removing = some (b', removing')) :
    Fate p ⟨b', removing', s.files, s.calls⟩ ∧ b'.usedAfterFree = false := by
  have hunread := h.alive_of_unread
  cases hremoving : s.removing with
  | notCalled =>
    have halive := hunread (by rw [hremoving]; decide) (by rw [hremoving]; decide)
    rw [hremoving] at hstep
    cases hstep
    exact ⟨.alive ⟨halive.freed, halive.nobody, by simp, by simp⟩, h.unused⟩
  | waits =>
    have halive := hunread (by rw [hremoving]; decide) (by rw [hremoving]; decide)
    rw [hremoving] at hstep
    obtain ⟨held, hdown, hnext⟩ := Option.map_eq_some_iff.mp hstep
    obtain ⟨-, rfl⟩ := down_eq_some hdown
    cases hnext
    exact ⟨.alive ⟨halive.freed, halive.nobody, by simp, by simp⟩,
      unused_of_freed rfl h.unused halive.freed⟩
  | holds =>
    have halive := hunread (by rw [hremoving]; decide) (by rw [hremoving]; decide)
    rw [hremoving] at hstep
    cases hstep
    exact ⟨.alive ⟨halive.freed, halive.nobody, by simp, by simp⟩,
      unused_of_freed rfl h.unused halive.freed⟩
  | unlisted =>
    have halive := hunread (by rw [hremoving]; decide) (by rw [hremoving]; decide)
    rw [hremoving] at hstep
    cases hstep
    exact ⟨.alive ⟨halive.freed, halive.nobody, by simp, by simp⟩,
      unused_of_freed rfl h.unused halive.freed⟩
  | removed =>
    have halive := hunread (by rw [hremoving]; decide) (by rw [hremoving]; decide)
    rw [hremoving, removeStep] at hstep
    by_cases hcount : s.board.refCount = 0
    · rw [if_pos hcount] at hstep
      cases hstep
      exact ⟨.alive ⟨halive.freed, halive.nobody, fun _ => hcount, by simp⟩,
        unused_of_freed rfl h.unused halive.freed⟩
    · rw [if_neg hcount] at hstep
      cases hstep
      exact ⟨.alive ⟨halive.freed, halive.nobody, by simp, fun _ => hcount⟩,
        unused_of_freed rfl h.unused halive.freed⟩
  | sawUnused =>
    have halive := hunread (by rw [hremoving]; decide) (by rw [hremoving]; decide)
    rw [hremoving] at hstep
    cases hstep
    refine ⟨.dead ⟨?_, rfl, halive.unused hremoving, halive.nobody, hadmitted hremoving⟩,
      unused_of_freed rfl h.unused halive.freed⟩
    change s.board.freed + 1 = 1
    rw [halive.freed]
  | sawUsed =>
    rw [hremoving] at hstep
    cases hstep
    cases h.fate with
    | alive halive =>
      exact ⟨.alive ⟨halive.freed, halive.nobody, by simp,
        fun _ => halive.used (Or.inl hremoving)⟩, unused_of_freed rfl h.unused halive.freed⟩
    | dying g hdying =>
      exact ⟨.dying g ⟨hdying.freed, Or.inr rfl, hdying.refCount, hdying.frees, hdying.only⟩,
        unused_of_freed rfl h.unused hdying.freed⟩
    | dead hdead => cases hremoving.symm.trans hdead.removing
  | done =>
    rw [hremoving] at hstep
    cases hstep

theorem safe_probed (p : DriverParams) :
    Safe p (probedSystem p : BoardSystem F C) := by
  refine ⟨accounted_probed p, .alive ⟨rfl, ?_, ?_, ?_⟩, rfl⟩
  · exact fun _ h => by cases h
  · exact fun h => by cases h
  · rintro (h | h) <;> cases h

/-- The board is not used after it was freed, nor freed twice; and it was freed once remove
has finished and no file is open or being opened. -/
def FreedOnce (s : BoardSystem F C) : Prop :=
  s.board.usedAfterFree = false ∧ s.board.freed ≤ 1 ∧
    (s.removing = .done → (∀ f, s.files f = .closed) → s.board.freed = 1)

theorem Safe.freedOnce (h : Safe p s) : FreedOnce s := by
  refine ⟨h.unused, ?_, ?_⟩
  · cases h.fate with
    | alive halive => exact halive.freed.trans_le (Nat.zero_le 1)
    | dying f hdying => exact hdying.freed.trans_le (Nat.zero_le 1)
    | dead hdead => exact hdead.freed.le
  · intro hdone hclosed
    cases h.fate with
    | alive halive =>
      have hfree : ∀ f, ¬ HoldsBoard (s.files f) := fun f => by
        rw [hclosed f]
        exact id
      exact absurd (h.accounted.counted.eq_zero_iff.mpr hfree) (halive.used (Or.inr hdone))
    | dying f hdying => cases (hclosed f).symm.trans hdying.frees
    | dead hdead => exact hdead.freed

variable [DecidableEq F] [DecidableEq C]

theorem safe_step {action : Action F C} (h : Safe p s) (hallows : KernelAllows s action)
    (hadmitted : FreesLast p s action) (hstep : step p s action = some s') : Safe p s' := by
  have haccounted := accounted_step h.accounted hallows hstep
  cases action with
  | remove =>
    obtain ⟨⟨b', removing'⟩, hnext, rfl⟩ := Option.map_eq_some_iff.mp hstep
    obtain ⟨hfate, hunused⟩ := fate_remove h hadmitted hnext
    exact ⟨haccounted, hfate, hunused⟩
  | file f action =>
    obtain ⟨⟨b', phase'⟩, hnext, rfl⟩ := Option.map_eq_some_iff.mp hstep
    have heffect := fileStep_effect hnext (h.accounted.contexts f)
    exact ⟨haccounted, fate_file h.accounted h.fate hadmitted heffect,
      usedAfterFree_file h.accounted h.fate h.unused heffect⟩
  | call t action =>
    obtain ⟨⟨b', phase'⟩, hnext, rfl⟩ := Option.map_eq_some_iff.mp hstep
    obtain ⟨hfate, hunused⟩ := fate_call h hallows (callStep_onFile hnext) (callStep_effect hnext)
    exact ⟨haccounted, hfate, hunused⟩

/-- In every run in which nobody frees before the others are done with the board, it is
freed exactly once and not used after that. -/
theorem freedOnce_of_run
    (hrun : Relation.ReflTransGen (Steps p (FreesLast p)) (probedSystem p) s) :
    FreedOnce s := by
  refine Safe.freedOnce (p := p) (inv_of_run ?_ hrun (safe_probed p))
  rintro s s' h ⟨action, hallows, hadmitted, hstep⟩
  exact safe_step h hallows hadmitted hstep

/-- File 0 is released after remove. -/
theorem freedOnce_of_run_lastRelease :
    ∃ s : BoardSystem Nat Nat, s.removing = .done ∧ (∀ f, s.files f = .closed) ∧
      s.board.usedAfterFree = false ∧ s.board.freed = 1 := by
  obtain ⟨s, hrun, hdone, hclosed⟩ : ∃ s : BoardSystem Nat Nat,
      Relation.ReflTransGen (Steps nncParams (FreesLast nncParams)) (probedSystem nncParams) s ∧
        s.removing = .done ∧ ∀ f, s.files f = .closed := by
    refine ⟨_, .head ⟨.file 0 .getBoardIndex, trivial, trivial, rfl⟩ <|
      .head ⟨.file 0 .down, trivial, trivial, rfl⟩ <|
      .head ⟨.file 0 (.openSection granted), trivial, trivial, rfl⟩ <|
      .head ⟨.remove, trivial, nofun, rfl⟩ <|
      .head ⟨.remove, trivial, nofun, rfl⟩ <|
      .head ⟨.remove, trivial, nofun, rfl⟩ <|
      .head ⟨.remove, trivial, nofun, rfl⟩ <|
      .head ⟨.remove, trivial, nofun, rfl⟩ <|
      .head ⟨.remove, trivial, nofun, rfl⟩ <|
      .head ⟨.file 0 .release, nofun, trivial, rfl⟩ <|
      .head ⟨.file 0 .down, trivial, trivial, rfl⟩ <|
      .head ⟨.file 0 (.releaseSection answered), trivial, nofun, rfl⟩ <|
      .single ⟨.file 0 .kfree, trivial, ⟨rfl, nofun⟩, rfl⟩, rfl, fun f => ?_⟩
    by_cases hf : f = 0
    · subst hf
      rfl
    · simp [hf, probedSystem]
  have hfreed := freedOnce_of_run hrun
  exact ⟨s, hdone, hclosed, hfreed.1, hfreed.2.2 hdone hclosed⟩

/-- A release that frees before remove reads the reference count, and an open that fails
after that: the board is used after it was freed, or never freed. The device is not touched
after remove in either run. -/
theorem lateRelease_used_failedOpen_leaks :
    (∃ s : BoardSystem Nat Nat, Relation.ReflTransGen (Steps nncParams fun _ _ => True)
      (probedSystem nncParams) s ∧ s.board.device.touchedAbsent = false ∧
      s.board.freed = 1 ∧ s.board.usedAfterFree = true ∧ ¬ FreedOnce s) ∧
    ∃ s : BoardSystem Nat Nat, Relation.ReflTransGen (Steps nncParams fun _ _ => True)
      (probedSystem nncParams) s ∧ s.board.device.touchedAbsent = false ∧
      s.removing = .done ∧ (∀ f, s.files f = .closed) ∧ s.board.freed = 0 ∧ ¬ FreedOnce s := by
  constructor
  · obtain ⟨s, hrun, htouched, hfreed, hused⟩ : ∃ s : BoardSystem Nat Nat,
        Relation.ReflTransGen (Steps nncParams fun _ _ => True) (probedSystem nncParams) s ∧
          s.board.device.touchedAbsent = false ∧ s.board.freed = 1 ∧
          s.board.usedAfterFree = true :=
      ⟨_, .head ⟨.file 0 .getBoardIndex, trivial, trivial, rfl⟩ <|
        .head ⟨.file 0 .down, trivial, trivial, rfl⟩ <|
        .head ⟨.file 0 (.openSection granted), trivial, trivial, rfl⟩ <|
        .head ⟨.remove, trivial, trivial, rfl⟩ <|
        .head ⟨.remove, trivial, trivial, rfl⟩ <|
        .head ⟨.file 0 .release, nofun, trivial, rfl⟩ <|
        .head ⟨.remove, trivial, trivial, rfl⟩ <|
        .head ⟨.remove, trivial, trivial, rfl⟩ <|
        .head ⟨.file 0 .down, trivial, trivial, rfl⟩ <|
        .head ⟨.file 0 (.releaseSection answered), trivial, trivial, rfl⟩ <|
        .head ⟨.file 0 .kfree, trivial, trivial, rfl⟩ <|
        .single ⟨.remove, trivial, trivial, rfl⟩, rfl, rfl, rfl⟩
    refine ⟨s, hrun, htouched, hfreed, hused, fun h => ?_⟩
    cases hused.symm.trans h.1
  · obtain ⟨s, hrun, htouched, hdone, hclosed, hfreed⟩ : ∃ s : BoardSystem Nat Nat,
        Relation.ReflTransGen (Steps nncParams fun _ _ => True) (probedSystem nncParams) s ∧
          s.board.device.touchedAbsent = false ∧ s.removing = .done ∧
          (∀ f, s.files f = .closed) ∧ s.board.freed = 0 := by
      refine ⟨_, .head ⟨.file 0 .getBoardIndex, trivial, trivial, rfl⟩ <|
        .head ⟨.file 0 .down, trivial, trivial, rfl⟩ <|
        .head ⟨.file 0 (.openSection disconnected), trivial, trivial, rfl⟩ <|
        .head ⟨.remove, trivial, trivial, rfl⟩ <|
        .head ⟨.remove, trivial, trivial, rfl⟩ <|
        .head ⟨.remove, trivial, trivial, rfl⟩ <|
        .head ⟨.remove, trivial, trivial, rfl⟩ <|
        .head ⟨.remove, trivial, trivial, rfl⟩ <|
        .head ⟨.remove, trivial, trivial, rfl⟩ <|
        .single ⟨.file 0 .decRefCount, trivial, trivial, rfl⟩, rfl, rfl, fun f => ?_, rfl⟩
      by_cases hf : f = 0
      · subst hf
        rfl
      · simp [hf, probedSystem]
    refine ⟨s, hrun, htouched, hdone, hclosed, hfreed, fun h => ?_⟩
    cases hfreed.symm.trans (h.2.2 hdone hclosed)

end HailortDrivers.BoardLifetime
