import HailortDrivers.BoardSteps
import HailortDrivers.HeldReferences

/-!
What is always right about a board, whoever frees it: `ref_count` counts the open files and
the opens and releases under way, open files have a valid context, and the device is there
until remove detaches it.
-/
namespace HailortDrivers.BoardAccounting
open FirmwareImage DeviceAccesses BoardCalls BoardSteps HeldReferences

variable {F C : Type}

/-- The board no longer has a device. -/
def Detached : RemovePhase → Prop
  | .notCalled | .waits | .holds | .unlisted => False
  | .removed | .sawUnused | .sawUsed | .done => True

/-- Remove has not taken the board off the list of boards. -/
def Listed : RemovePhase → Prop
  | .notCalled | .waits | .holds => True
  | .unlisted | .removed | .sawUnused | .sawUsed | .done => False

theorem not_detached_of_listed {removing : RemovePhase} (h : Listed removing) :
    ¬ Detached removing := by
  cases removing with
  | notCalled => exact id
  | waits => exact id
  | holds => exact id
  | _ => exact h.elim

structure Accounted (s : BoardSystem F C) : Prop where
  counted : Counted HoldsBoard s.files s.board.refCount
  contexts : ∀ f, HasContext (s.files f) → (s.board.openFilesList f).isSome = true
  valid : ∀ f context, s.board.openFilesList f = some context → context.isValid = true
  present : s.board.device.pDev.isSome = true ↔ ¬ Detached s.removing
  mapped : s.board.device.mapped = true ↔ ¬ Detached s.removing
  listed : s.board.inBoardList = true → Listed s.removing
  calls : ∀ t f, (s.calls t).filp = some f → s.files f = .opened

variable {p : DriverParams} {s s' : BoardSystem F C} {b' : HailoPcieBoard F C} {f : F}
  {phase' : FilePhase} {action : FileAction}

theorem Accounted.refCount_ne_zero (h : Accounted s) (hf : HoldsBoard (s.files f)) :
    s.board.refCount ≠ 0 := h.counted.ne_zero hf

section Files
variable [DecidableEq F]

theorem fileEffect_attached {phase : FilePhase}
    (h : FileEffect p f s.board phase action b' phase') :
    b'.inBoardList = s.board.inBoardList ∧ SamePresence s.board.device b'.device := by
  cases h with
  | absent => exact ⟨rfl, .refl _⟩
  | acquires _ huses => exact ⟨huses.inBoardList, huses.device⟩
  | keeps _ _ _ _ huses => exact ⟨huses.inBoardList, huses.device⟩
  | opens huses => exact ⟨huses.inBoardList, huses.device⟩
  | drops huses => exact ⟨huses.inBoardList, huses.device⟩
  | releases huses => exact ⟨huses.inBoardList, huses.device⟩
  | frees _ hlisted hdevice => exact ⟨hlisted, hdevice⟩
  | logs huses =>
    rcases huses with rfl | ⟨-, huses⟩
    · exact ⟨rfl, .refl _⟩
    · exact ⟨huses.inBoardList, huses.device⟩

theorem fileEffect_opened {phase : FilePhase}
    (h : FileEffect p f s.board phase action b' phase') (hphase : phase = .opened) :
    action = .release := by
  cases h with
  | keeps _ _ hopened => exact hopened hphase
  | _ => cases hphase

/-- The system after a step of an open or a release. -/
def afterFile (s : BoardSystem F C) (f : F) (b' : HailoPcieBoard F C) (phase' : FilePhase) :
    BoardSystem F C :=
  ⟨b', s.removing, Function.update s.files f phase', s.calls⟩

theorem fileEffect_counted (h : FileEffect p f s.board (s.files f) action b' phase')
    (hcounted : Counted HoldsBoard s.files s.board.refCount) :
    Counted HoldsBoard (Function.update s.files f phase') b'.refCount := by
  generalize hphase : s.files f = phase at h
  cases h with
  | absent => exact hcounted.keep (by rw [hphase])
  | acquires _ _ hcount => exact hcount ▸ hcounted.acquire (hphase ▸ id) trivial
  | keeps hholds hholds' _ _ _ hcount =>
    exact hcount ▸ hcounted.keep ⟨fun _ => hphase ▸ hholds, fun _ => hholds'⟩
  | opens _ hcount => exact hcount ▸ hcounted.keep ⟨fun _ => hphase ▸ trivial, fun _ => trivial⟩
  | drops _ hcount => exact hcount ▸ hcounted.release (hphase ▸ trivial) id
  | releases _ hcount _ hphase' =>
    refine hcount ▸ hcounted.release (hphase ▸ trivial) ?_
    rw [hphase']
    split <;> exact id
  | frees _ _ _ _ hcount => exact hcount ▸ hcounted.keep ⟨False.elim, hphase ▸ id⟩
  | logs _ hcount => exact hcount ▸ hcounted.keep ⟨False.elim, hphase ▸ id⟩

/-- An open adds a valid context, a release takes its own away. -/
theorem fileEffect_openFilesList {phase : FilePhase}
    (h : FileEffect p f s.board phase action b' phase') :
    b'.openFilesList = s.board.openFilesList ∧ (HasContext phase' → HasContext phase) ∨
      b'.openFilesList = Function.update s.board.openFilesList f (some ⟨true, 0⟩) ∨
      b'.openFilesList = Function.update s.board.openFilesList f none ∧ ¬ HasContext phase' := by
  cases h with
  | absent => exact Or.inl ⟨rfl, id⟩
  | acquires _ _ _ hcontexts => exact Or.inl ⟨hcontexts, False.elim⟩
  | keeps _ _ _ hcontext _ _ hcontexts => exact Or.inl ⟨hcontexts, hcontext⟩
  | opens _ _ hcontexts => exact Or.inr (Or.inl hcontexts)
  | drops _ _ hcontexts => exact Or.inl ⟨hcontexts, False.elim⟩
  | releases _ _ hcontexts hphase' =>
    refine Or.inr (Or.inr ⟨hcontexts, ?_⟩)
    rw [hphase']
    split <;> exact id
  | frees _ _ _ _ _ hcontexts => exact Or.inl ⟨hcontexts, False.elim⟩
  | logs _ _ hcontexts => exact Or.inl ⟨hcontexts, False.elim⟩

theorem fileEffect_contexts (h : FileEffect p f s.board (s.files f) action b' phase')
    (hcontexts : ∀ g, HasContext (s.files g) → (s.board.openFilesList g).isSome = true) (g : F)
    (hg : HasContext (Function.update s.files f phase' g)) :
    (b'.openFilesList g).isSome = true := by
  by_cases hgf : g = f
  · subst hgf
    rw [Function.update_self] at hg
    rcases fileEffect_openFilesList h with ⟨hsame, hbefore⟩ | hset | ⟨-, hclosed⟩
    · rw [hsame]
      exact hcontexts g (hbefore hg)
    · rw [hset, Function.update_self]
      rfl
    · exact absurd hg hclosed
  · rw [Function.update_of_ne hgf] at hg
    have hbefore := hcontexts g hg
    rcases fileEffect_openFilesList h with ⟨hsame, -⟩ | hset | ⟨hset, -⟩
    · rwa [hsame]
    · rwa [hset, Function.update_of_ne hgf]
    · rwa [hset, Function.update_of_ne hgf]

theorem fileEffect_valid {phase : FilePhase}
    (h : FileEffect p f s.board phase action b' phase')
    (hvalid : ∀ g context, s.board.openFilesList g = some context → context.isValid = true)
    (g : F) (context : HailoFileContext) (hg : b'.openFilesList g = some context) :
    context.isValid = true := by
  rcases fileEffect_openFilesList h with ⟨hsame, -⟩ | hset | ⟨hset, -⟩
  · exact hvalid g context (hsame ▸ hg)
  · by_cases hgf : g = f
    · rw [hset, hgf, Function.update_self] at hg
      cases hg
      rfl
    · rw [hset, Function.update_of_ne hgf] at hg
      exact hvalid g context hg
  · by_cases hgf : g = f
    · rw [hset, hgf, Function.update_self] at hg
      cases hg
    · rw [hset, Function.update_of_ne hgf] at hg
      exact hvalid g context hg

theorem accounted_file (h : Accounted s) (hallows : KernelAllows s (.file f action))
    (heffect : FileEffect p f s.board (s.files f) action b' phase') :
    Accounted (afterFile s f b' phase') where
  counted := fileEffect_counted heffect h.counted
  contexts := fileEffect_contexts heffect h.contexts
  valid := fileEffect_valid heffect h.valid
  present := by
    have hpresent := h.present
    rw [← (fileEffect_attached heffect).2.pDev] at hpresent
    exact hpresent
  mapped := by
    have hmapped := h.mapped
    rw [← (fileEffect_attached heffect).2.mapped] at hmapped
    exact hmapped
  listed := by
    intro hlisted
    exact h.listed ((fileEffect_attached heffect).1 ▸ hlisted)
  calls := by
    intro t g hcall
    have hopened := h.calls t g hcall
    by_cases hgf : g = f
    · subst hgf
      have hrelease := fileEffect_opened heffect hopened
      subst hrelease
      exact absurd hcall (hallows t)
    · exact (Function.update_of_ne hgf _ _).trans hopened

end Files

theorem opened_of_starts {t : C} {action : CallAction F} (hallows : KernelAllows s (.call t action))
    (hstarts : (∃ cmd accessOk, action = .ioctl f cmd accessOk) ∨ action = .mmap f) :
    s.files f = .opened := by
  rcases hstarts with ⟨cmd, accessOk, rfl⟩ | rfl
  · exact hallows
  · exact hallows

/-- The system after a step of an ioctl or an mmap. -/
def afterCall [DecidableEq C] (s : BoardSystem F C) (t : C) (b' : HailoPcieBoard F C)
    (phase' : CallPhase F) : BoardSystem F C :=
  ⟨b', s.removing, s.files, Function.update s.calls t phase'⟩

theorem accounted_call [DecidableEq C] {t : C} {action : CallAction F} {phase' : CallPhase F}
    (h : Accounted s) (hallows : KernelAllows s (.call t action))
    (heffect : CallEffect s.board (s.calls t) action b' phase') :
    Accounted (afterCall s t b' phase') where
  counted := heffect.refCount ▸ h.counted
  contexts := by
    intro f hf
    have hsome := congrArg Option.isSome (heffect.contexts f)
    rw [Option.isSome_map, Option.isSome_map] at hsome
    exact hsome.trans (h.contexts f hf)
  valid := by
    intro f context hcontext
    have hsame := heffect.contexts f
    rw [show b'.openFilesList f = some context from hcontext, Option.map_some] at hsame
    obtain ⟨before, hbefore, hvalid⟩ := Option.map_eq_some_iff.mp hsame.symm
    exact hvalid.symm.trans (h.valid f before hbefore)
  present := heffect.uses.device.pDev ▸ h.present
  mapped := heffect.uses.device.mapped ▸ h.mapped
  listed := fun hlisted => h.listed (heffect.uses.inBoardList ▸ hlisted)
  calls := by
    intro t' g hcall
    change (Function.update s.calls t phase' t').filp = some g at hcall
    by_cases htt : t' = t
    · subst htt
      rw [Function.update_self] at hcall
      rcases heffect.follows with hnone | hsame | ⟨g', hg', hstarts⟩
      · rw [hnone] at hcall
        cases hcall
      · exact h.calls t' g (hsame ▸ hcall)
      · obtain rfl := Option.some.inj (hg'.symm.trans hcall)
        exact opened_of_starts (s := s) hallows hstarts
    · exact h.calls t' g (by rwa [Function.update_of_ne htt] at hcall)

/-- A step of remove that neither takes the board off the list nor detaches it. -/
theorem Accounted.advance {removing' : RemovePhase} (h : Accounted s) (huses : Uses s.board b')
    (hcount : b'.refCount = s.board.refCount)
    (hcontexts : b'.openFilesList = s.board.openFilesList)
    (hdetached : Detached removing' ↔ Detached s.removing)
    (hlisted : Listed s.removing → Listed removing') :
    Accounted ⟨b', removing', s.files, s.calls⟩ where
  counted := hcount ▸ h.counted
  contexts := fun f hf => hcontexts ▸ h.contexts f hf
  valid := fun f context hcontext => h.valid f context (hcontexts ▸ hcontext)
  present := huses.device.pDev ▸ h.present.trans (not_congr hdetached.symm)
  mapped := huses.device.mapped ▸ h.mapped.trans (not_congr hdetached.symm)
  listed := fun hlist => hlisted (h.listed (huses.inBoardList ▸ hlist))
  calls := h.calls

theorem accounted_remove {removing' : RemovePhase} (h : Accounted s)
    (hstep : removeStep p s.board s.removing = some (b', removing')) :
    Accounted ⟨b', removing', s.files, s.calls⟩ := by
  have huse := uses_use s.board
  cases hremoving : s.removing with
  | notCalled =>
    rw [hremoving] at hstep
    cases hstep
    obtain ⟨hcounted, hcontexts, hvalid, hpresent, hmapped, hlisted, hcalls⟩ := h
    rw [hremoving] at hpresent hmapped hlisted
    exact ⟨hcounted, hcontexts, hvalid, hpresent, hmapped, hlisted, hcalls⟩
  | waits =>
    rw [hremoving] at hstep
    obtain ⟨held, hdown, hnext⟩ := Option.map_eq_some_iff.mp hstep
    obtain ⟨-, rfl⟩ := down_eq_some hdown
    cases hnext
    exact h.advance (huse.setMutex _) rfl rfl (by rw [hremoving]; exact Iff.rfl) fun _ => trivial
  | holds =>
    rw [hremoving] at hstep
    cases hstep
    obtain ⟨hcounted, hcontexts, hvalid, hpresent, hmapped, hlisted, hcalls⟩ := h
    rw [hremoving] at hpresent hmapped
    exact ⟨hcounted, hcontexts, hvalid, hpresent, hmapped, fun h => (by cases h), hcalls⟩
  | unlisted =>
    rw [hremoving] at hstep
    cases hstep
    obtain ⟨hcounted, hcontexts, hvalid, hpresent, hmapped, hlisted, hcalls⟩ := h
    rw [hremoving] at hlisted
    have hgone : ∀ {present : Prop}, ¬ present → (present ↔ ¬ Detached .removed) :=
      fun habsent => ⟨fun hpresent => absurd hpresent habsent, fun h => absurd trivial h⟩
    exact ⟨hcounted, hcontexts, hvalid, hgone (fun h => by cases h), hgone (fun h => by cases h),
      hlisted, hcalls⟩
  | removed =>
    rw [hremoving] at hstep
    cases hstep
    refine h.advance huse rfl rfl ?_ ?_
    · rw [hremoving]
      split <;> exact Iff.rfl
    · rw [hremoving]
      exact False.elim
  | sawUnused =>
    rw [hremoving] at hstep
    cases hstep
    obtain ⟨hcounted, hcontexts, hvalid, hpresent, hmapped, hlisted, hcalls⟩ := h
    rw [hremoving] at hpresent hmapped hlisted
    exact ⟨hcounted, hcontexts, hvalid, hpresent, hmapped, hlisted, hcalls⟩
  | sawUsed =>
    rw [hremoving] at hstep
    cases hstep
    exact h.advance huse rfl rfl (by rw [hremoving]; exact Iff.rfl) (by rw [hremoving]; exact id)
  | done =>
    rw [hremoving] at hstep
    cases hstep

theorem accounted_probed (p : DriverParams) :
    Accounted (probedSystem p : BoardSystem F C) where
  counted := counted_of_forall_not fun _ => id
  contexts := fun _ h => h.elim
  valid := fun _ _ h => by cases h
  present := ⟨fun _ => id, fun _ => rfl⟩
  mapped := ⟨fun _ => id, fun _ => rfl⟩
  listed := fun _ => trivial
  calls := fun _ _ h => by cases h

theorem accounted_step [DecidableEq F] [DecidableEq C] {action : Action F C} (h : Accounted s)
    (hallows : KernelAllows s action) (hstep : step p s action = some s') : Accounted s' := by
  cases action with
  | remove =>
    obtain ⟨⟨b', removing'⟩, hnext, rfl⟩ := Option.map_eq_some_iff.mp hstep
    exact accounted_remove h hnext
  | file f action =>
    obtain ⟨⟨b', phase'⟩, hnext, rfl⟩ := Option.map_eq_some_iff.mp hstep
    exact accounted_file h hallows (fileStep_effect hnext (h.contexts f))
  | call t action =>
    obtain ⟨⟨b', phase'⟩, hnext, rfl⟩ := Option.map_eq_some_iff.mp hstep
    exact accounted_call h hallows (callStep_effect hnext)

end HailortDrivers.BoardAccounting
