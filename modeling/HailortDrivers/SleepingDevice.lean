import HailortDrivers.BoardAccounting
import HailortDrivers.IdleBoard

/-!
The power of the device beside the calls of a board, with the suspends and resumes of the system
between them. Registers answer in D0 only, and a resume puts the device to sleep until a file is
opened, whatever files are open then.
-/
namespace HailortDrivers.SleepingDevice
open FirmwareImage DeviceAccesses BoardCalls BoardSteps BoardAccounting HeldReferences EventRuns
open IdleBoard

section Device
variable (p : DriverParams)

/-- Whether the BARs are mapped stands for whether they answer. -/
def answering (d : BoardDevice) : BoardDevice := { d with mapped := decide (d.pDev = some .d0) }

/-- `openDevice`, where the registers answer once the device was woken. -/
def openDeviceAwake (d : BoardDevice) (answers : OpenAnswers) : BoardDevice × Bool :=
  let previous := d.pDev.getD .unknown
  match wakeUp p (d.accesses p [.pDev]) previous answers.powered with
  | (d, false) => (d, false)
  | (d, true) =>
    let d := (answering d).accesses p [.register]
    if answers.connected then enableForOpen p d previous answers
    else (revertPower p (d.accesses p [.log kernErr]) previous answers.restored, false)

structure ActivationAnswers where
  msi : Bool
  irq : Bool
  loaded : Bool
  powered : Bool

/-- `hailo_activate_board`, from the firmware on -/
def loadAndSleep (d : BoardDevice) (answers : ActivationAnswers) : BoardDevice :=
  let d := d.accesses p [.register, .log kernNotice]
  if !answers.loaded then hailoDisableInterrupts p (d.accesses p [.log kernErr])
  else
    -- `hailo_soc_get_driver_info`
    let d := if p.acceleratorType = .soc then d.accesses p [.register] else d
    let d := hailoDisableInterrupts p d
    if p.powerModeEnabled then powerOff p (d.accesses p [.log kernInfo]) answers.powered else d

def hailoActivateBoard (d : BoardDevice) (answers : ActivationAnswers) : BoardDevice :=
  match hailoEnableInterrupts p (d.accesses p [.pDev]) answers.msi answers.irq with
  | (d, false) => d.accesses p [.log kernErr]
  | (d, true) => loadAndSleep p d answers

def driverDown (d : BoardDevice) (answers : ReleaseAnswers) : BoardDevice :=
  match p.acceleratorType with
  | .nnc => hailoNncDriverDown p d answers.shutdown
  | .soc => closeChannels p d answers.closed

end Device

section Steps
variable {F C : Type} (p : DriverParams)

def HailoFileContext.invalidate (context : HailoFileContext) : HailoFileContext :=
  { context with isValid := false }

/-- What suspend and reset_prepare do if some file has the device in use. -/
def closeDevice (b : HailoPcieBoard F C) (answers : ReleaseAnswers) : BoardDevice :=
  if b.usedByFilp.isSome then driverDown p b.device answers else b.device

def hailoPciResetPrepare (b : HailoPcieBoard F C) (answers : ReleaseAnswers) :
    HailoPcieBoard F C := b.setDevice (closeDevice p b answers)

def hailoPcieSuspend (b : HailoPcieBoard F C) (answers : ReleaseAnswers) : HailoPcieBoard F C :=
  { b with
    device := hailoDisableInterrupts p (closeDevice p b answers)
    openFilesList := fun filp => (b.openFilesList filp).map HailoFileContext.invalidate }

/-- The PCI core has put the device back in D0. -/
def hailoPcieResume (b : HailoPcieBoard F C) (answers : ActivationAnswers) : HailoPcieBoard F C :=
  b.setDevice (hailoActivateBoard p (answering (b.device.setPower .d0)) answers)

/-- The system sleeps while no process is in a call. -/
inductive PowerAction (F C : Type)
  | run (action : Action F C)
  | sleep (closing : ReleaseAnswers) (activation : ActivationAnswers)
  | resetPrepare (closing : ReleaseAnswers)

variable [DecidableEq F] [DecidableEq C]

/-- `openSection`, by `openDeviceAwake` -/
def openSectionAwake (b : HailoPcieBoard F C) (filp : F) (answers : OpenAnswers) :
    HailoPcieBoard F C × FilePhase :=
  if answers.contextAllocated then
    match openDeviceAwake p b.device answers with
    | (d, true) => (((b.setDevice d).setContext filp (some ⟨true, 0⟩)).setMutex none, .opened)
    | (d, false) => ((b.setDevice d).setMutex none, .openDrops)
  else ((b.access p [.log kernErr]).setMutex none, .openDrops)

def fileStepAwake (b : HailoPcieBoard F C) (filp : F) (phase : FilePhase) (action : FileAction) :
    Option (HailoPcieBoard F C × FilePhase) :=
  match phase, action with
  | .openHolds, .openSection answers => some (openSectionAwake p b.use filp answers)
  | phase, action => fileStep p (b.setDevice (answering b.device)) filp phase action

def powerStep (s : BoardSystem F C) : PowerAction F C → Option (BoardSystem F C)
  | .run .remove => none
  | .run (.file filp action) => (fileStepAwake p s.board filp (s.files filp) action).map fun next =>
    ⟨next.1, s.removing, Function.update s.files filp next.2, s.calls⟩
  | .run (.call thread action) =>
    (callStep p (s.board.setDevice (answering s.board.device)) thread (s.calls thread) action).map
      fun next => ⟨next.1, s.removing, s.files, Function.update s.calls thread next.2⟩
  | .sleep closing activation =>
    some { s with
      board := hailoPcieResume p (hailoPcieSuspend p
        (s.board.setDevice (answering s.board.device)) closing) activation }
  | .resetPrepare closing =>
    if s.board.mutex.isNone then
      some { s with
        board := hailoPciResetPrepare p (s.board.setDevice (answering s.board.device)) closing }
    else none

/-- No process is in a call. -/
structure Frozen (s : BoardSystem F C) : Prop where
  files : ∀ f, s.files f = .closed ∨ s.files f = .opened
  calls : ∀ t, s.calls t = .idle

def Possible (s : BoardSystem F C) : PowerAction F C → Prop
  | .run action => KernelAllows s action
  | .sleep _ _ => Frozen s
  | .resetPrepare _ => True

/-- A step, where actions are admitted under a condition. -/
def PowerSteps (Admitted : BoardSystem F C → PowerAction F C → Prop)
    (s s' : BoardSystem F C) : Prop :=
  ∃ action, Possible s action ∧ Admitted s action ∧ powerStep p s action = some s'

end Steps

section Power
variable (p : DriverParams) {d d' : BoardDevice}

def Access.isRegister : Access → Bool
  | .register => true
  | .pDev | .log _ => false

theorem accesses_pDev (d : BoardDevice) (accesses : List Access) :
    (d.accesses p accesses).pDev = d.pDev := by
  induction accesses generalizing d with
  | nil => rfl
  | cons access accesses ih =>
    refine (ih _).trans ?_
    cases access with
    | log level =>
      simp only [BoardDevice.access]
      split <;> rfl
    | _ => rfl

/-- The same power state and interrupts. -/
structure SamePower (d d' : BoardDevice) : Prop where
  pDev : d'.pDev = d.pDev
  interrupts : d'.interruptsEnabled = d.interruptsEnabled

theorem SamePower.refl (d : BoardDevice) : SamePower d d := ⟨rfl, rfl⟩

theorem SamePower.trans {d'' : BoardDevice} (h : SamePower d d') (h' : SamePower d' d'') :
    SamePower d d'' := ⟨h'.pDev.trans h.pDev, h'.interrupts.trans h.interrupts⟩

theorem accesses_samePower (d : BoardDevice) (accesses : List Access) :
    SamePower d (d.accesses p accesses) :=
  ⟨accesses_pDev p d accesses, accesses_interruptsEnabled p d accesses⟩

theorem answering_samePower (d : BoardDevice) : SamePower d (answering d) := ⟨rfl, rfl⟩

theorem disableInterrupts_pDev (d : BoardDevice) : (hailoDisableInterrupts p d).pDev = d.pDev := by
  unfold hailoDisableInterrupts
  split
  · rfl
  · exact accesses_pDev p _ _

theorem access_quiet (hpDev : d.pDev.isSome = true) {access : Access}
    (hregister : Access.isRegister access = false) :
    (d.access p access).touchedAbsent = d.touchedAbsent := by
  cases access with
  | register => cases hregister
  | pDev => simp [BoardDevice.access, BoardDevice.touch, hpDev]
  | log level =>
    simp only [BoardDevice.access]
    split
    · simp [BoardDevice.touch, hpDev]
    · rfl

theorem accesses_quiet (hpDev : d.pDev.isSome = true) {accesses : List Access}
    (hregister : accesses.any Access.isRegister = false) :
    (d.accesses p accesses).touchedAbsent = d.touchedAbsent := by
  induction accesses generalizing d with
  | nil => rfl
  | cons access accesses ih =>
    obtain ⟨hfirst, hrest⟩ := Bool.or_eq_false_iff.mp hregister
    refine (ih ?_ hrest).trans (access_quiet p hpDev hfirst)
    rw [(access_samePresence p d access).pDev]
    exact hpDev

/-- What was noted stays. -/
theorem access_touched (h : d.touchedAbsent = true) (access : Access) :
    (d.access p access).touchedAbsent = true := by
  have htouch : ∀ present, (d.touch present).touchedAbsent = true := fun present => by
    rw [BoardDevice.touch, h]
    rfl
  cases access with
  | register => exact htouch _
  | pDev => exact htouch _
  | log level =>
    simp only [BoardDevice.access]
    split
    · exact htouch _
    · exact h

theorem accesses_touched (h : d.touchedAbsent = true) (accesses : List Access) :
    (d.accesses p accesses).touchedAbsent = true := by
  induction accesses generalizing d with
  | nil => exact h
  | cons access accesses ih => exact ih (access_touched p h access)

/-- A register that does not answer is noted. -/
theorem accesses_register (hmapped : d.mapped = false) {before after : List Access} :
    (d.accesses p (before ++ .register :: after)).touchedAbsent = true := by
  have happend : d.accesses p (before ++ .register :: after) =
      (((d.accesses p before).access p .register).accesses p after) := by
    rw [BoardDevice.accesses, List.foldl_append]
    rfl
  rw [happend]
  refine accesses_touched p ?_ after
  simp [BoardDevice.access, BoardDevice.touch, (accesses_samePresence p d before).mapped, hmapped]

theorem disableInterrupts_off (h : d.interruptsEnabled = false) :
    hailoDisableInterrupts p d = d := by
  rw [hailoDisableInterrupts, h]
  simp

theorem closeChannels_samePower (d : BoardDevice) (answer : SocAnswer) :
    SamePower d (closeChannels p d answer) := by
  have hfirst := accesses_samePower p d [.log kernInfo, .register]
  cases answer with
  | _ => exact hfirst.trans (accesses_samePower p _ _)

theorem driverDown_samePower (d : BoardDevice) (answers : ReleaseAnswers) :
    SamePower d (driverDown p d answers) := by
  unfold driverDown
  split
  · exact accesses_samePower p d _
  · exact closeChannels_samePower p d _

theorem driverDown_samePresence (d : BoardDevice) (answers : ReleaseAnswers) :
    SamePresence d (driverDown p d answers) := by
  unfold driverDown hailoNncDriverDown
  split
  · exact accesses_samePresence p d _
  · exact closeChannels_samePresence p d _

/-- Either way to close the device writes a register. -/
theorem nncDriverDown_noted (hmapped : d.mapped = false) (answered : Bool) :
    (hailoNncDriverDown p d answered).touchedAbsent = true := by
  have hclose : ∀ after : List Access, (d.accesses p (.register :: after)).touchedAbsent = true :=
    fun after => @accesses_register p d hmapped [] after
  cases answered with
  | true => exact hclose _
  | false => exact hclose _

theorem closeChannels_noted (hmapped : d.mapped = false) (answer : SocAnswer) :
    (closeChannels p d answer).touchedAbsent = true := by
  have hfirst := @accesses_register p d hmapped [.log kernInfo] []
  cases answer with
  | _ => exact accesses_touched p hfirst _

theorem driverDown_noted (hmapped : d.mapped = false) (answers : ReleaseAnswers) :
    (driverDown p d answers).touchedAbsent = true := by
  unfold driverDown
  split
  · exact nncDriverDown_noted p hmapped _
  · exact closeChannels_noted p hmapped _

theorem disableInterrupts_touched (h : d.touchedAbsent = true) :
    (hailoDisableInterrupts p d).touchedAbsent = true := by
  unfold hailoDisableInterrupts
  split
  · exact h
  · exact accesses_touched p (d := d.setInterrupts false) h _

theorem powerOff_touched (h : d.touchedAbsent = true) (powered : Bool) :
    (powerOff p d powered).touchedAbsent = true := by
  unfold powerOff
  split_ifs
  · exact h
  · exact accesses_touched p h _
  · exact accesses_touched p h _

theorem powerDown_touched (h : d.touchedAbsent = true) (powered : Bool) :
    (powerDown p d powered).touchedAbsent = true := by
  have hdisabled := disableInterrupts_touched p h
  unfold powerDown
  split
  · exact powerOff_touched p (accesses_touched p hdisabled _) powered
  · exact hdisabled

theorem powerOff_quiet (hpDev : d.pDev.isSome = true) (powered : Bool) :
    (powerOff p d powered).touchedAbsent = d.touchedAbsent := by
  unfold powerOff
  split_ifs
  · rfl
  · exact accesses_quiet p hpDev rfl
  · exact accesses_quiet p hpDev rfl

theorem powerDown_quiet (hpDev : d.pDev.isSome = true) (hoff : d.interruptsEnabled = false)
    (powered : Bool) : (powerDown p d powered).touchedAbsent = d.touchedAbsent := by
  unfold powerDown
  rw [disableInterrupts_off p hoff]
  split
  · refine (powerOff_quiet p ?_ powered).trans (accesses_quiet p hpDev rfl)
    rw [accesses_pDev]
    exact hpDev
  · rfl

/-- What an open does to the power and the interrupts, from a device that is there. -/
structure Opens (d d' : BoardDevice) (ok : Bool) : Prop where
  opened : ok = true → d'.pDev = some .d0 ∧ d'.interruptsEnabled = true
  failed : ok = false → d'.interruptsEnabled = d.interruptsEnabled ∧
    (d.pDev = some .d0 → d'.pDev = some .d0)

theorem revertPower_power (d : BoardDevice) (previous : PciPower) (restored : Bool) :
    (revertPower p d previous restored).interruptsEnabled = d.interruptsEnabled ∧
      (d.pDev = some previous → (revertPower p d previous restored).pDev = d.pDev) := by
  unfold revertPower
  split_ifs with hsame
  · exact ⟨accesses_interruptsEnabled p d _, fun _ => accesses_pDev p d _⟩
  · exact ⟨accesses_interruptsEnabled p d _, fun h => absurd h hsame⟩
  · exact ⟨accesses_interruptsEnabled p d _, fun h => absurd h hsame⟩

theorem initFileContext_power {previous : PciPower} {enabledByFilp ok : Bool}
    {answers : OpenAnswers} (hpDev : d.pDev.isSome = true)
    (h : initFileContext p d previous enabledByFilp answers = (d', ok)) :
    (ok = true → SamePower d d') ∧ (ok = false →
      d'.interruptsEnabled = (if enabledByFilp then false else d.interruptsEnabled) ∧
      (d.pDev = some previous → d'.pDev = d.pDev)) := by
  have hlog := accesses_samePower p d [.log kernErr]
  unfold initFileContext at h
  split at h
  · cases h
    refine ⟨nofun, fun _ => ?_⟩
    cases enabledByFilp with
    | true =>
      obtain ⟨hinterrupts, hkept⟩ := revertPower_power p
        (hailoDisableInterrupts p (d.accesses p [.log kernErr])) previous answers.restored
      have hpower : (hailoDisableInterrupts p (d.accesses p [.log kernErr])).pDev = d.pDev :=
        (disableInterrupts_pDev p _).trans hlog.pDev
      rw [hpower] at hkept
      refine ⟨hinterrupts.trans (disableInterrupts_interruptsEnabled p ?_), hkept⟩
      rw [hlog.pDev]
      exact hpDev
    | false =>
      obtain ⟨hinterrupts, hkept⟩ := revertPower_power p (d.accesses p [.log kernErr]) previous
        answers.restored
      rw [hlog.pDev] at hkept
      exact ⟨hinterrupts.trans hlog.interrupts, hkept⟩
  · cases h
    exact ⟨fun _ => accesses_samePower p d _, nofun⟩

theorem enableInterrupts_power {msi irq ok : Bool}
    (h : hailoEnableInterrupts p d msi irq = (d', ok)) :
    d'.pDev = d.pDev ∧ (ok = true → d'.interruptsEnabled = true) ∧
      (ok = false → d'.interruptsEnabled = d.interruptsEnabled) := by
  unfold hailoEnableInterrupts at h
  split_ifs at h
  · cases h
    exact ⟨accesses_pDev p d _, nofun, fun _ => accesses_interruptsEnabled p d _⟩
  · cases h
    exact ⟨accesses_pDev p d _, nofun, fun _ => accesses_interruptsEnabled p d _⟩
  · cases h
    exact ⟨accesses_pDev p d _, nofun, fun _ => accesses_interruptsEnabled p d _⟩
  · cases h
    exact ⟨accesses_pDev p d _, fun _ => rfl, nofun⟩

/-- The device was woken, or was awake if that is the power to go back to. -/
theorem enableForOpen_power {previous : PciPower} {ok : Bool} {answers : OpenAnswers}
    (hawake : d.pDev = some .d0) (h : enableForOpen p d previous answers = (d', ok)) :
    (ok = true → d'.pDev = some .d0 ∧ d'.interruptsEnabled = true) ∧ (ok = false →
      d'.interruptsEnabled = d.interruptsEnabled ∧ (previous = .d0 → d'.pDev = some .d0)) := by
  have hpDev : d.pDev.isSome = true := by
    rw [hawake]
    rfl
  unfold enableForOpen at h
  split at h
  · next henabled =>
    obtain ⟨hdone, hfailed⟩ := initFileContext_power p hpDev h
    refine ⟨fun hok => ?_, fun hok => ?_⟩
    · exact ⟨(hdone hok).pDev.trans hawake, (hdone hok).interrupts.trans henabled⟩
    · refine ⟨(hfailed hok).1, ?_⟩
      rintro rfl
      exact ((hfailed hok).2 hawake).trans hawake
  · next hdisabled =>
    have hoff : d.interruptsEnabled = false := Bool.eq_false_iff.mpr hdisabled
    split at h
    · next d₁ henable =>
      obtain ⟨hpower, hon, -⟩ := enableInterrupts_power p henable
      obtain ⟨hdone, hfailed⟩ := initFileContext_power p (by rw [hpower]; exact hpDev) h
      refine ⟨fun hok => ?_, fun hok => ?_⟩
      · exact ⟨((hdone hok).pDev.trans hpower).trans hawake, (hdone hok).interrupts.trans (hon rfl)⟩
      · refine ⟨(hfailed hok).1.trans hoff.symm, ?_⟩
        rintro rfl
        exact (((hfailed hok).2 (hpower.trans hawake)).trans hpower).trans hawake
    · next d₁ henable =>
      obtain ⟨hpower, -, hkept⟩ := enableInterrupts_power p henable
      have hlog := accesses_samePower p d₁ [.log kernErr]
      obtain ⟨hinterrupts, hrevert⟩ := revertPower_power p (d₁.accesses p [.log kernErr]) previous
        answers.restored
      cases h
      refine ⟨nofun, fun _ => ⟨(hinterrupts.trans hlog.interrupts).trans (hkept rfl), ?_⟩⟩
      have hsame := (hlog.pDev.trans hpower).trans hawake
      rintro rfl
      exact (hrevert hsame).trans hsame

theorem wakeUp_power {previous : PciPower} {powered ok : Bool} (hprevious : d.pDev = some previous)
    (h : wakeUp p d previous powered = (d', ok)) :
    d'.interruptsEnabled = d.interruptsEnabled ∧ d'.touchedAbsent = d.touchedAbsent ∧
      (ok = true → d'.pDev = some .d0) ∧ (ok = false → d'.pDev = d.pDev) := by
  have hpDev : d.pDev.isSome = true := by
    rw [hprevious]
    rfl
  unfold wakeUp at h
  split_ifs at h with hd0
  · cases h
    exact ⟨rfl, rfl, fun _ => hd0 ▸ hprevious, nofun⟩
  · cases h
    refine ⟨accesses_interruptsEnabled p d _, accesses_quiet p hpDev rfl, fun _ => ?_, nofun⟩
    rw [BoardDevice.setPower, accesses_pDev, hprevious]
    rfl
  · cases h
    exact ⟨accesses_interruptsEnabled p d _, accesses_quiet p hpDev rfl, nofun,
      fun _ => accesses_pDev p d _⟩

/-- An open asks for registers only once the device is awake. -/
theorem openDeviceAwake_power {answers : OpenAnswers} {ok : Bool} (hpDev : d.pDev.isSome = true)
    (h : openDeviceAwake p d answers = (d', ok)) :
    Opens d d' ok ∧ d'.touchedAbsent = d.touchedAbsent ∧ d'.pDev.isSome = true := by
  obtain ⟨previous, hprevious⟩ := Option.isSome_iff_exists.mp hpDev
  have hlog := accesses_samePower p d [.pDev]
  have hquiet : (d.accesses p [.pDev]).touchedAbsent = d.touchedAbsent :=
    accesses_quiet p hpDev rfl
  rw [openDeviceAwake, hprevious, Option.getD_some] at h
  rcases hwake : wakeUp p (d.accesses p [.pDev]) previous answers.powered with ⟨d₁, woken⟩
  rw [hwake] at h
  obtain ⟨hinterrupts, htouched, hawake, hasleep⟩ :=
    wakeUp_power p (hlog.pDev.trans hprevious) hwake
  cases woken with
  | false =>
    cases h
    have hsame := (hasleep rfl).trans hlog.pDev
    refine ⟨⟨nofun, fun _ => ⟨hinterrupts.trans hlog.interrupts, fun hd0 => hsame.trans hd0⟩⟩,
      htouched.trans hquiet, ?_⟩
    rw [hsame]
    exact hpDev
  | true =>
    have hd0 : ((answering d₁).accesses p [.register]).pDev = some .d0 :=
      (accesses_pDev p _ _).trans (hawake rfl)
    have hmapped : (answering d₁).mapped = true := decide_eq_true (hawake rfl)
    have hpresent : (answering d₁).pDev.isSome = true := by
      rw [show (answering d₁).pDev = _ from hawake rfl]
      rfl
    have hpower : ((answering d₁).accesses p [.register]).interruptsEnabled =
        d.interruptsEnabled :=
      (accesses_interruptsEnabled p _ _).trans (hinterrupts.trans hlog.interrupts)
    have hregister := accesses_samePresence p (answering d₁) [.register]
    have hfrom : ∀ d', SamePresence ((answering d₁).accesses p [.register]) d' →
        d'.touchedAbsent = d.touchedAbsent ∧ d'.pDev.isSome = true := by
      intro d' hd'
      have hall := hregister.trans hd'
      exact ⟨(hall.touched hpresent hmapped).trans (htouched.trans hquiet),
        hall.pDev.trans hpresent⟩
    simp only at h
    split at h
    · obtain ⟨hdone, hfailed⟩ := enableForOpen_power p hd0 h
      have hpresence := enableForOpen_samePresence p ((answering d₁).accesses p [.register])
        previous answers
      rw [h] at hpresence
      refine ⟨⟨hdone, fun hok => ⟨(hfailed hok).1.trans hpower, fun hwas => ?_⟩⟩,
        hfrom d' hpresence⟩
      exact (hfailed hok).2 (Option.some.inj (hprevious.symm.trans hwas))
    · cases h
      have hlog' := accesses_samePower p ((answering d₁).accesses p [.register]) [.log kernErr]
      obtain ⟨hkept, hrevert⟩ := revertPower_power p
        (((answering d₁).accesses p [.register]).accesses p [.log kernErr]) previous
        answers.restored
      have hsame := hlog'.pDev.trans hd0
      refine ⟨⟨nofun, fun _ => ⟨(hkept.trans hlog'.interrupts).trans hpower, fun hwas => ?_⟩⟩,
        hfrom _ ((accesses_samePresence p _ _).trans (revertPower_samePresence p _ _ _))⟩
      obtain rfl := Option.some.inj (hprevious.symm.trans hwas)
      exact (hrevert hsame).trans hsame

end Power

section Release
variable {F C : Type} [DecidableEq F] {p : DriverParams} {b b' : HailoPcieBoard F C} {f : F}
  {phase' : FilePhase} {context : HailoFileContext}

/-- The release of the file closes the device. -/
def InUse (p : DriverParams) (b : HailoPcieBoard F C) (filp : F) (context : HailoFileContext) :
    Prop :=
  match p.acceleratorType with
  | .nnc => b.usedByFilp = some filp
  | .soc => context.socUsedChannelsBitmap ≠ 0

theorem finalizeAccelerator_samePower (d : BoardDevice) (answers : ReleaseAnswers) :
    SamePower d (finalizeAccelerator p b.usedByFilp f context d answers) := by
  unfold finalizeAccelerator
  split
  · split
    · exact accesses_samePower p d _
    · exact .refl d
  · split
    · exact .refl d
    · exact closeChannels_samePower p d _

theorem vdmaFinalizeDevice_samePower (d : BoardDevice) :
    SamePower d (vdmaFinalizeDevice p d) := by
  unfold vdmaFinalizeDevice
  split
  · exact accesses_samePower p _ _
  · exact .refl d

theorem finalizeFile_samePower (answers : ReleaseAnswers) :
    SamePower b.device (finalizeFile p b f context answers) :=
  ((accesses_samePower p b.device _).trans (finalizeAccelerator_samePower _ answers)).trans
    (vdmaFinalizeDevice_samePower _)

theorem finalizeAccelerator_unused (hunused : ¬ InUse p b f context) (d : BoardDevice)
    (answers : ReleaseAnswers) : finalizeAccelerator p b.usedByFilp f context d answers = d := by
  rw [InUse] at hunused
  rw [finalizeAccelerator]
  cases htype : p.acceleratorType with
  | nnc =>
    rw [htype] at hunused
    exact if_neg hunused
  | soc =>
    rw [htype] at hunused
    exact if_pos (not_not.mp hunused)

theorem finalizeAccelerator_noted (hused : InUse p b f context) {d : BoardDevice}
    (hmapped : d.mapped = false) (answers : ReleaseAnswers) :
    (finalizeAccelerator p b.usedByFilp f context d answers).touchedAbsent = true := by
  rw [InUse] at hused
  rw [finalizeAccelerator]
  cases htype : p.acceleratorType with
  | nnc =>
    rw [htype] at hused
    simp only [if_pos hused]
    exact nncDriverDown_noted p hmapped _
  | soc =>
    rw [htype] at hused
    simp only [if_neg hused]
    exact closeChannels_noted p hmapped _

theorem vdmaFinalizeDevice_touched {d : BoardDevice} (h : d.touchedAbsent = true) :
    (vdmaFinalizeDevice p d).touchedAbsent = true := by
  unfold vdmaFinalizeDevice
  split
  · exact accesses_touched p h _
  · exact h

theorem vdmaFinalizeDevice_quiet {d : BoardDevice} (hpDev : d.pDev.isSome = true) :
    (vdmaFinalizeDevice p d).touchedAbsent = d.touchedAbsent := by
  unfold vdmaFinalizeDevice
  split
  · exact accesses_quiet p hpDev rfl
  · rfl

theorem finalizeFile_quiet (hpDev : b.device.pDev.isSome = true)
    (hunused : ¬ InUse p b f context) (answers : ReleaseAnswers) :
    (finalizeFile p b f context answers).touchedAbsent = b.device.touchedAbsent := by
  rw [finalizeFile, finalizeAccelerator_unused hunused]
  have hlog : (b.device.accesses p (if context.isValid then [] else [.log kernErr])).touchedAbsent =
      b.device.touchedAbsent := by
    refine accesses_quiet p hpDev ?_
    split <;> rfl
  refine (vdmaFinalizeDevice_quiet ?_).trans hlog
  rw [accesses_pDev]
  exact hpDev

theorem finalizeFile_noted (hmapped : b.device.mapped = false) (hused : InUse p b f context)
    (answers : ReleaseAnswers) :
    (finalizeFile p b f context answers).touchedAbsent = true := by
  refine vdmaFinalizeDevice_touched (finalizeAccelerator_noted hused ?_ answers)
  rw [(accesses_samePresence p b.device _).mapped]
  exact hmapped

theorem releaseSection_quiet {answers : ReleaseAnswers}
    (h : releaseSection p b f answers = (b', phase')) (hcontext : b.openFilesList f = some context)
    (hpDev : b.device.pDev.isSome = true) (hoff : b.device.interruptsEnabled = false)
    (hunused : ¬ InUse p b f context) : b'.device.touchedAbsent = b.device.touchedAbsent := by
  have hfinal := finalizeFile_quiet hpDev hunused answers
  have hpower : SamePower b.device (finalizeFile p b f context answers) :=
    finalizeFile_samePower answers
  have hpDev' : (finalizeFile p b f context answers).pDev.isSome = true := by
    rw [hpower.pDev]
    exact hpDev
  simp only [releaseSection, hcontext] at h
  split at h
  · cases h
    refine (accesses_quiet p ?_ rfl).trans
      ((powerDown_quiet p hpDev' (hpower.interrupts.trans hoff) _).trans hfinal)
    rw [(powerDown_samePresence p _ _).pDev]
    exact hpDev'
  · cases h
    exact hfinal

theorem releaseSection_noted {answers : ReleaseAnswers}
    (h : releaseSection p b f answers = (b', phase')) (hcontext : b.openFilesList f = some context)
    (hmapped : b.device.mapped = false) (hused : InUse p b f context) :
    b'.device.touchedAbsent = true := by
  have hfinal := finalizeFile_noted hmapped hused answers
  simp only [releaseSection, hcontext] at h
  split at h
  · cases h
    exact accesses_touched p (powerDown_touched p hfinal _) _
  · cases h
    exact hfinal

end Release

section Files
variable {F C : Type} [DecidableEq F] {p : DriverParams} {b b' : HailoPcieBoard F C} {f : F}
  {phase phase' : FilePhase} {action : FileAction}

theorem releaseSection_power {answers : ReleaseAnswers}
    (h : releaseSection p b f answers = (b', phase')) (hcontext : (b.openFilesList f).isSome = true)
    (hcount : b'.refCount ≠ 0) : SamePower b.device b'.device := by
  obtain ⟨context, hcontext⟩ := Option.isSome_iff_exists.mp hcontext
  simp only [releaseSection, hcontext] at h
  split at h
  · next hlast =>
    cases h
    exact absurd hlast hcount
  · cases h
    exact finalizeFile_samePower answers

omit [DecidableEq F] in
theorem down_device {owner : MutexOwner F C} {next : FilePhase}
    (h : (b.down owner).map (fun b => (b, next)) = some (b', phase')) : b'.device = b.device := by
  obtain ⟨held, hdown, hnext⟩ := Option.map_eq_some_iff.mp h
  obtain ⟨-, rfl⟩ := down_eq_some hdown
  cases hnext
  rfl

/-- Apart from the two sections, the steps of opens and releases at most print. -/
theorem fileStep_device (h : fileStep p b f phase action = some (b', phase'))
    (hopen : ∀ answers, action ≠ .openSection answers)
    (hrelease : ∀ answers, action ≠ .releaseSection answers) :
    ∃ accesses, b'.device = b.device.accesses p accesses ∧
      accesses.any Access.isRegister = false := by
  unfold fileStep at h
  split at h
  · split at h
    · cases h
      exact ⟨[], rfl, rfl⟩
    · cases h
      exact ⟨[], rfl, rfl⟩
  · cases h
    exact ⟨[.log kernErr], rfl, rfl⟩
  · exact ⟨[], down_device h, rfl⟩
  · next answers => exact absurd rfl (hopen answers)
  · cases h
    exact ⟨[], rfl, rfl⟩
  · cases h
    exact ⟨[.log kernInfo], rfl, rfl⟩
  · exact ⟨[], down_device h, rfl⟩
  · next answers => exact absurd rfl (hrelease answers)
  · cases h
    exact ⟨[.log kernDebug], rfl, rfl⟩
  · cases h
    unfold HailoPcieBoard.lastLog
    split
    · exact ⟨[.log kernDebug], rfl, rfl⟩
    · exact ⟨[], rfl, rfl⟩
  · cases h

/-- The power stays as it is, or the last release has turned the interrupts off. -/
theorem fileStep_power (h : fileStep p b f phase action = some (b', phase'))
    (hopen : ∀ answers, action ≠ .openSection answers) (hpDev : b.device.pDev.isSome = true)
    (hcontext : HasContext phase → (b.openFilesList f).isSome = true) :
    SamePower b.device b'.device ∨ b'.refCount = 0 ∧ b'.device.interruptsEnabled = false := by
  by_cases hrelease : ∃ answers, action = .releaseSection answers
  · obtain ⟨answers, rfl⟩ := hrelease
    cases phase with
    | releaseHolds =>
      have hsection := Option.some.inj h
      by_cases hcount : b'.refCount = 0
      · exact Or.inr ⟨hcount, releaseSection_interrupts (b := b.use) hsection hpDev
          (hcontext trivial) hcount⟩
      · exact Or.inl (releaseSection_power (b := b.use) hsection (hcontext trivial) hcount)
    | _ => cases h
  · obtain ⟨accesses, hdevice, -⟩ :=
      fileStep_device h hopen fun answers heq => hrelease ⟨answers, heq⟩
    rw [hdevice]
    exact Or.inl (accesses_samePower p _ _)

end Files

section Calls
variable {F C : Type} [DecidableEq F] [DecidableEq C] {p : DriverParams}
  {b b' : HailoPcieBoard F C} {thread : C} {phase phase' : CallPhase F} {action : CallAction F}

/-- The file that the call has found valid. -/
def Admitted : CallPhase F → Option F
  | .fwControlWaits filp | .fwControlHolds filp | .fwControlAwaits filp
  | .eventWaits filp _ | .eventLocks filp _ | .eventHolds filp _ => some filp
  | _ => none

omit [DecidableEq F] in
theorem Admitted.filp {f : F} (h : Admitted phase = some f) : phase.filp = some f := by
  cases phase with
  | fwControlWaits | fwControlHolds | fwControlAwaits | eventWaits | eventLocks | eventHolds =>
    exact h
  | _ => cases h

def HasValid (b : HailoPcieBoard F C) (f : F) : Prop :=
  ∃ context, b.openFilesList f = some context ∧ context.isValid = true

/-- What a call does to the device in a step, and for which file it may. -/
structure CallAccesses (p : DriverParams) (b : HailoPcieBoard F C) (phase : CallPhase F)
    (b' : HailoPcieBoard F C) (phase' : CallPhase F) : Prop where
  accesses : ∃ accesses, b'.device = b.device.accesses p accesses ∧
    (accesses.any Access.isRegister = true → ∃ f, Admitted phase = some f ∨ HasValid b f)
  admitted : ∀ f, Admitted phase' = some f → Admitted phase = some f ∨ HasValid b f

omit [DecidableEq F] [DecidableEq C] in
/-- A step that at most prints, and does not get any further to the device. -/
theorem CallAccesses.prints (accesses : List Access)
    (hdevice : b'.device = b.device.accesses p accesses)
    (hregister : accesses.any Access.isRegister = false)
    (hphase : Admitted phase' = none ∨ Admitted phase' = Admitted phase) :
    CallAccesses p b phase b' phase' := by
  refine ⟨⟨accesses, hdevice, fun h => by rw [hregister] at h; cases h⟩, fun f hf => Or.inl ?_⟩
  rcases hphase with hnone | hsame
  · rw [hnone] at hf
    cases hf
  · exact hsame ▸ hf

omit [DecidableEq F] [DecidableEq C] in
/-- A step of a call that has got through to the device. -/
theorem CallAccesses.of_admitted {f : F} (accesses : List Access)
    (hdevice : b'.device = b.device.accesses p accesses) (hphase : Admitted phase = some f)
    (hphase' : Admitted phase' = none ∨ Admitted phase' = Admitted phase) :
    CallAccesses p b phase b' phase' := by
  refine ⟨⟨accesses, hdevice, fun _ => ⟨f, Or.inl hphase⟩⟩, fun g hg => Or.inl ?_⟩
  rcases hphase' with hnone | hsame
  · rw [hnone] at hg
    cases hg
  · exact hsame ▸ hg

omit [DecidableEq C] in
theorem applyHandler_device (b : HailoPcieBoard F C) (f : F) (context : HailoFileContext)
    (cmd : IoctlCmd) (outcome : Outcome) :
    (applyHandler b f context cmd outcome).device = b.device := by
  unfold applyHandler
  split
  · split <;> rfl
  · rfl
  · rfl
  · rfl

omit [DecidableEq C] in
theorem ioctlSection_accesses (b : HailoPcieBoard F C) (f : F) (cmd : IoctlCmd)
    (outcome : Outcome) :
    CallAccesses p b (.ioctlHolds f cmd) (ioctlSection p b.use f cmd outcome).1
      (ioctlSection p b.use f cmd outcome).2 := by
  unfold ioctlSection
  split
  · exact .prints [.log kernErr] rfl rfl (Or.inl rfl)
  · next context hcontext =>
    split_ifs with hinvalid
    · exact .prints [.log kernErr] rfl rfl (Or.inl rfl)
    · exact .prints [.log kernErr] rfl rfl (Or.inl rfl)
    · have hvalid : HasValid b f := ⟨context, hcontext, by simpa using hinvalid⟩
      have hpast : ∀ b' phase', b'.device = b.device →
          (Admitted phase' = none ∨ Admitted phase' = some f) →
          CallAccesses p b (.ioctlHolds f cmd) b' phase' := by
        intro b' phase' hdevice hphase'
        refine ⟨⟨[], hdevice, nofun⟩, fun g hg => Or.inr ?_⟩
        rcases hphase' with hnone | hsome
        · rw [hnone] at hg
          cases hg
        · cases hsome.symm.trans hg
          exact hvalid
      split
      · exact hpast _ _ rfl (Or.inr rfl)
      · exact hpast _ _ rfl (Or.inl rfl)
      · exact hpast _ _ rfl (Or.inr rfl)
      · exact hpast _ _ rfl (Or.inl rfl)
      · exact hpast _ _ rfl (Or.inr rfl)
      · exact hpast _ _ rfl (Or.inr rfl)
      · have hdevice : (((applyHandler b.use f context cmd outcome).access p
            (handlerAccesses cmd outcome)).setMutex none).device =
            b.device.accesses p (handlerAccesses cmd outcome) :=
          congrArg (fun d : BoardDevice => d.accesses p (handlerAccesses cmd outcome))
            (applyHandler_device b.use f context cmd outcome)
        exact ⟨⟨handlerAccesses cmd outcome, hdevice, fun _ => ⟨f, Or.inr hvalid⟩⟩, nofun⟩

omit [DecidableEq F] [DecidableEq C] in
theorem call_down_accesses {owner : MutexOwner F C} {last : CallPhase F}
    (h : (b.down owner).map (fun b => (b, phase')) = some (b', last))
    (hphase : Admitted phase' = none ∨ Admitted phase' = Admitted phase) :
    CallAccesses p b phase b' last := by
  obtain ⟨held, hdown, hnext⟩ := Option.map_eq_some_iff.mp h
  obtain ⟨-, rfl⟩ := down_eq_some hdown
  cases hnext
  exact .prints [] rfl rfl hphase

omit [DecidableEq C] in
theorem callStep_accesses (h : callStep p b thread phase action = some (b', phase')) :
    CallAccesses p b phase b' phase' := by
  unfold callStep at h
  split at h
  · split_ifs at h
    · cases h
      exact .prints [] rfl rfl (Or.inl rfl)
    · cases h
      exact .prints [.log kernDebug] rfl rfl (Or.inl rfl)
    · cases h
      exact .prints [.log kernDebug, .log kernErr] rfl rfl (Or.inl rfl)
  · split_ifs at h
    · cases h
      exact .prints [.log kernInfo] rfl rfl (Or.inl rfl)
    · cases h
      exact .prints [.log kernInfo] rfl rfl (Or.inl rfl)
  · cases h
    exact .prints [.log kernErr] rfl rfl (Or.inl rfl)
  · exact call_down_accesses h (Or.inl rfl)
  · next filp cmd outcome =>
    have heffect := ioctlSection_accesses (p := p) b filp cmd outcome
    rw [Option.some.inj h] at heffect
    exact heffect
  · cases h
    exact .prints [.log kernInfo] rfl rfl (Or.inl rfl)
  · split at h
    · cases h
      exact .prints [] rfl rfl (Or.inr rfl)
    · cases h
  · cases h
    exact .prints [.log kernErr] rfl rfl (Or.inl rfl)
  · cases h
    exact .of_admitted [.register, .log kernErr] rfl rfl (Or.inl rfl)
  · cases h
    exact .of_admitted [.register] rfl rfl (Or.inr rfl)
  · cases h
    exact .prints [.log kernInfo] rfl rfl (Or.inl rfl)
  · next answered =>
    cases h
    exact .of_admitted (if answered then [.register] else [.log kernErr]) rfl rfl (Or.inl rfl)
  · next cmd =>
    cases h
    exact .of_admitted (interruptedAccesses cmd) rfl rfl (Or.inl rfl)
  · split at h
    · cases h
    · cases h
      exact .prints [] rfl rfl (Or.inr rfl)
  · next cmd =>
    cases h
    exact .of_admitted (interruptedAccesses cmd) rfl rfl (Or.inl rfl)
  · exact call_down_accesses h (Or.inr rfl)
  · next cmd outcome =>
    cases h
    exact .of_admitted (handlerAccesses cmd (eventOutcome b.use cmd outcome)) rfl rfl (Or.inl rfl)
  · cases h
    exact .prints [.log kernDebug] rfl rfl (Or.inl rfl)
  · cases h
    exact .prints [.log kernErr] rfl rfl (Or.inl rfl)
  · exact call_down_accesses h (Or.inl rfl)
  · split at h
    · cases h
      exact .prints [.log kernErr] rfl rfl (Or.inl rfl)
    · next context _ =>
      cases h
      refine .prints (if context.isValid then [] else [.log kernErr]) rfl ?_ (Or.inl rfl)
      split <;> rfl
  · cases h

end Calls

section Sleep
variable {F C : Type} {p : DriverParams} {b : HailoPcieBoard F C}

theorem closeDevice_samePower (answers : ReleaseAnswers) :
    SamePower b.device (closeDevice p b answers) := by
  unfold closeDevice
  split
  · exact driverDown_samePower p _ _
  · exact .refl _

theorem closeDevice_samePresence (answers : ReleaseAnswers) :
    SamePresence b.device (closeDevice p b answers) := by
  unfold closeDevice
  split
  · exact driverDown_samePresence p _ _
  · exact .refl _

theorem closeDevice_unused (hunused : b.usedByFilp = none) (answers : ReleaseAnswers) :
    closeDevice p b answers = b.device := by
  rw [closeDevice, hunused]
  rfl

theorem closeDevice_noted (hused : b.usedByFilp ≠ none) (hmapped : b.device.mapped = false)
    (answers : ReleaseAnswers) : (closeDevice p b answers).touchedAbsent = true := by
  rw [closeDevice, if_pos (Option.isSome_iff_ne_none.mpr hused)]
  exact driverDown_noted p hmapped _

theorem loadAndSleep_samePresence (d : BoardDevice) (answers : ActivationAnswers) :
    SamePresence d (loadAndSleep p d answers) := by
  have hload := accesses_samePresence p d [.register, .log kernNotice]
  have hinfo : ∀ d : BoardDevice, SamePresence d
      (if p.acceleratorType = .soc then d.accesses p [.register] else d) := by
    intro d
    split
    · exact accesses_samePresence p d _
    · exact .refl d
  have hsleep := (hload.trans (hinfo _)).trans (disableInterrupts_samePresence p _)
  unfold loadAndSleep
  split
  · exact (hload.trans (accesses_samePresence p _ _)).trans (disableInterrupts_samePresence p _)
  · simp only
    split
    · exact (hsleep.trans (accesses_samePresence p _ _)).trans (powerOff_samePresence p _ _)
    · exact hsleep

theorem loadAndSleep_interrupts {d : BoardDevice} (hpDev : d.pDev.isSome = true)
    (answers : ActivationAnswers) : (loadAndSleep p d answers).interruptsEnabled = false := by
  have hload : (d.accesses p [.register, .log kernNotice]).pDev.isSome = true := by
    rw [accesses_pDev]
    exact hpDev
  have hinfo : ∀ d : BoardDevice, d.pDev.isSome = true →
      (if p.acceleratorType = .soc then d.accesses p [.register] else d).pDev.isSome = true := by
    intro d hd
    split
    · rw [accesses_pDev]
      exact hd
    · exact hd
  unfold loadAndSleep
  split
  · refine disableInterrupts_interruptsEnabled p ?_
    rw [accesses_pDev]
    exact hload
  · have hoff := disableInterrupts_interruptsEnabled p (hinfo _ hload)
    simp only
    split
    · rw [powerOff_interruptsEnabled, accesses_interruptsEnabled]
      exact hoff
    · exact hoff

theorem hailoActivateBoard_samePresence (d : BoardDevice) (answers : ActivationAnswers) :
    SamePresence d (hailoActivateBoard p d answers) := by
  have henable := (accesses_samePresence p d [.pDev]).trans
    (enableInterrupts_samePresence p _ answers.msi answers.irq)
  unfold hailoActivateBoard
  split
  · next d₁ heq =>
    rw [heq] at henable
    exact henable.trans (accesses_samePresence p _ _)
  · next d₁ heq =>
    rw [heq] at henable
    exact henable.trans (loadAndSleep_samePresence d₁ answers)

theorem hailoActivateBoard_interrupts {d : BoardDevice} (hpDev : d.pDev.isSome = true)
    (hoff : d.interruptsEnabled = false) (answers : ActivationAnswers) :
    (hailoActivateBoard p d answers).interruptsEnabled = false := by
  have hlog := accesses_samePower p d [.pDev]
  unfold hailoActivateBoard
  split
  · next d₁ heq =>
    rw [accesses_interruptsEnabled, (enableInterrupts_power p heq).2.2 rfl, hlog.interrupts]
    exact hoff
  · next d₁ heq =>
    refine loadAndSleep_interrupts ?_ answers
    rw [(enableInterrupts_power p heq).1, hlog.pDev]
    exact hpDev

/-- The board after the system slept. -/
theorem hailoPcieResume_device (b : HailoPcieBoard F C) (hpDev : b.device.pDev.isSome = true)
    (hoff : b.device.interruptsEnabled = false) (answers : ActivationAnswers) :
    (hailoPcieResume p b answers).device.pDev.isSome = true ∧
      (hailoPcieResume p b answers).device.interruptsEnabled = false ∧
      (hailoPcieResume p b answers).device.touchedAbsent = b.device.touchedAbsent := by
  have hset := setPower_samePresence b.device .d0
  have hpresent : (answering (b.device.setPower .d0)).pDev.isSome = true := hset.pDev.trans hpDev
  have hd0 : (b.device.setPower .d0).pDev = some .d0 := by
    obtain ⟨state, hstate⟩ := Option.isSome_iff_exists.mp hpDev
    rw [BoardDevice.setPower, hstate]
    rfl
  have hpresence := hailoActivateBoard_samePresence (p := p) (answering (b.device.setPower .d0))
    answers
  exact ⟨hpresence.pDev.trans hpresent, hailoActivateBoard_interrupts hpresent hoff answers,
    hpresence.touched hpresent (decide_eq_true hd0)⟩

theorem hailoPcieSuspend_device (answers : ReleaseAnswers)
    (hpDev : b.device.pDev.isSome = true) :
    (hailoPcieSuspend p b answers).device.pDev.isSome = true ∧
      (hailoPcieSuspend p b answers).device.interruptsEnabled = false := by
  have hclosed : (closeDevice p b answers).pDev.isSome = true := by
    rw [(closeDevice_samePower answers).pDev]
    exact hpDev
  refine ⟨?_, disableInterrupts_interruptsEnabled p hclosed⟩
  rw [hailoPcieSuspend, disableInterrupts_pDev]
  exact hclosed

end Sleep

section Runs
variable {F C : Type}

/-- What holds between the steps: a file that is valid has the device awake, with its interrupts
on. -/
structure Awake (s : BoardSystem F C) : Prop where
  counted : Counted HoldsBoard s.files s.board.refCount
  contexts : ∀ f, HasContext (s.files f) → (s.board.openFilesList f).isSome = true
  closed : ∀ f, ¬ HasContext (s.files f) → s.board.openFilesList f = none
  calls : ∀ t f, (s.calls t).filp = some f → s.files f = .opened
  admitted : ∀ t f, Admitted (s.calls t) = some f → HasValid s.board f
  present : s.board.device.pDev.isSome = true
  valid : ∀ f, HasValid s.board f →
    s.board.device.pDev = some .d0 ∧ s.board.device.interruptsEnabled = true
  interrupts : s.board.device.interruptsEnabled = true → s.board.device.pDev = some .d0

variable {p : DriverParams} {s s' : BoardSystem F C}

theorem Awake.off (h : Awake s) (hasleep : s.board.device.pDev ≠ some .d0) :
    s.board.device.interruptsEnabled = false :=
  Bool.eq_false_iff.mpr fun henabled => hasleep (h.interrupts henabled)

theorem Awake.holds (h : Awake s) {f : F} (hvalid : HasValid s.board f) :
    HasContext (s.files f) := by
  by_contra hnot
  obtain ⟨context, hcontext, -⟩ := hvalid
  rw [h.closed f hnot] at hcontext
  cases hcontext

theorem holdsBoard_of_hasContext {phase : FilePhase} (h : HasContext phase) : HoldsBoard phase := by
  cases phase with
  | opened | releaseWaits | releaseHolds => trivial
  | _ => exact h.elim

/-- The board before a step, seen as it answers. -/
def answeringBoard (b : HailoPcieBoard F C) : HailoPcieBoard F C := b.setDevice (answering b.device)

theorem Awake.answers (h : Awake s) : Awake { s with board := answeringBoard s.board } :=
  ⟨h.counted, h.contexts, h.closed, h.calls, h.admitted, h.present, h.valid, h.interrupts⟩

theorem awake_probed (p : DriverParams) : Awake (probedSystem p : BoardSystem F C) where
  counted := counted_of_forall_not fun _ => id
  contexts := fun _ h => h.elim
  closed := fun _ _ => rfl
  calls := fun _ _ h => by cases h
  admitted := fun _ _ h => by cases h
  present := rfl
  valid := fun _ h => by
    obtain ⟨context, hcontext, -⟩ := h
    cases hcontext
  interrupts := fun h => by cases h

variable [DecidableEq F]

/-- What an open or a release does to its own call and context only. -/
structure FileMove (s : BoardSystem F C) (f : F) (b' : HailoPcieBoard F C) (phase' : FilePhase) :
    Prop where
  counted : Counted HoldsBoard (Function.update s.files f phase') b'.refCount
  contexts : ∀ g, HasContext (Function.update s.files f phase' g) →
    (b'.openFilesList g).isSome = true
  closed : ∀ g, ¬ HasContext (Function.update s.files f phase' g) → b'.openFilesList g = none
  others : ∀ g, g ≠ f → b'.openFilesList g = s.board.openFilesList g
  opened : s.files f = .opened → b'.openFilesList f = s.board.openFilesList f
  starts : s.files f = .opened → ∀ t, (s.calls t).filp ≠ some f

theorem Awake.file (h : Awake s) {f : F} {b' : HailoPcieBoard F C} {phase' : FilePhase}
    (hmove : FileMove s f b' phase') (hpresent : b'.device.pDev.isSome = true)
    (hvalid : ∀ g, HasValid b' g → b'.device.pDev = some .d0 ∧ b'.device.interruptsEnabled = true)
    (hinterrupts : b'.device.interruptsEnabled = true → b'.device.pDev = some .d0) :
    Awake (afterFile s f b' phase') where
  counted := hmove.counted
  contexts := hmove.contexts
  closed := hmove.closed
  calls := by
    intro t g hcall
    have hopened := h.calls t g hcall
    by_cases hgf : g = f
    · subst hgf
      exact absurd hcall (hmove.starts hopened t)
    · exact (Function.update_of_ne hgf _ _).trans hopened
  admitted := by
    intro t g hadmitted
    obtain ⟨context, hcontext, hvalid⟩ := h.admitted t g hadmitted
    refine ⟨context, ?_, hvalid⟩
    by_cases hgf : g = f
    · subst hgf
      have hopened := h.calls t g (Admitted.filp hadmitted)
      exact (hmove.opened hopened).trans hcontext
    · exact (hmove.others g hgf).trans hcontext
  present := hpresent
  valid := hvalid
  interrupts := hinterrupts

/-- No step but the section of the open adds a context. -/
theorem fileEffect_closes {b b' : HailoPcieBoard F C} {f : F} {phase phase' : FilePhase}
    {action : FileAction} (h : FileEffect p f b phase action b' phase')
    (hopen : ∀ answers, action ≠ .openSection answers) :
    b'.openFilesList = b.openFilesList ∨
      b'.openFilesList = Function.update b.openFilesList f none := by
  cases h with
  | opens => exact absurd rfl (hopen _)
  | absent => exact Or.inl rfl
  | acquires _ _ _ hcontexts => exact Or.inl hcontexts
  | keeps _ _ _ _ _ _ hcontexts => exact Or.inl hcontexts
  | drops _ _ hcontexts => exact Or.inl hcontexts
  | releases _ _ hcontexts => exact Or.inr hcontexts
  | frees _ _ _ _ _ hcontexts => exact Or.inl hcontexts
  | logs _ _ hcontexts => exact Or.inl hcontexts

theorem fileMove_of_step (h : Awake s) {f : F} {b' : HailoPcieBoard F C} {phase' : FilePhase}
    {action : FileAction} (hallows : KernelAllows s (.file f action))
    (hopen : ∀ answers, action ≠ .openSection answers)
    (hstep : fileStep p s.board f (s.files f) action = some (b', phase')) :
    FileMove s f b' phase' := by
  have heffect := fileStep_effect hstep (h.contexts f)
  have hothers : ∀ g, g ≠ f → b'.openFilesList g = s.board.openFilesList g := by
    intro g hgf
    rcases fileEffect_closes heffect hopen with hsame | hset
    · exact congrFun hsame g
    · exact (congrFun hset g).trans (Function.update_of_ne hgf _ _)
  have hreleases : s.files f = .opened → action = .release := fileEffect_opened heffect
  refine ⟨fileEffect_counted heffect h.counted, fileEffect_contexts heffect h.contexts,
    fun g hg => ?_, hothers, fun hopened => ?_, fun hopened t => ?_⟩
  · by_cases hgf : g = f
    · subst hgf
      rw [Function.update_self] at hg
      exact fileStep_openFilesList hstep (h.closed g) hg
    · rw [Function.update_of_ne hgf] at hg
      exact (hothers g hgf).trans (h.closed g hg)
  · obtain rfl := hreleases hopened
    rw [hopened] at hstep
    cases hstep
    rfl
  · obtain rfl := hreleases hopened
    exact hallows t

theorem awake_fileStep (h : Awake s) {f : F} {b' : HailoPcieBoard F C} {phase' : FilePhase}
    {action : FileAction} (hallows : KernelAllows s (.file f action))
    (hopen : ∀ answers, action ≠ .openSection answers)
    (hstep : fileStep p s.board f (s.files f) action = some (b', phase')) :
    Awake (afterFile s f b' phase') := by
  have hmove := fileMove_of_step h hallows hopen hstep
  have heffect := fileStep_effect hstep (h.contexts f)
  have hpresent : b'.device.pDev.isSome = true :=
    (fileEffect_attached heffect).2.pDev.trans h.present
  have hbefore : ∀ g, HasValid b' g → HasValid s.board g := by
    rintro g ⟨context, hcontext, hvalid⟩
    refine ⟨context, ?_, hvalid⟩
    rcases fileEffect_closes heffect hopen with hsame | hset
    · exact (congrFun hsame g).symm.trans hcontext
    · by_cases hgf : g = f
      · rw [hset, hgf, Function.update_self] at hcontext
        cases hcontext
      · exact (hmove.others g hgf).symm.trans hcontext
  rcases fileStep_power hstep hopen h.present (h.contexts f) with hpower | ⟨hcount, hoff⟩
  · refine h.file hmove hpresent (fun g hg => ?_) fun henabled => ?_
    · obtain ⟨hd0, hon⟩ := h.valid g (hbefore g hg)
      exact ⟨hpower.pDev.trans hd0, hpower.interrupts.trans hon⟩
    · exact hpower.pDev.trans (h.interrupts (hpower.interrupts.symm.trans henabled))
  · refine h.file hmove hpresent (fun g hg => ?_) fun henabled => ?_
    · have hnobody := hmove.counted.eq_zero_iff.mp hcount g
      obtain ⟨context, hcontext, -⟩ := hg
      by_cases hholds : HasContext (Function.update s.files f phase' g)
      · exact absurd (holdsBoard_of_hasContext hholds) hnobody
      · rw [hmove.closed g hholds] at hcontext
        cases hcontext
    · rw [hoff] at henabled
      cases henabled

/-- What the section of an open leaves. -/
theorem openSectionAwake_eq {b b' : HailoPcieBoard F C} {f : F} {answers : OpenAnswers}
    {phase' : FilePhase} (hpDev : b.device.pDev.isSome = true)
    (h : openSectionAwake p b f answers = (b', phase')) :
    b'.refCount = b.refCount ∧ b'.device.touchedAbsent = b.device.touchedAbsent ∧
      b'.device.pDev.isSome = true ∧
      (phase' = .opened ∧ b'.openFilesList = Function.update b.openFilesList f (some ⟨true, 0⟩) ∧
          Opens b.device b'.device true ∨
        phase' = .openDrops ∧ b'.openFilesList = b.openFilesList ∧
          Opens b.device b'.device false) := by
  unfold openSectionAwake at h
  split at h
  · rcases hdevice : openDeviceAwake p b.device answers with ⟨d, ok⟩
    rw [hdevice] at h
    obtain ⟨hopens, htouched, hpresent⟩ := openDeviceAwake_power p hpDev hdevice
    cases ok with
    | true =>
      cases h
      exact ⟨rfl, htouched, hpresent, Or.inl ⟨rfl, rfl, hopens⟩⟩
    | false =>
      cases h
      exact ⟨rfl, htouched, hpresent, Or.inr ⟨rfl, rfl, hopens⟩⟩
  · cases h
    have hpower := accesses_samePower p b.device [.log kernErr]
    refine ⟨rfl, accesses_quiet p hpDev rfl, hpower.pDev ▸ hpDev,
      Or.inr ⟨rfl, rfl, nofun, fun _ => ?_⟩⟩
    exact ⟨hpower.interrupts, fun hd0 => hpower.pDev.trans hd0⟩

theorem awake_openSection (h : Awake s) {f : F} {b' : HailoPcieBoard F C} {phase' : FilePhase}
    {answers : OpenAnswers} (hphase : s.files f = .openHolds)
    (hstep : openSectionAwake p s.board.use f answers = (b', phase')) :
    Awake (afterFile s f b' phase') := by
  obtain ⟨hcount, -, hpresent, hends⟩ := openSectionAwake_eq (b := s.board.use) h.present hstep
  have hcount : b'.refCount = s.board.refCount := hcount
  have hnotOpened : s.files f ≠ .opened := by
    rw [hphase]
    nofun
  have hkeeps : HoldsBoard phase' ↔ HoldsBoard (s.files f) := by
    rw [hphase]
    rcases hends with ⟨rfl, -, -⟩ | ⟨rfl, -, -⟩
    · exact Iff.rfl
    · exact Iff.rfl
  have hcounted : Counted HoldsBoard (Function.update s.files f phase') b'.refCount := by
    rw [hcount]
    exact h.counted.keep hkeeps
  have hcloses : ∀ g, g ≠ f → b'.openFilesList g = s.board.openFilesList g := by
    intro g hgf
    rcases hends with ⟨-, hset, -⟩ | ⟨-, hsame, -⟩
    · exact (congrFun hset g).trans (Function.update_of_ne hgf _ _)
    · exact congrFun hsame g
  have hbefore : s.board.openFilesList f = none := h.closed f (by rw [hphase]; exact id)
  have hmove : FileMove s f b' phase' := by
    refine ⟨hcounted, fun g hg => ?_, fun g hg => ?_, hcloses, fun h => absurd h hnotOpened,
      fun h => absurd h hnotOpened⟩
    · by_cases hgf : g = f
      · subst hgf
        rw [Function.update_self] at hg
        rcases hends with ⟨-, hset, -⟩ | ⟨rfl, -, -⟩
        · rw [hset, Function.update_self]
          rfl
        · exact hg.elim
      · rw [Function.update_of_ne hgf] at hg
        rw [hcloses g hgf]
        exact h.contexts g hg
    · by_cases hgf : g = f
      · subst hgf
        rw [Function.update_self] at hg
        rcases hends with ⟨rfl, -, -⟩ | ⟨-, hsame, -⟩
        · exact absurd trivial hg
        · exact (congrFun hsame g).trans hbefore
      · rw [Function.update_of_ne hgf] at hg
        exact (hcloses g hgf).trans (h.closed g hg)
  refine h.file hmove hpresent (fun g hg => ?_) fun henabled => ?_
  · rcases hends with ⟨-, -, hopens⟩ | ⟨-, hsame, hopens⟩
    · exact hopens.opened rfl
    · obtain ⟨context, hcontext, hvalid⟩ := hg
      obtain ⟨hd0, hon⟩ := h.valid g ⟨context, (congrFun hsame g).symm.trans hcontext, hvalid⟩
      obtain ⟨hkept, hstays⟩ := hopens.failed rfl
      exact ⟨hstays hd0, hkept.trans hon⟩
  · rcases hends with ⟨-, -, hopens⟩ | ⟨-, -, hopens⟩
    · exact (hopens.opened rfl).1
    · obtain ⟨hkept, hstays⟩ := hopens.failed rfl
      exact hstays (h.interrupts (hkept.symm.trans henabled))

theorem awake_callStep [DecidableEq C] (h : Awake s) {t : C} {b' : HailoPcieBoard F C}
    {phase' : CallPhase F} {action : CallAction F} (hallows : KernelAllows s (.call t action))
    (hstep : callStep p s.board t (s.calls t) action = some (b', phase')) :
    Awake (afterCall s t b' phase') := by
  have heffect := callStep_effect hstep
  obtain ⟨⟨accesses, hdevice, -⟩, hadmitted⟩ := callStep_accesses hstep
  have hpower : SamePower s.board.device b'.device := by
    rw [hdevice]
    exact accesses_samePower p _ _
  have hsame : ∀ f, HasValid b' f ↔ HasValid s.board f := by
    have hmap : ∀ (b : HailoPcieBoard F C) f, HasValid b f ↔
        (b.openFilesList f).map HailoFileContext.isValid = some true := by
      intro b f
      rw [Option.map_eq_some_iff]
      exact Iff.rfl
    intro f
    rw [hmap, hmap, heffect.contexts f]
  have hcontexts : ∀ f, (b'.openFilesList f).isSome = (s.board.openFilesList f).isSome := by
    intro f
    have hsome := congrArg Option.isSome (heffect.contexts f)
    rwa [Option.isSome_map, Option.isSome_map] at hsome
  refine ⟨heffect.refCount ▸ h.counted, fun f hf => ?_, fun f hf => ?_, fun t' f hcall => ?_,
    fun t' f hcall => (hsame f).mpr ?_, ?_, fun f hf => ?_, fun henabled => ?_⟩
  · exact (hcontexts f).trans (h.contexts f hf)
  · have hnone : (b'.openFilesList f).isSome = false :=
      (hcontexts f).trans (congrArg Option.isSome (h.closed f hf))
    exact Option.not_isSome_iff_eq_none.mp (Bool.eq_false_iff.mp hnone)
  · change (Function.update s.calls t phase' t').filp = some f at hcall
    by_cases htt : t' = t
    · subst htt
      rw [Function.update_self] at hcall
      rcases heffect.follows with hnone | hfilp | ⟨g, hg, hstarts⟩
      · rw [hnone] at hcall
        cases hcall
      · exact h.calls t' f (hfilp ▸ hcall)
      · obtain rfl := Option.some.inj (hg.symm.trans hcall)
        exact opened_of_starts (s := s) hallows hstarts
    · exact h.calls t' f (by rwa [Function.update_of_ne htt] at hcall)
  · change Admitted (Function.update s.calls t phase' t') = some f at hcall
    by_cases htt : t' = t
    · subst htt
      rw [Function.update_self] at hcall
      exact (hadmitted f hcall).elim (h.admitted t' f) id
    · exact h.admitted t' f (by rwa [Function.update_of_ne htt] at hcall)
  · exact hpower.pDev ▸ h.present
  · obtain ⟨hd0, hon⟩ := h.valid f ((hsame f).mp hf)
    exact ⟨hpower.pDev.trans hd0, hpower.interrupts.trans hon⟩
  · exact hpower.pDev.trans (h.interrupts (hpower.interrupts.symm.trans henabled))

omit [DecidableEq F] in
theorem awake_sleep (h : Awake s) (hfrozen : Frozen s) (closing : ReleaseAnswers)
    (activation : ActivationAnswers) :
    Awake { s with
      board := hailoPcieResume p (hailoPcieSuspend p s.board closing) activation } := by
  obtain ⟨hpresent, hoff⟩ := hailoPcieSuspend_device (p := p) closing h.present
  obtain ⟨hpresent', hoff', -⟩ := hailoPcieResume_device (p := p) _ hpresent hoff activation
  refine ⟨h.counted, fun f hf => ?_, fun f hf => ?_, h.calls, fun t f hadmitted => ?_, hpresent',
    fun f hf => ?_, fun henabled => ?_⟩
  · exact (Option.isSome_map).trans (h.contexts f hf)
  · exact Option.map_eq_none_iff.mpr (h.closed f hf)
  · rw [hfrozen.calls t] at hadmitted
    cases hadmitted
  · obtain ⟨context, hcontext, hvalid⟩ := hf
    obtain ⟨before, -, rfl⟩ := Option.map_eq_some_iff.mp hcontext
    cases hvalid
  · rw [hoff'] at henabled
    cases henabled

omit [DecidableEq F] in
theorem awake_resetPrepare (h : Awake s) (closing : ReleaseAnswers) :
    Awake { s with board := hailoPciResetPrepare p s.board closing } := by
  have hpower : SamePower s.board.device (closeDevice p s.board closing) :=
    closeDevice_samePower closing
  refine ⟨h.counted, h.contexts, h.closed, h.calls, h.admitted, hpower.pDev ▸ h.present,
    fun f hf => ?_, fun henabled => ?_⟩
  · obtain ⟨hd0, hon⟩ := h.valid f hf
    exact ⟨hpower.pDev.trans hd0, hpower.interrupts.trans hon⟩
  · exact hpower.pDev.trans (h.interrupts (hpower.interrupts.symm.trans henabled))

variable [DecidableEq C]

omit [DecidableEq C] in
/-- The section of an open, or a step as before. -/
theorem fileStepAwake_some {b b' : HailoPcieBoard F C} {f : F} {phase phase' : FilePhase}
    {action : FileAction} (h : fileStepAwake p b f phase action = some (b', phase')) :
    (phase = .openHolds ∧ ∃ answers, action = .openSection answers ∧
        openSectionAwake p b.use f answers = (b', phase')) ∨
      (∀ answers, action ≠ .openSection answers) ∧
        fileStep p (answeringBoard b) f phase action = some (b', phase') := by
  unfold fileStepAwake at h
  split at h
  · next answers => exact Or.inl ⟨rfl, answers, rfl, Option.some.inj h⟩
  · next hnot =>
    refine Or.inr ⟨?_, h⟩
    rintro answers rfl
    cases phase with
    | openHolds => exact hnot answers rfl rfl
    | _ => cases h

theorem awake_powerStep {action : PowerAction F C} (h : Awake s) (hpossible : Possible s action)
    (hstep : powerStep p s action = some s') : Awake s' := by
  cases action with
  | run action =>
    cases action with
    | remove => cases hstep
    | file f action =>
      obtain ⟨⟨b', phase'⟩, hnext, rfl⟩ := Option.map_eq_some_iff.mp hstep
      rcases fileStepAwake_some hnext with ⟨hphase, answers, -, hsection⟩ | ⟨hopen, hfile⟩
      · exact awake_openSection h hphase hsection
      · exact awake_fileStep h.answers hpossible hopen hfile
    | call t action =>
      obtain ⟨⟨b', phase'⟩, hnext, rfl⟩ := Option.map_eq_some_iff.mp hstep
      exact awake_callStep h.answers hpossible hnext
  | sleep closing activation =>
    cases hstep
    exact awake_sleep h.answers ⟨hpossible.files, hpossible.calls⟩ closing activation
  | resetPrepare closing =>
    rw [powerStep] at hstep
    split at hstep
    · cases hstep
      exact awake_resetPrepare h.answers closing
    · cases hstep

theorem awake_of_run {Admitted : BoardSystem F C → PowerAction F C → Prop}
    (h : Relation.ReflTransGen (PowerSteps p Admitted) (probedSystem p) s) : Awake s := by
  refine inv_of_run ?_ h (awake_probed p)
  rintro s s' hawake ⟨action, hpossible, -, hstep⟩
  exact awake_powerStep hawake hpossible hstep

/-- Whatever sleeps and wakes, an open file whose context is valid has the device in D0 and its
interrupts on. -/
theorem validFile_powered {Admitted : BoardSystem F C → PowerAction F C → Prop}
    (hrun : Relation.ReflTransGen (PowerSteps p Admitted) (probedSystem p) s) {f : F}
    {context : HailoFileContext} (hcontext : s.board.openFilesList f = some context)
    (hvalid : context.isValid = true) :
    s.board.device.pDev = some .d0 ∧ s.board.device.interruptsEnabled = true :=
  (awake_of_run hrun).valid f ⟨context, hcontext, hvalid⟩

theorem validFile_powered_opened : ∃ s : BoardSystem Nat Nat,
    s.board.openFilesList 0 = some ⟨true, 0⟩ ∧ s.board.device.pDev = some .d0 ∧
      s.board.device.interruptsEnabled = true := by
  obtain ⟨s, hrun, hcontext⟩ : ∃ s : BoardSystem Nat Nat,
      Relation.ReflTransGen (PowerSteps nncParams fun _ _ => True) (probedSystem nncParams) s ∧
        s.board.openFilesList 0 = some ⟨true, 0⟩ :=
    ⟨_, .head ⟨.run (.file 0 .getBoardIndex), trivial, trivial, rfl⟩ <|
      .head ⟨.run (.file 0 .down), trivial, trivial, rfl⟩ <|
      .single ⟨.run (.file 0 (.openSection granted)), trivial, trivial, rfl⟩, rfl⟩
  exact ⟨s, hcontext, validFile_powered hrun hcontext rfl⟩

/-- The device is closed only while it is awake. -/
def ClosesAwake (p : DriverParams) (s : BoardSystem F C) : PowerAction F C → Prop
  | .run (.file f (.releaseSection _)) => ∀ context, s.board.openFilesList f = some context →
    InUse p s.board f context → s.board.device.pDev = some .d0
  | .run _ => True
  | .sleep _ _ | .resetPrepare _ => s.board.usedByFilp ≠ none → s.board.device.pDev = some .d0

theorem answering_mapped {d : BoardDevice} :
    (answering d).mapped = true ↔ d.pDev = some .d0 := decide_eq_true_iff

omit [DecidableEq C] in
theorem fileStep_touched (h : Awake s) {f : F} {b' : HailoPcieBoard F C} {phase' : FilePhase}
    {action : FileAction} (hopen : ∀ answers, action ≠ .openSection answers)
    (hclean : s.board.device.touchedAbsent = false)
    (hstep : fileStep p (answeringBoard s.board) f (s.files f) action = some (b', phase')) :
    b'.device.touchedAbsent = false ↔ ClosesAwake p s (.run (.file f action)) := by
  have hcontexts : HasContext (s.files f) →
      ((answeringBoard s.board).openFilesList f).isSome = true := h.contexts f
  by_cases hd0 : s.board.device.pDev = some .d0
  · have hattached := (fileEffect_attached (s := { s with board := answeringBoard s.board })
      (fileStep_effect hstep hcontexts)).2
    have htouched : b'.device.touchedAbsent = s.board.device.touchedAbsent :=
      hattached.touched h.present (answering_mapped.mpr hd0)
    refine iff_of_true (htouched.trans hclean) ?_
    cases action with
    | releaseSection answers => exact fun _ _ _ => hd0
    | _ => trivial
  · by_cases hrelease : ∃ answers, action = .releaseSection answers
    · obtain ⟨answers, rfl⟩ := hrelease
      cases hphase : s.files f with
      | releaseHolds =>
        rw [hphase] at hstep hcontexts
        have hsection := Option.some.inj hstep
        obtain ⟨context, hcontext⟩ := Option.isSome_iff_exists.mp (hcontexts trivial)
        by_cases hused : InUse p s.board f context
        · have hnoted := releaseSection_noted (b := (answeringBoard s.board).use) hsection hcontext
            (decide_eq_false hd0) hused
          refine iff_of_false (by rw [hnoted]; decide) fun hcloses => ?_
          exact hd0 (hcloses context hcontext hused)
        · have hquiet := releaseSection_quiet (b := (answeringBoard s.board).use) hsection hcontext
            h.present (h.off hd0) hused
          refine iff_of_true (hquiet.trans hclean) fun other hother hin => ?_
          cases hcontext.symm.trans hother
          exact absurd hin hused
      | _ =>
        rw [hphase] at hstep
        cases hstep
    · obtain ⟨accesses, hdevice, hregister⟩ :=
        fileStep_device hstep hopen fun answers heq => hrelease ⟨answers, heq⟩
      have hquiet : b'.device.touchedAbsent = s.board.device.touchedAbsent := by
        rw [hdevice]
        exact accesses_quiet p (d := answering s.board.device) h.present hregister
      refine iff_of_true (hquiet.trans hclean) ?_
      cases action with
      | releaseSection answers => exact absurd ⟨answers, rfl⟩ hrelease
      | _ => trivial

omit [DecidableEq C] in
theorem callStep_touched (h : Awake s) {t : C} {b' : HailoPcieBoard F C} {phase' : CallPhase F}
    {action : CallAction F}
    (hstep : callStep p (answeringBoard s.board) t (s.calls t) action = some (b', phase')) :
    b'.device.touchedAbsent = s.board.device.touchedAbsent := by
  by_cases hd0 : s.board.device.pDev = some .d0
  · exact (callStep_effect hstep).uses.device.touched h.present (answering_mapped.mpr hd0)
  · obtain ⟨⟨accesses, hdevice, hregister⟩, -⟩ := callStep_accesses hstep
    have hnone : accesses.any Access.isRegister = false := by
      refine Bool.eq_false_iff.mpr fun hany => ?_
      obtain ⟨f, hadmitted | hvalid⟩ := hregister hany
      · exact hd0 (h.valid f (h.admitted t f hadmitted)).1
      · exact hd0 (h.valid f hvalid).1
    rw [hdevice]
    exact accesses_quiet p (d := answering s.board.device) h.present hnone

omit [DecidableEq F] [DecidableEq C] in
theorem closeDevice_touched (h : Awake s) (hclean : s.board.device.touchedAbsent = false)
    (closing : ReleaseAnswers) :
    (closeDevice p (answeringBoard s.board) closing).touchedAbsent = false ↔
      (s.board.usedByFilp ≠ none → s.board.device.pDev = some .d0) := by
  by_cases hd0 : s.board.device.pDev = some .d0
  · refine iff_of_true ?_ fun _ => hd0
    exact ((closeDevice_samePresence (b := answeringBoard s.board) closing).touched h.present
      (answering_mapped.mpr hd0)).trans hclean
  · by_cases hused : s.board.usedByFilp = none
    · refine iff_of_true ?_ fun hnot => absurd hused hnot
      rw [closeDevice_unused (b := answeringBoard s.board) hused]
      exact hclean
    · refine iff_of_false ?_ fun hcloses => hd0 (hcloses hused)
      rw [closeDevice_noted (b := answeringBoard s.board) hused (decide_eq_false hd0)]
      decide

omit [DecidableEq F] [DecidableEq C] in
theorem suspend_touched (h : Awake s) (closing : ReleaseAnswers) :
    (hailoPcieSuspend p (answeringBoard s.board) closing).device.touchedAbsent =
      (closeDevice p (answeringBoard s.board) closing).touchedAbsent := by
  have hpower : SamePower (answeringBoard s.board).device
      (closeDevice p (answeringBoard s.board) closing) := closeDevice_samePower closing
  by_cases hd0 : s.board.device.pDev = some .d0
  · refine (disableInterrupts_samePresence p _).touched ?_ ?_
    · exact (congrArg Option.isSome hpower.pDev).trans h.present
    · exact (closeDevice_samePresence (b := answeringBoard s.board) closing).mapped.trans
        (answering_mapped.mpr hd0)
  · rw [hailoPcieSuspend, disableInterrupts_off p (hpower.interrupts.trans (h.off hd0))]

/-- A step leaves the registers alone while they do not answer exactly if it closes the device
only while it is awake. -/
theorem powerStep_touched {action : PowerAction F C} (h : Awake s)
    (hclean : s.board.device.touchedAbsent = false) (hstep : powerStep p s action = some s') :
    s'.board.device.touchedAbsent = false ↔ ClosesAwake p s action := by
  cases action with
  | run action =>
    cases action with
    | remove => cases hstep
    | file f action =>
      obtain ⟨⟨b', phase'⟩, hnext, rfl⟩ := Option.map_eq_some_iff.mp hstep
      rcases fileStepAwake_some hnext with ⟨hphase, answers, rfl, hsection⟩ | ⟨hopen, hfile⟩
      · have htouched := (openSectionAwake_eq (b := s.board.use) h.present hsection).2.1
        exact iff_of_true (htouched.trans hclean) trivial
      · exact fileStep_touched h hopen hclean hfile
    | call t action =>
      obtain ⟨⟨b', phase'⟩, hnext, rfl⟩ := Option.map_eq_some_iff.mp hstep
      exact iff_of_true ((callStep_touched h hnext).trans hclean) trivial
  | sleep closing activation =>
    cases hstep
    obtain ⟨hpresent, hoff⟩ :=
      hailoPcieSuspend_device (p := p) (b := answeringBoard s.board) closing h.present
    have hresume := (hailoPcieResume_device (p := p) _ hpresent hoff activation).2.2
    have htouched := hresume.trans (suspend_touched h closing)
    exact (congrArg (· = false) htouched).to_iff.trans (closeDevice_touched h hclean closing)
  | resetPrepare closing =>
    rw [powerStep] at hstep
    split at hstep
    · cases hstep
      exact closeDevice_touched h hclean closing
    · cases hstep

/-- As long as every release, suspend and reset that closes the device finds it in D0, no register
is asked for that does not answer, and the next step keeps this up exactly if it does so too. -/
theorem registers_answer_iff {action : PowerAction F C}
    (hrun : Relation.ReflTransGen (PowerSteps p (ClosesAwake p)) (probedSystem p) s)
    (hstep : powerStep p s action = some s') :
    s.board.device.touchedAbsent = false ∧
      (s'.board.device.touchedAbsent = false ↔ ClosesAwake p s action) := by
  have hkeep : ∀ s₁ s₂ : BoardSystem F C,
      Awake s₁ ∧ s₁.board.device.touchedAbsent = false → PowerSteps p (ClosesAwake p) s₁ s₂ →
      Awake s₂ ∧ s₂.board.device.touchedAbsent = false := by
    rintro s₁ s₂ ⟨hawake, hclean⟩ ⟨action, hpossible, hcloses, hstep⟩
    exact ⟨awake_powerStep hawake hpossible hstep,
      (powerStep_touched hawake hclean hstep).mpr hcloses⟩
  obtain ⟨hawake, hclean⟩ := inv_of_run hkeep hrun ⟨awake_probed p, rfl⟩
  exact ⟨hclean, powerStep_touched hawake hclean hstep⟩

/-- A NNC board is reopened by nobody after the system slept, and the file that has it in use is
closed. -/
theorem registers_answer_iff_closedAsleep : ∃ s s' : BoardSystem Nat Nat,
    s.board.device.pDev = some .d3hot ∧
      powerStep nncParams s (.run (.file 0 (.releaseSection answered))) = some s' ∧
      s.board.device.touchedAbsent = false ∧ ¬ s'.board.device.touchedAbsent = false := by
  obtain ⟨s, hrun, hpower, hused, hcontext, s', hstep⟩ : ∃ s : BoardSystem Nat Nat,
      Relation.ReflTransGen (PowerSteps nncParams (ClosesAwake nncParams))
        (probedSystem nncParams) s ∧ s.board.device.pDev = some .d3hot ∧
        s.board.usedByFilp = some 0 ∧ s.board.openFilesList 0 = some ⟨false, 0⟩ ∧
        ∃ s', powerStep nncParams s (.run (.file 0 (.releaseSection answered))) = some s' := by
    refine ⟨_, .head ⟨.run (.file 0 .getBoardIndex), trivial, trivial, rfl⟩ <|
      .head ⟨.run (.file 0 .down), trivial, trivial, rfl⟩ <|
      .head ⟨.run (.file 0 (.openSection granted)), trivial, trivial, rfl⟩ <|
      .head ⟨.run (.call 0 (.ioctl 0 .markAsInUse true)), rfl, trivial, rfl⟩ <|
      .head ⟨.run (.call 0 .down), trivial, trivial, rfl⟩ <|
      .head ⟨.run (.call 0 (.section (.done 0))), trivial, trivial, rfl⟩ <|
      .head ⟨.run (.call 0 .log), trivial, trivial, rfl⟩ <|
      .head ⟨.sleep answered ⟨true, true, true, true⟩, ⟨fun f => ?_, fun t => ?_⟩, fun _ => rfl,
        rfl⟩ <|
      .head ⟨.run (.file 0 .release), fun t => ?_, trivial, rfl⟩ <|
      .single ⟨.run (.file 0 .down), trivial, trivial, rfl⟩, rfl, rfl, rfl, _, rfl⟩
    · by_cases hf : f = 0
      · subst hf
        exact Or.inr rfl
      · exact Or.inl (by simp [hf, probedSystem])
    · by_cases ht : t = 0
      · subst ht
        rfl
      · simp [ht, probedSystem]
    · intro hcalls
      by_cases ht : t = 0
      · subst ht
        cases hcalls
      · simp [ht, probedSystem, CallPhase.filp] at hcalls
  obtain ⟨hclean, hiff⟩ := registers_answer_iff hrun hstep
  refine ⟨s, s', hpower, hstep, hclean, fun h => ?_⟩
  have hawake := hiff.mp h ⟨false, 0⟩ hcontext hused
  rw [hpower] at hawake
  cases hawake

end Runs

end HailortDrivers.SleepingDevice
