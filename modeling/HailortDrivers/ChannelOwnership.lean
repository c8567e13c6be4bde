import HailortDrivers.PartitionedSets
import HailortDrivers.RequestEffects

/-! Which open file owns a channel. The bitmaps of the open files share out the enabled
channels of an engine as long as no file disables a channel of another; the driver only
warns about channels that nobody enabled. -/
namespace HailortDrivers.ChannelOwnership
open KernelExec VdmaTypes VdmaEngine LaunchSteps EngineSteps VdmaMemory VdmaIoctl VdmaSystem
open EventRuns
  SystemSteps RequestEffects PartitionedSets

variable {n : Nat}

/-- Bitmaps of different files have no common channel, and together they are the
enabled channels of the engine. -/
structure Exclusive (s : SystemState n) : Prop where
  disjoint : ∀ e filp filp', filp ≠ filp' →
    channelsOf s.files filp e &&& channelsOf s.files filp' e = 0
  union : ∀ e pos, hailoTestBit pos (s.kernel.engines e).enabledChannels = true ↔
    ∃ filp, hailoTestBit pos (channelsOf s.files filp e) = true

/-- Every open file disables channels that no other open file has enabled. -/
def DisablesOwn (s : SystemState n) : Request n → Prop
  | .disableChannels filp bitmaps => s.files filp ≠ none →
      ∀ filp', filp' ≠ filp → ∀ e, bitmaps e &&& channelsOf s.files filp' e = 0
  | _ => True

/-- The channels of the other files are as before. -/
def OthersKept (s s' : SystemState n) (filp : Nat) : Prop :=
  ∀ filp', filp' ≠ filp → ∀ c : Channel n,
    hailoTestBit c.2 (channelsOf s.files filp' c.1) = true →
    channelAt s'.kernel c = channelAt s.kernel c ∧
      hailoTestBit c.2 (s'.kernel.engines c.1).enabledChannels = true

/-- The channels of a bitmap. -/
def bits (word : UInt32) : Set Nat := { pos | hailoTestBit pos word = true }

@[simp] theorem mem_bits {pos : Nat} {word : UInt32} :
    pos ∈ bits word ↔ hailoTestBit pos word = true := Iff.rfl

theorem bits_zero : bits 0 = ∅ := by
  ext pos
  simp

theorem bits_or (a b : UInt32) : bits (a ||| b) = bits a ∪ bits b := by
  ext pos
  simp

theorem bits_and_not (a b : UInt32) : bits (a &&& ~~~b) = bits a \ bits b := by
  ext pos
  simp

theorem disjoint_bits {a b : UInt32} : Disjoint (bits a) (bits b) ↔ a &&& b = 0 := by
  rw [Set.disjoint_left, and_eq_zero_iff]
  simp

/-- The channels of one engine that each file has enabled. -/
def ownedBits (s : SystemState n) (e : Fin n) (filp : Nat) : Set Nat :=
  bits (channelsOf s.files filp e)

theorem exclusive_iff {s : SystemState n} :
    Exclusive s ↔
      ∀ e, Partitioned (ownedBits s e) (bits (s.kernel.engines e).enabledChannels) := by
  constructor
  · intro h e
    exact ⟨fun filp filp' hne => disjoint_bits.mpr (h.disjoint e filp filp' hne), h.union e⟩
  · intro h
    exact ⟨fun e filp filp' hne => disjoint_bits.mp ((h e).disjoint filp filp' hne),
      fun e => (h e).union⟩

theorem Exclusive.keep {s s' : SystemState n} (h : Exclusive s)
    (henabled : SameEnabled s.kernel s'.kernel)
    (hchannels : channelsOf s'.files = channelsOf s.files) : Exclusive s' := by
  refine ⟨?_, fun e => ?_⟩
  · rw [hchannels]
    exact h.disjoint
  · rw [henabled e, hchannels]
    exact h.union e

/-- The sets of the files after the bitmap of one of them changed. -/
theorem ownedBits_update (s : SystemState n) (kernel' : KernelState n) (filp : Nat) (e : Fin n)
    (entry : Option (HailoVdmaFileContext n)) :
    ownedBits ⟨kernel', Function.update s.files filp entry⟩ e =
      Function.update (ownedBits s e) filp
        (bits (entry.elim (fun _ => 0) HailoVdmaFileContext.enabledChannelsBitmap e)) := by
  funext filp'
  by_cases h : filp' = filp
  · subst h
    simp [ownedBits, channelsOf_update]
  · simp [ownedBits, channelsOf_update, h]

theorem exclusive_initialState (memory : Fin n → HailoVdmaEngine) :
    Exclusive (initialState memory) := by
  refine exclusive_iff.mpr fun e => ?_
  have hnone : ownedBits (initialState memory) e = fun _ => ∅ := by
    funext filp
    exact bits_zero
  have henabled : ((initialState memory).kernel.engines e).enabledChannels = 0 := rfl
  rw [hnone, henabled, bits_zero]
  exact partitioned_empty

section Effects
variable {s : SystemState n} {filp : Nat} {context : HailoVdmaFileContext n}

/-- Disabling keeps the channels exclusive exactly when they are the file's own. -/
theorem exclusive_disabled_iff (h : Exclusive s) {bitmaps : Fin n → UInt32}
    {kernel' : KernelState n} (hopen : s.files filp = some context)
    (hdisables : Disables bitmaps (List.finRange n) s.kernel kernel') :
    Exclusive ⟨kernel', Function.update s.files filp (some { context with
      enabledChannelsBitmap := fun e => context.enabledChannelsBitmap e &&& ~~~(bitmaps e) })⟩ ↔
      DisablesOwn s (.disableChannels filp bitmaps) := by
  have hstep : ∀ e, Partitioned
      (ownedBits ⟨kernel', Function.update s.files filp (some { context with
        enabledChannelsBitmap := fun e =>
          context.enabledChannelsBitmap e &&& ~~~(bitmaps e) })⟩ e)
      (bits (kernel'.engines e).enabledChannels) ↔
      ∀ filp', filp' ≠ filp → bitmaps e &&& channelsOf s.files filp' e = 0 := by
    intro e
    have hown : ownedBits s e filp = bits (context.enabledChannelsBitmap e) := by
      rw [ownedBits, channelsOf_open hopen]
    rw [ownedBits_update, hdisables.enabledChannels e, if_pos (List.mem_finRange e),
      Option.elim_some, bits_and_not, bits_and_not, ← hown,
      (exclusive_iff.mp h e).revoke_iff filp (bits (bitmaps e))]
    simp only [ownedBits, disjoint_bits]
  rw [exclusive_iff]
  simp only [hstep, DisablesOwn, hopen, ne_eq, reduceCtorEq, not_false_eq_true, forall_true_left]
  exact ⟨fun hall filp' hne e => hall e filp' hne, fun hall e filp' hne => hall filp' hne e⟩

theorem exclusive_enabled (h : Exclusive s) {bitmaps : Fin n → UInt32} {kernel' : KernelState n}
    (hopen : s.files filp = some context)
    (hfree : ∀ e, bitmaps e &&& (s.kernel.engines e).enabledChannels = 0)
    (henabled : ∀ e, (kernel'.engines e).enabledChannels =
      (s.kernel.engines e).enabledChannels ||| bitmaps e) :
    Exclusive ⟨kernel', Function.update s.files filp (some { context with
      enabledChannelsBitmap := fun e => context.enabledChannelsBitmap e ||| bitmaps e })⟩ := by
  refine exclusive_iff.mpr fun e => ?_
  have hown : ownedBits s e filp = bits (context.enabledChannelsBitmap e) := by
    rw [ownedBits, channelsOf_open hopen]
  rw [ownedBits_update, henabled, Option.elim_some, bits_or, bits_or, ← hown]
  exact (exclusive_iff.mp h e).grant filp (disjoint_bits.mpr (hfree e))

/-- Closing an engine's share: the bitmap is empty, or the engine was among the disabled. -/
theorem closed_enabledChannels {kernel' : KernelState n} (hopen : s.files filp = some context)
    (hdisables : Disables context.enabledChannelsBitmap
      (enabledEngines context.enabledChannelsBitmap) s.kernel kernel')
    (e : Fin n) :
    bits (kernel'.engines e).enabledChannels =
      bits (s.kernel.engines e).enabledChannels \ ownedBits s e filp := by
  rw [hdisables.enabledChannels e, ownedBits, channelsOf_open hopen]
  split
  · exact bits_and_not _ _
  · next hmem =>
    have hzero : context.enabledChannelsBitmap e = 0 := by
      simpa using hmem
    rw [hzero, bits_zero, Set.sdiff_empty]

theorem exclusive_closed (h : Exclusive s) {kernel' : KernelState n}
    (hopen : s.files filp = some context)
    (hdisables : Disables context.enabledChannelsBitmap
      (enabledEngines context.enabledChannelsBitmap) s.kernel kernel') :
    Exclusive ⟨kernel', Function.update s.files filp none⟩ := by
  refine exclusive_iff.mpr fun e => ?_
  rw [ownedBits_update, closed_enabledChannels hopen hdisables e, Option.elim_none, bits_zero]
  exact (exclusive_iff.mp h e).revokeAll filp

theorem exclusive_step {s' : SystemState n} {request : Request n} (h : Exclusive s)
    (hown : DisablesOwn s request) (heffect : Effect s request s') : Exclusive s' := by
  cases heffect with
  | kept hrefers henabled hfiles => exact h.keep henabled hfiles.channels
  | enabled hopen hfree => exact exclusive_enabled h hopen hfree fun _ => rfl
  | disabled hopen hdisables => exact (exclusive_disabled_iff h hopen hdisables).mpr hown
  | launched hopen hrefers henabled => exact h.keep henabled rfl
  | mapped hopen hfresh handle buffer hkref =>
    exact h.keep (fun _ => rfl) (channelsOf_context hopen rfl)
  | unmapped hopen hfound hput =>
    exact h.keep (fun _ => rfl) (channelsOf_context hopen rfl)
  | created hopen hfresh handle listHandle descList =>
    exact h.keep (fun _ => rfl) (channelsOf_context hopen rfl)
  | released hopen hfind =>
    exact h.keep (fun _ => rfl) (channelsOf_context hopen rfl)
  | closed hopen hdisables hput =>
    exact (exclusive_closed h hopen hdisables).keep (fun _ => rfl) rfl

/-- Closing a file of an exclusive state leaves the channels of the others alone. -/
theorem othersKept_closed (h : Exclusive s) {kernel' : KernelState n}
    (hopen : s.files filp = some context)
    (hdisables : Disables context.enabledChannelsBitmap
      (enabledEngines context.enabledChannelsBitmap) s.kernel kernel') :
    OthersKept s ⟨kernel', Function.update s.files filp none⟩ filp := by
  intro filp' hne c hc
  have hother : c.2.val ∉ ownedBits s c.1 filp :=
    Set.disjoint_left.mp ((exclusive_iff.mp h c.1).disjoint filp' filp hne) hc
  refine ⟨hdisables.untouched c fun _ => ?_, ?_⟩
  · rw [ownedBits, channelsOf_open hopen, mem_bits, Bool.not_eq_true] at hother
    exact hother
  · have hkept : c.2.val ∈ bits (kernel'.engines c.1).enabledChannels := by
      rw [closed_enabledChannels hopen hdisables c.1]
      exact ⟨(h.union c.1 c.2).mpr ⟨filp', hc⟩, hother⟩
    exact hkept

end Effects

/-- A file may disable what it has enabled. -/
theorem Exclusive.disablesOwn {s : SystemState n} (h : Exclusive s) {filp : Nat}
    {bitmaps : Fin n → UInt32}
    (hown : ∀ e, bitmaps e &&& channelsOf s.files filp e = bitmaps e) :
    DisablesOwn s (.disableChannels filp bitmaps) := by
  intro _ filp' hne e
  have hdisjoint := and_eq_zero_iff.mp (h.disjoint e filp filp' hne.symm)
  refine and_eq_zero_iff.mpr fun pos hpos => hdisjoint pos ?_
  rw [← hown e, hailoTestBit_and, Bool.and_eq_true] at hpos
  exact hpos.2

section Runs
variable {vdmaHw : HailoVdmaHw} {memory : Fin n → HailoVdmaEngine} {s s' : SystemState n}
  {request : Request n} {ret : Int32}

/-- A disable of another file's channel breaks the sharing at once. -/
theorem disablesOwn_of_exclusive (h : Exclusive s)
    (hhandle : handle vdmaHw s request = .ok (ret, s')) (h' : Exclusive s') :
    DisablesOwn s request := by
  cases request with
  | disableChannels filp bitmaps =>
    rcases withFile_ok hhandle with ⟨hclosed, -⟩ | ⟨context, kernel', context', hopen, hrun, rfl⟩
    · exact fun hopen => absurd hclosed hopen
    · obtain ⟨kernel, hengines, hrun⟩ := bind_ok hrun
      cases hrun
      exact (exclusive_disabled_iff h hopen
        (disableEngines_disables (List.nodup_finRange n) hengines)).mp h'
  | openFile => trivial
  | closeFile => trivial
  | enableChannels => trivial
  | interruptsWait => trivial
  | launchTransfer => trivial
  | bufferMap => trivial
  | bufferUnmap => trivial
  | descListCreate => trivial
  | descListRelease => trivial
  | interrupt => trivial

/-- In every run in which files disable channels of their own, the bitmaps of the open
files share out the enabled channels, and closing a file leaves the others' alone; and
the next request keeps it so exactly when it disables channels of its own. -/
theorem exclusive_of_run
    (hrun : Relation.ReflTransGen (Steps vdmaHw DisablesOwn) (initialState memory) s) :
    Exclusive s ∧
    (∀ filp ret s', handle vdmaHw s (.closeFile filp) = .ok (ret, s') → OthersKept s s' filp) ∧
    ∀ request ret s', AllocatesFresh s request → handle vdmaHw s request = .ok (ret, s') →
      (Exclusive s' ↔ DisablesOwn s request) := by
  have hexclusive : Exclusive s := by
    refine inv_of_run ?_ hrun (exclusive_initialState memory)
    rintro s s' h ⟨request, ret, hfresh, hown, hhandle⟩
    exact exclusive_step h hown (handle_effect hfresh hhandle)
  refine ⟨hexclusive, fun filp ret s' hclose => ?_, fun request ret s' hfresh hhandle => ?_⟩
  · rcases closeFile_ok hclose with ⟨-, rfl⟩ | ⟨context, kernel', _, hopen, hdisables, -, rfl⟩
    · exact fun filp' _ c hc => ⟨rfl, (hexclusive.union c.1 c.2).mpr ⟨filp', hc⟩⟩
    · have hkept := othersKept_closed hexclusive hopen hdisables
      exact hkept
  · constructor
    · exact disablesOwn_of_exclusive hexclusive hhandle
    · intro hown
      exact exclusive_step hexclusive hown (handle_effect hfresh hhandle)

end Runs

/-- Two files with channels of their own, one of which disables a channel. -/
theorem exclusive_of_run_twoFiles :
    ∃ s : SystemState 1, Exclusive s ∧ (s.kernel.engines 0).enabledChannels = 6 ∧
      channelsOf s.files 1 0 = 2 ∧ channelsOf s.files 2 0 = 4 := by
  obtain ⟨s, s', hrun, hdisable, howned, henabled, hfirst, hsecond⟩ : ∃ s s',
      Relation.ReflTransGen (Steps hailoPcieVdmaHw DisablesOwn) (initialState idleMemory) s ∧
      handle hailoPcieVdmaHw s (.disableChannels 1 fun _ => 1) = .ok (0, s') ∧
      channelsOf s.files 1 0 = 3 ∧ (s'.kernel.engines 0).enabledChannels = 6 ∧
      channelsOf s'.files 1 0 = 2 ∧ channelsOf s'.files 2 0 = 4 :=
    ⟨_, _, .head ⟨.openFile 1, _, trivial, trivial, rfl⟩ <|
      .head ⟨.openFile 2, _, trivial, trivial, rfl⟩ <|
      .head ⟨.enableChannels 1 (fun _ => 3) false, _, trivial, trivial, rfl⟩ <|
      .single ⟨.enableChannels 2 (fun _ => 4) false, _, trivial, trivial, rfl⟩,
      rfl, rfl, rfl, rfl, rfl⟩
  have hown : DisablesOwn s (.disableChannels 1 fun _ => 1) := by
    refine (exclusive_of_run hrun).1.disablesOwn fun e => ?_
    rw [Subsingleton.elim e 0, howned]
    rfl
  have hstep : Steps hailoPcieVdmaHw DisablesOwn s s' :=
    ⟨.disableChannels 1 fun _ => 1, 0, trivial, hown, hdisable⟩
  exact ⟨s', (exclusive_of_run (hrun.tail hstep)).1, henabled, hfirst, hsecond⟩

/-- File 2 disables the channel that file 1 enabled, without an error, and enables it for
itself. Both own it then, and closing file 1 disables it for file 2. -/
theorem disableOther_shares :
    ∃ s s', Relation.ReflTransGen (Steps hailoPcieVdmaHw fun _ _ => True)
        (initialState idleMemory) s ∧
      ¬ Exclusive s ∧ channelsOf s.files 1 0 = 1 ∧ channelsOf s.files 2 0 = 1 ∧
      handle hailoPcieVdmaHw s (.closeFile 1) = .ok (0, s') ∧
      channelsOf s'.files 2 0 = 1 ∧ (s'.kernel.engines 0).enabledChannels = 0 := by
  obtain ⟨s, s', hrun, hfirst, hsecond, hclose, hstill, henabled⟩ : ∃ s s',
      Relation.ReflTransGen (Steps hailoPcieVdmaHw fun _ _ => True)
        (initialState idleMemory) s ∧
      channelsOf s.files 1 0 = 1 ∧ channelsOf s.files 2 0 = 1 ∧
      handle hailoPcieVdmaHw s (.closeFile 1) = .ok (0, s') ∧
      channelsOf s'.files 2 0 = 1 ∧ (s'.kernel.engines 0).enabledChannels = 0 :=
    ⟨_, _, .head ⟨.openFile 1, _, trivial, trivial, rfl⟩ <|
      .head ⟨.openFile 2, _, trivial, trivial, rfl⟩ <|
      .head ⟨.enableChannels 1 (fun _ => 1) false, _, trivial, trivial, rfl⟩ <|
      .head ⟨.disableChannels 2 (fun _ => 1), _, trivial, trivial, rfl⟩ <|
      .single ⟨.enableChannels 2 (fun _ => 1) false, _, trivial, trivial, rfl⟩,
      rfl, rfl, rfl, rfl, rfl⟩
  refine ⟨s, s', hrun, fun h => ?_, hfirst, hsecond, hclose, hstill, henabled⟩
  have hdisjoint := h.disjoint 0 1 2 (by decide)
  rw [hfirst, hsecond] at hdisjoint
  exact absurd hdisjoint (by decide)

end HailortDrivers.ChannelOwnership
