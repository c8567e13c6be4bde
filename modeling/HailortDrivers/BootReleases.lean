import HailortDrivers.BootResources
import Mathlib.Data.List.Chain

/-!
Which runs of calls of `pcie_write_firmware_batch_over_dma` release what they took once. How many
lists and areas a call could have is all that a later one finds of it in the pointers.
-/
namespace HailortDrivers.BootReleases
open ResourceLedger BootProgramming BootResources

/-- Calls one after the other. -/
def runCalls : List BatchCall → (Nat → BootChannel) → Boot (Nat → BootChannel)
  | [], channels => return channels
  | call :: calls, channels => do
    let returned ← pcieWriteFirmwareBatchOverDma call channels
    runCalls calls returned.2

/-- The channels behind the `memset` of the probe. -/
def probedChannels : Nat → BootChannel := fun _ => ⟨false, false, false, false⟩

/-- After each call all that was acquired has been released, and nothing twice. -/
def ReleasedOnce (channels : Nat → BootChannel) (calls : List BatchCall) : Prop :=
  ∀ earlier, earlier <+: calls → (runCalls earlier channels).Takes 0 0

/-- The pointers of channel `c` when the first `reached` lists and areas of all were had last. -/
structure PointsTo (reached c : Nat) (channel : BootChannel) : Prop where
  hostDescriptors : channel.hostDescriptors = decide (3 * c < reached)
  deviceDescriptors : channel.deviceDescriptors = decide (3 * c + 1 < reached)
  kernelAddrs : channel.kernelAddrs = decide (3 * c + 2 < reached)

section Pointers
variable {call : BatchCall} {channels : Nat → BootChannel} {c n left : Nat}

theorem reached_le (ops : ChannelOps) : ops.reached ≤ 3 := by
  rw [ChannelOps.reached]
  split_ifs <;> omega

theorem mappedFrom_iff (c n : Nat) : call.MappedFrom (List.range' c n) ↔
    ∀ c', c ≤ c' → c' < c + n → 3 * c' + 3 ≤ 3 * c + call.reachedFrom (List.range' c n) →
      (call.ops c').Maps (bufferSize call.descPageSize) := by
  induction n generalizing c with
  | zero => exact iff_of_true trivial fun c' hle hlt => by omega
  | succ n ih =>
    have hle := reached_le (call.ops c)
    rw [List.range'_succ, BatchCall.MappedFrom, BatchCall.reachedFrom, ih]
    by_cases hreached : (call.ops c).reached = 3
    · rw [if_pos hreached]
      constructor
      · intro h c' hc hc' hfits
        obtain ⟨hmaps, hrest⟩ := h hreached
        by_cases heq : c' = c
        · rw [heq]
          exact hmaps
        · exact hrest c' (by omega) (by omega) (by omega)
      · exact fun h _ => ⟨h c le_rfl (by omega) (by omega), fun c' hc hc' hfits =>
          h c' (by omega) (by omega) (by omega)⟩
    · rw [if_neg hreached]
      exact iff_of_true (fun h => absurd h hreached) fun c' hc hc' hfits => by omega

theorem owed_eq_nil_iff (c : Nat) (channel : BootChannel) : owed c channel = [] ↔
    channel.hostDescriptors = false ∧ channel.deviceDescriptors = false ∧
      channel.kernelAddrs = false := by
  obtain ⟨_ | _, _ | _, _ | _, _ | _⟩ := channel <;> simp [owed]

theorem owedAll_eq_nil_iff
    (h : ∀ c', c ≤ c' → c' < c + n → PointsTo left c' (channels c')) (hleft : left ≤ 3 * (c + n)) :
    owedAll (List.range' c n) channels = [] ↔ left ≤ 3 * c := by
  rw [owedAll, List.flatMap_eq_nil_iff]
  constructor
  · intro hall
    by_cases hn : n = 0
    · omega
    · have hhost := ((owed_eq_nil_iff _ _).mp
        (hall c (List.mem_range'_1.mpr ⟨le_rfl, by omega⟩))).1
      rw [(h c le_rfl (by omega)).hostDescriptors, decide_eq_false_iff_not] at hhost
      omega
  · intro hle c' hc'
    obtain ⟨hc, hc'⟩ := List.mem_range'_1.mp hc'
    have hpoints := h c' hc hc'
    rw [owed_eq_nil_iff, hpoints.hostDescriptors, hpoints.deviceDescriptors, hpoints.kernelAddrs]
    simp only [decide_eq_false_iff_not]
    omega

theorem stale_eq_nil_iff {ops : ChannelOps} {channel : BootChannel} (hreached : ops.reached ≠ 3)
    (h : PointsTo left c channel) :
    stale c ops channel = [] ∧ left ≤ 3 * (c + 1) ↔ left ≤ 3 * c + ops.reached + 1 := by
  cases hhost : ops.hostDescriptors with
  | false =>
    have hzero : ops.reached = 0 := by simp [ChannelOps.reached, hhost]
    simp only [stale, hhost, Bool.false_eq_true, if_false, owed_eq_nil_iff, h.deviceDescriptors,
      h.kernelAddrs, decide_eq_false_iff_not, true_and]
    omega
  | true =>
    cases hdevice : ops.deviceDescriptors with
    | false =>
      have hone : ops.reached = 1 := by simp [ChannelOps.reached, hhost, hdevice]
      simp only [stale, hhost, hdevice, Bool.false_eq_true, if_false, if_true, owed_eq_nil_iff,
        h.kernelAddrs, decide_eq_false_iff_not, true_and]
      omega
    | true =>
      have hle := reached_le ops
      have htwo : ops.reached ≠ 0 ∧ ops.reached ≠ 1 := by
        rw [ChannelOps.reached, hhost, hdevice]
        split_ifs <;> simp_all
      simp only [stale, hhost, hdevice, if_true, true_and]
      omega

/-- Over the channels from `c` on: no pointer is stale if the call came as far as the last one
less one. -/
theorem staleAll_eq_nil_iff
    (h : ∀ c', c ≤ c' → c' < c + n → PointsTo left c' (channels c')) (hleft : left ≤ 3 * (c + n)) :
    staleAll call (List.range' c n) channels = [] ↔
      left ≤ 3 * c + call.reachedFrom (List.range' c n) + 1 := by
  induction n generalizing c with
  | zero => exact iff_of_true rfl (by omega)
  | succ n ih =>
    rw [List.range'_succ, staleAll, BatchCall.reachedFrom]
    by_cases hreached : (call.ops c).reached = 3
    · rw [if_pos hreached, if_pos hreached,
        ih (fun c' hc hc' => h c' (by omega) (by omega)) (by omega)]
      omega
    · rw [if_neg hreached, if_neg hreached, List.append_eq_nil_iff,
        owedAll_eq_nil_iff (fun c' hc hc' => h c' (by omega) (by omega)) (by omega),
        stale_eq_nil_iff hreached (h c le_rfl (by omega))]

theorem pointsTo_allocated {ops : ChannelOps} {channel : BootChannel} (hreached : ops.reached ≠ 3)
    (h : PointsTo left c channel) (hleft : left ≤ 3 * c + ops.reached + 1) :
    PointsTo (3 * c + ops.reached) c (ops.allocated channel) := by
  obtain ⟨_, hdeviceOld, hkernelOld⟩ := h
  rw [ne_eq, reached_eq_three_iff] at hreached
  cases hhost : ops.hostDescriptors with
  | false =>
    have hzero : ops.reached = 0 := by simp [ChannelOps.reached, hhost]
    rw [hzero] at hleft ⊢
    constructor
    · simp [ChannelOps.allocated, hhost]
    · simp only [ChannelOps.allocated, hhost, Bool.false_eq_true, if_false, hdeviceOld]
      exact decide_eq_decide.mpr (by omega)
    · simp only [ChannelOps.allocated, hhost, Bool.false_eq_true, if_false, hkernelOld]
      exact decide_eq_decide.mpr (by omega)
  | true =>
    cases hdevice : ops.deviceDescriptors with
    | false =>
      have hone : ops.reached = 1 := by simp [ChannelOps.reached, hhost, hdevice]
      rw [hone] at hleft ⊢
      constructor
      · simp [ChannelOps.allocated, hhost, hdevice]
      · simp [ChannelOps.allocated, hhost, hdevice]
      · simp only [ChannelOps.allocated, hhost, hdevice, Bool.false_eq_true, if_false, if_true,
          hkernelOld]
        exact decide_eq_decide.mpr (by omega)
    | true =>
      have hvmalloc : ops.vmalloc = false := by simpa [hhost, hdevice] using hreached
      have htwo : ops.reached = 2 := by simp [ChannelOps.reached, hhost, hdevice, hvmalloc]
      rw [htwo]
      constructor
      · simp [ChannelOps.allocated, hhost, hdevice, hvmalloc]
      · simp [ChannelOps.allocated, hhost, hdevice, hvmalloc]
      · simp [ChannelOps.allocated, hhost, hdevice, hvmalloc]

/-- After such a call the pointers are those that it came to. -/
theorem pointsTo_allocatedAll
    (h : ∀ c', c ≤ c' → c' < c + n → PointsTo left c' (channels c'))
    (hleft : left ≤ 3 * c + call.reachedFrom (List.range' c n) + 1) {c' : Nat} (hc : c ≤ c')
    (hc' : c' < c + n) :
    PointsTo (3 * c + call.reachedFrom (List.range' c n)) c'
      (allocatedAll call (List.range' c n) channels c') := by
  induction n generalizing c channels with
  | zero => omega
  | succ n ih =>
    have hpoints := h c le_rfl (by omega)
    rw [List.range'_succ, BatchCall.reachedFrom] at hleft ⊢
    rw [allocatedAll]
    by_cases hreached : (call.ops c).reached = 3
    · rw [if_pos hreached] at hleft ⊢
      simp only [if_pos hreached]
      by_cases heq : c' = c
      · subst heq
        obtain ⟨hhost, hdevice, hvmalloc⟩ := reached_eq_three_iff.mp hreached
        have hc : c' ∉ List.range' (c' + 1) n := by simp
        rw [allocatedAll_of_not_mem hc, Function.update_self, ChannelOps.allocated, hhost,
          hdevice, hvmalloc]
        constructor
        · exact (decide_eq_true (by omega)).symm
        · exact (decide_eq_true (by omega)).symm
        · exact (decide_eq_true (by omega)).symm
      · have hrest := @ih (Function.update channels c ((call.ops c).allocated (channels c)))
          (c + 1) (fun c'' hc hc'' => ?_) (by omega) (by omega) (by omega)
        · rw [show 3 * (c + 1) = 3 * c + 3 by omega, Nat.add_assoc] at hrest
          exact hrest
        · rw [Function.update_of_ne (by omega)]
          exact h c'' (by omega) (by omega)
    · rw [if_neg hreached] at hleft ⊢
      simp only [if_neg hreached]
      by_cases heq : c' = c
      · subst heq
        rw [Function.update_self]
        exact pointsTo_allocated hreached hpoints hleft
      · have hle := reached_le (call.ops c)
        obtain ⟨hhost, hdevice, hkernelAddrs⟩ := h c' hc hc'
        rw [Function.update_of_ne heq]
        constructor
        · rw [hhost]
          exact decide_eq_decide.mpr (by omega)
        · rw [hdevice]
          exact decide_eq_decide.mpr (by omega)
        · rw [hkernelAddrs]
          exact decide_eq_decide.mpr (by omega)

end Pointers

section Runs
variable {call : BatchCall} {channels : Nat → BootChannel} {left : Nat}

theorem pointsTo_releaseChannel {c : Nat} {channel : BootChannel} (h : PointsTo left c channel) :
    PointsTo left c (releaseChannel c channel).value := by
  obtain ⟨hhost, hdevice, hkernelAddrs⟩ := h
  obtain ⟨_ | _, _ | _, _ | _, _ | _⟩ := channel <;> exact ⟨hhost, hdevice, hkernelAddrs⟩

/-- The pointers stay what they were. -/
theorem pointsTo_releaseChannels (cs : List Nat) {c : Nat} (h : PointsTo left c (channels c)) :
    PointsTo left c ((releaseChannels cs channels).value c) := by
  induction cs generalizing channels with
  | nil => exact h
  | cons c' cs ih =>
    refine ih ?_
    by_cases heq : c = c'
    · subst heq
      rw [Function.update_self]
      exact pointsTo_releaseChannel h
    · rw [Function.update_of_ne heq]
      exact h

/-- One call on a board where a call before had the first `left` lists and areas. -/
theorem call_takes_iff_reached
    (h : ∀ c < hailoPciOverVdmaNumChannels, PointsTo left c (channels c))
    (hleft : left ≤ 3 * hailoPciOverVdmaNumChannels) :
    (pcieWriteFirmwareBatchOverDma call channels).Takes 0 0 ↔
      call.Mapped ∧ left ≤ call.reached + 1 := by
  have hmapped := @mappedFrom_iff call 0 hailoPciOverVdmaNumChannels
  have hstale := @staleAll_eq_nil_iff call channels 0 hailoPciOverVdmaNumChannels left
    (fun c _ hc => h c (by omega)) (by omega)
  rw [← List.range_eq_range'] at hmapped hstale
  rw [call_takes_iff, hmapped, hstale, BatchCall.Mapped, BatchCall.reached]
  simp

theorem pointsTo_call (h : ∀ c < hailoPciOverVdmaNumChannels, PointsTo left c (channels c))
    (hmaps : call.Mapped) (hleft : left ≤ call.reached + 1) {c : Nat}
    (hc : c < hailoPciOverVdmaNumChannels) :
    PointsTo call.reached c ((pcieWriteFirmwareBatchOverDma call channels).value.2 c) := by
  have hmapped := @mappedFrom_iff call 0 hailoPciOverVdmaNumChannels
  have hpoints := @pointsTo_allocatedAll call channels 0 hailoPciOverVdmaNumChannels left
    (fun c _ hc => h c (by omega))
  rw [← List.range_eq_range'] at hmapped hpoints
  rw [Nat.mul_zero, Nat.zero_add] at hpoints
  have hfrom := hmapped.mpr fun c _ hc hreached => hmaps c (by omega) (by
    rw [BatchCall.reached]
    omega)
  obtain ⟨err, hrun⟩ := allocateChannels_runs hfrom channels 0
  rw [(call_ends call channels).2, hrun.value]
  exact pointsTo_releaseChannels _ (hpoints hleft (Nat.zero_le c) (by omega))

theorem reachedFrom_le (cs : List Nat) : call.reachedFrom cs ≤ 3 * cs.length := by
  induction cs with
  | nil => exact Nat.zero_le _
  | cons c cs ih =>
    have hle := reached_le (call.ops c)
    rw [BatchCall.reachedFrom, List.length_cons]
    split
    · omega
    · omega

theorem runCalls_cons_moves (calls : List BatchCall) :
    (runCalls (call :: calls) channels).moves =
      (pcieWriteFirmwareBatchOverDma call channels).moves ++
        (runCalls calls (pcieWriteFirmwareBatchOverDma call channels).value.2).moves := by
  rw [runCalls, moves_bind]

theorem releasedOnce_cons (calls : List BatchCall) : ReleasedOnce channels (call :: calls) ↔
    (pcieWriteFirmwareBatchOverDma call channels).Takes 0 0 ∧
      ReleasedOnce (pcieWriteFirmwareBatchOverDma call channels).value.2 calls := by
  constructor
  · intro hall
    have htakes : (pcieWriteFirmwareBatchOverDma call channels).Takes 0 0 := by
      have hone := hall [call] ((List.prefix_cons_inj call).mpr (List.nil_prefix))
      rw [Ledgered.Takes, runCalls_cons_moves, runCalls, moves_pure, List.append_nil] at hone
      exact hone
    refine ⟨htakes, fun earlier hearlier => ?_⟩
    have hrest := hall (call :: earlier) ((List.prefix_cons_inj call).mpr hearlier)
    rw [Ledgered.Takes, runCalls_cons_moves, heldAfter_append htakes] at hrest
    exact hrest
  · rintro ⟨htakes, hrest⟩ earlier hearlier
    rcases List.prefix_cons_iff.mp hearlier with rfl | ⟨later, rfl, hlater⟩
    · rfl
    · rw [Ledgered.Takes, runCalls_cons_moves, heldAfter_append htakes]
      exact hrest later hlater

theorem releasedOnce_iff_of_pointsTo
    (h : ∀ c < hailoPciOverVdmaNumChannels, PointsTo left c (channels c))
    (hleft : left ≤ 3 * hailoPciOverVdmaNumChannels) (calls : List BatchCall) :
    ReleasedOnce channels calls ↔
      (left :: calls.map BatchCall.reached).IsChain (fun earlier later => earlier ≤ later + 1) ∧
        ∀ call ∈ calls, call.Mapped := by
  induction calls generalizing left channels with
  | nil =>
    refine iff_of_true (fun earlier hearlier => ?_) ⟨.singleton left, by simp⟩
    rw [List.prefix_nil.mp hearlier]
    rfl
  | cons call calls ih =>
    rw [releasedOnce_cons, call_takes_iff_reached h hleft, List.map_cons, List.isChain_cons_cons,
      List.forall_mem_cons]
    constructor
    · rintro ⟨⟨hmaps, hreached⟩, hrest⟩
      obtain ⟨hchain, hall⟩ := (ih (fun c hc => pointsTo_call h hmaps hreached hc)
        (reachedFrom_le _)).mp hrest
      exact ⟨⟨hreached, hchain⟩, hmaps, hall⟩
    · rintro ⟨⟨hreached, hchain⟩, hmaps, hall⟩
      exact ⟨⟨hmaps, hreached⟩, (ih (fun c hc => pointsTo_call h hmaps hreached hc)
        (reachedFrom_le _)).mpr ⟨hchain, hall⟩⟩

theorem pointsTo_probedChannels (c : Nat) : PointsTo 0 c (probedChannels c) :=
  ⟨rfl, rfl, rfl⟩

end Runs

/-- The resources of a boot are released once in any run of calls exactly when each call maps each
area that it has, and has at most one list or area less than the call before. -/
theorem releasedOnce_iff (calls : List BatchCall) : ReleasedOnce probedChannels calls ↔
    (calls.map BatchCall.reached).IsChain (fun earlier later => earlier ≤ later + 1) ∧
      ∀ call ∈ calls, call.Mapped := by
  rw [releasedOnce_iff_of_pointsTo (fun c _ => pointsTo_probedChannels c) (Nat.zero_le _),
    List.isChain_cons]
  simp

/-- A kernel that has everything. -/
def workingOps : ChannelOps := ⟨true, true, true, some .kmalloc, fun _ => true, .ok (), 1⟩

def completeCall : BatchCall := ⟨512, fun _ => workingOps, 0, true⟩

def noPagesCall : BatchCall :=
  ⟨512, fun _ => { workingOps with kvmallocArray := none }, 0, true⟩

def noListsCall : BatchCall :=
  ⟨512, fun _ => { workingOps with hostDescriptors := false }, 0, true⟩

/-- Without an array for the pages, the area that was freed is freed again. After a boot, without
memory for the first list, all pointers but that one are released a second time. -/
theorem noPages_releasedTwice :
    ¬ ReleasedOnce probedChannels [noPagesCall] ∧
      ¬ ReleasedOnce probedChannels [completeCall, noListsCall] ∧
      ¬ ∀ calls, ReleasedOnce probedChannels calls := by
  have hnoPages : ¬ ReleasedOnce probedChannels [noPagesCall] := by
    intro h
    have hmaps := ((releasedOnce_iff_of_pointsTo (fun c _ => pointsTo_probedChannels c)
      (Nat.zero_le _) _).mp h).2 noPagesCall List.mem_cons_self 0 (by decide) (by decide)
    exact nomatch hmaps.pages
  have hnoLists : ¬ ReleasedOnce probedChannels [completeCall, noListsCall] := by
    intro h
    have hchain := ((releasedOnce_iff_of_pointsTo (fun c _ => pointsTo_probedChannels c)
      (Nat.zero_le _) _).mp h).1
    exact absurd hchain (by decide)
  exact ⟨hnoPages, hnoLists, fun h => hnoPages (h _)⟩

end HailortDrivers.BootReleases
