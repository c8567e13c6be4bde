import HailortDrivers.ChannelControl

/-!
Whether a stop waits for the transfers of the channel. The test takes the counters modulo
the depth that it reads back from the registers, where the largest depth is written as 0 and
reads as a single descriptor.
-/
namespace HailortDrivers.IdleTest
open KernelExec ChannelControl RegisterBits

section Depth
variable {w : UInt32} {descCount : UInt32} {dataId : UInt8} {depth : Nat}

theorem maxDescCount_congr {w w' : UInt32}
    (h : readBitsAtOffset 4 11 w.toNat = readBitsAtOffset 4 11 w'.toNat) :
    maxDescCount w = maxDescCount w' :=
  congrArg (fun depth => 1 <<< (UInt8.ofNat depth).toNat) h

/-- The control byte and the depth are apart. -/
theorem maxDescCount_writeControl (control : UInt32) :
    maxDescCount (writeBitsAtOffset 8 0 w control) = maxDescCount w :=
  maxDescCount_congr (readBits_writeBits_of_disjoint (n := 8) (o := 0) (by decide) (by decide)
    (Or.inr (by decide)))

theorem maxDescCount_setNumAvail (numAvail : UInt32) :
    maxDescCount (writeBitsAtOffset 16 16 w numAvail) = maxDescCount w :=
  maxDescCount_congr (readBits_writeBits_of_disjoint (n := 16) (o := 16) (by decide) (by decide)
    (Or.inl (by decide)))

theorem descDepth_eq (hcount : descCount.toNat = 2 ^ depth) : descDepth descCount = depth := by
  rw [descDepth, hcount, Nat.clog_pow 2 depth (by decide)]

/-- Every encoded depth and every data id of three bits: the depth reads back. -/
theorem maxDescCount_fields : ∀ depth < 16, ∀ dataId < 8,
    maxDescCount (((UInt8.ofNat depth).toUInt32 <<< 11) ||| ((UInt8.ofNat dataId).toUInt32 <<< 8)) =
      1 <<< depth := by
  decide

/-- The count comes back from the registers, except that 65536 comes back as 1. -/
theorem maxDescCount_startedWord (hcount : descCount.toNat = 2 ^ depth) (hdepth : depth ≤ 16)
    (hdata : dataId.toNat < 8) :
    maxDescCount (startedWord descCount dataId) = if depth = 16 then 1 else descCount.toNat := by
  have hfields (encoded : Nat) (hencoded : encoded < 16)
      (h : encodedDepth depth = UInt8.ofNat encoded) :
      maxDescCount (descDepthDataId descCount dataId) = 1 <<< encoded := by
    have hread := maxDescCount_fields encoded hencoded dataId.toNat hdata
    rw [UInt8.ofNat_toNat] at hread
    rw [descDepthDataId, descDepth_eq hcount, h]
    exact hread
  rw [startedWord, maxDescCount_writeControl]
  by_cases hmax : depth = 16
  · subst hmax
    rw [hfields 0 (by decide) rfl]
    rfl
  · rw [hfields depth (by omega) (if_neg hmax), if_neg hmax, hcount, Nat.one_shiftLeft]

end Depth

section Calls
variable {call : ChannelCall} {calls : List ChannelCall}

/-- A call that does not start the channel keeps the depth. -/
theorem maxDescCount_run (h : ¬ call.Starts) (regs : RegisterWindow) :
    maxDescCount ((call.run regs).words 0) = maxDescCount (regs.words 0) := by
  cases call with
  | start descDmaAddress descCount dataId =>
    rw [ChannelCall.run, start_refused h]
    rfl
  | stop =>
    cases haborted : isAborted (regs.words 0) with
    | true => rw [ChannelCall.run, stop_of_isAborted haborted]
    | false =>
      rw [ChannelCall.run, (stop_effect haborted).1, Function.update_self, abortedWord, pausedWord,
        maxDescCount_writeControl, maxDescCount_writeControl]
  | setNumAvail numAvail => exact maxDescCount_setNumAvail numAvail.toUInt32

theorem maxDescCount_runCalls (h : ∀ call ∈ calls, ¬ call.Starts) (regs : RegisterWindow) :
    maxDescCount ((runCalls calls regs).words 0) = maxDescCount (regs.words 0) := by
  induction calls generalizing regs with
  | nil => rfl
  | cons call calls ih =>
    rw [List.forall_mem_cons] at h
    rw [runCalls, List.foldl_cons, ← runCalls, ih h.2, maxDescCount_run h.1]

end Calls

section Stop
variable {regs : RegisterWindow}

/-- A stop reads the counters until they meet or it runs out of checks, and then says so. -/
theorem stop_waits (h : isAborted (regs.words 0) = false) :
    ∃ k, (hailoVdmaStopChannel regs).polls = regs.polls + k ∧
      (∀ i, i + 1 < k →
        countersMeet (maxDescCount (regs.words 0)) (regs.shown (regs.polls + i)) = false) ∧
      ((hailoVdmaStopChannel regs).printed = regs.printed ∧ 0 < k ∧
          countersMeet (maxDescCount (regs.words 0)) (regs.shown (regs.polls + (k - 1))) = true ∨
        (hailoVdmaStopChannel regs).printed = regs.printed ++ [idleTimeoutMessage] ∧
          countersMeet (maxDescCount (regs.words 0)) (regs.shown regs.polls) = false) := by
  have hdepth : maxDescCount ((hailoVdmaChannelPause regs).words 0) =
      maxDescCount (regs.words 0) := maxDescCount_writeControl _
  obtain ⟨k, -, hregs, hbefore, hresult⟩ :=
    checkUntilIdle_spec (maxDescCount ((hailoVdmaChannelPause regs).words 0))
      vdmaChannelMaxChecksChannelIsIdle (hailoVdmaChannelPause regs)
  rw [hdepth] at hregs hbefore hresult
  have hwait : hailoVdmaWaitUntilChannelIdle (hailoVdmaChannelPause regs) =
      checkUntilIdle (maxDescCount (regs.words 0)) vdmaChannelMaxChecksChannelIsIdle
        (hailoVdmaChannelPause regs) := by
    rw [← hdepth]
    rfl
  rw [stop_of_not_isAborted h, hwait]
  simp only [hregs]
  rcases hresult with ⟨hzero, hpos, hlast⟩ | ⟨htimeout, rfl, hnone⟩
  · rw [hzero]
    exact ⟨k, rfl, hbefore, Or.inl ⟨rfl, hpos, hlast⟩⟩
  · rw [htimeout]
    exact ⟨_, rfl, hbefore, Or.inr ⟨rfl, hnone 0 (by decide)⟩⟩

end Stop

/-- The word that shows two counters. -/
def counterWord (processed ongoing : UInt16) : UInt32 :=
  (ongoing.toUInt32 <<< vdmaChannelNumProcessedWidth) ||| processed.toUInt32

theorem counterWord_toNat (processed ongoing : UInt16) :
    (counterWord processed ongoing).toNat = ongoing.toNat * 2 ^ 16 + processed.toNat := by
  have hwidth : vdmaChannelNumProcessedWidth.toNat % 32 = 16 := rfl
  have hongoing := ongoing.toNat_lt
  rw [counterWord, UInt32.toNat_or, UInt32.toNat_shiftLeft, UInt16.toNat_toUInt32,
    UInt16.toNat_toUInt32, hwidth, Nat.shiftLeft_eq, Nat.mod_eq_of_lt (by omega), Nat.mul_comm,
    ← Nat.two_pow_add_eq_or_of_lt processed.toNat_lt]

theorem numProcessed_counterWord (processed ongoing : UInt16) :
    numProcessed (counterWord processed ongoing) = processed := by
  have hmask : vdmaChannelNumProcessedMask.toNat = 2 ^ 16 - 1 := rfl
  have hprocessed := processed.toNat_lt
  rw [← UInt16.toNat_inj, numProcessed, UInt32.toNat_toUInt16, UInt32.toNat_and, counterWord_toNat,
    hmask, Nat.and_two_pow_sub_one_eq_mod]
  omega

theorem numOngoing_counterWord (processed ongoing : UInt16) :
    numOngoing (counterWord processed ongoing) = ongoing := by
  have hmask : vdmaChannelNumOngoingMask.toNat = 2 ^ 16 - 1 := rfl
  have hwidth : vdmaChannelNumProcessedWidth.toNat % 32 = 16 := rfl
  have hprocessed := processed.toNat_lt
  have hongoing := ongoing.toNat_lt
  rw [← UInt16.toNat_inj, numOngoing, UInt32.toNat_toUInt16, UInt32.toNat_and,
    UInt32.toNat_shiftRight, counterWord_toNat, hmask, hwidth, Nat.and_two_pow_sub_one_eq_mod,
    Nat.shiftRight_eq_div_pow]
  omega

theorem countersMeet_counterWord {m : Nat} (processed ongoing : UInt16) :
    countersMeet m (counterWord processed ongoing) = true ↔
      processed.toNat % m = ongoing.toNat % m := by
  rw [countersMeet, numProcessed_counterWord, numOngoing_counterWord, beq_iff_eq]

/-- The channel was started with this count, and not since. The data id is one of three
bits, as every caller passes. -/
def StartedWith (descCount : UInt32) (regs : RegisterWindow) : Prop :=
  ∃ (before : RegisterWindow) (descDmaAddress : UInt64) (dataId : UInt8)
    (later : List ChannelCall), Startable descDmaAddress descCount ∧ dataId.toNat < 8 ∧
      (∀ call ∈ later, ¬ call.Starts) ∧
      regs = runCalls (.start descDmaAddress descCount dataId :: later) before

/-- Unless it says that it ran out of checks, a stop last read counters that meet. -/
def WaitsForTransfers (descCount : UInt32) (regs : RegisterWindow) : Prop :=
  (hailoVdmaStopChannel regs).printed = regs.printed →
    countersMeet descCount.toNat (regs.shown ((hailoVdmaStopChannel regs).polls - 1)) = true

instance (descCount : UInt32) (regs : RegisterWindow) :
    Decidable (WaitsForTransfers descCount regs) :=
  inferInstanceAs (Decidable (_ → _))

section Started
variable {descCount : UInt32} {regs : RegisterWindow} {depth : Nat} {processed ongoing : UInt16}

theorem StartedWith.not_isAborted (h : StartedWith descCount regs) :
    isAborted (regs.words 0) = false := by
  obtain ⟨before, descDmaAddress, dataId, later, hstart, -, -, rfl⟩ := h
  rw [Bool.eq_false_iff, ne_eq, isAborted_runCalls]
  rintro ⟨-, hnone⟩
  exact hnone _ List.mem_cons_self hstart

theorem StartedWith.depth_le (h : StartedWith descCount regs)
    (hcount : descCount.toNat = 2 ^ depth) : depth ≤ 16 := by
  obtain ⟨before, descDmaAddress, dataId, later, hstart, -⟩ := h
  have hdepth := hstart.2
  rwa [descDepth_eq hcount] at hdepth

theorem StartedWith.maxDescCount_eq (h : StartedWith descCount regs)
    (hcount : descCount.toNat = 2 ^ depth) :
    maxDescCount (regs.words 0) = if depth = 16 then 1 else descCount.toNat := by
  have hdepth := h.depth_le hcount
  obtain ⟨before, descDmaAddress, dataId, later, hstart, hdata, hlater, rfl⟩ := h
  rw [runCalls, List.foldl_cons, ← runCalls, maxDescCount_runCalls hlater, ChannelCall.run,
    start_word hstart, maxDescCount_startedWord hcount hdepth hdata]

theorem waitsForTransfers_of_exact (h : isAborted (regs.words 0) = false)
    (hexact : maxDescCount (regs.words 0) = descCount.toNat) :
    WaitsForTransfers descCount regs := by
  intro hquiet
  obtain ⟨k, hpolls, -, ⟨-, hpos, hlast⟩ | ⟨htimeout, -⟩⟩ := stop_waits h
  · rwa [hpolls, Nat.add_sub_assoc hpos, ← hexact]
  · rw [htimeout] at hquiet
    exact absurd hquiet (by simp)

/-- Counters taken modulo 1 meet at the first look. -/
theorem waitsForTransfers_iff_of_one (h : isAborted (regs.words 0) = false)
    (hone : maxDescCount (regs.words 0) = 1) :
    WaitsForTransfers descCount regs ↔
      countersMeet descCount.toNat (regs.shown regs.polls) = true := by
  have hmeet (v : UInt32) : countersMeet 1 v = true := by
    rw [countersMeet, Nat.mod_one, Nat.mod_one, beq_self_eq_true]
  obtain ⟨k, hpolls, hbefore, hresult⟩ := stop_waits h
  rw [hone] at hbefore hresult
  rcases hresult with ⟨hquiet, hpos, -⟩ | ⟨-, hnone⟩
  · have hfirst : k = 1 := by
      by_contra hmore
      have hno := hbefore 0 (by omega)
      rw [hmeet] at hno
      cases hno
    rw [WaitsForTransfers, hpolls, hfirst, Nat.add_sub_cancel, forall_prop_of_true hquiet]
  · rw [hmeet] at hnone
    cases hnone

/-- The idle test compares the counters modulo the count of the channel, and a stop waits for
its transfers, exactly unless the count is 65536 and the counters differ. -/
theorem idleTest_iff (hstarted : StartedWith descCount regs) (hcount : descCount.toNat = 2 ^ depth)
    (hshown : regs.shown regs.polls = counterWord processed ongoing) :
    (((hailoVdmaChannelIsIdle (maxDescCount (regs.words 0)) regs).1 = true ↔
        processed.toNat % descCount.toNat = ongoing.toNat % descCount.toNat) ∧
      WaitsForTransfers descCount regs) ↔
      descCount.toNat ≠ 65536 ∨ processed = ongoing := by
  have hidle : (hailoVdmaChannelIsIdle (maxDescCount (regs.words 0)) regs).1 =
      countersMeet (maxDescCount (regs.words 0)) (counterWord processed ongoing) :=
    congrArg (countersMeet _) hshown
  have hmax := hstarted.maxDescCount_eq hcount
  rw [hidle, countersMeet_counterWord]
  by_cases hdepth : depth = 16
  · subst hdepth
    have hfull : descCount.toNat = 65536 := hcount
    rw [if_pos rfl] at hmax
    rw [waitsForTransfers_iff_of_one hstarted.not_isAborted hmax, hshown,
      countersMeet_counterWord, hmax, hfull, Nat.mod_one, Nat.mod_one,
      Nat.mod_eq_of_lt processed.toNat_lt, Nat.mod_eq_of_lt ongoing.toNat_lt, UInt16.toNat_inj]
    simp
  · rw [if_neg hdepth] at hmax
    have hbelow : descCount.toNat ≠ 65536 := by
      rw [hcount]
      exact fun hfull => hdepth (Nat.pow_right_injective (Nat.le_refl 2) hfull)
    rw [hmax]
    simp [hbelow, waitsForTransfers_of_exact hstarted.not_isAborted hmax]

end Started

/-- Registers of zeros, with counters that stay as given. -/
def countingWindow (processed ongoing : UInt16) : RegisterWindow :=
  ⟨fun _ => 0, fun _ => counterWord processed ongoing, 0, [], []⟩

theorem startedWith_countingWindow {descCount : UInt32} (depth : Nat)
    (hcount : descCount.toNat = 2 ^ depth) (hdepth : depth ≤ 16) (processed ongoing : UInt16) :
    StartedWith descCount
      (runCalls [.start 0x10000 descCount 0] (countingWindow processed ongoing)) := by
  refine ⟨_, 0x10000, 0, [], ⟨by decide, ?_⟩, by decide, by simp, rfl⟩
  rw [descDepth_eq hcount]
  exact hdepth

/-- Of two descriptors, number 5 is number 3. -/
theorem idleTest_iff_two :
    (hailoVdmaChannelIsIdle 2 (runCalls [.start 0x10000 2 0] (countingWindow 3 5))).1 = true ∧
      WaitsForTransfers 2 (runCalls [.start 0x10000 2 0] (countingWindow 3 5)) := by
  have hcount : (2 : UInt32).toNat = 2 ^ 1 := rfl
  have hstarted := startedWith_countingWindow 1 hcount (by decide) 3 5
  have hshown : (runCalls [.start 0x10000 2 0] (countingWindow 3 5)).shown
      (runCalls [.start 0x10000 2 0] (countingWindow 3 5)).polls = counterWord 3 5 := rfl
  obtain ⟨htest, hwaits⟩ := (idleTest_iff hstarted hcount hshown).mpr (Or.inl (by decide))
  exact ⟨htest.mpr rfl, hwaits⟩

/-- A channel of 65536 descriptors, five of them fetched and none processed, passes as idle,
and a stop aborts it without a word. -/
theorem fullDepth_passesAsIdle :
    StartedWith 65536 (runCalls [.start 0x10000 65536 0] (countingWindow 0 5)) ∧
      (hailoVdmaChannelIsIdle
          (maxDescCount ((runCalls [.start 0x10000 65536 0] (countingWindow 0 5)).words 0))
          (runCalls [.start 0x10000 65536 0] (countingWindow 0 5))).1 = true ∧
      (0 : UInt16).toNat % 65536 ≠ (5 : UInt16).toNat % 65536 ∧
      ¬ WaitsForTransfers 65536 (runCalls [.start 0x10000 65536 0] (countingWindow 0 5)) := by
  refine ⟨startedWith_countingWindow 16 rfl (by decide) 0 5, ?_, by decide, ?_⟩
  · decide
  · decide

end HailortDrivers.IdleTest
