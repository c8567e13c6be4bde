import HailortDrivers.ChannelTransfers
import HailortDrivers.RegisterBits
import Mathlib.Data.Nat.Log

/-!
Starting and stopping a channel (`vdma_common.c`), by reads and writes of one side's
registers. What the driver writes stays, except that the device drives the word of the
counters: each read of it returns what the device shows by then.
-/
namespace HailortDrivers.ChannelControl
open KernelExec VdmaTypes ChannelTransfers RegisterBits

def etimedout : Int32 := 110

def vdmaChannelControlAbort : UInt32 := 0b00
def vdmaChannelControlStartResume : UInt32 := 0b01
def vdmaChannelControlAbortPause : UInt8 := 0b10
def vdmaChannelControlStartPause : UInt32 := 0b11
def vdmaChannelControlStartAbortPauseResumeBitmask : UInt8 := 0x3
def vdmaChannelDescDepthWidth : Nat := 4
def vdmaChannelDescDepthShift : Nat := 11
def vdmaChannelDataIdShift : UInt32 := 8
def vdmaChannelMaxChecksChannelIsIdle : Nat := 10000
def vdmaChannelAlignedAddressLOffset : Nat := 0x8
def vdmaChannelAddressHOffset : Nat := 0xC
def descriptorListMaxDepth : Nat := 16
def vdmaChannelNumProcessedWidth : UInt32 := 16
def vdmaChannelNumProcessedMask : UInt32 := 0xFFFF
def vdmaChannelNumOngoingMask : UInt32 := vdmaChannelNumProcessedMask

/-- Registers by byte offset. `shown k` is what the read number `k` of the counters returns,
`polls` the number of these reads so far. Writes and messages are kept in order. -/
structure RegisterWindow where
  words : Nat → UInt32
  shown : Nat → UInt32
  polls : Nat
  writes : List (Nat × UInt32)
  printed : List String

def ioread32 (offset : Nat) (regs : RegisterWindow) : UInt32 × RegisterWindow :=
  if offset = channelNumProcOffset then
    (regs.shown regs.polls, { regs with polls := regs.polls + 1 })
  else (regs.words offset, regs)

def iowrite32 (value : UInt32) (offset : Nat) (regs : RegisterWindow) : RegisterWindow :=
  { regs with
    words := Function.update regs.words offset value
    writes := regs.writes ++ [(offset, value)] }

def prErr (message : String) (regs : RegisterWindow) : RegisterWindow :=
  { regs with printed := regs.printed ++ [message] }

/-- The control byte is written over, with the rest of its word as it was read. -/
def writeControl (control : UInt32) (hostRegs : RegisterWindow) : RegisterWindow :=
  let (hostRegsValue, hostRegs) := ioread32 0 hostRegs
  iowrite32 (writeBitsAtOffset 8 0 hostRegsValue control) 0 hostRegs

def startVdmaControlRegister (hostRegs : RegisterWindow) : RegisterWindow :=
  writeControl vdmaChannelControlStartResume hostRegs

def hailoVdmaChannelPause (hostRegs : RegisterWindow) : RegisterWindow :=
  writeControl vdmaChannelControlStartPause hostRegs

def hailoVdmaChannelAbort (hostRegs : RegisterWindow) : RegisterWindow :=
  writeControl vdmaChannelControlAbort hostRegs

def hailoVdmaSetNumAvail (numAvail : UInt16) (regs : RegisterWindow) : RegisterWindow :=
  let (regsVal, regs) := ioread32 0 regs
  iowrite32 (writeBitsAtOffset 16 16 regsVal numAvail.toUInt32) 0 regs

/-- The counters in the word that holds them both. -/
def numProcessed (numProcessedOngoing : UInt32) : UInt16 :=
  (numProcessedOngoing &&& vdmaChannelNumProcessedMask).toUInt16

def numOngoing (numProcessedOngoing : UInt32) : UInt16 :=
  ((numProcessedOngoing >>> vdmaChannelNumProcessedWidth) &&& vdmaChannelNumOngoingMask).toUInt16

def countersMeet (hostSideMaxDescCount : Nat) (numProcessedOngoing : UInt32) : Bool :=
  (numProcessed numProcessedOngoing).toNat % hostSideMaxDescCount ==
    (numOngoing numProcessedOngoing).toNat % hostSideMaxDescCount

def hailoVdmaChannelIsIdle (hostSideMaxDescCount : Nat) (hostRegs : RegisterWindow) :
    Bool × RegisterWindow :=
  let (numProcessedOngoing, hostRegs) := ioread32 channelNumProcOffset hostRegs
  (countersMeet hostSideMaxDescCount numProcessedOngoing, hostRegs)

/-- The loop of `hailo_vdma_wait_until_channel_idle`. -/
def checkUntilIdle (hostSideMaxDescCount : Nat) : Nat → RegisterWindow → Int32 × RegisterWindow
  | 0, hostRegs => (-etimedout, hostRegs)
  | checks + 1, hostRegs =>
    let (isIdle, hostRegs) := hailoVdmaChannelIsIdle hostSideMaxDescCount hostRegs
    if isIdle then (0, hostRegs) else checkUntilIdle hostSideMaxDescCount checks hostRegs

/-- `host_side_max_desc_count`, from the word of the depth. -/
def maxDescCount (hostRegsValue : UInt32) : Nat :=
  let depth := UInt8.ofNat
    (readBitsAtOffset vdmaChannelDescDepthWidth vdmaChannelDescDepthShift hostRegsValue.toNat)
  1 <<< depth.toNat

def hailoVdmaWaitUntilChannelIdle (hostRegs : RegisterWindow) : Int32 × RegisterWindow :=
  let (hostRegsValue, hostRegs) := ioread32 0 hostRegs
  checkUntilIdle (maxDescCount hostRegsValue) vdmaChannelMaxChecksChannelIsIdle hostRegs

def idleTimeoutMessage : String :=
  "Timeout occured while waiting for channel to become idle\n"

def invalidStartMessage : String := "Invalid descriptor address or depth\n"

/-- The test that `hailo_vdma_stop_channel` begins with. -/
def isAborted (hostRegsValue : UInt32) : Bool :=
  let hostSideChannelRegs := UInt8.ofNat
    (readBitsAtOffset (byteSize * bitsInByte) (channelControlOffset * bitsInByte)
      hostRegsValue.toNat)
  hostSideChannelRegs &&& vdmaChannelControlStartAbortPauseResumeBitmask ==
    vdmaChannelControlAbortPause

def hailoVdmaStopChannel (regs : RegisterWindow) : RegisterWindow :=
  let (hostRegsValue, regs) := ioread32 0 regs
  if isAborted hostRegsValue then regs
  else
    let (err, regs) := hailoVdmaWaitUntilChannelIdle (hailoVdmaChannelPause regs)
    hailoVdmaChannelAbort (if err < 0 then prErr idleTimeoutMessage regs else regs)

/-- `order_base_2`, as a depth. -/
def descDepth (descCount : UInt32) : Nat := Nat.clog 2 descCount.toNat

/-- The arguments that `hailo_vdma_start_channel` does not refuse. -/
def Startable (descDmaAddress : UInt64) (descCount : UInt32) : Prop :=
  descDmaAddress &&& 0xFFFF = 0 ∧ descDepth descCount ≤ descriptorListMaxDepth

instance (descDmaAddress : UInt64) (descCount : UInt32) :
    Decidable (Startable descDmaAddress descCount) :=
  inferInstanceAs (Decidable (_ ∧ _))

/-- What the register holds for a depth: depth 16 is equivalent to depth 0. -/
def encodedDepth (depth : Nat) : UInt8 :=
  if depth = descriptorListMaxDepth then 0 else UInt8.ofNat depth

def descDepthDataId (descCount : UInt32) (dataId : UInt8) : UInt32 :=
  ((encodedDepth (descDepth descCount)).toUInt32 <<< UInt32.ofNat vdmaChannelDescDepthShift) |||
    (dataId.toUInt32 <<< vdmaChannelDataIdShift)

/-- The low half of the address goes to the upper half of its word. -/
def writeAddressL (descDmaAddress : UInt64) (regs : RegisterWindow) : RegisterWindow :=
  let (word, regs) := ioread32 vdmaChannelAlignedAddressLOffset regs
  iowrite32 (writeBitsAtOffset 16 16 word ((descDmaAddress >>> 16) &&& 0xFFFF).toUInt32)
    vdmaChannelAlignedAddressLOffset regs

def hailoVdmaStartChannel (descDmaAddress : UInt64) (descCount : UInt32) (dataId : UInt8)
    (regs : RegisterWindow) : RegisterWindow :=
  if ¬ Startable descDmaAddress descCount then prErr invalidStartMessage regs
  else
    let regs := writeAddressL descDmaAddress (hailoVdmaStopChannel regs)
    let regs := iowrite32 (descDmaAddress >>> 32).toUInt32 vdmaChannelAddressHOffset regs
    let regs := iowrite32 (descDepthDataId descCount dataId) 0 regs
    startVdmaControlRegister regs

/-- The calls that write to a channel's registers. -/
inductive ChannelCall
  | start (descDmaAddress : UInt64) (descCount : UInt32) (dataId : UInt8)
  | stop
  | setNumAvail (numAvail : UInt16)
deriving DecidableEq

def ChannelCall.run (regs : RegisterWindow) : ChannelCall → RegisterWindow
  | .start descDmaAddress descCount dataId =>
    hailoVdmaStartChannel descDmaAddress descCount dataId regs
  | .stop => hailoVdmaStopChannel regs
  | .setNumAvail numAvail => hailoVdmaSetNumAvail numAvail regs

def runCalls (calls : List ChannelCall) (regs : RegisterWindow) : RegisterWindow :=
  calls.foldl ChannelCall.run regs

/-- The call starts the channel. -/
def ChannelCall.Starts : ChannelCall → Prop
  | .start descDmaAddress descCount _ => Startable descDmaAddress descCount
  | _ => False

instance : DecidablePred ChannelCall.Starts
  | .start descDmaAddress descCount _ =>
    inferInstanceAs (Decidable (Startable descDmaAddress descCount))
  | .stop => isFalse id
  | .setNumAvail _ => isFalse id

variable {regs : RegisterWindow}

/-- On the words, this is what launching a transfer does to the registers of the host. -/
theorem setNumAvail_words (numAvail : UInt16) (deviceRegs : Nat → UInt32) :
    (hailoVdmaSetNumAvail numAvail regs).words =
      (ChannelTransfers.hailoVdmaSetNumAvail ⟨regs.words, deviceRegs⟩ numAvail).hostRegs := rfl

section Wait
variable {m : Nat}

/-- The counters were read `k` times more. -/
def RegisterWindow.polled (regs : RegisterWindow) (k : Nat) : RegisterWindow :=
  { regs with polls := regs.polls + k }

/-- A wait only reads. It ends well exactly with the first counters that meet. -/
theorem checkUntilIdle_spec (m checks : Nat) (regs : RegisterWindow) :
    ∃ k ≤ checks, (checkUntilIdle m checks regs).2 = regs.polled k ∧
      (∀ i, i + 1 < k → countersMeet m (regs.shown (regs.polls + i)) = false) ∧
      ((checkUntilIdle m checks regs).1 = 0 ∧ 0 < k ∧
          countersMeet m (regs.shown (regs.polls + (k - 1))) = true ∨
        (checkUntilIdle m checks regs).1 = -etimedout ∧ k = checks ∧
          ∀ i < k, countersMeet m (regs.shown (regs.polls + i)) = false) := by
  induction checks generalizing regs with
  | zero =>
    refine ⟨0, Nat.le_refl 0, rfl, ?_, Or.inr ⟨rfl, rfl, ?_⟩⟩
    · intro i hi
      omega
    · intro i hi
      omega
  | succ checks ih =>
    cases hmeet : countersMeet m (regs.shown regs.polls) with
    | true =>
      have hcheck : checkUntilIdle m (checks + 1) regs = (0, regs.polled 1) := if_pos hmeet
      rw [hcheck]
      refine ⟨1, by omega, rfl, ?_, Or.inl ⟨rfl, Nat.one_pos, hmeet⟩⟩
      intro i hi
      omega
    | false =>
      have hcheck : checkUntilIdle m (checks + 1) regs = checkUntilIdle m checks (regs.polled 1) :=
        if_neg (Bool.eq_false_iff.mp hmeet)
      obtain ⟨k, hk, hregs, hbefore, hresult⟩ := ih (regs.polled 1)
      have hshown (i : Nat) : (regs.polled 1).shown ((regs.polled 1).polls + i) =
          regs.shown (regs.polls + (i + 1)) := by
        rw [RegisterWindow.polled, Nat.add_assoc, Nat.add_comm 1 i]
      simp only [hshown] at hbefore hresult
      rw [hcheck]
      refine ⟨k + 1, by omega, ?_, ?_, ?_⟩
      · rw [hregs, RegisterWindow.polled, RegisterWindow.polled, Nat.add_assoc, Nat.add_comm 1 k]
        rfl
      · intro i hi
        cases i with
        | zero => exact hmeet
        | succ i => exact hbefore i (by omega)
      · rcases hresult with ⟨hzero, hpos, hlast⟩ | ⟨htimeout, rfl, hnone⟩
        · refine Or.inl ⟨hzero, Nat.succ_pos k, ?_⟩
          have hlastIndex : k + 1 - 1 = k - 1 + 1 := by omega
          rw [hlastIndex]
          exact hlast
        · refine Or.inr ⟨htimeout, rfl, fun i hi => ?_⟩
          cases i with
          | zero => exact hmeet
          | succ i => exact hnone i (by omega)

end Wait

section Control
variable {w control : UInt32}

theorem isAborted_writeControl :
    isAborted (writeBitsAtOffset 8 0 w control) =
      (UInt8.ofNat (control.toNat % 2 ^ 8) &&& vdmaChannelControlStartAbortPauseResumeBitmask ==
        vdmaChannelControlAbortPause) := by
  have hread := readBits_writeBits (n := 8) (o := 0) (w := w) (v := control) (by decide) (by decide)
  rw [isAborted]
  exact congrArg (fun x => UInt8.ofNat x &&& vdmaChannelControlStartAbortPauseResumeBitmask ==
    vdmaChannelControlAbortPause) hread

theorem isAborted_setNumAvail (numAvail : UInt32) :
    isAborted (writeBitsAtOffset 16 16 w numAvail) = isAborted w := by
  have hread : readBitsAtOffset 8 0 (writeBitsAtOffset 16 16 w numAvail).toNat =
      readBitsAtOffset 8 0 w.toNat :=
    readBits_writeBits_of_disjoint (n := 16) (o := 16) (by decide) (by decide)
      (Or.inl (by decide))
  rw [isAborted, isAborted]
  exact congrArg (fun x => UInt8.ofNat x &&& vdmaChannelControlStartAbortPauseResumeBitmask ==
    vdmaChannelControlAbortPause) hread

end Control

section Stop

/-- The word of the control byte while the channel is paused, and once it is aborted. -/
def pausedWord (w : UInt32) : UInt32 := writeBitsAtOffset 8 0 w vdmaChannelControlStartPause

def abortedWord (w : UInt32) : UInt32 :=
  writeBitsAtOffset 8 0 (pausedWord w) vdmaChannelControlAbort

theorem stop_of_isAborted (h : isAborted (regs.words 0) = true) :
    hailoVdmaStopChannel regs = regs := if_pos h

/-- A stop that is not cut short pauses, waits and aborts. -/
theorem stop_of_not_isAborted (h : isAborted (regs.words 0) = false) :
    hailoVdmaStopChannel regs =
      let waited := hailoVdmaWaitUntilChannelIdle (hailoVdmaChannelPause regs)
      hailoVdmaChannelAbort
        (if waited.1 < 0 then prErr idleTimeoutMessage waited.2 else waited.2) :=
  if_neg (Bool.eq_false_iff.mp h)

/-- Waiting for a paused channel only reads its counters. -/
theorem waitPaused_polled (regs : RegisterWindow) :
    ∃ k, (hailoVdmaWaitUntilChannelIdle (hailoVdmaChannelPause regs)).2 =
      (hailoVdmaChannelPause regs).polled k := by
  obtain ⟨k, -, hregs, -⟩ :=
    checkUntilIdle_spec (maxDescCount ((hailoVdmaChannelPause regs).words 0))
      vdmaChannelMaxChecksChannelIsIdle (hailoVdmaChannelPause regs)
  exact ⟨k, hregs⟩

/-- What a stop that is not cut short leaves in the registers, whether or not it waited long
enough. -/
theorem stop_effect (h : isAborted (regs.words 0) = false) :
    (hailoVdmaStopChannel regs).words =
        Function.update regs.words 0 (abortedWord (regs.words 0)) ∧
      (hailoVdmaStopChannel regs).shown = regs.shown ∧
      (hailoVdmaStopChannel regs).writes =
        regs.writes ++ [(0, pausedWord (regs.words 0)), (0, abortedWord (regs.words 0))] := by
  obtain ⟨k, hwaited⟩ := waitPaused_polled regs
  have hpaused : (hailoVdmaChannelPause regs).words =
      Function.update regs.words 0 (pausedWord (regs.words 0)) := rfl
  have hwords (waited : RegisterWindow)
      (hsame : waited.words = (hailoVdmaChannelPause regs).words) :
      (hailoVdmaChannelAbort waited).words =
        Function.update regs.words 0 (abortedWord (regs.words 0)) := by
    have habort : (hailoVdmaChannelAbort waited).words = Function.update waited.words 0
        (writeBitsAtOffset 8 0 (waited.words 0) vdmaChannelControlAbort) := rfl
    rw [habort, hsame, hpaused, Function.update_self, Function.update_idem, abortedWord]
  have hwrites (waited : RegisterWindow) (hsame : waited.words = (hailoVdmaChannelPause regs).words)
      (hlog : waited.writes = (hailoVdmaChannelPause regs).writes) :
      (hailoVdmaChannelAbort waited).writes = regs.writes ++
        [(0, pausedWord (regs.words 0)), (0, abortedWord (regs.words 0))] := by
    have habort : (hailoVdmaChannelAbort waited).writes = waited.writes ++
        [(0, writeBitsAtOffset 8 0 (waited.words 0) vdmaChannelControlAbort)] := rfl
    have hpauseLog : (hailoVdmaChannelPause regs).writes =
        regs.writes ++ [(0, pausedWord (regs.words 0))] := rfl
    rw [habort, hsame, hlog, hpaused, hpauseLog, Function.update_self, List.append_assoc,
      abortedWord]
    rfl
  rw [stop_of_not_isAborted h]
  simp only [hwaited]
  split
  · exact ⟨hwords _ rfl, rfl, hwrites _ rfl rfl⟩
  · exact ⟨hwords _ rfl, rfl, hwrites _ rfl rfl⟩

theorem isAborted_abortedWord (w : UInt32) : isAborted (abortedWord w) = false := by
  rw [abortedWord, isAborted_writeControl]
  decide

/-- A stopped channel counts as aborted only if it did before. -/
theorem isAborted_stop (regs : RegisterWindow) :
    isAborted ((hailoVdmaStopChannel regs).words 0) = isAborted (regs.words 0) := by
  cases h : isAborted (regs.words 0) with
  | true => rw [stop_of_isAborted h, h]
  | false => rw [(stop_effect h).1, Function.update_self, isAborted_abortedWord]

end Stop

section Start
variable {descDmaAddress : UInt64} {descCount : UInt32} {dataId : UInt8}

/-- The word of the depth, with the channel started. -/
def startedWord (descCount : UInt32) (dataId : UInt8) : UInt32 :=
  writeBitsAtOffset 8 0 (descDepthDataId descCount dataId) vdmaChannelControlStartResume

theorem start_refused (h : ¬ Startable descDmaAddress descCount) :
    hailoVdmaStartChannel descDmaAddress descCount dataId regs =
      prErr invalidStartMessage regs := if_pos h

theorem start_word (h : Startable descDmaAddress descCount) :
    (hailoVdmaStartChannel descDmaAddress descCount dataId regs).words 0 =
      startedWord descCount dataId := by
  rw [hailoVdmaStartChannel, if_neg (not_not.mpr h)]
  rfl

theorem isAborted_startedWord (descCount : UInt32) (dataId : UInt8) :
    isAborted (startedWord descCount dataId) = false := by
  rw [startedWord, isAborted_writeControl]
  decide

theorem encodedDepth_lt {depth : Nat} (h : depth ≤ descriptorListMaxDepth) :
    (encodedDepth depth).toNat < 2 ^ 4 := by
  have hmax : descriptorListMaxDepth = 16 := rfl
  rw [encodedDepth]
  split
  · decide
  · rw [UInt8.toNat_ofNat']
    omega

/-- The depth and the data id leave the upper half of the word alone. -/
theorem descDepthDataId_lt (h : descDepth descCount ≤ descriptorListMaxDepth) :
    (descDepthDataId descCount dataId).toNat < 2 ^ 16 := by
  have hdepth := encodedDepth_lt h
  have hdata := dataId.toNat_lt
  have hdepthShift : (UInt32.ofNat vdmaChannelDescDepthShift).toNat % 32 = 11 := rfl
  have hdataShift : vdmaChannelDataIdShift.toNat % 32 = 8 := rfl
  rw [descDepthDataId, UInt32.toNat_or, UInt32.toNat_shiftLeft, UInt32.toNat_shiftLeft,
    UInt8.toNat_toUInt32, UInt8.toNat_toUInt32, hdepthShift, hdataShift, Nat.shiftLeft_eq,
    Nat.shiftLeft_eq]
  exact Nat.or_lt_two_pow (by omega) (by omega)

/-- A channel that was started passes the check of a launch, with nothing available yet. -/
theorem validateChannelState_started (h : Startable descDmaAddress descCount)
    (deviceRegs : Nat → UInt32) {channel : HailoVdmaChannel} (hnone : channel.state.numAvail = 0) :
    validateChannelState channel
      ⟨(hailoVdmaStartChannel descDmaAddress descCount dataId regs).words, deviceRegs⟩ = 0 := by
  have hcontrol : readBitsAtOffset (byteSize * bitsInByte) (channelControlOffset * bitsInByte)
      (startedWord descCount dataId).toNat = 1 :=
    readBits_writeBits (n := 8) (o := 0) (by decide) (by decide)
  have havail : readBitsAtOffset (wordSize * bitsInByte) (channelNumAvailOffset * bitsInByte)
      (startedWord descCount dataId).toNat = 0 := by
    have hupper : readBitsAtOffset 16 16 (startedWord descCount dataId).toNat =
        readBitsAtOffset 16 16 (descDepthDataId descCount dataId).toNat :=
      readBits_writeBits_of_disjoint (n := 8) (o := 0) (by decide) (by decide)
        (Or.inr (by decide))
    refine hupper.trans ?_
    rw [readBits_eq, Nat.div_eq_of_lt (descDepthDataId_lt h.2), Nat.zero_mod]
  simp only [validateChannelState, start_word h, hcontrol, havail]
  rw [if_neg (by decide), hnone, if_neg (by decide)]

theorem validateChannelState_stopped (h : isAborted (regs.words 0) = false)
    (deviceRegs : Nat → UInt32) (channel : HailoVdmaChannel) :
    validateChannelState channel ⟨(hailoVdmaStopChannel regs).words, deviceRegs⟩ =
      -econnreset := by
  have hcontrol : readBitsAtOffset (byteSize * bitsInByte) (channelControlOffset * bitsInByte)
      (abortedWord (regs.words 0)).toNat = 0 :=
    readBits_writeBits (n := 8) (o := 0) (by decide) (by decide)
  simp only [validateChannelState, (stop_effect h).1, Function.update_self, hcontrol]
  rw [if_pos (by decide)]

end Start

/-- A channel counts as aborted after a call only if it did before and was not started. -/
theorem isAborted_run (call : ChannelCall) (regs : RegisterWindow) :
    isAborted ((call.run regs).words 0) = true ↔
      isAborted (regs.words 0) = true ∧ ¬ call.Starts := by
  cases call with
  | start descDmaAddress descCount dataId =>
    by_cases h : Startable descDmaAddress descCount
    · simp [ChannelCall.run, ChannelCall.Starts, start_word h, isAborted_startedWord, h]
    · simp [ChannelCall.run, ChannelCall.Starts, start_refused h, h, prErr]
  | stop => simp [ChannelCall.run, ChannelCall.Starts, isAborted_stop]
  | setNumAvail numAvail =>
    have hword : (hailoVdmaSetNumAvail numAvail regs).words 0 =
        writeBitsAtOffset 16 16 (regs.words 0) numAvail.toUInt32 := rfl
    simp [ChannelCall.run, ChannelCall.Starts, hword, isAborted_setNumAvail]

theorem isAborted_runCalls (calls : List ChannelCall) (regs : RegisterWindow) :
    isAborted ((runCalls calls regs).words 0) = true ↔
      isAborted (regs.words 0) = true ∧ ∀ call ∈ calls, ¬ call.Starts := by
  induction calls generalizing regs with
  | nil => simp [runCalls]
  | cons call calls ih =>
    rw [runCalls, List.foldl_cons, ← runCalls, ih, isAborted_run, List.forall_mem_cons, and_assoc]

end HailortDrivers.ChannelControl
