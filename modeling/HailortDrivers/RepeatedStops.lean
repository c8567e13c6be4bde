import HailortDrivers.ChannelControl

/-!
Stopping a channel that was stopped before. A stop leaves the control bits at "abort", and
the next one looks for "abort and pause", so it pauses the channel, with the start bit set,
and aborts it again.
-/
namespace HailortDrivers.RepeatedStops
open KernelExec ChannelControl

/-- What a stop writes, in order. -/
def stopWrites (regs : RegisterWindow) : List (Nat × UInt32) :=
  (hailoVdmaStopChannel regs).writes.drop regs.writes.length

/-- The write sets the start bit of the control byte. -/
def SetsStartBit (written : Nat × UInt32) : Prop := written.1 = 0 ∧ hailoTestBit 0 written.2 = true

instance : DecidablePred SetsStartBit := fun _ => inferInstanceAs (Decidable (_ ∧ _))

theorem stopWrites_of_isAborted {regs : RegisterWindow}
    (h : isAborted (regs.words 0) = true) : stopWrites regs = [] := by
  rw [stopWrites, stop_of_isAborted h, List.drop_length]

theorem stopWrites_of_not_isAborted {regs : RegisterWindow}
    (h : isAborted (regs.words 0) = false) :
    stopWrites regs = [(0, pausedWord (regs.words 0)), (0, abortedWord (regs.words 0))] := by
  rw [stopWrites, (stop_effect h).2.2, List.drop_left]

/-- To pause is to write the start bit. -/
theorem setsStartBit_paused (w : UInt32) : SetsStartBit (0, pausedWord w) := by
  refine ⟨rfl, ?_⟩
  have hwrite := RegisterBits.hailoTestBit_writeBits (n := 8) (o := 0) (w := w)
    (v := vdmaChannelControlStartPause) (by decide) (by decide) 0
  rw [if_pos (by decide)] at hwrite
  exact hwrite

/-- A stop writes nothing exactly if the control bits say that the channel is aborted; else
it sets the start bit. -/
theorem stopWrites_cases (regs : RegisterWindow) :
    (isAborted (regs.words 0) = true ∧ stopWrites regs = []) ∨
    (isAborted (regs.words 0) = false ∧ ∃ written ∈ stopWrites regs, SetsStartBit written) := by
  cases h : isAborted (regs.words 0) with
  | true => exact Or.inl ⟨rfl, stopWrites_of_isAborted h⟩
  | false =>
    refine Or.inr ⟨rfl, (0, pausedWord (regs.words 0)), ?_, setsStartBit_paused _⟩
    rw [stopWrites_of_not_isAborted h]
    exact List.mem_cons_self

/-- After any calls and a stop, another stop is silent exactly if the channel already looked
aborted before these calls and none of them started it. -/
theorem secondStop_silent_iff (regs : RegisterWindow) (calls : List ChannelCall) :
    (stopWrites (runCalls (calls ++ [.stop]) regs) = [] ∧
        ∀ written ∈ stopWrites (runCalls (calls ++ [.stop]) regs), ¬ SetsStartBit written) ↔
      isAborted (regs.words 0) = true ∧ ∀ call ∈ calls, ¬ call.Starts := by
  have hhistory : isAborted ((runCalls (calls ++ [.stop]) regs).words 0) = true ↔
      isAborted (regs.words 0) = true ∧ ∀ call ∈ calls, ¬ call.Starts := by
    rw [isAborted_runCalls, List.forall_mem_append]
    simp [ChannelCall.Starts]
  rw [← hhistory]
  rcases stopWrites_cases (runCalls (calls ++ [.stop]) regs) with
    ⟨haborted, hnone⟩ | ⟨haborted, written, hmem, hstart⟩
  · simp [haborted, hnone]
  · rw [haborted]
    constructor
    · rintro ⟨-, hsilent⟩
      exact absurd hstart (hsilent written hmem)
    · intro h
      cases h

/-- Registers of zeros, and counters that always meet. -/
def zeroWindow : RegisterWindow := ⟨fun _ => 0, fun _ => 0, 0, [], []⟩

/-- A channel of two descriptors is started and stopped. The second stop pauses it, with the
start bit set, and aborts it once more. -/
theorem secondStop_restarts :
    stopWrites (runCalls ([.start 0x10000 2 0] ++ [.stop]) zeroWindow) = [(0, 0x803), (0, 0x800)] ∧
      SetsStartBit (0, 0x803) := by
  decide

end HailortDrivers.RepeatedStops
