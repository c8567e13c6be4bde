import HailortDrivers.EngineSteps
import HailortDrivers.LaunchedWindows

/-! One completion loop over transfers that lie one after the other on the ring: it
takes off exactly those whose last descriptor hardware has processed, although it
only sees remainders. -/
namespace HailortDrivers.CompletionWindows
open KernelExec MachineWord VdmaTypes ChannelTransfers LaunchSteps OngoingRing VdmaEngine
open CompletionSteps EngineSteps ModularWindow LaunchedWindows

theorem isDescBetween_iff {begin_ end_ desc : UInt16} (hne : begin_ ≠ end_) :
    isDescBetween begin_ end_ desc = true ↔
      CyclicBetween begin_.toNat end_.toNat desc.toNat := by
  rw [isDescBetween, if_neg hne, CyclicBetween]
  simp only [UInt16.lt_iff_toNat_lt]
  split
  · simp only [Bool.and_eq_true, decide_eq_true_eq, UInt16.le_iff_toNat_le]
  · simp only [Bool.or_eq_true, decide_eq_true_eq, UInt16.le_iff_toNat_le]

/-- The register shows the counter modulo `n`, but may show `n` for zero. -/
def ShowsProcessed (n : Nat) (regs : ChannelRegs) (processed : Nat) : Prop :=
  let shown := readBitsAtOffset (wordSize * bitsInByte) (channelNumProcOffset * bitsInByte)
    (hostRegsLowQword regs).toNat
  shown = processed % n ∨ n < 65536 ∧ processed % n = 0 ∧ shown = n

theorem toNat_readHwNumProc {channel : HailoVdmaChannel} {regs : ChannelRegs} {k processed : Nat}
    (hmask : channel.state.descCountMask.toNat + 1 = 2 ^ k) (hle : 2 ^ k ≤ 65536)
    (hshows : ShowsProcessed (2 ^ k) regs processed) :
    (readHwNumProc channel regs).toNat = processed % 2 ^ k := by
  have hlt := Nat.mod_lt processed (Nat.two_pow_pos k)
  rw [readHwNumProc, UInt32.toNat_toUInt16, toNat_and_mask hmask, hmask, UInt32.toNat_ofNat']
  rcases hshows with hshown | ⟨hsmall, hzero, hshown⟩
  · rw [hshown, Nat.mod_eq_of_lt (a := processed % 2 ^ k) (by omega), Nat.mod_mod]
    exact Nat.mod_eq_of_lt (by omega)
  · rw [hshown, Nat.mod_eq_of_lt (a := 2 ^ k) (by omega), Nat.mod_self, hzero]

/-- A channel's ongoing transfers with their counters. `b` is where the oldest of
them starts, `e` stands for `num_avail`. -/
structure RingAt (n : Nat) (channel : HailoVdmaChannel)
    (xs : List (HailoOngoingTransfer × Nat)) (b e : Nat) : Prop where
  windows : Windows n b xs e
  ongoing_eq : xs.map Prod.fst = ongoing channel.ongoingTransfers
  fit : e ≤ b + (n - 1)
  numProc : channel.state.numProc.toNat = b % n
  numAvail : channel.state.numAvail.toNat = e % n
  mask : xs ≠ [] → channel.state.descCountMask.toNat + 1 = n

section
variable {σ : Type} {transferDone : HailoOngoingTransfer → σ → Exec σ} {hwNumProc : UInt16}
  {n b e p : Nat} {channel : HailoVdmaChannel} {xs : List (HailoOngoingTransfer × Nat)}
  {t : HailoOngoingTransfer} {m : Nat}

theorem curTransfer_eq {ts : List HailoOngoingTransfer}
    (h : t :: ts = ongoing channel.ongoingTransfers) :
    curTransfer channel = t ∧ ongoing (popped channel.ongoingTransfers) = ts := by
  have hpop := ongoing_popped (h ▸ List.cons_ne_nil t ts)
  rw [← h, List.cons.injEq] at hpop
  exact ⟨hpop.1.symm, hpop.2.symm⟩

/-- The oldest transfer counts as complete iff its last descriptor is processed. -/
theorem RingAt.isTransferComplete_iff (h : RingAt n channel ((t, m) :: xs) b e) (hb : b ≤ p)
    (hp : p ≤ e) (hhw : hwNumProc.toNat = p % n) :
    isTransferComplete channel (curTransfer channel) hwNumProc = true ↔ m ≤ p := by
  have hcur : curTransfer channel = t := (curTransfer_eq h.ongoing_eq).1
  have hfit := h.fit
  cases h.windows with
  | cons hlt hfirst hlast hrest =>
    have hle := hrest.le
    rw [isTransferComplete, hcur]
    split
    · next havail =>
      rw [← UInt16.toNat_inj, h.numAvail, hhw] at havail
      have := eq_of_mod_eq (s := b) (by omega) (by omega) (by omega) (by omega) havail
      simp only [true_iff]
      omega
    · by_cases hsame : channel.state.numProc = hwNumProc
      · rw [hsame, isDescBetween, if_pos rfl]
        rw [← UInt16.toNat_inj, h.numProc, hhw] at hsame
        have := eq_of_mod_eq (s := b) (by omega) (by omega) (by omega) (by omega) hsame
        simp only [Bool.false_eq_true, false_iff]
        omega
      · have hne : b ≠ p := by
          rintro rfl
          rw [← UInt16.toNat_inj, h.numProc, hhw] at hsame
          exact hsame rfl
        have hdesc : t.lastDesc.toNat = (m - 1) % n := hlast
        rw [isDescBetween_iff hsame, h.numProc, hhw, hdesc,
          cyclicBetween_mod_iff (by omega) (by omega) (by omega) (by omega)]
        omega

/-- A completed transfer moves `num_proc` to its end. -/
theorem RingAt.afterComplete {k : Nat} (hle : 2 ^ k ≤ 65536)
    (h : RingAt (2 ^ k) channel ((t, m) :: xs) b e) :
    RingAt (2 ^ k) (afterComplete channel) xs m e := by
  obtain ⟨hcur, hpop⟩ := curTransfer_eq h.ongoing_eq
  have hmask := h.mask (List.cons_ne_nil _ _)
  have hfit := h.fit
  cases h.windows with
  | cons hlt hfirst hlast hrest =>
    have hdesc : t.lastDesc.toNat = (m - 1) % 2 ^ k := hlast
    have hmodlt := Nat.mod_lt (m - 1) (Nat.two_pow_pos k)
    have hmodlt' := Nat.mod_lt m (Nat.two_pow_pos k)
    have hone : (1 : UInt32).toNat = 1 := rfl
    refine ⟨hrest, hpop.symm, by omega, ?_, h.numAvail, fun _ => hmask⟩
    change (((curTransfer channel).lastDesc.toUInt32 + 1) &&&
      channel.state.descCountMask).toUInt16.toNat = _
    rw [hcur, UInt32.toNat_toUInt16, toNat_and_mask hmask, hmask, UInt32.toNat_add,
      UInt16.toNat_toUInt32, hdesc, hone, Nat.mod_eq_of_lt (a := _ + 1) (by omega),
      Nat.mod_add_mod, Nat.sub_add_cancel (by omega)]
    exact Nat.mod_eq_of_lt (by omega)

/-- The loop takes off the transfers whose last descriptor is processed, and stops at
the first other one. -/
theorem Completes.exact {k : Nat} (hle : 2 ^ k ≤ 65536) {c c' : CompletionCursor σ}
    {ts : List HailoOngoingTransfer} (h : Completes transferDone hwNumProc c ts c')
    (hring : RingAt (2 ^ k) c.channel xs b e) (hb : b ≤ p) (hp : p ≤ e)
    (hhw : xs ≠ [] → hwNumProc.toNat = p % 2 ^ k) :
    ∃ ys zs m, xs = ys ++ zs ∧ ys.map Prod.fst = ts ∧ Windows (2 ^ k) b ys m ∧ m ≤ p ∧
      (∀ z ∈ zs, p < z.2) ∧ RingAt (2 ^ k) c'.channel zs m e := by
  induction h generalizing xs b with
  | @stop c hstop =>
    refine ⟨[], xs, b, rfl, rfl, .nil b, hb, ?_, hring⟩
    cases xs with
    | nil => exact fun z hz => absurd hz List.not_mem_nil
    | cons x xs =>
      obtain ⟨t, m⟩ := x
      have hnot : ¬ m ≤ p := by
        rw [← hring.isTransferComplete_iff hb hp (hhw (List.cons_ne_nil _ _))]
        rcases hstop with hnil | hstop
        · have hcons := hring.ongoing_eq
          rw [hnil] at hcons
          cases hcons
        · rw [hstop]
          exact Bool.false_ne_true
      cases hring.windows with
      | cons hlt hfirst hlast hrest =>
        intro z hz
        rcases List.mem_cons.mp hz with rfl | hz
        · exact Nat.not_le.mp hnot
        · have := hrest.lt_end hz
          omega
  | @round c c₁ c' ts hongoing hcomplete hround hrest ih =>
    cases xs with
    | nil => exact absurd hring.ongoing_eq.symm hongoing
    | cons x xs =>
      obtain ⟨t, m⟩ := x
      have hhw' := hhw (List.cons_ne_nil _ _)
      have hm := (hring.isTransferComplete_iff hb hp hhw').mp hcomplete
      obtain ⟨valid, done, -, -, rfl⟩ := completeTransfer_ok hround
      obtain ⟨ys, zs, m', rfl, rfl, hys, hm', hzs, hring'⟩ :=
        ih (hring.afterComplete hle) hm (fun _ => hhw')
      refine ⟨(t, m) :: ys, zs, m', rfl, ?_, ?_, hm', hzs, hring'⟩
      · rw [List.map_cons, (curTransfer_eq hring.ongoing_eq).1]
      · cases hring.windows with
        | cons hlt hfirst hlast hrest => exact .cons hlt hfirst hlast hys

theorem Completes.transfersCompleted {c c' : CompletionCursor σ} {ts : List HailoOngoingTransfer}
    (h : Completes transferDone hwNumProc c ts c')
    (hlt : c.transfersCompleted.toNat + ts.length < 256) :
    c'.transfersCompleted.toNat = c.transfersCompleted.toNat + ts.length := by
  induction h with
  | stop hstop => rfl
  | round hongoing hcomplete hround hrest ih =>
    have hone : (1 : UInt8).toNat = 1 := rfl
    obtain ⟨valid, done, -, -, rfl⟩ := completeTransfer_ok hround
    rw [List.length_cons] at hlt ⊢
    simp only [UInt8.toNat_add, hone] at ih
    rw [Nat.mod_eq_of_lt (by omega)] at ih
    rw [ih (by omega)]
    omega

/-- Without a failed debug validation the loop ends with the flags it started with. -/
theorem Completes.validated {c c' : CompletionCursor σ} {ts : List HailoOngoingTransfer}
    (h : Completes transferDone hwNumProc c ts c')
    (hvalid : ∀ t ∈ ts, validateTransfer c.channel.lastDescList t c.heap = .ok true) :
    c'.validationSuccess = c.validationSuccess ∧ c'.isDebug = c.isDebug := by
  induction h with
  | stop hstop => exact ⟨rfl, rfl⟩
  | round hongoing hcomplete hround hrest ih =>
    obtain ⟨valid, done, hfirst, -, rfl⟩ := completeTransfer_ok hround
    obtain rfl : valid = true :=
      Except.ok.inj (hfirst.symm.trans (hvalid _ List.mem_cons_self))
    obtain ⟨hsuccess, hdebug⟩ := ih fun t ht => by
      refine (sameStatus_heapCleared _ _ _ _ _).trans ?_
      exact hvalid t (List.mem_cons_of_mem _ ht)
    exact ⟨hsuccess.trans (Bool.and_true _), hdebug.trans (Bool.or_false _)⟩

end

end HailortDrivers.CompletionWindows
