import HailortDrivers.EventRuns
import HailortDrivers.InterruptRegisters

/-!
No cause of an interrupt is lost between the accesses of `hailo_pcie_read_interrupt`: a bit that
was not reported is in the value that the call holds or still in its register, and then the
summary says so, or the device is about to set its summary bit, or the call will read it.
-/
namespace HailortDrivers.InterruptCauses
open KernelExec RegisterBits InterruptRegisters EventRuns

section Words

theorem exists_bit_of_and_ne_zero {a b : UInt32} (h : a &&& b ≠ 0) :
    ∃ pos, hailoTestBit pos a = true ∧ hailoTestBit pos b = true := by
  by_contra hnone
  refine h (and_eq_zero_iff.mpr fun pos ha => ?_)
  cases hb : hailoTestBit pos b with
  | false => rfl
  | true => exact absurd ⟨pos, ha, hb⟩ hnone

theorem and_ne_zero_of_bit {a b : UInt32} {pos : Nat} (ha : hailoTestBit pos a = true)
    (hb : hailoTestBit pos b = true) : a &&& b ≠ 0 := by
  intro hzero
  cases hb.symm.trans (and_eq_zero_iff.mp hzero pos ha)

theorem and_ne_zero_mono {a a' b : UInt32} (h : a &&& b ≠ 0)
    (hmono : ∀ pos, hailoTestBit pos a = true → hailoTestBit pos a' = true) : a' &&& b ≠ 0 := by
  obtain ⟨pos, ha, hb⟩ := exists_bit_of_and_ne_zero h
  exact and_ne_zero_of_bit (hmono pos ha) hb

/-- The bits of a mask survive a clear or were cleared. -/
theorem clear_ne_zero_or {a b v : UInt32} (h : a &&& b ≠ 0) :
    (a &&& ~~~v) &&& b ≠ 0 ∨ v &&& b ≠ 0 := by
  obtain ⟨pos, ha, hb⟩ := exists_bit_of_and_ne_zero h
  cases hv : hailoTestBit pos v with
  | false =>
    refine Or.inl (and_ne_zero_of_bit ?_ hb)
    rw [hailoTestBit_and_not, ha, hv]
    rfl
  | true => exact Or.inr (and_ne_zero_of_bit hv hb)

/-- The shift of the software interrupts loses none of them. -/
theorem reported_softwareBit {pos : Nat} {value : UInt32} (hpos : 24 ≤ pos)
    (h : hailoTestBit pos value = true) :
    hailoTestBit pos (reported .istatusHost value) = true := by
  have hshift : hailoTestBit (pos - 24) (value >>> bcsIstatusHostSwIrqShift) = true := by
    rw [hailoTestBit, UInt32.toNat_shiftRight, Nat.testBit_shiftRight]
    change value.toNat.testBit (24 + (pos - 24)) = true
    rw [show 24 + (pos - 24) = pos by omega]
    exact h
  have hback := hailoTestBit_shiftLeft (a := value >>> bcsIstatusHostSwIrqShift) (o := 24)
    (hailoTestBit_lt h) (by decide)
  rw [hshift, decide_eq_true hpos] at hback
  exact hback

end Words

/-- The call has the bit in a value that is not in `source` yet. -/
def Held (reg : Register) (pos : Nat) : ReadPhase → Prop
  | .clears held _ _ value | .reports held _ _ value => held = reg ∧ hailoTestBit pos value = true
  | _ => False

/-- The call knows from the summary that it has to read the register of the side. -/
def WillRead (side : Side) : ReadPhase → Prop
  | .reports .istatusHost _ _ value => value &&& side.mask ≠ 0
  | .reads .sourceInterruptPerChannel istatusHost _ => istatusHost &&& side.mask ≠ 0
  | .clears .sourceInterruptPerChannel istatusHost _ _
  | .reports .sourceInterruptPerChannel istatusHost _ _ =>
    side = .destination ∧ istatusHost &&& side.mask ≠ 0
  | .reads .destinationInterruptPerChannel _ _ => side = .destination
  | _ => False

/-- A channel bit in its register is not forgotten. -/
def Expected (s : InterruptSystem) (side : Side) (pos : Nat) : Prop :=
  hailoTestBit pos (s.unannounced side) = true ∨ s.config .istatusHost &&& side.mask ≠ 0 ∨
    WillRead side s.phase

structure NothingLost (s : InterruptSystem) : Prop where
  channels : ∀ side pos, hailoTestBit pos (s.unreported side.register) = true →
    Held side.register pos s.phase ∨
      hailoTestBit pos (s.config side.register) = true ∧ Expected s side pos
  software : ∀ pos, hailoTestBit pos (s.unreported .istatusHost) = true → 24 ≤ pos ∧
    (Held .istatusHost pos s.phase ∨ hailoTestBit pos (s.config .istatusHost) = true)
  settled : ∀ source, s.phase = .returned false source → s.settled = true →
    ∀ reg, s.unreported reg = 0

theorem Side.register_ne (side : Side) : side.register ≠ .istatusHost := by
  cases side <;> decide

theorem Side.eq_of_register {side side' : Side} (h : side.register = side'.register) :
    side = side' := by
  cases side <;> cases side' <;> first | rfl | cases h

section Device
variable {s : InterruptSystem}

theorem raise_bit {ι : Type} [DecidableEq ι] {reg reg' : ι} {bits : UInt32} (word : ι → UInt32)
    {pos : Nat} (h : hailoTestBit pos (word reg') = true) :
    hailoTestBit pos (Function.update word reg (word reg ||| bits) reg') = true := by
  by_cases hreg : reg' = reg
  · subst hreg
    rw [Function.update_self, hailoTestBit_or, h, Bool.true_or]
  · rwa [Function.update_of_ne hreg]

theorem raised_of_new {ι : Type} [DecidableEq ι] {reg : ι} {bits : UInt32} (word : ι → UInt32)
    {pos : Nat}
    (h : hailoTestBit pos bits = true) :
    hailoTestBit pos (Function.update word reg (word reg ||| bits) reg) = true := by
  rw [Function.update_self, hailoTestBit_or, h, Bool.or_true]

theorem Expected.mono {s' : InterruptSystem} {side : Side} {pos : Nat} (h : Expected s side pos)
    (hunannounced : hailoTestBit pos (s.unannounced side) = true → Expected s' side pos)
    (hsummary : ∀ pos, hailoTestBit pos (s.config .istatusHost) = true →
      hailoTestBit pos (s'.config .istatusHost) = true)
    (hphase : s'.phase = s.phase) : Expected s' side pos := by
  rcases h with hwaits | hpending | hwill
  · exact hunannounced hwaits
  · exact Or.inr (Or.inl (and_ne_zero_mono hpending hsummary))
  · exact Or.inr (Or.inr (hphase.symm ▸ hwill))

theorem NothingLost.setChannels (h : NothingLost s) (side : Side) (bits : UInt32) :
    NothingLost (s.setChannels side bits) where
  channels := by
    intro side' pos hpos
    rw [InterruptSystem.setChannels_unreported] at hpos
    by_cases hold : hailoTestBit pos (s.unreported side'.register) = true
    · rcases h.channels side' pos hold with hheld | ⟨hlatched, hexpected⟩
      · exact Or.inl hheld
      · refine Or.inr ⟨raise_bit s.config hlatched,
          hexpected.mono (fun hwaits => Or.inl ?_) (fun _ => raise_bit s.config) rfl⟩
        rw [InterruptSystem.setChannels_unannounced]
        exact raise_bit s.unannounced hwaits
    · by_cases hside : side' = side
      · subst hside
        rw [Function.update_self, hailoTestBit_or, Bool.eq_false_iff.mpr hold,
          Bool.false_or] at hpos
        refine Or.inr ⟨raised_of_new s.config hpos, Or.inl ?_⟩
        exact raised_of_new s.unannounced hpos
      · rw [Function.update_of_ne fun heq => hside (Side.eq_of_register heq)] at hpos
        exact absurd hpos hold
  software := by
    intro pos hpos
    rw [InterruptSystem.setChannels_unreported,
      Function.update_of_ne (Side.register_ne side).symm] at hpos
    obtain ⟨hhigh, hfound⟩ := h.software pos hpos
    exact ⟨hhigh, hfound.imp id (raise_bit s.config)⟩
  settled := fun _ _ hsettled => by cases hsettled

theorem NothingLost.setSummary (h : NothingLost s) (side : Side) {bits : UInt32}
    (hbits : bits &&& side.mask ≠ 0) (announced : UInt32) :
    NothingLost (s.setSummary side (bits &&& side.mask) announced) where
  channels := by
    intro side' pos hpos
    rcases h.channels side' pos hpos with hheld | ⟨hlatched, hexpected⟩
    · exact Or.inl hheld
    · refine Or.inr ⟨raise_bit s.config hlatched, ?_⟩
      refine hexpected.mono (fun hwaits => ?_) (fun _ => raise_bit s.config) rfl
      by_cases hside : side' = side
      · subst hside
        obtain ⟨pos', hbit, hmask⟩ := exists_bit_of_and_ne_zero hbits
        refine Or.inr (Or.inl (and_ne_zero_of_bit (?_ : hailoTestBit pos' _ = true) hmask))
        refine raised_of_new s.config ?_
        rw [hailoTestBit_and, hbit, hmask]
        rfl
      · refine Or.inl ?_
        exact (congrArg (hailoTestBit pos) (Function.update_of_ne hside _ _)).trans hwaits
  software := by
    intro pos hpos
    obtain ⟨hhigh, hfound⟩ := h.software pos hpos
    exact ⟨hhigh, hfound.imp id (raise_bit s.config)⟩
  settled := fun _ _ hsettled => by cases hsettled

end Device

section Driver
variable {s : InterruptSystem} {reg : Register} {istatusHost value : UInt32}
  {source : HailoPcieInterruptSource}

theorem afterRead_of_ne_zero (h : value ≠ 0) :
    afterRead reg istatusHost source value = .clears reg istatusHost source value := if_neg h

theorem held_afterRead {pos : Nat} (h : hailoTestBit pos value = true) :
    Held reg pos (afterRead reg istatusHost source value) := by
  have hvalue : value ≠ 0 := by
    rintro rfl
    cases (hailoTestBit_zero pos).symm.trans h
  rw [afterRead_of_ne_zero hvalue]
  exact ⟨rfl, h⟩

/-- Reading one side leaves the other to be read. -/
theorem willRead_afterRead {side : Side} (h : WillRead side (.reads reg istatusHost source))
    (hside : reg ≠ side.register) :
    WillRead side (afterRead reg istatusHost source value) := by
  cases reg with
  | istatusHost => exact h.elim
  | sourceInterruptPerChannel =>
    cases side with
    | source => exact absurd rfl hside
    | destination =>
      unfold afterRead
      split
      · rw [if_neg (by decide)]
        exact ⟨rfl, h⟩
      · exact ⟨rfl, h⟩
  | destinationInterruptPerChannel =>
    have hdestination : side = .destination := h
    exact absurd (hdestination ▸ rfl) hside

theorem willRead_afterReport {side : Side}
    (h : WillRead side (.reports reg istatusHost source value)) :
    WillRead side (afterReport reg istatusHost source value) := by
  cases reg with
  | istatusHost =>
    have hsummary : value &&& side.mask ≠ 0 := h
    simp only [afterReport, afterIstatus]
    split
    · next hsource =>
      cases side with
      | source => exact absurd hsource hsummary
      | destination =>
        rw [show ∀ source, afterSource value source =
          .reads .destinationInterruptPerChannel value source from fun _ => if_neg hsummary]
        exact rfl
    · exact hsummary
  | sourceInterruptPerChannel =>
    obtain ⟨rfl, hsummary⟩ := h
    rw [show afterReport .sourceInterruptPerChannel istatusHost source value =
      .reads .destinationInterruptPerChannel istatusHost (source.addChannels value) from
        if_neg hsummary]
    exact rfl
  | destinationInterruptPerChannel => exact h.elim

theorem afterReport_ne_returnedFalse {source' : HailoPcieInterruptSource} :
    afterReport reg istatusHost source value ≠ .returned false source' := by
  intro heq
  cases reg with
  | istatusHost =>
    simp only [afterReport, afterIstatus, afterSource] at heq
    split_ifs at heq
    cases heq
  | sourceInterruptPerChannel =>
    simp only [afterReport, afterSource] at heq
    split_ifs at heq
    cases heq
  | destinationInterruptPerChannel => cases heq

/-- A summary that reads as zero after the device has announced everything -/
theorem NothingLost.unreported_eq_zero (h : NothingLost s)
    (hphase : s.phase = .reads .istatusHost istatusHost source)
    (hzero : s.config .istatusHost = 0) (hsource : s.unannounced .source = 0)
    (hdestination : s.unannounced .destination = 0) (reg : Register) : s.unreported reg = 0 := by
  have hnone : ∀ side pos, ¬ Expected s side pos := by
    rintro side pos (hwaits | hpending | hwill)
    · have hannounced : s.unannounced side = 0 := by
        cases side with
        | source => exact hsource
        | destination => exact hdestination
      rw [hannounced, hailoTestBit_zero] at hwaits
      cases hwaits
    · rw [hzero, UInt32.zero_and] at hpending
      exact hpending rfl
    · rw [hphase] at hwill
      exact hwill
  have hheld : ∀ reg pos, ¬ Held reg pos s.phase := by
    intro reg pos hheld
    rw [hphase] at hheld
    exact hheld
  have hside : ∀ side : Side, s.unreported side.register = 0 := by
    intro side
    refine eq_of_hailoTestBit fun pos => ?_
    rw [hailoTestBit_zero, Bool.eq_false_iff]
    intro hpos
    rcases h.channels side pos hpos with hfound | ⟨-, hexpected⟩
    · exact hheld _ _ hfound
    · exact hnone side pos hexpected
  cases reg with
  | sourceInterruptPerChannel => exact hside .source
  | destinationInterruptPerChannel => exact hside .destination
  | istatusHost =>
    refine eq_of_hailoTestBit fun pos => ?_
    rw [hailoTestBit_zero, Bool.eq_false_iff]
    intro hpos
    rcases (h.software pos hpos).2 with hfound | hlatched
    · exact hheld _ _ hfound
    · rw [hzero, hailoTestBit_zero] at hlatched
      cases hlatched

theorem NothingLost.read (h : NothingLost s)
    (hphase : s.phase = .reads reg istatusHost source) :
    NothingLost ((s.settle reg).setPhase (afterRead reg istatusHost source (s.config reg))) where
  channels := by
    intro side pos hpos
    rw [InterruptSystem.setPhase_unreported, InterruptSystem.settle_unreported] at hpos
    have hbefore := h.channels side pos hpos
    rw [hphase] at hbefore
    obtain ⟨hlatched, hexpected⟩ := hbefore.resolve_left id
    by_cases hreg : reg = side.register
    · subst hreg
      exact Or.inl (held_afterRead hlatched)
    · rw [InterruptSystem.setPhase_config, InterruptSystem.settle_config, Expected,
        InterruptSystem.setPhase_config, InterruptSystem.settle_config,
        InterruptSystem.setPhase_unannounced, InterruptSystem.settle_unannounced]
      refine Or.inr ⟨hlatched, ?_⟩
      rcases hexpected with hwaits | hpending | hwill
      · exact Or.inl hwaits
      · exact Or.inr (Or.inl hpending)
      · rw [hphase] at hwill
        exact Or.inr (Or.inr (willRead_afterRead hwill hreg))
  software := by
    intro pos hpos
    rw [InterruptSystem.setPhase_unreported, InterruptSystem.settle_unreported] at hpos
    obtain ⟨hhigh, hfound⟩ := h.software pos hpos
    rw [hphase] at hfound
    refine ⟨hhigh, Or.inr ?_⟩
    rw [InterruptSystem.setPhase_config, InterruptSystem.settle_config]
    exact hfound.resolve_left id
  settled := by
    intro source' hreturned hsettled
    change afterRead reg istatusHost source (s.config reg) = .returned false source' at hreturned
    unfold afterRead at hreturned
    split at hreturned
    · next hzero =>
      split at hreturned
      · next hreg =>
        subst hreg
        have hannounced : s.unannounced .source = 0 ∧ s.unannounced .destination = 0 :=
          of_decide_eq_true hsettled
        exact h.unreported_eq_zero hphase hzero hannounced.1 hannounced.2
      · cases hreturned
    · cases hreturned

theorem NothingLost.write (h : NothingLost s)
    (hphase : s.phase = .clears reg istatusHost source value) :
    NothingLost ((s.clear reg value).setPhase (.reports reg istatusHost source value)) where
  channels := by
    intro side pos hpos
    have hbefore := h.channels side pos hpos
    rw [hphase] at hbefore
    rcases hbefore with hheld | ⟨hlatched, hexpected⟩
    · exact Or.inl hheld
    · by_cases hcleared : reg = side.register ∧ hailoTestBit pos value = true
      · exact Or.inl hcleared
      · refine Or.inr ⟨?_, ?_⟩
        · rw [InterruptSystem.setPhase_config, InterruptSystem.clear_config]
          by_cases hreg : side.register = reg
          · subst hreg
            rw [Function.update_self, hailoTestBit_and_not, hlatched,
              Bool.eq_false_iff.mpr fun hbit => hcleared ⟨rfl, hbit⟩]
            rfl
          · rwa [Function.update_of_ne hreg]
        · rcases hexpected with hwaits | hpending | hwill
          · exact Or.inl hwaits
          · by_cases hreg : reg = .istatusHost
            · subst hreg
              rcases clear_ne_zero_or (v := value) hpending with hstill | hseen
              · refine Or.inr (Or.inl ?_)
                rwa [InterruptSystem.setPhase_config, InterruptSystem.clear_config,
                  Function.update_self]
              · exact Or.inr (Or.inr hseen)
            · refine Or.inr (Or.inl ?_)
              rwa [InterruptSystem.setPhase_config, InterruptSystem.clear_config,
                Function.update_of_ne (Ne.symm hreg)]
          · rw [hphase] at hwill
            refine Or.inr (Or.inr ?_)
            cases reg with
            | sourceInterruptPerChannel => exact hwill
            | istatusHost => exact hwill.elim
            | destinationInterruptPerChannel => exact hwill.elim
  software := by
    intro pos hpos
    obtain ⟨hhigh, hfound⟩ := h.software pos hpos
    rw [hphase] at hfound
    refine ⟨hhigh, ?_⟩
    rcases hfound with hheld | hlatched
    · exact Or.inl hheld
    · by_cases hcleared : reg = .istatusHost ∧ hailoTestBit pos value = true
      · exact Or.inl hcleared
      · refine Or.inr ?_
        rw [InterruptSystem.setPhase_config, InterruptSystem.clear_config]
        by_cases hreg : Register.istatusHost = reg
        · subst hreg
          rw [Function.update_self, hailoTestBit_and_not, hlatched,
            Bool.eq_false_iff.mpr fun hbit => hcleared ⟨rfl, hbit⟩]
          rfl
        · rwa [Function.update_of_ne hreg]
  settled := fun _ hreturned => by cases hreturned

/-- What is still unreported after a report was unreported before, and not in the value. -/
theorem unreported_of_report {reg' : Register} {pos : Nat}
    (h : hailoTestBit pos ((s.report reg value).unreported reg') = true) :
    hailoTestBit pos (s.unreported reg') = true ∧
      (reg = reg' → hailoTestBit pos (reported reg value) = false) := by
  rw [InterruptSystem.report_unreported] at h
  by_cases hreg : reg' = reg
  · subst hreg
    rw [Function.update_self, hailoTestBit_and_not, Bool.and_eq_true, Bool.not_eq_true'] at h
    exact ⟨h.1, fun _ => h.2⟩
  · rw [Function.update_of_ne hreg] at h
    exact ⟨h, fun heq => absurd heq.symm hreg⟩

theorem NothingLost.reports (h : NothingLost s)
    (hphase : s.phase = .reports reg istatusHost source value) :
    NothingLost ((s.report reg value).setPhase (afterReport reg istatusHost source value)) where
  channels := by
    intro side pos hpos
    obtain ⟨hold, hnot⟩ := unreported_of_report (s := s) hpos
    have hbefore := h.channels side pos hold
    rw [hphase] at hbefore
    rcases hbefore with ⟨hreg, hbit⟩ | ⟨hlatched, hexpected⟩
    · have hgone := hnot hreg
      subst hreg
      cases side with
      | source => cases hbit.symm.trans hgone
      | destination => cases hbit.symm.trans hgone
    · refine Or.inr ⟨hlatched, ?_⟩
      rcases hexpected with hwaits | hpending | hwill
      · exact Or.inl hwaits
      · exact Or.inr (Or.inl hpending)
      · rw [hphase] at hwill
        exact Or.inr (Or.inr (willRead_afterReport hwill))
  software := by
    intro pos hpos
    obtain ⟨hold, hnot⟩ := unreported_of_report (s := s) hpos
    obtain ⟨hhigh, hfound⟩ := h.software pos hold
    rw [hphase] at hfound
    refine ⟨hhigh, Or.inr ?_⟩
    rcases hfound with ⟨hreg, hbit⟩ | hlatched
    · have hgone := hnot hreg
      subst hreg
      cases (reported_softwareBit hhigh hbit).symm.trans hgone
    · exact hlatched
  settled := fun _ hreturned => absurd hreturned afterReport_ne_returnedFalse

theorem NothingLost.call {gotInterrupt : Bool} (h : NothingLost s)
    (hphase : s.phase = .returned gotInterrupt source) : NothingLost (s.setPhase .called) where
  channels := by
    intro side pos hpos
    have hbefore := h.channels side pos hpos
    rw [hphase] at hbefore
    obtain ⟨hlatched, hexpected⟩ := hbefore.resolve_left id
    refine Or.inr ⟨hlatched, ?_⟩
    rcases hexpected with hwaits | hpending | hwill
    · exact Or.inl hwaits
    · exact Or.inr (Or.inl hpending)
    · rw [hphase] at hwill
      exact hwill.elim
  software := by
    intro pos hpos
    obtain ⟨hhigh, hfound⟩ := h.software pos hpos
    rw [hphase] at hfound
    exact ⟨hhigh, Or.inr (hfound.resolve_left id)⟩
  settled := fun _ hreturned => by cases hreturned

theorem NothingLost.driver (h : NothingLost s) : NothingLost (driverStep s) := by
  unfold driverStep
  split
  · next hphase => exact h.read hphase
  · next hphase => exact h.write hphase
  · next hphase => exact h.reports hphase
  · next hphase => exact h.call hphase

end Driver

variable {s s' : InterruptSystem}

end HailortDrivers.InterruptCauses
