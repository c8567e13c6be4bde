import HailortDrivers.BootInterrupts
import HailortDrivers.SoftReset

/-!
The transfer of a programmed batch. The device goes through the descriptors of each channel in
their order and sets the bit of the channel at those that interrupt the host. The handler of
boot interrupts takes the bits that are set, in any portions and order.
-/
namespace HailortDrivers.BootTransfer
open KernelExec KernelCompletion EventRuns SoftReset FirmwareLoading BootProgramming
open PagePacking BootDescriptors BootRounds BootBatch BootDelivery BootInterrupts

/-- `pending` holds the bits of the channels that the handler has not been given yet. -/
structure TransferSystem where
  processed : Nat → Nat
  pending : UInt32
  fwBoot : HailoPcieFwBoot

inductive TransferEvent
  | processDescriptor (channelIndex : Nat)
  | bootIrqHandler (irqSource : HailoPcieInterruptSource)

/-- The bit of a channel in `vdma_channels_bitmap` -/
def channelBit (channelIndex : Nat) : UInt32 := UInt32.ofNat (2 ^ channelIndex)

namespace TransferSystem

def process (s : TransferSystem) (channel : HailoPcieBootDmaChannelState) (channelIndex : Nat) :
    TransferSystem :=
  let d := s.processed channelIndex
  { s with
    processed := Function.update s.processed channelIndex (d + 1)
    pending :=
      if raisesHostInterrupt (channel.hostDescriptorsBuffer.descList d) then
        s.pending ||| channelBit channelIndex
      else s.pending }

def handle (s : TransferSystem) (irqSource : HailoPcieInterruptSource) : TransferSystem :=
  { s with
    pending := s.pending &&& ~~~irqSource.vdmaChannelsBitmap
    fwBoot := completeBoot irqSource s.fwBoot }

end TransferSystem

/-- An interrupt reports bits of channels that are set, beside any of the software. -/
def step (boot : BootState) (s : TransferSystem) : TransferEvent → Option TransferSystem
  | .processDescriptor c =>
    if c < hailoPciOverVdmaNumChannels ∧ s.processed c < (boot.channels c).descProgramNum.toNat then
      some (s.process (boot.channels c) c)
    else none
  | .bootIrqHandler irqSource =>
    if irqSource.vdmaChannelsBitmap &&& ~~~s.pending = 0 then some (s.handle irqSource) else none

def runEvents (boot : BootState) (s : TransferSystem) (events : List TransferEvent) :
    Option TransferSystem := events.foldlM (step boot) s

/-- The start of the transfer: the completion was cleared before the batch was programmed. -/
def transferStart (boot : BootState) (fwLoadedCompletion : Completion) : TransferSystem :=
  ⟨fun _ => 0, 0, ⟨boot.bootUsedChannelBitmap, fwLoadedCompletion, .init⟩⟩

/-- An interrupt that says at once that the firmware booted and that channels are done: of the
two, the handler sees the first. -/
def TransferEvent.DropsChannels : TransferEvent → Prop
  | .processDescriptor _ => False
  | .bootIrqHandler irqSource =>
    irqSource.swInterrupts &&& hailoPcieBootIrq ≠ 0 ∧ irqSource.vdmaChannelsBitmap ≠ 0

def AllProcessed (boot : BootState) (s : TransferSystem) : Prop :=
  ∀ c, usesChannel boot.bootUsedChannelBitmap c = true →
    s.processed c = (boot.channels c).descProgramNum.toNat

/-- The bitmap is cleared, and its completion signalled, when all descriptors of the channels
that are used are processed and their interrupts handled, and not before all are processed. -/
structure WaitsForChannels (boot : BootState) (s : TransferSystem) : Prop where
  onlyOnce : s.fwBoot.bootUsedChannelBitmap = 0 → AllProcessed boot s
  once : AllProcessed boot s → s.pending = 0 → s.fwBoot.bootUsedChannelBitmap = 0
  signalled : s.fwBoot.vdmaBootCompletion.done ≠ 0 ↔ s.fwBoot.bootUsedChannelBitmap = 0

section Bits

theorem hailoTestBit_channelBit {c : Nat} (hc : c < 32) (c' : Nat) :
    hailoTestBit c' (channelBit c) = decide (c' = c) := by
  have hlt : 2 ^ c < 2 ^ 32 := Nat.pow_lt_pow_right (by decide) hc
  rw [hailoTestBit, channelBit, UInt32.toNat_ofNat_of_lt' hlt, Nat.testBit_two_pow]
  exact decide_eq_decide.mpr eq_comm

theorem usesChannel_lt {bitmap : UInt16} {c : Nat} (h : usesChannel bitmap c = true) : c < 16 := by
  by_contra hc
  have hlt : bitmap.toNat < 2 ^ c :=
    Nat.lt_of_lt_of_le bitmap.toNat_lt (Nat.pow_le_pow_right (by decide) (Nat.not_lt.mp hc))
  rw [usesChannel, Nat.testBit_lt_two_pow hlt] at h
  cases h

theorem usesChannel_clear (bitmap : UInt16) (channels : UInt32) (c : Nat) :
    usesChannel (bitmap &&& (~~~channels).toUInt16) c =
      (usesChannel bitmap c && !hailoTestBit c channels) := by
  rw [usesChannel, UInt16.toNat_and, Nat.testBit_and, ← usesChannel]
  cases hused : usesChannel bitmap c with
  | false => rfl
  | true =>
    have hc := usesChannel_lt hused
    have hnot := hailoTestBit_and_not c (channelBit c) channels
    rw [hailoTestBit_and, hailoTestBit_channelBit (by omega), decide_eq_true rfl, Bool.true_and,
      Bool.true_and] at hnot
    rw [Bool.true_and, Bool.true_and, UInt32.toNat_toUInt16, Nat.testBit_mod_two_pow,
      decide_eq_true hc, Bool.true_and, ← hnot, hailoTestBit]

theorem bitmap_eq_zero_iff {bitmap : UInt16} :
    bitmap = 0 ↔ ∀ c, usesChannel bitmap c = false := by
  constructor
  · rintro rfl c
    exact Nat.zero_testBit c
  · intro h
    refine UInt16.toNat_inj.mp (Nat.eq_of_testBit_eq fun c => ?_)
    rw [← usesChannel, h c]
    exact (Nat.zero_testBit c).symm

end Bits

theorem process_bit {s : TransferSystem} {channel : HailoPcieBootDmaChannelState} {c : Nat}
    (hc : c < 32) (c' : Nat) :
    hailoTestBit c' (s.process channel c).pending =
      (hailoTestBit c' s.pending ||
        (raisesHostInterrupt (channel.hostDescriptorsBuffer.descList (s.processed c)) &&
          decide (c' = c))) := by
  rw [TransferSystem.process]
  simp only
  split
  · next hraises => rw [hailoTestBit_or, hailoTestBit_channelBit hc, hraises, Bool.true_and]
  · next hquiet => rw [Bool.eq_false_iff.mpr hquiet, Bool.false_and, Bool.or_false]

section Handler
variable {irqSource : HailoPcieInterruptSource} {fwBoot : HailoPcieFwBoot}

/-- The channels that are still waited for behind a boot interrupt. -/
theorem usesChannel_completeBoot (c : Nat) :
    usesChannel (completeBoot irqSource fwBoot).bootUsedChannelBitmap c =
      (usesChannel fwBoot.bootUsedChannelBitmap c &&
        (irqSource.swInterrupts &&& hailoPcieBootIrq != 0 ||
          !hailoTestBit c irqSource.vdmaChannelsBitmap)) := by
  unfold completeBoot
  split
  · next hboot => rw [bne_iff_ne.mpr hboot, Bool.true_or, Bool.and_true]
  · next hboot =>
    rw [ne_eq, not_not] at hboot
    rw [usesChannel_clear, hboot]
    rfl

theorem signalled_completeBoot
    (h : fwBoot.vdmaBootCompletion.done ≠ 0 ↔ fwBoot.bootUsedChannelBitmap = 0) :
    (completeBoot irqSource fwBoot).vdmaBootCompletion.done ≠ 0 ↔
      (completeBoot irqSource fwBoot).bootUsedChannelBitmap = 0 := by
  unfold completeBoot
  split
  · exact h
  · simp only
    split
    · next hzero => exact iff_of_true (show uintMax ≠ 0 by decide) hzero
    · next hne =>
      refine iff_of_false (fun hdone => hne ?_) hne
      rw [h.mp hdone]
      exact UInt16.zero_and

end Handler

section Waiting
variable {boot : BootState} {s s' : TransferSystem}

/-- A channel that is used is done if and only if its bit is set or was handled. -/
structure Awaited (boot : BootState) (s : TransferSystem) : Prop where
  used : ∀ c, usesChannel boot.bootUsedChannelBitmap c = true →
    (s.processed c = (boot.channels c).descProgramNum.toNat ↔
      hailoTestBit c s.pending = true ∨ usesChannel s.fwBoot.bootUsedChannelBitmap c = false)
  unused : ∀ c, usesChannel boot.bootUsedChannelBitmap c = false →
    usesChannel s.fwBoot.bootUsedChannelBitmap c = false
  signalled : s.fwBoot.vdmaBootCompletion.done ≠ 0 ↔ s.fwBoot.bootUsedChannelBitmap = 0

theorem Awaited.waitsForChannels (h : Awaited boot s) : WaitsForChannels boot s where
  onlyOnce hzero c hc := (h.used c hc).mpr (Or.inr (bitmap_eq_zero_iff.mp hzero c))
  once hall hquiet := by
    refine bitmap_eq_zero_iff.mpr fun c => ?_
    cases hc : usesChannel boot.bootUsedChannelBitmap c with
    | false => exact h.unused c hc
    | true =>
      cases (h.used c hc).mp (hall c hc) with
      | inl hpending =>
        rw [hquiet, hailoTestBit_zero] at hpending
        cases hpending
      | inr hcleared => exact hcleared
  signalled := h.signalled

theorem awaited_transferStart (fwLoadedCompletion : Completion)
    (hfirst : usesChannel boot.bootUsedChannelBitmap 0 = true)
    (honce : ∀ c, usesChannel boot.bootUsedChannelBitmap c = true →
      InterruptsOnce (boot.channels c)) : Awaited boot (transferStart boot fwLoadedCompletion) where
  used c hc := by
    obtain ⟨last, hlast, -⟩ := honce c hc
    refine iff_of_false (fun hdone => ?_) ?_
    · rw [← hlast] at hdone
      cases hdone
    · rintro (hpending | hcleared)
      · cases (hailoTestBit_zero c).symm.trans hpending
      · cases hc.symm.trans hcleared
  unused c hc := hc
  signalled := by
    refine iff_of_false (fun hdone => hdone rfl) fun hzero => ?_
    cases hfirst.symm.trans (bitmap_eq_zero_iff.mp hzero 0)

/-- The bit of a channel comes with the last of its descriptors. -/
theorem Awaited.process (h : Awaited boot s)
    (honce : ∀ c, usesChannel boot.bootUsedChannelBitmap c = true →
      InterruptsOnce (boot.channels c)) {c : Nat} (hc : c < 32)
    (hleft : s.processed c < (boot.channels c).descProgramNum.toNat) :
    Awaited boot (s.process (boot.channels c) c) := by
  refine ⟨fun c' hc' => ?_, h.unused, h.signalled⟩
  have hbit : hailoTestBit c' (s.process (boot.channels c) c).pending =
      (hailoTestBit c' s.pending || (raisesHostInterrupt
        ((boot.channels c).hostDescriptorsBuffer.descList (s.processed c)) && decide (c' = c))) :=
    process_bit hc c'
  have hold := h.used c' hc'
  by_cases hsame : c' = c
  · subst hsame
    have hprocessed : (s.process (boot.channels c') c').processed c' = s.processed c' + 1 :=
      Function.update_self _ _ _
    obtain ⟨last, hlast, honly⟩ := honce c' hc'
    have hwaiting := mt hold.mpr hleft.ne
    rw [not_or] at hwaiting
    rw [hprocessed, hbit, Bool.eq_false_iff.mpr hwaiting.1, decide_eq_true rfl, Bool.and_true,
      Bool.false_or, honly _ hleft]
    have hstill : usesChannel (s.process (boot.channels c') c').fwBoot.bootUsedChannelBitmap c' ≠
      false := hwaiting.2
    rw [or_iff_left hstill]
    omega
  · have hprocessed : (s.process (boot.channels c) c).processed c' = s.processed c' :=
      Function.update_of_ne hsame _ _
    rw [hprocessed, hbit, decide_eq_false hsame, Bool.and_false, Bool.or_false]
    exact hold

/-- Bits that the handler takes are cleared in the bitmap. -/
theorem Awaited.handle (h : Awaited boot s) {irqSource : HailoPcieInterruptSource}
    (hkept : ¬ TransferEvent.DropsChannels (.bootIrqHandler irqSource))
    (hset : irqSource.vdmaChannelsBitmap &&& ~~~s.pending = 0) :
    Awaited boot (s.handle irqSource) := by
  have hboot (c : Nat) (hc : hailoTestBit c irqSource.vdmaChannelsBitmap = true) :
      (irqSource.swInterrupts &&& hailoPcieBootIrq != 0) = false := by
    rw [Bool.eq_false_iff, ne_eq, bne_iff_ne]
    refine fun hboot => hkept ⟨hboot, fun hzero => ?_⟩
    rw [hzero, hailoTestBit_zero] at hc
    cases hc
  refine ⟨fun c hc => ?_, fun c hc => ?_, signalled_completeBoot h.signalled⟩
  · have hpending : hailoTestBit c (s.handle irqSource).pending =
        (hailoTestBit c s.pending && !hailoTestBit c irqSource.vdmaChannelsBitmap) :=
      hailoTestBit_and_not c _ _
    have hbitmap : usesChannel (s.handle irqSource).fwBoot.bootUsedChannelBitmap c =
        (usesChannel s.fwBoot.bootUsedChannelBitmap c &&
          (irqSource.swInterrupts &&& hailoPcieBootIrq != 0 ||
            !hailoTestBit c irqSource.vdmaChannelsBitmap)) := usesChannel_completeBoot c
    have hprocessed : (s.handle irqSource).processed c = s.processed c := rfl
    rw [hprocessed, h.used c hc, hpending, hbitmap]
    cases htaken : hailoTestBit c irqSource.vdmaChannelsBitmap with
    | false => simp only [Bool.not_false, Bool.and_true, Bool.or_true]
    | true =>
      have hwas := hailoTestBit_and_not c irqSource.vdmaChannelsBitmap s.pending
      rw [hset, hailoTestBit_zero, htaken, Bool.true_and] at hwas
      refine iff_of_true (Or.inl (Bool.not_inj (hwas.symm.trans Bool.not_true.symm))) (Or.inr ?_)
      rw [hboot c htaken, Bool.not_true, Bool.or_false, Bool.and_false]
  · change usesChannel (completeBoot irqSource s.fwBoot).bootUsedChannelBitmap c = false
    rw [usesChannel_completeBoot, h.unused c hc, Bool.false_and]

theorem Awaited.step (h : Awaited boot s)
    (honce : ∀ c, usesChannel boot.bootUsedChannelBitmap c = true →
      InterruptsOnce (boot.channels c)) {event : TransferEvent} (hkept : ¬ event.DropsChannels)
    (hstep : BootTransfer.step boot s event = some s') : Awaited boot s' := by
  cases event with
  | processDescriptor c =>
    rw [BootTransfer.step] at hstep
    split at hstep
    · next hleft =>
      cases hstep
      have hc : c < 8 := hleft.1
      exact h.process honce (by omega) hleft.2
    · cases hstep
  | bootIrqHandler irqSource =>
    rw [BootTransfer.step] at hstep
    split at hstep
    · next hset =>
      cases hstep
      exact h.handle hkept hset
    · cases hstep

/-- The channel is waited for, and its bit is not on its way. -/
def Unannounced (c : Nat) (s : TransferSystem) : Prop :=
  hailoTestBit c s.pending = false ∧ usesChannel s.fwBoot.bootUsedChannelBitmap c = true

theorem Unannounced.step {c : Nat} (h : Unannounced c s)
    (hquiet : ∀ d < (boot.channels c).descProgramNum.toNat,
      raisesHostInterrupt ((boot.channels c).hostDescriptorsBuffer.descList d) = false)
    {event : TransferEvent} (hstep : BootTransfer.step boot s event = some s') :
    Unannounced c s' := by
  obtain ⟨hpending, hbitmap⟩ := h
  cases event with
  | processDescriptor c' =>
    rw [BootTransfer.step] at hstep
    split at hstep
    · next hleft =>
      cases hstep
      have hc' : c' < 8 := hleft.1
      refine ⟨?_, hbitmap⟩
      rw [process_bit (by omega), hpending, Bool.false_or]
      by_cases hsame : c = c'
      · subst hsame
        rw [hquiet _ hleft.2, Bool.false_and]
      · rw [decide_eq_false hsame, Bool.and_false]
    · cases hstep
  | bootIrqHandler irqSource =>
    rw [BootTransfer.step] at hstep
    split at hstep
    · next hset =>
      cases hstep
      have hreported : hailoTestBit c irqSource.vdmaChannelsBitmap = false := by
        have hnot := hailoTestBit_and_not c irqSource.vdmaChannelsBitmap s.pending
        rwa [hset, hailoTestBit_zero, hpending, Bool.not_false, Bool.and_true, eq_comm] at hnot
      refine ⟨?_, ?_⟩
      · rw [TransferSystem.handle, hailoTestBit_and_not, hpending, Bool.false_and]
      · rw [TransferSystem.handle, usesChannel_completeBoot, hbitmap, hreported, Bool.not_false,
          Bool.or_true, Bool.and_true]
    · cases hstep

/-- A channel that never interrupts is waited for forever. -/
theorem bitmap_ne_zero_of_quiet {c : Nat} (h : Unannounced c s)
    (hquiet : ∀ d < (boot.channels c).descProgramNum.toNat,
      raisesHostInterrupt ((boot.channels c).hostDescriptorsBuffer.descList d) = false)
    {events : List TransferEvent} (hrun : runEvents boot s events = some s') :
    s'.fwBoot.bootUsedChannelBitmap ≠ 0 := by
  have hstill : Unannounced c s' :=
    inv_of_events (fun _ _ _ h _ hstep => h.step hquiet hstep)
      (fun _ _ => trivial) hrun h
  intro hzero
  cases hstill.2.symm.trans (bitmap_eq_zero_iff.mp hzero c)

end Waiting

section Batch
variable {request : FirmwareStore} {rounds : Nat} {stageInfo : HailoPcieLoadingStage}
  {boot boot' : BootState}

/-- After a batch, each channel that is used interrupts once, with its last descriptor, and
the bitmap waits for just these, if and only if no file but the last ends a channel with a
page that it does not fill. -/
theorem waitsForChannels_iff (hfiles : NonemptyFiles request stageInfo.files)
    (hfresh : FreshBoot boot) (hbitmap : boot.bootUsedChannelBitmap = 1)
    (hfit : descsOf (fileSizes request stageInfo.files) ≤ hailoPciOverVdmaNumChannels * 65535)
    (hrun : pcieVdmaProgramEntireBatch request rounds stageInfo boot = .ok (some (0, boot'))) :
    ((∀ c, usesChannel boot'.bootUsedChannelBitmap c = true → InterruptsOnce (boot'.channels c)) ∧
        ∀ fwLoadedCompletion events s, (∀ event ∈ events, ¬ event.DropsChannels) →
          runEvents boot' (transferStart boot' fwLoadedCompletion) events = some s →
            WaitsForChannels boot' s) ↔
      ChannelsEndWhole (fileSizes request stageInfo.files) := by
  have h := programmed_of_run hfiles hfresh hfit hrun
  have hpos := fileSizes_pos hfiles (programFiles_loaded hfiles.named hrun (by decide))
  have hempty : stageInfo.files.isEmpty = (fileSizes request stageInfo.files).isEmpty := by
    rw [fileSizes, List.isEmpty_map]
  rw [hempty] at h
  have honce := interruptsOnce_iff h hbitmap hpos hfit
  constructor
  · exact fun hwaits => honce.mp hwaits.1
  · intro hends
    refine ⟨honce.mpr hends, fun fwLoadedCompletion events s hkept hsteps => ?_⟩
    have hfirst := (usesChannel_iff h hbitmap).mpr (Nat.zero_le _)
    have hawaited : Awaited boot' s :=
      inv_of_events (fun _ _ _ h hkept hstep => h.step (honce.mpr hends) hkept hstep) hkept hsteps
        (awaited_transferStart fwLoadedCompletion hfirst (honce.mpr hends))
    exact hawaited.waitsForChannels

end Batch

/-- Two files of 65535 descriptors together, the second with one byte on its last page. -/
def shortSecondFile (name : Option String) : Nat :=
  if name = some "hailo/hailo10h/u-boot-spl.bin" then 16777216
  else if name = some "hailo/hailo10h/u-boot-tfa.itb" then 16776193
  else 1

theorem shortSecondFile_spec (name : Option String) :
    0 < shortSecondFile name ∧ shortSecondFile name ≤ 16777216 := by
  unfold shortSecondFile
  split
  · decide
  · split
    · decide
    · decide

theorem shortSecondFile_lt (name : Option String) : shortSecondFile name < 2 ^ 64 :=
  (shortSecondFile_spec name).2.trans_lt (by decide)

theorem fileSizes_shortSecondFile :
    fileSizes (imagesOf shortSecondFile_lt) linuxStage.files = [16777216, 16776193, 1, 1] := by
  rw [fileSizes_imagesOf]
  decide

/-- The first channel ends with the page of one byte, which raises no interrupt, and the boot
is never complete. -/
theorem shortSecondFile_stuck :
    NonemptyFiles (imagesOf shortSecondFile_lt) linuxStage.files ∧ FreshBoot emptyBoot ∧
      emptyBoot.bootUsedChannelBitmap = 1 ∧
      ∃ boot', pcieVdmaProgramEntireBatch (imagesOf shortSecondFile_lt) 16777216 linuxStage
          emptyBoot = .ok (some (0, boot')) ∧
        usesChannel boot'.bootUsedChannelBitmap 0 = true ∧ ¬ InterruptsOnce (boot'.channels 0) ∧
        ∀ fwLoadedCompletion events s,
          runEvents boot' (transferStart boot' fwLoadedCompletion) events = some s →
            s.fwBoot.bootUsedChannelBitmap ≠ 0 := by
  have hfiles := (linuxStage_bootFiles shortSecondFile_lt
    fun name => (shortSecondFile_spec name).1).toNonemptyFiles
  have hfit : descsOf (fileSizes (imagesOf shortSecondFile_lt) linuxStage.files) ≤
      hailoPciOverVdmaNumChannels * 65535 := by
    rw [fileSizes_shortSecondFile]
    decide
  obtain ⟨boot', hrun⟩ := linuxStage_total shortSecondFile_lt
    (fun name => (shortSecondFile_spec name).1) (fun name => (shortSecondFile_spec name).2)
    (by rwa [← fileSizes_imagesOf shortSecondFile_lt])
  refine ⟨hfiles, emptyBoot_fresh, rfl, boot', hrun, ?_⟩
  have h := programmed_of_run hfiles emptyBoot_fresh hfit hrun
  have hsome : (!linuxStage.files.isEmpty) = true := by decide
  rw [fileSizes_shortSecondFile, hsome] at h
  have hlen : (pagesFrom 512 0 [16777216, 16776193, 1, 1]).length = 65537 := by
    rw [length_pagesFrom]
    decide
  have hlast : 0 * 65535 + 65534 < (pagesFrom 512 0 [16777216, 16776193, 1, 1]).length := by
    rw [hlen]
    decide
  have hshort := (partial_iff (by decide) hlast).mpr ⟨1, by decide, by decide, by decide⟩
  have hquiet := quiet_of_short h (by decide : 0 < 8) (by rw [hlen]; decide) hlast hshort
  have hused := (usesChannel_iff h rfl).mpr (Nat.zero_le _)
  refine ⟨hused, ?_, fun fwLoadedCompletion events s hsteps =>
    bitmap_ne_zero_of_quiet ⟨hailoTestBit_zero 0, hused⟩ hquiet hsteps⟩
  rintro ⟨last, hlast, honly⟩
  have hraises := (honly last (by omega)).mpr rfl
  rw [hquiet last (by omega)] at hraises
  cases hraises

theorem waitsForChannels_iff_linuxStage :
    ∃ boot', pcieVdmaProgramEntireBatch (imagesOf hundredBytes_lt) 100 linuxStage emptyBoot =
        .ok (some (0, boot')) ∧
      (∀ c, usesChannel boot'.bootUsedChannelBitmap c = true →
        InterruptsOnce (boot'.channels c)) ∧
      ∀ fwLoadedCompletion events s, (∀ event ∈ events, ¬ event.DropsChannels) →
        runEvents boot' (transferStart boot' fwLoadedCompletion) events = some s →
          WaitsForChannels boot' s := by
  have hsizes : fileSizes (imagesOf hundredBytes_lt) linuxStage.files = [100, 100, 100, 100] := by
    rw [fileSizes_imagesOf]
    rfl
  obtain ⟨boot', hrun⟩ := linuxStage_total hundredBytes_lt (fun _ => by decide)
    (fun _ => le_rfl) (by decide)
  refine ⟨boot', hrun, (waitsForChannels_iff
    (linuxStage_bootFiles hundredBytes_lt fun _ => by decide).toNonemptyFiles emptyBoot_fresh rfl
    ?_ hrun).mpr ?_⟩
  · rw [hsizes]
    decide
  · rw [hsizes]
    have hinside : ∀ f < 3, ¬ 65535 ∣ descsOf ([100, 100, 100, 100].take (f + 1)) := by decide
    exact ⟨by decide, fun f size hf _ hend => absurd hend (hinside f (Nat.lt_of_succ_lt_succ hf))⟩

end HailortDrivers.BootTransfer
