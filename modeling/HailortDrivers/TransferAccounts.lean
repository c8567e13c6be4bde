import HailortDrivers.ChannelHistories
import HailortDrivers.CompletionWindows
import HailortDrivers.LaunchOutcomes
import HailortDrivers.SystemSteps

/-!
What became of the transfers of every channel, over the requests of any number of files: how
many launches were accepted, and how many of these transfers were reported as completed, taken
off without being reported, or dropped with their channel.
-/
namespace HailortDrivers.TransferAccounts
open KernelExec VdmaTypes ChannelTransfers OngoingRing VdmaEngine CompletionSteps EngineSteps
open VdmaMemory VdmaIoctl VdmaSystem SystemSteps ChannelHistories EventRuns
open LaunchSteps (ChecksPass RingFull programReturns launch_outcome)

section Entries
variable {n : Nat}

/-- The entry is one of the channel. -/
def isOf (c : Channel n) (data : HailoVdmaInterruptsChannelData) : Bool :=
  data.engineIndex = UInt8.ofNat c.1 ∧ data.channelIndex = UInt8.ofNat c.2

/-- The two largest values say what is wrong with the channel. -/
def isNumber (data : HailoVdmaInterruptsChannelData) : Bool :=
  data.data < vdmaTransferDataChannelWithError

/-- The completions that a result of the wait tells of. -/
def numReported (irqData : List HailoVdmaInterruptsChannelData) (c : Channel n) : Nat :=
  ((irqData.filter (isOf c)).map fun data => if isNumber data then data.data.toNat else 0).sum

def tellsError (irqData : List HailoVdmaInterruptsChannelData) (c : Channel n) : Bool :=
  (irqData.filter (isOf c)).any fun data => !isNumber data

def numOngoing (kernel : KernelState n) (c : Channel n) : Nat :=
  (ongoing (channelAt kernel c).ongoingTransfers).length

end Entries

/-- Numbers of transfers, for each channel. -/
structure Tally (n : Nat) where
  launched : Channel n → Nat
  reported : Channel n → Nat
  hidden : Channel n → Nat
  dropped : Channel n → Nat

section Steps
variable {n : Nat}

/-- The entries that a wait has filled when it copies them to the user. -/
def filledData (s : SystemState n) : Request n → List HailoVdmaInterruptsChannelData
  | .interruptsWait filp bitmaps regs =>
    match s.files filp, hailoVdmaInterruptsWaitIoctl s.kernel bitmaps regs with
    | some _, .ok (ret, c) => if ret < 0 then [] else c.irqData
    | _, _ => []
  | _ => []

/-- The channel that a launch was accepted for. -/
def accepts (request : Request n) (ret : Int32) (c : Channel n) : Bool :=
  match request with
  | .launchTransfer _ params _ =>
    params.engineIndex.toNat = c.1 ∧ params.channelIndex.toNat = c.2 ∧ 0 ≤ ret.toInt
  | _ => false

def isWait : Request n → Bool
  | .interruptsWait _ _ _ => true
  | _ => false

def givesUp : Request n → Bool
  | .disableChannels _ _ | .closeFile _ => true
  | _ => false

/-- `copied` tells whether the result of a wait could be copied to the user. -/
def Tally.note (t : Tally n) (s : SystemState n) (request : Request n) (copied : Bool)
    (ret : Int32) (s' : SystemState n) : Tally n where
  launched c := t.launched c + if accepts request ret c then 1 else 0
  reported c := t.reported c + if copied then numReported (filledData s request) c else 0
  hidden c := t.hidden c +
    if isWait request ∧ (copied = false ∨ tellsError (filledData s request) c) then
      numOngoing s.kernel c - numOngoing s'.kernel c
    else 0
  dropped c := t.dropped c +
    if givesUp request then numOngoing s.kernel c - numOngoing s'.kernel c else 0

structure Audited (n : Nat) where
  system : SystemState n
  tally : Tally n

variable (vdmaHw : HailoVdmaHw)

/-- A request that runs to its end, with what it adds to the tally. -/
def AuditedSteps (Admitted : SystemState n → Request n → Prop) (s s' : Audited n) : Prop :=
  ∃ request copied ret, Admitted s.system request ∧
    handle vdmaHw s.system request = .ok (ret, s'.system) ∧
    s'.tally = s.tally.note s.system request copied ret s'.system

def auditedStart (memory : Fin n → HailoVdmaEngine) : Audited n where
  system := initialState memory
  tally := ⟨fun _ => 0, fun _ => 0, fun _ => 0, fun _ => 0⟩

/-- Every transfer that was accepted is reported, hidden, dropped or ongoing, and no other is. -/
def Balanced (s : Audited n) : Prop :=
  ∀ c, s.tally.launched c = s.tally.reported c + s.tally.hidden c + s.tally.dropped c +
    numOngoing s.system.kernel c

/-- Unless the launch is turned down, what programming its buffers returns does not add up to a
negative number. -/
def TellsLaunch (s : SystemState n) : Request n → Prop
  | .launchTransfer filp params regs =>
    ∀ context descriptors mapped descList (c : Channel n), s.files filp = some context →
      params.engineIndex.toNat = c.1 → params.channelIndex.toNat = c.2 →
      params.buffers.length ≤ hailoMaxBuffersPerSingleTransfer →
      hailoVdmaFindDescriptorsBuffer context params.descHandle = some descriptors →
      mapTransferBuffers context s.kernel.buffers
        (if hailoTestBit params.channelIndex.toNat vdmaHw.srcChannelsBitmask then
          DmaDataDirection.toDevice else .fromDevice) params.buffers = .ok (.ok mapped) →
      loadDescList s.kernel.descLists (some descriptors.descListAddress) = .ok descList →
      ChecksPass (channelAt s.kernel c) descriptors.descListAddress regs params.startingDesc
        mapped →
      ¬ RingFull (channelAt s.kernel c) →
      ∀ rets, programReturns vdmaHw params.shouldBind (channelAt s.kernel c).index
        params.lastInterruptsDomain params.isDebug mapped params.startingDesc descList =
          .ok rets → 0 ≤ rets.sum.toInt
  | _ => True

end Steps

section Read
variable {n : Nat} {σ : Type} {transferDone : HailoOngoingTransfer → σ → Exec σ}
  {bitmap : UInt32} {regs : ChannelIndex → ChannelRegs} {c c' : FillCursor σ}
  {turns : List ChannelTurn} {ret : Int32} {e : Fin n} {i : ChannelIndex}

theorem ofNat_inj {a b : Nat} (ha : a < 256) (hb : b < 256) (h : UInt8.ofNat a = UInt8.ofNat b) :
    a = b := by
  have hnat := congrArg UInt8.toNat h
  rw [UInt8.toNat_ofNat', UInt8.toNat_ofNat'] at hnat
  omega

/-- A number tells how many transfers the turn took off; the ring is too small for it to be one
of the two special values. -/
theorem channelData_number {engineIndex : UInt8} {channel : HailoVdmaChannel}
    {regs : ChannelRegs} {heap : DescListHeap} {done : σ} {removed : List HailoOngoingTransfer}
    {cc : CompletionCursor σ}
    (hcompletes : Completes transferDone (readHwNumProc channel regs)
      ⟨channel, heap, done, 0, true, false⟩ removed cc)
    (hnumber : isNumber (channelData engineIndex channel regs cc) = true) :
    (channelData engineIndex channel regs cc).data.toNat = removed.length := by
  have hzero : (0 : UInt8).toNat = 0 := rfl
  have hring := length_ongoing_lt channel.ongoingTransfers
  have hlen := congrArg List.length hcompletes.ongoing_eq
  rw [List.length_append] at hlen
  simp only at hlen
  have htotal := CompletionWindows.Completes.transfersCompleted hcompletes
    (by simp only [hzero]; omega)
  simp only [hzero, Nat.zero_add] at htotal
  rw [← htotal]
  rw [isNumber, decide_eq_true_eq] at hnumber
  simp only [channelData] at hnumber ⊢
  split at hnumber
  · exact absurd hnumber (by decide)
  · next hactive =>
    split at hnumber
    · exact absurd hnumber (by decide)
    · next hvalid => rw [if_neg hactive, if_neg hvalid]

/-- What the entries tell of a channel, and what they take off without telling. -/
def Accounts (irqData : List HailoVdmaInterruptsChannelData) (c : Channel n)
    (before after : HailoVdmaChannel) : Prop :=
  numReported irqData c + (if tellsError irqData c then
      (ongoing before.ongoingTransfers).length - (ongoing after.ongoingTransfers).length else 0) +
    (ongoing after.ongoingTransfers).length = (ongoing before.ongoingTransfers).length

theorem accounts_untouched {irqData : List HailoVdmaInterruptsChannelData} {c : Channel n}
    (h : irqData.filter (isOf c) = []) (channel : HailoVdmaChannel) :
    Accounts irqData c channel channel := by
  simp [Accounts, numReported, tellsError, h]

/-- The entry of a turn is one of its channel, and of no other. -/
theorem isOf_turn (h : Fills transferDone bitmap regs (List.finRange maxVdmaChannelsPerEngine) c
      turns ret c') (hindexed : Indexed (UInt8.ofNat e) c.engine) {turn : ChannelTurn}
    (hturn : turn ∈ turns) : isOf (e, i) turn.data = decide (turn.channel = i) := by
  obtain ⟨heap, done, cc, -, -, -, hdata, -⟩ := h.turn_of_mem (List.nodup_finRange _) hturn
  have hown : turn.data.engineIndex = UInt8.ofNat e := by
    rw [hdata]
    exact hindexed.own
  have hchannel : turn.data.channelIndex = UInt8.ofNat turn.channel := by
    rw [hdata]
    exact hindexed.channels turn.channel
  simp only [isOf, hown, hchannel, true_and, decide_eq_decide]
  have hlt (j : ChannelIndex) : (j : Nat) < 256 := Nat.lt_trans j.isLt (by decide)
  exact ⟨fun heq => Fin.ext (ofNat_inj (hlt _) (hlt _) heq), fun heq => by rw [heq]⟩

/-- The turns of an engine account for its channels. -/
theorem fills_accounts (h : Fills transferDone bitmap regs
      (List.finRange maxVdmaChannelsPerEngine) c turns ret c')
    (hindexed : Indexed (UInt8.ofNat e) c.engine) (i : ChannelIndex) :
    Accounts (turns.map ChannelTurn.data) (e, i) (c.engine.channels i)
      (c'.engine.channels i) := by
  by_cases hturn : ∃ turn ∈ turns, turn.channel = i
  · obtain ⟨turn, hmem, rfl⟩ := hturn
    obtain ⟨heap, done, cc, -, -, hcompletes, hdata, hafter⟩ :=
      h.turn_of_mem (List.nodup_finRange _) hmem
    have hnodup := h.channels_sublist.nodup (List.nodup_finRange _)
    have hsingle : (turns.map ChannelTurn.data).filter (isOf (e, turn.channel)) =
        [turn.data] := by
      obtain ⟨before, after, rfl⟩ := List.append_of_mem hmem
      rw [List.map_append, List.map_cons, List.nodup_middle, List.nodup_cons, List.mem_append,
        not_or] at hnodup
      obtain ⟨⟨hbefore, hafter⟩, -⟩ := hnodup
      have hother {other : ChannelTurn} (hother : other ∈ before ++ turn :: after)
          (hne : other.channel ≠ turn.channel) : isOf (e, turn.channel) other.data = false := by
        rw [isOf_turn h hindexed hother, decide_eq_false hne]
      have hnone {part : List ChannelTurn} (hsub : part ⊆ before ++ turn :: after)
          (hpart : turn.channel ∉ part.map ChannelTurn.channel) :
          (part.map ChannelTurn.data).filter (isOf (e, turn.channel)) = [] := by
        rw [List.filter_eq_nil_iff]
        intro data hdata
        obtain ⟨other, hmem, rfl⟩ := List.mem_map.mp hdata
        rw [hother (hsub hmem) fun heq => hpart (heq ▸ List.mem_map_of_mem hmem)]
        exact Bool.false_ne_true
      have hown : isOf (e, turn.channel) turn.data = true := by
        rw [isOf_turn h hindexed hmem, decide_eq_true rfl]
      rw [List.map_append, List.map_cons, List.filter_append, List.filter_cons_of_pos hown,
        hnone (fun _ hother => List.mem_append_left _ hother) hbefore,
        hnone (fun _ hother => List.mem_append_right _ (List.mem_cons_of_mem _ hother)) hafter,
        List.nil_append]
    have hlength := congrArg List.length hcompletes.ongoing_eq
    rw [List.length_append] at hlength
    rw [Accounts, numReported, tellsError, hsingle, hafter]
    simp only [List.map_cons, List.map_nil, List.sum_cons, List.sum_nil, Nat.add_zero,
      List.any_cons, List.any_nil, Bool.or_false, Bool.not_eq_true']
    simp only at hlength
    cases hnumber : isNumber turn.data with
    | true =>
      have htaken : turn.data.data.toNat = turn.removed.length := by
        rw [hdata] at hnumber ⊢
        exact channelData_number hcompletes hnumber
      simp only [if_true, Bool.true_eq_false, if_false]
      omega
    | false =>
      simp only [Bool.false_eq_true, if_false, if_true]
      omega
  · have hnone : (turns.map ChannelTurn.data).filter (isOf (e, i)) = [] := by
      rw [List.filter_eq_nil_iff]
      intro data hdata
      obtain ⟨turn, hmem, rfl⟩ := List.mem_map.mp hdata
      rw [isOf_turn h hindexed hmem, decide_eq_false fun heq => hturn ⟨turn, hmem, heq⟩]
      exact Bool.false_ne_true
    rw [h.channels_of_no_turn]
    · exact accounts_untouched hnone _
    · intro hmem
      obtain ⟨turn, hmem, heq⟩ := List.mem_map.mp hmem
      exact hturn ⟨turn, hmem, heq⟩

theorem Indexed.fills {is : List ChannelIndex} {engineIndex : UInt8}
    (h : Fills transferDone bitmap regs is c turns ret c')
    (hindexed : Indexed engineIndex c.engine) : Indexed engineIndex c'.engine := by
  refine h.inv (I := fun c => Indexed engineIndex c.engine) ?_ hindexed
  intro c i data removed cc hindexed _ _ hcompletes
  exact hindexed.setChannel hcompletes.sameChannel.index

end Read

section Wait
variable {n : Nat} {bitmaps : Nat → UInt32} {regs : Fin n → ChannelIndex → ChannelRegs}
  {c c' : WaitCursor n} {ret : Int32}

def AllIndexed (kernel : KernelState n) : Prop :=
  ∀ e : Fin n, Indexed (UInt8.ofNat e) (kernel.engines e)

/-- What the engines of a wait do. -/
structure WaitsFor (es : List (Fin n)) (c c' : WaitCursor n)
    (new : List HailoVdmaInterruptsChannelData) : Prop where
  indexed : AllIndexed c'.kernel
  filled : c'.irqData = c.irqData ++ new
  ofEngines : ∀ data ∈ new, ∃ e ∈ es, data.engineIndex = UInt8.ofNat e
  others : ∀ e, e ∉ es → c'.kernel.engines e = c.kernel.engines e
  accounts : ∀ e ∈ es, ∀ i, Accounts new (e, i) (channelAt c.kernel (e, i))
    (channelAt c'.kernel (e, i))

theorem filter_ofEngines (hn : n ≤ maxVdmaEngines) {es : List (Fin n)}
    {new : List HailoVdmaInterruptsChannelData}
    (h : ∀ data ∈ new, ∃ e ∈ es, data.engineIndex = UInt8.ofNat e) {e : Fin n} (he : e ∉ es)
    (i : ChannelIndex) : new.filter (isOf (e, i)) = [] := by
  rw [List.filter_eq_nil_iff]
  intro data hdata hof
  obtain ⟨e', he', hengine⟩ := h data hdata
  have hlt (k : Fin n) : (k : Nat) < 256 :=
    Nat.lt_of_lt_of_le k.isLt (hn.trans (by decide))
  rw [isOf, decide_eq_true_eq, hengine] at hof
  have heq : e' = e := Fin.ext (ofNat_inj (hlt _) (hlt _) hof.1)
  exact he (heq ▸ he')

/-- Only the entries of the channel count. -/
theorem Accounts.congr {irqData irqData' : List HailoVdmaInterruptsChannelData} {ch : Channel n}
    {channel channel' : HailoVdmaChannel} (h : Accounts irqData ch channel channel')
    (hsame : irqData'.filter (isOf ch) = irqData.filter (isOf ch)) :
    Accounts irqData' ch channel channel' := by
  rw [Accounts, numReported, tellsError, hsame]
  exact h

/-- With an entry for each channel of the engines to come, the wait fills them all in. -/
theorem waitEngines_waitsFor (hn : n ≤ maxVdmaEngines) {es : List (Fin n)} (hnodup : es.Nodup)
    (hindexed : AllIndexed c.kernel)
    (hroom : c.irqData.length + es.length * maxVdmaChannelsPerEngine ≤ irqDataSize)
    (h : waitEngines bitmaps regs es c = .ok (ret, c')) :
    ret = 0 ∧ ∃ new, WaitsFor es c c' new := by
  induction es generalizing c with
  | nil =>
    cases h
    exact ⟨rfl, [], hindexed, (List.append_nil _).symm, nofun, fun _ _ => rfl, nofun⟩
  | cons e es ih =>
    obtain ⟨he, hnodup⟩ := List.nodup_cons.mp hnodup
    obtain ⟨⟨err, filled⟩, hfill, h⟩ := bind_ok h
    obtain ⟨turns, hfills⟩ := fillChannels_fills hfill
    have hread : Indexed (UInt8.ofNat e) (hailoVdmaEngineReadInterrupts (c.kernel.engines e)
        (bitmaps (c.kernel.engines e).index.toNat)).2 :=
      ⟨(hindexed e).own, (hindexed e).channels⟩
    rw [List.length_cons, Nat.add_mul, Nat.one_mul] at hroom
    have hturns : turns.length ≤ maxVdmaChannelsPerEngine := by
      have hlength := hfills.channels_sublist.length_le
      rwa [List.length_map, List.length_finRange] at hlength
    have hirqData : filled.irqData = c.irqData ++ turns.map ChannelTurn.data :=
      hfills.irqData_eq
    have hret : err = 0 := by
      refine hfills.ret_eq ?_
      rw [List.length_finRange]
      simp only
      omega
    subst hret
    simp only at h
    rw [if_neg (by decide)] at h
    obtain ⟨hret, new, hrest⟩ := ih hnodup (by
      intro e'
      by_cases hee : e' = e
      · subst hee
        simp only [Function.update_self]
        exact Indexed.fills hfills hread
      · simp only [Function.update_of_ne hee]
        exact hindexed e') (by
      simp only [hirqData, List.length_append, List.length_map]
      omega) h
    have hown : ∀ data ∈ turns.map ChannelTurn.data, ∃ e' ∈ [e],
        data.engineIndex = UInt8.ofNat e' := by
      intro data hdata
      obtain ⟨turn, hturn, rfl⟩ := List.mem_map.mp hdata
      obtain ⟨heap, done, cc, -, -, -, hentry, -⟩ :=
        hfills.turn_of_mem (List.nodup_finRange _) hturn
      refine ⟨e, List.mem_singleton_self e, ?_⟩
      rw [hentry]
      exact hread.own
    refine ⟨hret, turns.map ChannelTurn.data ++ new, hrest.indexed, ?_, ?_, ?_, ?_⟩
    · rw [hrest.filled, ← List.append_assoc, ← hirqData]
    · intro data hdata
      cases List.mem_append.mp hdata with
      | inl hturn =>
        obtain ⟨e', he', hengine⟩ := hown data hturn
        exact ⟨e', List.mem_cons.mpr (Or.inl (List.mem_singleton.mp he')), hengine⟩
      | inr hlater =>
        obtain ⟨e', he', hengine⟩ := hrest.ofEngines data hlater
        exact ⟨e', List.mem_cons_of_mem _ he', hengine⟩
    · intro e' he'
      obtain ⟨hee, hes⟩ := not_or.mp (mt List.mem_cons.mpr he')
      rw [hrest.others e' hes]
      exact Function.update_of_ne hee _ _
    · intro e' he' i
      by_cases hee : e' = e
      · subst hee
        have hnone := filter_ofEngines hn hrest.ofEngines he i
        have hengine : c'.kernel.engines e' = filled.engine :=
          (hrest.others e' he).trans (Function.update_self _ _ _)
        rw [channelAt, channelAt, hengine]
        refine (fills_accounts hfills hread i).congr ?_
        rw [List.filter_append, hnone, List.append_nil]
      · have hmem := (List.mem_cons.mp he').resolve_left hee
        have hnone := filter_ofEngines hn hown (fun hin => hee (List.mem_singleton.mp hin)) i
        have haccounts := hrest.accounts e' hmem i
        simp only [channelAt, Function.update_of_ne hee] at haccounts
        refine haccounts.congr ?_
        rw [List.filter_append, hnone, List.nil_append]

end Wait

section Indices
variable {n : Nat} {kernel kernel' : KernelState n}

theorem AllIndexed.update (h : AllIndexed kernel) {e : Fin n} {engine : HailoVdmaEngine}
    (hengine : Indexed (UInt8.ofNat e) engine) (descLists : DescListHeap) :
    AllIndexed (setEngine kernel e engine descLists) := by
  intro e'
  by_cases hee : e' = e
  · subst hee
    rw [setEngine_self]
    exact hengine
  · rw [setEngine_of_ne hee]
    exact h e'

theorem disableEngines_indexed {bitmaps : Fin n → UInt32} {es : List (Fin n)}
    (hindexed : AllIndexed kernel) (h : disableEngines bitmaps es kernel = .ok kernel') :
    AllIndexed kernel' := by
  induction es generalizing kernel with
  | nil =>
    cases h
    exact hindexed
  | cons e es ih =>
    obtain ⟨⟨engine, heap⟩, hdisable, h⟩ := bind_ok h
    refine ih ?_ h
    have hdisabled := (hindexed e).disable hdisable
    have hcleared : Indexed (UInt8.ofNat e)
        (hailoVdmaEngineClearChannelInterrupts engine (bitmaps e)) :=
      ⟨hdisabled.own, hdisabled.channels⟩
    exact hindexed.update hcleared heap

theorem waitIoctl_waitsFor (hn : n ≤ maxVdmaEngines) (hindexed : AllIndexed kernel)
    {bitmaps : Nat → UInt32} {regs : Fin n → ChannelIndex → ChannelRegs} {ret : Int32}
    {c : WaitCursor n} (h : hailoVdmaInterruptsWaitIoctl kernel bitmaps regs = .ok (ret, c)) :
    c.kernel = kernel ∧ c.irqData = [] ∧ ret = -einval ∨
      ret = 0 ∧ AllIndexed c.kernel ∧
        ∀ ch, Accounts c.irqData ch (channelAt kernel ch) (channelAt c.kernel ch) := by
  rw [hailoVdmaInterruptsWaitIoctl] at h
  split at h
  · cases h
    exact Or.inl ⟨rfl, rfl, rfl⟩
  · have hroom : ([] : List HailoVdmaInterruptsChannelData).length +
        (List.finRange n).length * maxVdmaChannelsPerEngine ≤ irqDataSize := by
      rw [List.length_nil, List.length_finRange, Nat.zero_add, Nat.mul_comm]
      exact Nat.mul_le_mul_left _ hn
    obtain ⟨hret, new, hwaits⟩ :=
      waitEngines_waitsFor hn (List.nodup_finRange n) hindexed hroom h
    refine Or.inr ⟨hret, hwaits.indexed, fun ch => ?_⟩
    have hfilled := hwaits.filled
    rw [List.nil_append] at hfilled
    rw [hfilled]
    exact hwaits.accounts ch.1 (List.mem_finRange _) ch.2

end Indices

section Launch
variable {n : Nat} {vdmaHw : HailoVdmaHw} {kernel kernel' : KernelState n}
  {context : HailoVdmaFileContext n} {params : HailoVdmaLaunchTransferParams}
  {regs : ChannelRegs} {ret : Int32}

theorem mapTransferBuffers_error {buffers : MappedBufferHeap} {direction : DmaDataDirection}
    {requested : List HailoVdmaTransferBuffer} {err : Int32}
    (h : mapTransferBuffers context buffers direction requested = .ok (.error err)) :
    err = -efault := by
  induction requested with
  | nil => cases h
  | cons buffer rest ih =>
    obtain ⟨found, -, h⟩ := bind_ok h
    cases found with
    | none =>
      cases h
      rfl
    | some address =>
      obtain ⟨mappedBuffer, -, h⟩ := bind_ok h
      obtain ⟨rest', hrest, h⟩ := bind_ok h
      cases rest' with
      | error err' =>
        cases h
        exact ih hrest
      | ok mapped => cases h

/-- What a launch does to the ring of its channel, and what it returns. -/
theorem launchTransfer_ring {channel channel' : HailoVdmaChannel} {descListAddress : Nat}
    {descList descList' : HailoVdmaDescriptorsList} {regs regs' : ChannelRegs}
    {startingDesc : UInt32} {mapped : List HailoVdmaMappedTransferBuffer} {shouldBind : Bool}
    {firstInterruptsDomain lastDescInterrupts : HailoVdmaInterruptsDomain} {isDebug : Bool}
    (h : hailoVdmaLaunchTransfer vdmaHw channel descListAddress descList regs startingDesc mapped
      shouldBind firstInterruptsDomain lastDescInterrupts isDebug =
        .ok (ret, channel', descList', regs')) :
    channel'.index = channel.index ∧
      ((ChecksPass channel descListAddress regs startingDesc mapped ∧ ¬ RingFull channel) ∧
        (ongoing channel'.ongoingTransfers).length =
          (ongoing channel.ongoingTransfers).length + 1 ∧
        (∃ rets, programReturns vdmaHw shouldBind channel.index lastDescInterrupts isDebug mapped
          startingDesc descList = .ok rets ∧ ret = rets.sum) ∨
      ¬ (ChecksPass channel descListAddress regs startingDesc mapped ∧ ¬ RingFull channel) ∧
        channel'.ongoingTransfers = channel.ongoingTransfers ∧ ret.toInt < 0) := by
  cases launch_outcome h with
  | otherList hsome hother =>
    refine ⟨rfl, Or.inr ⟨fun hpass => ?_, rfl, by decide⟩⟩
    exact hpass.1.sameList.elim hsome hother
  | rejected _ hret hsame hchecks => exact ⟨rfl, Or.inr ⟨fun hpass => hchecks hpass.1, rfl, hret⟩⟩
  | ringFull c hchecks hloop hfull =>
    exact ⟨rfl, Or.inr ⟨fun hpass => hpass.2 hfull, rfl, by decide⟩⟩
  | launched c hchecks hloop hroom hcount =>
    obtain ⟨rets, hrets, hrounds⟩ := LaunchSteps.launchBuffers_rounds hloop
    have hpushed := ongoing_pushed (fun hlen => hroom (ringFull_iff.mpr hlen))
      (LaunchSteps.launchedTransfer mapped isDebug c)
    refine ⟨rfl, Or.inl ⟨⟨hchecks, hroom⟩, ?_, rets, hrets, ?_⟩⟩
    · exact (congrArg List.length hpushed).trans (List.length_append ..)
    · exact hrounds.totalDescs.trans (Int32.zero_add _)

/-- The launch ioctl: turned down before a channel is touched, or a launch on its channel. -/
theorem launchIoctl_cases
    (h : hailoVdmaLaunchTransferIoctl vdmaHw kernel context params regs = .ok (ret, kernel')) :
    (kernel' = kernel ∧ ret.toInt < 0 ∧
      ∀ (c : Channel n) (descriptors : HailoDescriptorsListBuffer)
        (mapped : List HailoVdmaMappedTransferBuffer), params.engineIndex.toNat = c.1 →
        params.channelIndex.toNat = c.2 →
        params.buffers.length ≤ hailoMaxBuffersPerSingleTransfer →
        hailoVdmaFindDescriptorsBuffer context params.descHandle = some descriptors →
        mapTransferBuffers context kernel.buffers
          (if hailoTestBit params.channelIndex.toNat vdmaHw.srcChannelsBitmask then
            DmaDataDirection.toDevice else .fromDevice) params.buffers ≠ .ok (.ok mapped)) ∨
    ∃ (c : Channel n) (descriptors : HailoDescriptorsListBuffer)
      (mapped : List HailoVdmaMappedTransferBuffer) (descList descList' : HailoVdmaDescriptorsList)
      (channel' : HailoVdmaChannel) (regs' : ChannelRegs) (descLists' : DescListHeap),
      params.engineIndex.toNat = c.1 ∧ params.channelIndex.toNat = c.2 ∧
      params.buffers.length ≤ hailoMaxBuffersPerSingleTransfer ∧
      hailoVdmaFindDescriptorsBuffer context params.descHandle = some descriptors ∧
      mapTransferBuffers context kernel.buffers
        (if hailoTestBit params.channelIndex.toNat vdmaHw.srcChannelsBitmask then
          DmaDataDirection.toDevice else .fromDevice) params.buffers = .ok (.ok mapped) ∧
      loadDescList kernel.descLists (some descriptors.descListAddress) = .ok descList ∧
      hailoVdmaLaunchTransfer vdmaHw (channelAt kernel c) descriptors.descListAddress descList
        regs params.startingDesc mapped params.shouldBind params.firstInterruptsDomain
        params.lastInterruptsDomain params.isDebug = .ok (ret, channel', descList', regs') ∧
      kernel' = setEngine kernel c.1 (setChannel (kernel.engines c.1) c.2 channel')
        descLists' := by
  unfold hailoVdmaLaunchTransferIoctl at h
  split at h
  · next hengine =>
    split at h
    · next hchannel =>
      simp only at h
      split at h
      · next hmany =>
        cases h
        exact Or.inl ⟨rfl, by decide, fun _ _ _ _ _ hfew => absurd hmany (Nat.not_lt.mpr hfew)⟩
      · next hfew =>
        split at h
        · next hnone =>
          cases h
          refine Or.inl ⟨rfl, by decide, fun _ _ _ _ _ _ hfind => ?_⟩
          rw [hnone] at hfind
          cases hfind
        · next descriptors hfind =>
          obtain ⟨mapped, hmapped, h⟩ := bind_ok h
          cases mapped with
          | error err =>
            cases h
            refine Or.inl ⟨rfl, ?_, fun _ _ _ _ _ _ _ hok => ?_⟩
            · rw [mapTransferBuffers_error hmapped]
              decide
            · cases hmapped.symm.trans hok
          | ok mapped =>
            obtain ⟨descList, hload, h⟩ := bind_ok h
            obtain ⟨⟨ret', channel', descList', regs'⟩, hlaunch, h⟩ := bind_ok h
            cases h
            exact Or.inr ⟨(⟨_, hengine⟩, ⟨_, hchannel⟩), descriptors, mapped, descList, descList',
              channel', regs', _, rfl, rfl, Nat.not_lt.mp hfew, hfind, hmapped, hload, hlaunch,
              rfl⟩
    · next hchannel =>
      cases h
      refine Or.inl ⟨rfl, by decide, fun c _ _ _ hindex => absurd ?_ hchannel⟩
      rw [hindex]
      exact c.2.isLt
  · next hengine =>
    cases h
    refine Or.inl ⟨rfl, by decide, fun c _ _ hindex => absurd ?_ hengine⟩
    rw [hindex]
    exact c.1.isLt

end Launch

section Rings
variable {n : Nat} {kernel kernel' : KernelState n} {context context' : HailoVdmaFileContext n}
  {ret : Int32}

/-- The rings and the indices of the channels are as before. -/
structure SameRings (kernel kernel' : KernelState n) : Prop where
  rings : ∀ c, numOngoing kernel' c = numOngoing kernel c
  indexed : AllIndexed kernel → AllIndexed kernel'

theorem SameRings.refl (kernel : KernelState n) : SameRings kernel kernel := ⟨fun _ => rfl, id⟩

theorem SameRings.of_engines (h : kernel'.engines = kernel.engines) : SameRings kernel kernel' := by
  refine ⟨fun c => ?_, fun hindexed e => ?_⟩
  · rw [numOngoing, numOngoing, channelAt, channelAt, h]
  · rw [h]
    exact hindexed e

theorem enableIoctl_rings {bitmaps : Fin n → UInt32} {measure : Bool}
    (h : hailoVdmaEnableChannelsIoctl kernel context bitmaps measure = (ret, kernel', context')) :
    SameRings kernel kernel' := by
  rw [hailoVdmaEnableChannelsIoctl] at h
  split at h
  · cases h
    exact .refl _
  · cases h
    refine ⟨fun c => ?_, fun hindexed e => ⟨(hindexed e).own, fun i => ?_⟩⟩
    · simp only [numOngoing, channelAt, hailoVdmaEngineEnableChannels]
      split <;> rfl
    · simp only [hailoVdmaEngineEnableChannels]
      split <;> exact (hindexed e).channels i

theorem interrupt_rings (kernel : KernelState n) (e : Fin n) (bitmap : UInt32) :
    SameRings kernel (setEngine kernel e
      (hailoVdmaEngineSetChannelInterrupts (kernel.engines e) bitmap) kernel.descLists) := by
  refine ⟨fun c => ?_, fun hindexed => hindexed.update ?_ _⟩
  · by_cases hc : c.1 = e
    · rw [numOngoing, channelAt, hc, setEngine_self, numOngoing, channelAt, hc]
      rfl
    · rw [numOngoing, channelAt, setEngine_of_ne hc]
      rfl
  · exact ⟨(hindexed e).own, (hindexed e).channels⟩

theorem bufferMapIoctl_rings {params : HailoVdmaBufferMapParams}
    {mapped : Except Int32 MappedMemory} {copied : Bool}
    (h : hailoVdmaBufferMapIoctl kernel context params mapped copied =
      .ok (ret, kernel', context')) : SameRings kernel kernel' := by
  refine .of_engines ?_
  unfold hailoVdmaBufferMapIoctl at h
  simp only at h
  split at h
  · cases h
    rfl
  · cases mapped with
    | error err =>
      cases h
      rfl
    | ok memory =>
      simp only at h
      split at h
      · obtain ⟨buffers, -, h⟩ := bind_ok h
        cases h
        rfl
      · cases h
        rfl

theorem bufferUnmapIoctl_rings {mappedHandle : UInt64}
    (h : hailoVdmaBufferUnmapIoctl kernel context mappedHandle = .ok (ret, kernel', context')) :
    SameRings kernel kernel' := by
  refine .of_engines ?_
  obtain ⟨found, -, h⟩ := bind_ok h
  cases found with
  | none =>
    cases h
    rfl
  | some address =>
    obtain ⟨buffers, -, h⟩ := bind_ok h
    cases h
    rfl

theorem descListCreateIoctl_rings {params : HailoDescListCreateParams} {address : Option Nat}
    {memory : Option (Nat → HailoVdmaDescriptor)} {copied : Bool}
    (h : hailoDescListCreateIoctl kernel context params address memory copied =
      (ret, kernel', context')) : SameRings kernel kernel' := by
  refine .of_engines ?_
  unfold hailoDescListCreateIoctl at h
  split at h
  · cases h
    rfl
  · split at h
    · cases h
      rfl
    · cases address with
      | none =>
        cases h
        rfl
      | some address =>
        simp only at h
        split at h
        · cases h
          rfl
        · split at h
          · cases h
            rfl
          · cases h
            rfl

theorem descListReleaseIoctl_rings {descHandle : UInt64}
    (h : hailoDescListReleaseIoctl kernel context descHandle = (ret, kernel', context')) :
    SameRings kernel kernel' := by
  refine .of_engines ?_
  unfold hailoDescListReleaseIoctl at h
  split at h
  · cases h
    rfl
  · cases h
    rfl

/-- A channel that is disabled loses its transfers, and no other does. -/
theorem Disables.numOngoing_le {bitmaps : Fin n → UInt32} {es : List (Fin n)}
    (h : Disables bitmaps es kernel kernel') (c : Channel n) :
    numOngoing kernel' c ≤ numOngoing kernel c := by
  by_cases hdisabled : c.1 ∈ es ∧ hailoTestBit c.2 (bitmaps c.1) = true
  · have hempty := (h.disabled c hdisabled.1 hdisabled.2).ongoing
    rw [numOngoing, hempty]
    exact Nat.zero_le _
  · have hsame := h.untouched c fun hmem => eq_false_of_ne_true fun hbit => hdisabled ⟨hmem, hbit⟩
    rw [numOngoing, hsame]
    exact Nat.le_refl _

end Rings

section Balance
variable {n : Nat} {vdmaHw : HailoVdmaHw} {s s' : SystemState n} {request : Request n}
  {ret : Int32} {copied : Bool}

/-- What a request adds to the tally of a channel is what it changes in its ring. -/
def Settles (s : SystemState n) (request : Request n) (copied : Bool) (ret : Int32)
    (s' : SystemState n) (c : Channel n) : Prop :=
  (if accepts request ret c then 1 else 0) + numOngoing s.kernel c =
    (if copied then numReported (filledData s request) c else 0) +
    (if isWait request ∧ (copied = false ∨ tellsError (filledData s request) c) then
      numOngoing s.kernel c - numOngoing s'.kernel c else 0) +
    (if givesUp request then numOngoing s.kernel c - numOngoing s'.kernel c else 0) +
    numOngoing s'.kernel c

/-- A request settles for every channel exactly if a launch tells of its transfer. -/
def SettlesIff (vdmaHw : HailoVdmaHw) (s : SystemState n) (request : Request n) (copied : Bool)
    (ret : Int32) (s' : SystemState n) : Prop :=
  AllIndexed s'.kernel ∧
    ((∀ c, Settles s request copied ret s' c) ↔ TellsLaunch vdmaHw s request)

theorem balanced_note_iff {t : Tally n} (h : Balanced ⟨s, t⟩) :
    Balanced ⟨s', t.note s request copied ret s'⟩ ↔ ∀ c, Settles s request copied ret s' c := by
  refine forall_congr' fun c => ?_
  have hc := h c
  simp only [Tally.note, Settles] at hc ⊢
  omega

/-- A request that is no launch, no wait and gives nothing up. -/
theorem settles_quiet (haccepts : ∀ c, accepts request ret c = false)
    (hwait : isWait request = false) (hgives : givesUp request = false)
    (hfilled : filledData s request = []) (h : SameRings s.kernel s'.kernel) (c : Channel n) :
    Settles s request copied ret s' c := by
  simp [Settles, haccepts, hwait, hgives, hfilled, h.rings c, numReported]

/-- A request that disables channels. -/
theorem settles_givesUp (haccepts : ∀ c, accepts request ret c = false)
    (hwait : isWait request = false) (hgives : givesUp request = true)
    (hfilled : filledData s request = [])
    (h : ∀ c, numOngoing s'.kernel c ≤ numOngoing s.kernel c) (c : Channel n) :
    Settles s request copied ret s' c := by
  have hle := h c
  simp [Settles, haccepts, hwait, hgives, hfilled, numReported]
  omega

theorem settlesIff_wait (hn : n ≤ maxVdmaEngines) (hindexed : AllIndexed s.kernel) {filp : Nat}
    {bitmaps : Nat → UInt32} {regs : Fin n → ChannelIndex → ChannelRegs}
    {context : HailoVdmaFileContext n} {c : WaitCursor n} (hopen : s.files filp = some context)
    (h : hailoVdmaInterruptsWaitIoctl s.kernel bitmaps regs = .ok (ret, c))
    (hkernel : s'.kernel = c.kernel) :
    SettlesIff vdmaHw s (.interruptsWait filp bitmaps regs) copied ret s' := by
  have haccepts (ch : Channel n) : accepts (.interruptsWait filp bitmaps regs) ret ch = false := rfl
  cases waitIoctl_waitsFor hn hindexed h with
  | inl hrefused =>
    obtain ⟨hsame, hnothing, hret⟩ := hrefused
    have hfilled : filledData s (.interruptsWait filp bitmaps regs) = [] := by
      simp only [filledData, hopen, h, hnothing, ite_self]
    refine ⟨hkernel.trans hsame ▸ hindexed, iff_of_true (fun ch => ?_) trivial⟩
    simp [Settles, haccepts, hfilled, givesUp, isWait, tellsError, numReported, hkernel, hsame]
  | inr hwaited =>
    obtain ⟨rfl, hindexed', haccounts⟩ := hwaited
    have hfilled : filledData s (.interruptsWait filp bitmaps regs) = c.irqData := by
      simp only [filledData, hopen, h]
      exact if_neg (by decide)
    refine ⟨hkernel ▸ hindexed', iff_of_true (fun ch => ?_) trivial⟩
    have hch : numReported c.irqData ch + (if tellsError c.irqData ch then
        numOngoing s.kernel ch - numOngoing c.kernel ch else 0) + numOngoing c.kernel ch =
        numOngoing s.kernel ch := haccounts ch
    rw [Settles, haccepts, hfilled, hkernel]
    simp only [isWait, givesUp, true_and, Bool.false_eq_true, if_false, Nat.zero_add,
      Nat.add_zero]
    cases copied with
    | true =>
      simp only [Bool.true_eq_false, false_or, if_true]
      omega
    | false =>
      -- whatever was filled in, the user sees nothing of it
      have hle : numOngoing c.kernel ch ≤ numOngoing s.kernel ch := by
        split at hch <;> omega
      simp only [true_or, if_true, Bool.false_eq_true, if_false]
      omega

/-- A launch settles exactly if it is turned down or returns what is not negative. -/
theorem settlesIff_launch (hindexed : AllIndexed s.kernel) {filp : Nat}
    {params : HailoVdmaLaunchTransferParams} {regs : ChannelRegs}
    {context : HailoVdmaFileContext n} (hopen : s.files filp = some context)
    (h : hailoVdmaLaunchTransferIoctl vdmaHw s.kernel context params regs =
      .ok (ret, s'.kernel)) :
    SettlesIff vdmaHw s (.launchTransfer filp params regs) copied ret s' := by
  have hsettles (c : Channel n) : Settles s (.launchTransfer filp params regs) copied ret s' c ↔
      (if accepts (.launchTransfer filp params regs) ret c then 1 else 0) + numOngoing s.kernel c =
        numOngoing s'.kernel c := by
    simp [Settles, filledData, isWait, givesUp, numReported]
  have hrefused (hret : ret.toInt < 0) (c : Channel n) :
      accepts (.launchTransfer filp params regs) ret c = false :=
    decide_eq_false fun hall => absurd hall.2.2 (Int.not_le.mpr hret)
  cases launchIoctl_cases h with
  | inl hdown =>
    obtain ⟨hsame, hret, hnone⟩ := hdown
    refine ⟨hsame ▸ hindexed, iff_of_true (fun c => ?_) ?_⟩
    · rw [hsettles, hrefused hret, hsame, if_neg Bool.false_ne_true, Nat.zero_add]
    · intro context' descriptors mapped descList c hcontext hengine hchannel hfew hfind hmapped
      rw [hopen] at hcontext
      cases hcontext
      exact absurd hmapped (hnone c descriptors mapped hengine hchannel hfew hfind)
  | inr hran =>
    obtain ⟨c, descriptors, mapped, descList, descList', channel', regs', descLists', hengine,
      hchannel, hfew, hfind, hmapped, hload, hlaunch, hkernel⟩ := hran
    obtain ⟨hindex, hring⟩ := launchTransfer_ring hlaunch
    have hown : channelAt s'.kernel c = channel' := by
      rw [hkernel, channelAt, setEngine_self, setChannel_self]
    have hother (other : Channel n) (hne : other ≠ c) :
        channelAt s'.kernel other = channelAt s.kernel other := by
      rw [hkernel, channelAt_setChannel, if_neg hne]
    have hunnamed (other : Channel n) (hne : other ≠ c) :
        accepts (.launchTransfer filp params regs) ret other = false := by
      refine decide_eq_false fun hall => hne ?_
      exact Prod.ext (Fin.ext (hall.1.symm.trans hengine)) (Fin.ext (hall.2.1.symm.trans hchannel))
    have hquiet (other : Channel n) (hne : other ≠ c) :
        Settles s (.launchTransfer filp params regs) copied ret s' other := by
      rw [hsettles, hunnamed other hne, numOngoing, numOngoing, hother other hne,
        if_neg Bool.false_ne_true, Nat.zero_add]
    refine ⟨?_, ?_⟩
    · rw [hkernel]
      exact hindexed.update ((hindexed c.1).setChannel hindex) _
    · have honly : (∀ other, Settles s (.launchTransfer filp params regs) copied ret s' other) ↔
          Settles s (.launchTransfer filp params regs) copied ret s' c := by
        refine ⟨fun hall => hall c, fun hc other => ?_⟩
        by_cases hne : other = c
        · exact hne ▸ hc
        · exact hquiet other hne
      rw [honly, hsettles, numOngoing, numOngoing, hown]
      cases hring with
      | inl hpublished =>
        obtain ⟨hpass, hlength, rets, hrets, hret⟩ := hpublished
        have haccepts : accepts (.launchTransfer filp params regs) ret c =
            decide (0 ≤ ret.toInt) := by
          simp [accepts, hengine, hchannel]
        rw [haccepts, hlength]
        constructor
        · intro hsum context' descriptors' mapped' descList'' c' hcontext hengine' hchannel' _
            hfind' hmapped' hload' _ _ rets' hrets'
          rw [hopen] at hcontext
          cases hcontext
          have hc : c' = c := Prod.ext (Fin.ext (hengine'.symm.trans hengine))
            (Fin.ext (hchannel'.symm.trans hchannel))
          subst hc
          cases hfind.symm.trans hfind'
          cases hmapped.symm.trans hmapped'
          cases hload.symm.trans hload'
          cases hrets.symm.trans hrets'
          by_contra hnegative
          rw [hret, decide_eq_false hnegative, if_neg Bool.false_ne_true] at hsum
          omega
        · intro htells
          have hnonnegative := htells context descriptors mapped descList c hopen hengine hchannel
            hfew hfind hmapped hload hpass.1 hpass.2 rets hrets
          rw [hret, decide_eq_true hnonnegative, if_pos rfl]
          exact Nat.add_comm 1 _
      | inr hturned =>
        obtain ⟨hfails, hsame, hret⟩ := hturned
        refine iff_of_true ?_ ?_
        · rw [hrefused hret, hsame, if_neg Bool.false_ne_true, Nat.zero_add]
        · intro context' descriptors' mapped' descList'' c' hcontext hengine' hchannel' _ hfind'
            hmapped' _ hchecks hroom
          rw [hopen] at hcontext
          cases hcontext
          have hc : c' = c := Prod.ext (Fin.ext (hengine'.symm.trans hengine))
            (Fin.ext (hchannel'.symm.trans hchannel))
          subst hc
          cases hfind.symm.trans hfind'
          cases hmapped.symm.trans hmapped'
          exact absurd ⟨hchecks, hroom⟩ hfails

end Balance

section Requests
variable {n : Nat} {vdmaHw : HailoVdmaHw} {s s' : SystemState n} {request : Request n}
  {ret : Int32} {copied : Bool}

theorem settlesIff_rings (hindexed : AllIndexed s.kernel)
    (haccepts : ∀ c, accepts request ret c = false) (hwait : isWait request = false)
    (hgives : givesUp request = false) (hfilled : filledData s request = [])
    (htells : TellsLaunch vdmaHw s request) (h : SameRings s.kernel s'.kernel) :
    SettlesIff vdmaHw s request copied ret s' :=
  ⟨h.indexed hindexed, iff_of_true (settles_quiet haccepts hwait hgives hfilled h) htells⟩

/-- A request of a file that is not open changes nothing. -/
theorem settlesIff_unchanged (hindexed : AllIndexed s.kernel)
    (haccepts : ∀ c, accepts request ret c = false) (hfilled : filledData s request = [])
    (htells : TellsLaunch vdmaHw s request) (h : s' = s) :
    SettlesIff vdmaHw s request copied ret s' := by
  subst h
  refine ⟨hindexed, iff_of_true (fun c => ?_) htells⟩
  simp [Settles, haccepts, hfilled, numReported, tellsError]

theorem settlesIff_disables (hindexed : AllIndexed s'.kernel)
    (haccepts : ∀ c, accepts request ret c = false) (hwait : isWait request = false)
    (hgives : givesUp request = true) (hfilled : filledData s request = [])
    (htells : TellsLaunch vdmaHw s request)
    (h : ∀ c, numOngoing s'.kernel c ≤ numOngoing s.kernel c) :
    SettlesIff vdmaHw s request copied ret s' :=
  ⟨hindexed, iff_of_true (settles_givesUp haccepts hwait hgives hfilled h) htells⟩

theorem settlesIff_closeFile (hindexed : AllIndexed s.kernel) {filp : Nat}
    (h : handle vdmaHw s (.closeFile filp) = .ok (ret, s')) :
    SettlesIff vdmaHw s (.closeFile filp) copied ret s' := by
  rw [handle] at h
  split at h
  · cases h
    exact settlesIff_unchanged hindexed (fun _ => rfl) rfl trivial rfl
  · next context hopen =>
    obtain ⟨kernel, hfinalize, h⟩ := bind_ok h
    obtain ⟨kernel', hdisable, hfinalize⟩ := bind_ok hfinalize
    obtain ⟨buffers', hput, hfinalize⟩ := bind_ok hfinalize
    cases h
    cases hfinalize
    have hdisables := disableEngines_disables ((List.nodup_finRange n).filter _) hdisable
    have hindexed' := disableEngines_indexed hindexed hdisable
    have hle := Disables.numOngoing_le hdisables
    exact settlesIff_disables (fun e => hindexed' e) (fun _ => rfl) rfl rfl rfl trivial
      fun c => hle c

theorem withFile_closed {filp : Nat}
    {f : HailoVdmaFileContext n → Exec (Int32 × KernelState n × HailoVdmaFileContext n)}
    (h : withFile s filp f = .ok (ret, s')) (hclosed : s.files filp = none) :
    ret = -einval ∧ s' = s := by
  rw [withFile, hclosed] at h
  cases h
  exact ⟨rfl, rfl⟩

theorem settlesIff_of_handle (hn : n ≤ maxVdmaEngines) (hindexed : AllIndexed s.kernel)
    (h : handle vdmaHw s request = .ok (ret, s')) :
    SettlesIff vdmaHw s request copied ret s' := by
  cases request with
  | openFile filp =>
    rw [handle] at h
    split at h
    · cases h
      exact settlesIff_unchanged hindexed (fun _ => rfl) rfl trivial rfl
    · cases h
      exact settlesIff_rings hindexed (fun _ => rfl) rfl rfl rfl trivial (.refl _)
  | closeFile filp => exact settlesIff_closeFile hindexed h
  | interrupt e channelsBitmap =>
    cases h
    exact settlesIff_rings hindexed (fun _ => rfl) rfl rfl rfl trivial
      (interrupt_rings s.kernel e channelsBitmap)
  | enableChannels filp bitmaps measure =>
    rcases withFile_ok h with ⟨-, hsame⟩ | ⟨context, kernel', context', hopen, hrun, rfl⟩
    · exact settlesIff_unchanged hindexed (fun _ => rfl) rfl trivial hsame
    · exact settlesIff_rings hindexed (fun _ => rfl) rfl rfl rfl trivial
        (enableIoctl_rings (Except.ok.inj hrun))
  | disableChannels filp bitmaps =>
    rcases withFile_ok h with ⟨-, hsame⟩ | ⟨context, kernel', context', hopen, hrun, rfl⟩
    · exact settlesIff_unchanged hindexed (fun _ => rfl) rfl trivial hsame
    · obtain ⟨kernel, hdisable, hrun⟩ := bind_ok hrun
      cases hrun
      have hdisables := disableEngines_disables (List.nodup_finRange n) hdisable
      exact settlesIff_disables (disableEngines_indexed hindexed hdisable) (fun _ => rfl) rfl rfl
        rfl trivial (Disables.numOngoing_le hdisables)
  | interruptsWait filp bitmaps regs =>
    rcases withFile_ok h with ⟨hclosed, hsame⟩ | ⟨context, kernel', context', hopen, hrun, rfl⟩
    · refine settlesIff_unchanged hindexed (fun _ => rfl) ?_ trivial hsame
      simp only [filledData, hclosed]
    · obtain ⟨⟨ret', c⟩, hwait, hrun⟩ := bind_ok hrun
      cases hrun
      exact settlesIff_wait hn hindexed hopen hwait rfl
  | launchTransfer filp params regs =>
    rcases withFile_ok h with ⟨hclosed, hsame⟩ | ⟨context, kernel', context', hopen, hrun, rfl⟩
    · have hret := (withFile_closed h hclosed).1
      refine settlesIff_unchanged hindexed (fun c => ?_) rfl ?_ hsame
      · rw [hret]
        exact decide_eq_false fun hall => absurd hall.2.2 (by decide)
      · intro context descriptors mapped descList c hopen
        rw [hclosed] at hopen
        cases hopen
    · obtain ⟨⟨ret', kernel⟩, hlaunch, hrun⟩ := bind_ok hrun
      cases hrun
      exact settlesIff_launch hindexed hopen hlaunch
  | bufferMap filp params mapped copied' =>
    rcases withFile_ok h with ⟨-, hsame⟩ | ⟨context, kernel', context', hopen, hrun, rfl⟩
    · exact settlesIff_unchanged hindexed (fun _ => rfl) rfl trivial hsame
    · exact settlesIff_rings hindexed (fun _ => rfl) rfl rfl rfl trivial
        (bufferMapIoctl_rings hrun)
  | bufferUnmap filp mappedHandle =>
    rcases withFile_ok h with ⟨-, hsame⟩ | ⟨context, kernel', context', hopen, hrun, rfl⟩
    · exact settlesIff_unchanged hindexed (fun _ => rfl) rfl trivial hsame
    · exact settlesIff_rings hindexed (fun _ => rfl) rfl rfl rfl trivial
        (bufferUnmapIoctl_rings hrun)
  | descListCreate filp params address memory copied' =>
    rcases withFile_ok h with ⟨-, hsame⟩ | ⟨context, kernel', context', hopen, hrun, rfl⟩
    · exact settlesIff_unchanged hindexed (fun _ => rfl) rfl trivial hsame
    · exact settlesIff_rings hindexed (fun _ => rfl) rfl rfl rfl trivial
        (descListCreateIoctl_rings (Except.ok.inj hrun))
  | descListRelease filp descHandle =>
    rcases withFile_ok h with ⟨-, hsame⟩ | ⟨context, kernel', context', hopen, hrun, rfl⟩
    · exact settlesIff_unchanged hindexed (fun _ => rfl) rfl trivial hsame
    · exact settlesIff_rings hindexed (fun _ => rfl) rfl rfl rfl trivial
        (descListReleaseIoctl_rings (Except.ok.inj hrun))

end Requests

section Runs
variable {n : Nat} {vdmaHw : HailoVdmaHw} {s : Audited n}

theorem balanced_start (memory : Fin n → HailoVdmaEngine) :
    Balanced (auditedStart memory) ∧ AllIndexed (auditedStart memory).system.kernel := by
  refine ⟨fun c => ?_, fun e => indexed_init _ _⟩
  have hempty : numOngoing (initialState memory).kernel c = 0 :=
    congrArg List.length (ongoing_emptyRing _)
  simp only [auditedStart, hempty]

/-- In every run in which no launch is published while it returns a failure, each transfer whose
launch was accepted is reported as completed once, or was hidden by a wait that reported an error
or failed to, or was dropped with its channel, or is ongoing. The next request keeps this exactly
if it is no such launch. -/
theorem transfers_balanced_iff (hn : n ≤ maxVdmaEngines) {memory : Fin n → HailoVdmaEngine}
    (hrun : Relation.ReflTransGen (AuditedSteps vdmaHw (TellsLaunch vdmaHw)) (auditedStart memory)
      s) {request : Request n} {copied : Bool} {ret : Int32} {s' : SystemState n}
    (hstep : handle vdmaHw s.system request = .ok (ret, s')) :
    Balanced s ∧ (Balanced ⟨s', s.tally.note s.system request copied ret s'⟩ ↔
      TellsLaunch vdmaHw s.system request) := by
  have hkeep : ∀ s₁ s₂ : Audited n, Balanced s₁ ∧ AllIndexed s₁.system.kernel →
      AuditedSteps vdmaHw (TellsLaunch vdmaHw) s₁ s₂ →
      Balanced s₂ ∧ AllIndexed s₂.system.kernel := by
    rintro s₁ s₂ ⟨hbalanced, hindexed⟩ ⟨next, copied, ret, htells, hnext, htally⟩
    obtain ⟨hindexed', hiff⟩ := settlesIff_of_handle hn hindexed hnext
    have hnoted : Balanced ⟨s₂.system, s₂.tally⟩ := by
      rw [htally]
      exact (balanced_note_iff hbalanced).mpr (hiff.mpr htells)
    exact ⟨hnoted, hindexed'⟩
  obtain ⟨hbalanced, hindexed⟩ := inv_of_run hkeep hrun (balanced_start memory)
  obtain ⟨-, hiff⟩ := settlesIff_of_handle hn hindexed hstep
  exact ⟨hbalanced, (balanced_note_iff hbalanced).trans hiff⟩

end Runs

/-- It starts in the middle of a page. -/
def misalignedLaunch : Request 1 :=
  .launchTransfer 1 ⟨0, 0, 4096, 0, true, [⟨.userPtrBuffer, 4097, 63⟩],
    hailoVdmaInterruptsDomainNone, hailoVdmaInterruptsDomainHost, false⟩ LaunchSteps.activeRegs

/-- A run of the system with no copy to the user failing, audited. -/
theorem exists_auditedRun {s s' : SystemState n}
    (h : Relation.ReflTransGen (Steps vdmaHw (TellsLaunch vdmaHw)) s s') (t : Tally n) :
    ∃ t', Relation.ReflTransGen (AuditedSteps vdmaHw (TellsLaunch vdmaHw)) ⟨s, t⟩ ⟨s', t'⟩ := by
  induction h with
  | refl => exact ⟨t, .refl⟩
  | tail _ hlast ih =>
    obtain ⟨t₁, hrun⟩ := ih
    obtain ⟨request, ret, -, htells, hlast⟩ := hlast
    exact ⟨t₁.note _ request true ret _, hrun.tail ⟨request, true, ret, htells, hlast, rfl⟩⟩

/-- A launch that fails is published all the same. -/
theorem transfers_balanced_iff_misaligned : ∃ s : Audited 1,
    Balanced s ∧ ¬ TellsLaunch hailoPcieVdmaHw s.system misalignedLaunch := by
  obtain ⟨s, s', hrun, hstep, hidle, hongoing⟩ : ∃ s s' : SystemState 1,
      Relation.ReflTransGen (Steps hailoPcieVdmaHw (TellsLaunch hailoPcieVdmaHw))
        (initialState idleMemory) s ∧
      handle hailoPcieVdmaHw s misalignedLaunch = .ok (-22, s') ∧
      numOngoing s.kernel (0, 0) = 0 ∧ numOngoing s'.kernel (0, 0) = 1 :=
    ⟨_, _, .head ⟨.openFile 1, _, trivial, trivial, rfl⟩ <|
      .head ⟨.enableChannels 1 (fun _ => 1) false, _, trivial, trivial, rfl⟩ <|
      .head ⟨mapRequest, _, rfl, trivial, rfl⟩ <|
      .single ⟨listRequest, _, rfl, trivial, rfl⟩, rfl, rfl, rfl⟩
  obtain ⟨t, haudited⟩ := exists_auditedRun hrun (auditedStart idleMemory).tally
  obtain ⟨hbalanced, hiff⟩ := @transfers_balanced_iff 1 hailoPcieVdmaHw ⟨s, t⟩ (by decide) _
    haudited _ true _ _ hstep
  refine ⟨⟨s, t⟩, hbalanced, fun htells => ?_⟩
  have hsettles := (balanced_note_iff hbalanced).mp (hiff.mpr htells) (0, 0)
  have haccepts : accepts misalignedLaunch (-22) ((0, 0) : Channel 1) = false := rfl
  have hwait : isWait misalignedLaunch = false := rfl
  have hgives : givesUp misalignedLaunch = false := rfl
  have hfilled : filledData s misalignedLaunch = [] := rfl
  simp [Settles, haccepts, hwait, hgives, hfilled, hidle, hongoing, numReported] at hsettles

end HailortDrivers.TransferAccounts
