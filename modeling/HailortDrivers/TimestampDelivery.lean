import HailortDrivers.TimestampReads

/-!
As long as no read finds a 257th timestamp, every accepted timestamp is in the ring or was
handed out once, in order, and the array of a call is not overrun. The 257th is stored
past the end of the array and lost.
-/
namespace HailortDrivers.TimestampDelivery
open KernelExec VdmaTypes VdmaEngine EngineSteps EventRuns TimestampRing TimestampReads

variable {s s' : TimestampSystem} {c d : ChannelIndex} {r : Reading}
  {entry : HailoChannelInterruptTimestamp} {list : HailoChannelInterruptTimestampList}

/-- What the call under way has taken from the ring of the channel. -/
def takenNow (s : TimestampSystem) (c : ChannelIndex) : List HailoChannelInterruptTimestamp :=
  match s.reading with
  | some r => if r.channel = c then r.taken else []
  | none => []

/-- What the calls took from the ring of the channel, one after the other. -/
def takenFrom (s : TimestampSystem) (c : ChannelIndex) : List HailoChannelInterruptTimestamp :=
  (s.results.filter fun result => result.channel = c).flatMap ReadResult.taken ++ takenNow s c

/-- A call returns what it took, counts it, and stores inside the array only. -/
structure Correct (result : ReadResult) : Prop where
  returned : result.returned = result.taken.map (masked result.descCountMask)
  count : result.timestampsCount = result.written.length
  inside : ∀ k ∈ result.written, k < channelIrqTimestampsSize

/-- Every accepted timestamp is handed out once, in order and in bounds, or is in the ring. -/
structure DeliveredOnce (s : TimestampSystem) (c : ChannelIndex) : Prop where
  account : s.accepted c = takenFrom s c ++ pending (s.list c)
  results : ∀ result ∈ s.results, result.channel = c → Correct result
  reading : ∀ r, s.reading = some r → r.channel = c →
    ∀ k ∈ r.written, k < channelIrqTimestampsSize

/-- A call whose array is full finds no more timestamps. -/
def RoomForAll (s : TimestampSystem) : Event → Prop
  | .popTimestamp => ∀ r, s.reading = some r → r.i = channelIrqTimestampsSize →
    timestampsCircCnt (s.list r.channel) = 0
  | _ => True

/-- The call under way has filled the entries up to its index. -/
structure Filled (descCountMask : UInt32) (r : Reading) : Prop where
  i_le : r.i ≤ channelIrqTimestampsSize
  written : r.written = List.range r.i
  filled : (List.range r.i).map r.timestamps = r.taken.map (masked descCountMask)

structure Inv (s : TimestampSystem) (c : ChannelIndex) : Prop where
  inBounds : InBounds (s.list c)
  account : s.accepted c = takenFrom s c ++ pending (s.list c)
  results : ∀ result ∈ s.results, result.channel = c → Correct result
  reading : ∀ r, s.reading = some r → r.channel = c → Filled (s.descCountMask c) r

theorem Filled.inside {mask : UInt32} (h : Filled mask r) :
    ∀ k ∈ r.written, k < channelIrqTimestampsSize := by
  intro k hk
  rw [h.written, List.mem_range] at hk
  exact Nat.lt_of_lt_of_le hk h.i_le

theorem Inv.deliveredOnce (h : Inv s c) : DeliveredOnce s c :=
  ⟨h.account, h.results, fun r hreading hc => (h.reading r hreading hc).inside⟩

@[simp] theorem list_setList_self : (s.setList c list).list c = list :=
  congrArg HailoVdmaChannel.timestampList (setChannel_self _ _ _)

theorem list_setList_of_ne (h : d ≠ c) : (s.setList c list).list d = s.list d :=
  congrArg HailoVdmaChannel.timestampList (setChannel_of_ne _ h _)

@[simp] theorem descCountMask_setList :
    (s.setList c list).descCountMask d = s.descCountMask d := by
  by_cases h : d = c
  · subst h
    exact congrArg (fun ch => ch.state.descCountMask) (setChannel_self s.engine d _)
  · exact congrArg (fun ch => ch.state.descCountMask) (setChannel_of_ne s.engine h _)

@[simp] theorem list_setState (state : HailoVdmaChannelState) :
    (s.setState c state).list d = s.list d := by
  by_cases h : d = c
  · subst h
    rw [TimestampSystem.list, TimestampSystem.setState, setChannel_self, TimestampSystem.list]
  · exact congrArg HailoVdmaChannel.timestampList (setChannel_of_ne s.engine h _)

section Finish
variable {mask : UInt32}

theorem Filled.correct (h : Filled mask r) : Correct (r.finish mask) where
  returned := h.filled
  count := by
    change r.i = r.written.length
    rw [h.written, List.length_range]
  inside := h.inside

/-- One round of the loop fills the entry at the index. -/
theorem Filled.advance (h : Filled mask r) (hi : r.i < channelIrqTimestampsSize) :
    Filled mask ((r.pop entry).advance mask) where
  i_le := hi
  written := by
    change r.written ++ [r.i] = List.range (r.i + 1)
    rw [h.written, List.range_succ]
  filled := by
    change (List.range (r.i + 1)).map (Function.update (Function.update r.timestamps r.i entry) r.i
      (masked mask (Function.update r.timestamps r.i entry r.i))) = (r.taken ++ [entry]).map _
    rw [Function.update_self, Function.update_idem, List.range_succ, List.map_append,
      List.map_append, List.map_singleton, List.map_singleton, Function.update_self, ← h.filled]
    congr 1
    refine List.map_congr_left fun k hk => Function.update_of_ne ?_ _ _
    exact Nat.ne_of_lt (List.mem_range.mp hk)

end Finish

theorem takenFrom_finish (hreading : s.reading = some r) :
    takenFrom (s.finish r) c = takenFrom s c := by
  have hnow : takenNow (s.finish r) c = [] := rfl
  have hbefore : takenNow s c = if r.channel = c then r.taken else [] := by
    rw [takenNow, hreading]
  have hresults : (s.finish r).results = s.results ++ [r.finish (s.descCountMask r.channel)] := rfl
  rw [takenFrom, takenFrom, hnow, hbefore, hresults, List.filter_append, List.flatMap_append,
    List.append_nil]
  congr 1
  by_cases hc : r.channel = c
  · rw [if_pos hc, List.filter_singleton]
    simp [Reading.finish, hc]
  · rw [if_neg hc, List.filter_singleton]
    simp [Reading.finish, hc]

theorem takenFrom_congr (hresults : s'.results = s.results) (hreading : s'.reading = s.reading) :
    takenFrom s' c = takenFrom s c := by
  rw [takenFrom, takenFrom, takenNow, takenNow, hresults, hreading]

/-- A step on another channel. -/
theorem Inv.other (h : Inv s c) (hlist : s'.list c = s.list c)
    (haccepted : s'.accepted c = s.accepted c) (hmask : s'.descCountMask c = s.descCountMask c)
    (hresults : s'.results = s.results) (hreading : s'.reading = s.reading) : Inv s' c where
  inBounds := hlist ▸ h.inBounds
  account := by
    rw [haccepted, takenFrom_congr hresults hreading, hlist]
    exact h.account
  results := hresults ▸ h.results
  reading := by
    rw [hreading, hmask]
    exact h.reading

theorem Inv.push (h : Inv s c) (now : UInt64) (regs : ChannelRegs) :
    Inv (if timestampsCircSpace (s.list c) ≠ 0 then
      (s.setList c (hailoVdmaPushTimestamp now regs (s.list c))).accept c
        ⟨now, hailoVdmaGetNumProc regs⟩
      else s.setList c (hailoVdmaPushTimestamp now regs (s.list c))) c := by
  have hpush := pending_push h.inBounds now regs
  have hself : (s.setList c (hailoVdmaPushTimestamp now regs (s.list c))).list c =
      hailoVdmaPushTimestamp now regs (s.list c) := list_setList_self
  have hmask : (s.setList c (hailoVdmaPushTimestamp now regs (s.list c))).descCountMask c =
      s.descCountMask c := descCountMask_setList
  have hspace := timestampsCircSpace_eq_zero_iff h.inBounds
  split
  · next hne =>
    rw [Ne, hspace] at hne
    rw [if_neg hne] at hpush
    refine ⟨(congrArg InBounds hself).mpr (h.inBounds.push now regs), ?_, h.results,
      fun r hreading hc => ?_⟩
    · have haccept : ((s.setList c (hailoVdmaPushTimestamp now regs (s.list c))).accept c
          ⟨now, hailoVdmaGetNumProc regs⟩).accepted c =
            s.accepted c ++ [⟨now, hailoVdmaGetNumProc regs⟩] := Function.update_self _ _ _
      rw [haccept, h.account, List.append_assoc]
      refine congrArg₂ _ rfl (hpush.symm.trans ?_)
      exact congrArg pending hself.symm
    · have hfilled := h.reading r hreading hc
      rw [← hmask] at hfilled
      exact hfilled
  · next hzero =>
    rw [Ne, not_not, hspace] at hzero
    rw [if_pos hzero] at hpush
    refine ⟨(congrArg InBounds hself).mpr (h.inBounds.push now regs), ?_, h.results,
      fun r hreading hc => ?_⟩
    · rw [hself, hpush]
      exact h.account
    · rw [hmask]
      exact h.reading r hreading hc

theorem Inv.pushTurn (h : Inv s c) (bitmap : UInt32) (d : ChannelIndex) (now : UInt64)
    (regs : ChannelRegs) : Inv (pushTurn s bitmap d now regs) c := by
  rw [TimestampReads.pushTurn]
  split
  · by_cases hd : d = c
    · subst hd
      exact h.push now regs
    · have hne : c ≠ d := Ne.symm hd
      simp only
      split
      · exact h.other (list_setList_of_ne hne) (Function.update_of_ne hne _ _)
          descCountMask_setList rfl rfl
      · exact h.other (list_setList_of_ne hne) rfl descCountMask_setList rfl rfl
  · exact h

theorem takenNow_of_reading (hreading : s.reading = some r) :
    takenNow s c = if r.channel = c then r.taken else [] := by rw [takenNow, hreading]

/-- A call that stops at the ring of another channel, or after what it took is accounted for. -/
theorem Inv.finish (h : Inv s c) (hreading : s.reading = some r) : Inv (s.finish r) c where
  inBounds := h.inBounds
  account := by
    rw [takenFrom_finish hreading]
    exact h.account
  results := by
    intro result hresult hc
    obtain hold | hnew := List.mem_append.mp hresult
    · exact h.results result hold hc
    · obtain rfl := List.mem_singleton.mp hnew
      have hchannel : r.channel = c := hc
      have hfilled := h.reading r hreading hchannel
      rw [← hchannel] at hfilled
      exact hfilled.correct
  reading := fun _ hnone => nomatch hnone

theorem takenFrom_round (hreading : s.reading = some r) (hc : r.channel = c) {r' : Reading}
    (hc' : r'.channel = c) (htaken : r'.taken = r.taken ++ [entry]) :
    takenFrom ((s.setList c list).setReading (some r')) c = takenFrom s c ++ [entry] := by
  rw [takenFrom, takenFrom, takenNow_of_reading hreading, takenNow_of_reading rfl, if_pos hc,
    if_pos hc', htaken, List.append_assoc]
  rfl

theorem takenFrom_start (hreading : s.reading = none) (htaken : r.taken = []) :
    takenFrom (s.setReading (some r)) c = takenFrom s c := by
  have hnow : takenNow s c = [] := by rw [takenNow, hreading]
  rw [takenFrom, takenFrom, hnow, takenNow_of_reading rfl, htaken, ite_self]
  rfl

/-- One round of the loop on the channel. -/
theorem Inv.round (h : Inv s c) (hreading : s.reading = some r) (hc : r.channel = c)
    (hi : r.i < channelIrqTimestampsSize) (hbounds : InBounds list)
    (hpop : pending (s.list c) = entry :: pending list) :
    Inv ((s.setList c list).setReading (some ((r.pop entry).advance (s.descCountMask c)))) c where
  inBounds := (congrArg InBounds list_setList_self).mpr hbounds
  account := by
    have hlist : ((s.setList c list).setReading
        (some ((r.pop entry).advance (s.descCountMask c)))).list c = list := list_setList_self
    have htaken : takenFrom ((s.setList c list).setReading
        (some ((r.pop entry).advance (s.descCountMask c)))) c = takenFrom s c ++ [entry] :=
      takenFrom_round hreading hc hc rfl
    rw [hlist, htaken, List.append_assoc, List.singleton_append, ← hpop]
    exact h.account
  results := h.results
  reading := by
    rintro r' ⟨⟩ _
    have hmask : ((s.setList c list).setReading
        (some ((r.pop entry).advance (s.descCountMask c)))).descCountMask c = s.descCountMask c :=
      descCountMask_setList
    rw [hmask]
    exact (h.reading r hreading hc).advance hi

/-- A call at another channel leaves this one alone. -/
theorem Inv.otherCall (h : Inv s c) (hreading : s.reading = some r) (hc : r.channel ≠ c)
    {r' : Reading} (hc' : r'.channel = r.channel) :
    Inv ((s.setList r.channel list).setReading (some r')) c where
  inBounds := (congrArg InBounds (list_setList_of_ne (Ne.symm hc))).mpr h.inBounds
  account := by
    have hlist : ((s.setList r.channel list).setReading (some r')).list c = s.list c :=
      list_setList_of_ne (Ne.symm hc)
    have htaken :
        takenFrom ((s.setList r.channel list).setReading (some r')) c = takenFrom s c := by
      rw [takenFrom, takenFrom, takenNow_of_reading hreading, takenNow_of_reading rfl, if_neg hc,
        if_neg (hc' ▸ hc)]
      rfl
    rw [hlist, htaken]
    exact h.account
  results := h.results
  reading := by
    rintro _ ⟨⟩ hchannel
    exact absurd (hc'.symm.trans hchannel) hc

theorem Inv.popTurn (h : Inv s c) (hreading : s.reading = some r)
    (hroom : r.channel = c → r.i = channelIrqTimestampsSize → timestampsCircCnt (s.list c) = 0) :
    Inv (popTurn s r) c := by
  by_cases hc : r.channel = c
  · have hfilled := h.reading r hreading hc
    rw [TimestampReads.popTurn, hc]
    obtain ⟨hpop, -⟩ | ⟨entry, list, hpop, hbounds, hpending⟩ := pop_cases h.inBounds
    · rw [hpop]
      exact h.finish hreading
    · have hi : r.i < channelIrqTimestampsSize := by
        refine Nat.lt_of_le_of_ne hfilled.i_le fun hfull => ?_
        have hempty := (timestampsCircCnt_eq_zero_iff h.inBounds).mp (hroom hc hfull)
        rw [hempty] at hpending
        cases hpending
      have hmask : (s.setList c list).descCountMask r.channel = s.descCountMask c := by
        rw [hc, descCountMask_setList]
      rw [hpop]
      simp only
      rw [if_pos (show (r.pop entry).i < channelIrqTimestampsSize from hi)]
      have hround := h.round hreading hc hi hbounds hpending
      rw [← hmask] at hround
      exact hround
  · rw [TimestampReads.popTurn]
    split
    · exact h.finish hreading
    · next entry list _ =>
      simp only
      split
      · exact h.otherCall hreading hc rfl
      · have hother : Inv ((s.setList r.channel list).setReading (some (r.pop entry))) c :=
          h.otherCall hreading hc rfl
        exact hother.finish rfl

theorem inv_step {event : Event} (h : Inv s c) (hroom : RoomForAll s event)
    (hstep : step s event = some s') : Inv s' c := by
  cases event with
  | pushTimestamp bitmap d now regs =>
    cases hstep
    exact h.pushTurn bitmap d now regs
  | readTimestamps channelIndex timestamps =>
    rw [step] at hstep
    split at hstep
    · cases hstep
    · next hnone =>
      split at hstep
      · next hindex =>
        cases hstep
        refine ⟨h.inBounds, ?_, h.results, ?_⟩
        · rw [takenFrom_start hnone rfl]
          exact h.account
        · rintro r ⟨⟩ _
          exact ⟨Nat.zero_le _, rfl, rfl⟩
      · cases hstep
        exact h
  | popTimestamp =>
    obtain ⟨r, hreading, rfl⟩ := Option.map_eq_some_iff.mp hstep
    exact h.popTurn hreading fun hc hfull => hc ▸ hroom r hreading hfull
  | setChannelState d state =>
    rw [step] at hstep
    split at hstep
    · cases hstep
    · next hnone =>
      cases hstep
      refine ⟨(congrArg InBounds (list_setState state)).mpr h.inBounds, ?_, h.results, ?_⟩
      · rw [list_setState]
        exact h.account
      · intro r hreading
        cases hnone.symm.trans hreading

theorem inv_initial (engine : HailoVdmaEngine) {bitmap : UInt32} (measureTimestamp : Bool)
    (hbit : hailoTestBit c bitmap = true) :
    Inv (initialSystem engine bitmap measureTimestamp) c := by
  have hlist : (initialSystem engine bitmap measureTimestamp).list c =
      { (engine.channels c).timestampList with head := 0, tail := 0 } := by
    rw [TimestampSystem.list, initialSystem, hailoVdmaEngineEnableChannels]
    simp only [hbit, if_true]
  refine ⟨?_, ?_, fun _ h => absurd h List.not_mem_nil, fun _ h => nomatch h⟩
  · rw [hlist]
    exact ⟨Nat.zero_lt_succ _, Nat.zero_lt_succ _⟩
  · have hcount : CircularBuffer.count 256 0 0 = 0 := rfl
    rw [hlist, pending, CircularBuffer.contents_empty hcount]
    rfl

section Overrun

/-- A call on a measured channel has filled `k` entries and one timestamp is in the ring. -/
structure AtEntry (c : ChannelIndex) (k : Nat) (s : TimestampSystem) : Prop where
  reading : ∃ r, s.reading = some r ∧ r.channel = c ∧ r.i = k
  inBounds : InBounds (s.list c)
  one : (pending (s.list c)).length = 1
  measured : (s.engine.channels c).timestampMeasureEnabled = true

theorem measured_setList :
    ((s.setList c list).engine.channels c).timestampMeasureEnabled =
      (s.engine.channels c).timestampMeasureEnabled := by
  rw [TimestampSystem.setList, setChannel_self]

/-- A push where there is space, on a measured channel of the interrupt. -/
theorem pushTurn_accepted {bitmap : UInt32} (hbit : hailoTestBit c bitmap = true)
    (hmeasured : (s.engine.channels c).timestampMeasureEnabled = true)
    (hspace : timestampsCircSpace (s.list c) ≠ 0) (now : UInt64) (regs : ChannelRegs) :
    pushTurn s bitmap c now regs =
      (s.setList c (hailoVdmaPushTimestamp now regs (s.list c))).accept c
        ⟨now, hailoVdmaGetNumProc regs⟩ := by
  rw [pushTurn, hbit, hmeasured, Bool.true_and, if_pos rfl]
  exact if_pos hspace

/-- The timestamp in the ring is popped right after another one came in. -/
theorem AtEntry.next {k : Nat} (h : AtEntry c k s) (hk : k < channelIrqTimestampsSize)
    {bitmap : UInt32} (hbit : hailoTestBit c bitmap = true) (now : UInt64) (regs : ChannelRegs) :
    ∃ s', Relation.ReflTransGen (Steps fun _ _ => True) s s' ∧ AtEntry c (k + 1) s' := by
  obtain ⟨⟨r, hreading, rfl, rfl⟩, hbounds, hone, hmeasured⟩ := h
  have hspace : timestampsCircSpace (s.list r.channel) ≠ 0 := by
    rw [Ne, timestampsCircSpace_eq_zero_iff hbounds, hone]
    decide
  have hpushed := pushTurn_accepted hbit hmeasured hspace now regs
  generalize hs₁ : pushTurn s bitmap r.channel now regs = s₁ at hpushed
  have hlist : s₁.list r.channel = hailoVdmaPushTimestamp now regs (s.list r.channel) := by
    rw [hpushed]
    exact list_setList_self
  have hbounds₁ : InBounds (s₁.list r.channel) := hlist ▸ hbounds.push now regs
  have htwo : (pending (s₁.list r.channel)).length = 2 := by
    rw [hlist, pending_push hbounds, if_neg (by rw [hone]; decide), List.length_append, hone]
    rfl
  have hreading₁ : s₁.reading = some r := by
    rw [hpushed]
    exact hreading
  have hmeasured₁ : (s₁.engine.channels r.channel).timestampMeasureEnabled = true := by
    rw [hpushed]
    exact measured_setList.trans hmeasured
  obtain ⟨-, hempty⟩ | ⟨entry, list, hpop, hbounds₂, hpending⟩ := pop_cases hbounds₁
  · rw [hempty] at htwo
    cases htwo
  have hpopTurn : popTurn s₁ r = (s₁.setList r.channel list).setReading
      (some ((r.pop entry).advance ((s₁.setList r.channel list).descCountMask r.channel))) := by
    rw [popTurn, hpop]
    exact if_pos hk
  refine ⟨popTurn s₁ r, .head ⟨.pushTimestamp bitmap r.channel now regs, trivial, congrArg some hs₁⟩
    (.single ⟨.popTimestamp, trivial, congrArg (Option.map (popTurn s₁)) hreading₁⟩), ?_⟩
  rw [hpopTurn]
  refine ⟨⟨_, rfl, rfl, rfl⟩, ?_, ?_, measured_setList.trans hmeasured₁⟩
  · exact (congrArg InBounds list_setList_self).mpr hbounds₂
  · have hrest : (pending list).length = 1 := by
      rw [hpending, List.length_cons] at htwo
      omega
    exact (congrArg (fun l => (pending l).length) list_setList_self).trans hrest

theorem AtEntry.reach (h : AtEntry c 0 s) {bitmap : UInt32} (hbit : hailoTestBit c bitmap = true)
    (now : UInt64) (regs : ChannelRegs) {k : Nat} (hk : k ≤ channelIrqTimestampsSize) :
    ∃ s', Relation.ReflTransGen (Steps fun _ _ => True) s s' ∧ AtEntry c k s' := by
  induction k with
  | zero => exact ⟨s, .refl, h⟩
  | succ k ih =>
    obtain ⟨s₁, hrun, hs₁⟩ := ih (by omega)
    obtain ⟨s₂, hnext, hs₂⟩ := hs₁.next hk hbit now regs
    exact ⟨s₂, hrun.trans hnext, hs₂⟩

/-- With the array full, the next pop stores past its end. -/
theorem AtEntry.overrun (h : AtEntry c channelIrqTimestampsSize s) :
    ∃ s', Relation.ReflTransGen (Steps fun _ _ => True) s s' ∧ ∃ result ∈ s'.results,
      result.channel = c ∧ channelIrqTimestampsSize ∈ result.written := by
  obtain ⟨⟨r, hreading, rfl, hi⟩, hbounds, hone, -⟩ := h
  obtain ⟨-, hempty⟩ | ⟨entry, list, hpop, -⟩ := pop_cases hbounds
  · rw [hempty] at hone
    cases hone
  have hpopTurn : popTurn s r = (s.setList r.channel list).finish (r.pop entry) := by
    rw [popTurn, hpop]
    exact if_neg (fun hlt => Nat.lt_irrefl _ (hi ▸ hlt))
  refine ⟨popTurn s r, .single ⟨.popTimestamp, trivial,
    congrArg (Option.map (popTurn s)) hreading⟩, ?_⟩
  rw [hpopTurn]
  refine ⟨_, List.mem_append_right _ (List.mem_singleton_self _), rfl, ?_⟩
  exact List.mem_append_right _ (List.mem_singleton.mpr hi.symm)

theorem atEntry_zero (hinv : Inv s c) (hreading : s.reading = none)
    (hempty : pending (s.list c) = []) {bitmap : UInt32} (hbit : hailoTestBit c bitmap = true)
    (hmeasured : (s.engine.channels c).timestampMeasureEnabled = true) (now : UInt64)
    (regs : ChannelRegs) :
    ∃ s', Relation.ReflTransGen (Steps fun _ _ => True) s s' ∧ AtEntry c 0 s' := by
  have hspace : timestampsCircSpace (s.list c) ≠ 0 := by
    rw [Ne, timestampsCircSpace_eq_zero_iff hinv.inBounds, hempty]
    decide
  have hpushed := pushTurn_accepted hbit hmeasured hspace now regs
  generalize hs₁ : pushTurn s bitmap c now regs = s₁ at hpushed
  have hlist : s₁.list c = hailoVdmaPushTimestamp now regs (s.list c) := by
    rw [hpushed]
    exact list_setList_self
  have hreading₁ : s₁.reading = none := by
    rw [hpushed]
    exact hreading
  have hindex : (UInt8.ofNat c).toNat = c := by
    rw [UInt8.toNat_ofNat', Nat.mod_eq_of_lt (Nat.lt_trans c.isLt (by decide))]
  have hchannel : (⟨(UInt8.ofNat c).toNat, by rw [hindex]; exact c.isLt⟩ : ChannelIndex) = c :=
    Fin.ext hindex
  refine ⟨s₁.setReading (some ⟨c, 0, fun _ => ⟨0, 0⟩, [], []⟩),
    .head ⟨.pushTimestamp bitmap c now regs, trivial, congrArg some hs₁⟩
      (.single ⟨.readTimestamps (UInt8.ofNat c) fun _ => ⟨0, 0⟩, trivial, ?_⟩),
    ⟨_, rfl, rfl, rfl⟩, ?_, ?_, ?_⟩
  · rw [step, hreading₁]
    simp only
    rw [dif_pos (by rw [hindex]; exact c.isLt), hchannel]
  · exact hlist ▸ hinv.inBounds.push now regs
  · change (pending (s₁.list c)).length = 1
    rw [hlist, pending_push hinv.inBounds, if_neg (by rw [hempty]; decide), hempty]
    rfl
  · change (s₁.engine.channels c).timestampMeasureEnabled = true
    rw [hpushed]
    exact measured_setList.trans hmeasured

/-- On every channel that is enabled with timestamps. -/
theorem overrun_reachable (engine : HailoVdmaEngine) {bitmap : UInt32}
    (hbit : hailoTestBit c bitmap = true) :
    ∃ s, Relation.ReflTransGen (Steps fun _ _ => True) (initialSystem engine bitmap true) s ∧
      ∃ result ∈ s.results, result.channel = c ∧ channelIrqTimestampsSize ∈ result.written := by
  have hinv := inv_initial engine true hbit
  have hempty : pending ((initialSystem engine bitmap true).list c) = [] := hinv.account.symm
  have hmeasured : ((initialSystem engine bitmap true).engine.channels c).timestampMeasureEnabled =
      true := by
    rw [initialSystem, hailoVdmaEngineEnableChannels]
    simp only [hbit, if_true]
  have hstart := atEntry_zero hinv rfl hempty hbit hmeasured 0 ⟨fun _ => 0, fun _ => 0⟩
  obtain ⟨s₁, hrun₁, hs₁⟩ := hstart
  obtain ⟨s₂, hrun₂, hs₂⟩ := hs₁.reach hbit 0 ⟨fun _ => 0, fun _ => 0⟩ (Nat.le_refl _)
  obtain ⟨s₃, hrun₃, hs₃⟩ := hs₂.overrun
  exact ⟨s₃, (hrun₁.trans hrun₂).trans hrun₃, hs₃⟩

end Overrun

theorem deliveredOnce_of_run {engine : HailoVdmaEngine} {bitmap : UInt32} {measureTimestamp : Bool}
    (hbit : hailoTestBit c bitmap = true)
    (hrun :
      Relation.ReflTransGen (Steps RoomForAll) (initialSystem engine bitmap measureTimestamp) s) :
    DeliveredOnce s c := by
  have hstep : ∀ s s', Inv s c → Steps RoomForAll s s' → Inv s' c := by
    rintro s s' h ⟨event, hroom, hevent⟩
    exact inv_step h hroom hevent
  exact (inv_of_run hstep hrun (inv_initial engine measureTimestamp hbit)).deliveredOnce

def idleEngine : HailoVdmaEngine := ⟨0, 0, 0, fun _ => LaunchSteps.idleChannel⟩

theorem deliveredOnce_of_run_oneTimestamp : ∃ s : TimestampSystem,
    s.results.map ReadResult.returned = [[⟨7, 0⟩]] ∧ DeliveredOnce s 0 := by
  obtain ⟨s, hrun, hresults⟩ : ∃ s, Relation.ReflTransGen (Steps RoomForAll)
      (initialSystem idleEngine 1 true) s ∧ s.results.map ReadResult.returned = [[⟨7, 0⟩]] :=
    ⟨_, .head ⟨.pushTimestamp 1 0 7 ⟨fun _ => 0, fun _ => 0⟩, trivial, rfl⟩ <|
      .head ⟨.readTimestamps 0 fun _ => ⟨0, 0⟩, trivial, rfl⟩ <|
      .head ⟨.popTimestamp, (by rintro r ⟨⟩ hfull; cases hfull), rfl⟩ <|
      .single ⟨.popTimestamp, (by rintro r ⟨⟩ hfull; cases hfull), rfl⟩, rfl⟩
  exact ⟨s, hresults, deliveredOnce_of_run (by decide) hrun⟩

/-- The ring hands a call one timestamp more than its array has room for. -/
theorem fullArray_overrun : ∃ s, Relation.ReflTransGen (Steps fun _ _ => True)
    (initialSystem idleEngine 1 true) s ∧ ¬ DeliveredOnce s 0 := by
  have hbit : hailoTestBit ((0 : ChannelIndex) : Nat) 1 = true := by decide
  obtain ⟨s, hrun, result, hresult, hchannel, hwritten⟩ := overrun_reachable idleEngine hbit
  refine ⟨s, hrun, fun h => ?_⟩
  exact Nat.lt_irrefl _ ((h.results result hresult hchannel).inside _ hwritten)

end HailortDrivers.TimestampDelivery
