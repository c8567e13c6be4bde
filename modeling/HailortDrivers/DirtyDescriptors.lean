import HailortDrivers.EngineRuns
import HailortDrivers.LaunchedBuffers

/-! Over every run of launches, completion reads and channel disables, the
descriptors that no ongoing transfer lists as dirty hold the default word. -/
namespace HailortDrivers.DirtyDescriptors
open KernelExec VdmaTypes DescriptorProgramming SegmentSlicing DescriptorsListCreation
open BoundBuffers ProgrammedPages DescriptorWords ChannelTransfers LaunchSteps LaunchedBuffers
open OngoingRing
open VdmaEngine CompletionSteps EngineSteps EventRuns EngineRuns

/-- Every descriptor of the list holds the default word or is dirty for one of
the transfers. -/
def DefaultUnlessListed (ts : List HailoOngoingTransfer) (l : HailoVdmaDescriptorsList) : Prop :=
  ∀ x < l.descCount.toNat, ¬ Listed ts x →
    (l.descList x).pageSizeDescControl = defaultPageSizeDescControl l.descPageSize

theorem defaultUnlessListed_mono {ts us : List HailoOngoingTransfer} {l : HailoVdmaDescriptorsList}
    (hsub : ∀ x, Listed ts x → Listed us x) (h : DefaultUnlessListed ts l) :
    DefaultUnlessListed us l := fun x hx hlisted => h x hx fun hts => hlisted (hsub x hts)

theorem not_listed_nil (x : Nat) : ¬ Listed [] x := by
  simp [Listed]

/-- Clearing transfers takes them out of the account. -/
theorem defaultUnlessListed_clearAll {ts us : List HailoOngoingTransfer}
    {l : HailoVdmaDescriptorsList} (h : DefaultUnlessListed (ts ++ us) l) :
    DefaultUnlessListed us (clearAll ts l) := by
  obtain ⟨memory, hmemory⟩ := clearAll_shape ts l
  intro x hx hlisted
  have hcount : x < l.descCount.toNat := by rwa [hmemory] at hx
  have hpage : (clearAll ts l).descPageSize = l.descPageSize := by rw [hmemory]; rfl
  rw [hpage]
  by_cases hts : Listed ts x
  · exact clearAll_listed hts
  · rw [clearAll_not_listed hts]
    exact h x hcount (by rw [listed_append]; exact not_or.mpr ⟨hts, hlisted⟩)

/-- The launches that the result is about. -/
def PlainLaunch (_ : EngineState) (args : LaunchArgs) (l : HailoVdmaDescriptorsList)
    (_ : List Int32) : Prop :=
  ∀ buffer ∈ args.buffers, Launchable l.descPageSize buffer ∧
    AlignedButLast l.descPageSize.toNat (segments buffer.sgTable.sgl)

section Run
variable (i : ChannelIndex) (address : Nat) (l₀ : HailoVdmaDescriptorsList)

/-- While the channel is not attached to the list, nothing is dirty. -/
structure Accounted (s : EngineState) : Prop where
  list : ∃ memory, s.heap address = some (l₀.withDescs memory) ∧
    DefaultUnlessListed (ongoing (s.engine.channels i).ongoingTransfers) (l₀.withDescs memory) ∧
    ((s.engine.channels i).lastDescList = some address ∨
      DefaultUnlessListed [] (l₀.withDescs memory))
  others : ∀ j ≠ i, (s.engine.channels j).lastDescList ≠ some address

end Run

section
variable {vdmaHw : HailoVdmaHw} {i : ChannelIndex} {address : Nat} {l₀ : HailoVdmaDescriptorsList}
  {s s' : EngineState}

/-- The descriptors that a launch leaves without the default word are listed by
its transfer or by an older one. -/
theorem defaultUnlessListed_launched {args : LaunchArgs} {l : HailoVdmaDescriptorsList}
    {rets : List Int32} {c : LaunchCursor} {ts : List HailoOngoingTransfer} (hwf : WellFormed l)
    (hcount : l.descCount.toNat ≤ 65536)
    (h : LaunchesIn vdmaHw i address args l rets s s' c)
    (hplain : PlainLaunch s args l rets)
    (hlisted : DefaultUnlessListed ts l) :
    DefaultUnlessListed (ts ++ [launchedTransfer args.buffers args.isDebug c])
      (launchedList vdmaHw args.startingDesc args.firstInterruptsDomain args.isDebug c) := by
  have hstart : DirtyListed (fun x => Listed ts x ∨ l.descCount.toNat ≤ x)
      (launchStart args.startingDesc l).dirtyDescs (launchStart args.startingDesc l).descList := by
    intro x hx
    left
    by_contra hnot
    obtain ⟨hts, hlt⟩ := not_or.mp hnot
    exact hx (hlisted x (Nat.not_le.mp hlt) hts)
  have hdirty := Rounds.dirtyListed h.rounds hwf hcount h.start (fun b hb => (hplain b hb).1)
    (fun b hb => (hplain b hb).2) h.programmed hstart
  obtain ⟨memory, hshape⟩ := h.sameShape
  intro x hx hnot
  rw [listed_append, listed_singleton, launchedTransfer] at hnot
  obtain ⟨hts, hnew⟩ := not_or.mp hnot
  have hfirst : x ≠ args.startingDesc.toNat := by
    rintro rfl
    refine hnew ⟨args.startingDesc.toUInt16,
      (Rounds.dirtyDescs_prefix h.rounds).mem (List.mem_singleton_self _), ?_⟩
    rw [UInt32.toNat_toUInt16]
    exact Nat.mod_eq_of_lt (h.start.trans_le hcount)
  have hlt : x < l.descCount.toNat := by
    rw [hshape] at hx
    exact hx
  have hpage : (launchedList vdmaHw args.startingDesc args.firstInterruptsDomain args.isDebug
      c).descPageSize = c.descList.descPageSize := rfl
  rw [launchedList_of_ne hfirst, hpage]
  by_contra hne
  rcases hdirty x hne with (hlist | hge) | hmem
  · exact hts hlist
  · exact absurd hlt (Nat.not_lt.mpr hge)
  · exact hnew hmem

/-- A turn of a channel in a completion read or a disable keeps the account. -/
theorem Accounted.cleared {engine : HailoVdmaEngine} {heap : DescListHeap} {j : ChannelIndex}
    {channel' : HailoVdmaChannel} {ts : List HailoOngoingTransfer}
    (h : Accounted i address l₀ ⟨engine, heap⟩)
    (hring : ongoing (engine.channels j).ongoingTransfers =
      ts ++ ongoing channel'.ongoingTransfers)
    (hlist : channel'.lastDescList = (engine.channels j).lastDescList ∨
      channel'.lastDescList = none ∧ ongoing channel'.ongoingTransfers = []) :
    Accounted i address l₀
      ⟨setChannel engine j channel', heapCleared heap (engine.channels j).lastDescList ts⟩ := by
  obtain ⟨⟨memory, hheap, hlisted, hattached⟩, hothers⟩ := h
  simp only at hheap hlisted hattached hothers
  have hothers' : ∀ k ≠ i, ((setChannel engine j channel').channels k).lastDescList ≠
      some address := by
    intro k hk
    by_cases hkj : k = j
    · rw [hkj, setChannel_self]
      rcases hlist with hsame | ⟨hnone, -⟩
      · rw [hsame, ← hkj]
        exact hothers k hk
      · rw [hnone]
        exact (Option.some_ne_none _).symm
    · rw [setChannel_of_ne engine hkj]
      exact hothers k hk
  by_cases hij : i = j
  · subst hij
    rw [hring] at hlisted
    by_cases hhere : (engine.channels i).lastDescList = some address
    · -- the transfers that leave the ring are cleared in this list
      obtain ⟨memory', hmemory'⟩ := clearAll_shape ts (l₀.withDescs memory)
      have hcleared := defaultUnlessListed_clearAll hlisted
      refine ⟨⟨memory', ?_, ?_, ?_⟩, hothers'⟩
      · simp only [hhere, heapCleared_self, hheap, Option.map_some, hmemory',
          HailoVdmaDescriptorsList.withDescs_withDescs]
      · simp only [setChannel_self]
        rwa [hmemory'] at hcleared
      · simp only [setChannel_self]
        rcases hlist with hsame | ⟨-, hempty⟩
        · exact Or.inl (hsame.trans hhere)
        · right
          rwa [hmemory', hempty] at hcleared
    · have hdefault := hattached.resolve_left hhere
      refine ⟨⟨memory, ?_, ?_, Or.inr hdefault⟩, hothers'⟩
      · exact (heapCleared_of_ne hhere ts).trans hheap
      · exact defaultUnlessListed_mono (fun x hx => absurd hx (not_listed_nil x)) hdefault
  · refine ⟨⟨memory, ?_, ?_, ?_⟩, hothers'⟩
    · exact (heapCleared_of_ne (hothers j (Ne.symm hij)) ts).trans hheap
    · simp only [setChannel_of_ne engine hij]
      exact hlisted
    · simp only [setChannel_of_ne engine hij]
      exact hattached

theorem Accounted.launched {args : LaunchArgs} {l : HailoVdmaDescriptorsList} {rets : List Int32}
    (hwf : WellFormed l₀) (hcount : l₀.descCount.toNat ≤ 65536) (h : Accounted i address l₀ s)
    (hlaunch : Launches vdmaHw i address args l rets s s')
    (hplain : PlainLaunch s args l rets) :
    Accounted i address l₀ s' := by
  obtain ⟨⟨memory, hheap, hlisted, -⟩, hothers⟩ := h
  obtain ⟨c, hin⟩ := hlaunch.spec
  obtain rfl : l₀.withDescs memory = l := Option.some.inj (hheap.symm.trans hin.list)
  have hnext := defaultUnlessListed_launched (hwf.withDescs memory) hcount hin hplain hlisted
  obtain ⟨memory₂, hshape⟩ := hin.sameShape
  have hlist : launchedList vdmaHw args.startingDesc args.firstInterruptsDomain args.isDebug c =
      l₀.withDescs memory₂ := hshape
  refine ⟨⟨memory₂, ?_, ?_, ?_⟩, ?_⟩
  · rw [hin.heap_self, hlist]
  · rw [hin.ongoing_eq, ← hlist]
    exact hnext
  · left
    rw [hin.channel_eq]
    rfl
  · intro j hj
    rw [hin.channels_of_ne hj]
    exact hothers j hj

theorem Accounted.filled {σ : Type} {transferDone : HailoOngoingTransfer → σ → Exec σ}
    {irqData : List HailoVdmaInterruptsChannelData} {bitmap : UInt32}
    {regs : ChannelIndex → ChannelRegs} {done : σ} {ret : Int32} {c : FillCursor σ}
    (h : Accounted i address l₀ s)
    (hfill : hailoVdmaEngineFillIrqData transferDone irqData s.engine bitmap regs s.heap done =
      .ok (ret, c)) :
    Accounted i address l₀ ⟨c.engine, c.heap⟩ := by
  obtain ⟨turns, hfills⟩ := fillChannels_fills hfill
  refine hfills.inv (I := fun c : FillCursor σ => Accounted i address l₀ ⟨c.engine, c.heap⟩)
    ?_ ⟨h.list, h.others⟩
  intro c j data removed cc hinv _ _ hcompletes
  have hcleared := hinv.cleared hcompletes.ongoing_eq
    (Or.inl hcompletes.sameChannel.lastDescList)
  rw [← hcompletes.heap_eq] at hcleared
  exact hcleared

theorem Accounted.disabled {bitmap : UInt32} {engine : HailoVdmaEngine} {heap : DescListHeap}
    (h : Accounted i address l₀ s)
    (hdisable : hailoVdmaEngineDisableChannels s.engine bitmap s.heap = .ok (engine, heap)) :
    Accounted i address l₀ ⟨engine, heap⟩ := by
  refine disableChannels_inv (I := fun engine heap => Accounted i address l₀ ⟨engine, heap⟩)
    ?_ hdisable ⟨h.list, h.others⟩
  intro engine heap j channel' heap' hinv _ hturn
  obtain ⟨hchannel, hempty, rfl⟩ := disableChannel_ok hturn
  refine hinv.cleared ?_ (Or.inr ⟨?_, hempty⟩)
  · rw [hempty, List.append_nil]
  · rw [hchannel]

theorem Accounted.step (hwf : WellFormed l₀) (hcount : l₀.descCount.toNat ≤ 65536)
    (h : Accounted i address l₀ s) (hstep : EngineStep vdmaHw i address PlainLaunch s s') :
    Accounted i address l₀ s' := by
  cases hstep with
  | launch hlaunch hplain => exact h.launched hwf hcount hlaunch hplain
  | completionRead hfill => exact h.filled hfill
  | disable hdisable => exact h.disabled hdisable
  | elsewhere hlist _ hring hheap hothers =>
    refine ⟨?_, hothers⟩
    rw [hlist, hring, hheap]
    exact h.list

/-- In every reached state the descriptors that no ongoing transfer lists hold the
default word. Once the ring is empty, as after a disable of the channel, all do. -/
theorem dirtyDescs_restored (hwf : WellFormed l₀) (hcount : l₀.descCount.toNat ≤ 65536)
    (hheap : s.heap address = some l₀)
    (hdefault : ∀ x < l₀.descCount.toNat,
      (l₀.descList x).pageSizeDescControl = defaultPageSizeDescControl l₀.descPageSize)
    (hothers : ∀ j ≠ i, (s.engine.channels j).lastDescList ≠ some address)
    (hrun : Relation.ReflTransGen (EngineStep vdmaHw i address PlainLaunch) s s') :
    ∃ memory, s'.heap address = some (l₀.withDescs memory) ∧
      (∀ x < l₀.descCount.toNat,
        ¬ Listed (ongoing (s'.engine.channels i).ongoingTransfers) x →
          (memory x).pageSizeDescControl = defaultPageSizeDescControl l₀.descPageSize) ∧
      (ongoing (s'.engine.channels i).ongoingTransfers = [] → ∀ x < l₀.descCount.toNat,
        (memory x).pageSizeDescControl = defaultPageSizeDescControl l₀.descPageSize) ∧
      ∀ bitmap engine' heap', hailoTestBit i bitmap = true →
        hailoVdmaEngineDisableChannels s'.engine bitmap s'.heap = .ok (engine', heap') →
        ∃ memory', heap' address = some (l₀.withDescs memory') ∧ ∀ x < l₀.descCount.toNat,
          (memory' x).pageSizeDescControl = defaultPageSizeDescControl l₀.descPageSize := by
  have hstart : Accounted i address l₀ s :=
    ⟨⟨l₀.descList, hheap, fun x hx _ => hdefault x hx, Or.inr fun x hx _ => hdefault x hx⟩,
      hothers⟩
  have hinv := inv_of_run (fun _ _ h hstep => Accounted.step hwf hcount h hstep) hrun hstart
  obtain ⟨memory, hheap', hlisted, -⟩ := hinv.list
  refine ⟨memory, hheap', hlisted, ?_, ?_⟩
  · intro hempty x hx
    rw [hempty] at hlisted
    exact hlisted x hx (not_listed_nil x)
  · intro bitmap engine' heap' hbit hdisable
    obtain ⟨memory', hheap'', hlisted', -⟩ := (hinv.disabled hdisable).list
    have hempty : ongoing (engine'.channels i).ongoingTransfers = [] :=
      (disableChannels_disabled (List.mem_finRange i) hbit hdisable).ongoing
    refine ⟨memory', hheap'', fun x hx => hlisted' x hx ?_⟩
    simp only [hempty]
    exact not_listed_nil x

end

theorem dirtyDescs_restored_splitBuffer :
    ∃ s', Launches hailoPcieVdmaHw 0 1 splitArgs ringOfFour [3] idleState s' ∧
      ∃ memory, s'.heap 1 = some (ringOfFour.withDescs memory) ∧
        ∀ x < 4, ¬ Listed (ongoing (s'.engine.channels 0).ongoingTransfers) x →
          (memory x).pageSizeDescControl = 0x4002 := by
  obtain ⟨s', hlaunch⟩ := idleState_launches
  have hstep : EngineStep hailoPcieVdmaHw 0 1 PlainLaunch idleState s' := by
    refine .launch hlaunch fun buffer hbuffer => ?_
    obtain rfl := List.mem_singleton.mp hbuffer
    exact ⟨⟨by decide, by decide⟩, splitBuffer_aligned⟩
  obtain ⟨memory, hheap, hlisted, -⟩ := dirtyDescs_restored ringOfFour_wellFormed (by decide)
    idleState_heap (fun _ _ => rfl) (fun _ _ => (Option.some_ne_none 1).symm)
    (Relation.ReflTransGen.single hstep)
  exact ⟨s', hlaunch, memory, hheap, hlisted⟩

end HailortDrivers.DirtyDescriptors
