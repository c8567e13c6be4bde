import HailortDrivers.LaunchedWindows

/-! Ongoing transfers and the descriptors they hold. The driver compares only
`num_avail` at a launch, so keeping the transfers apart is left to the caller, who
must not launch more descriptors than the ongoing transfers leave free. -/
namespace HailortDrivers.DescriptorWindow
open KernelExec VdmaTypes DescriptorProgramming DescriptorsListCreation BoundBuffers
open ChannelTransfers LaunchSteps LaunchedBuffers OngoingRing VdmaEngine CompletionSteps
open EngineSteps EventRuns EngineRuns ModularWindow LaunchedWindows

/-- The descriptors from a transfer's first to its last one on a ring of `n`. -/
abbrev HoldsDesc (n : Nat) := Holds n firstDesc lastDescIndex

/-- How many descriptors the transfers hold together. -/
def heldDescs (n : Nat) (ts : List HailoOngoingTransfer) : Nat :=
  (ts.map (held n firstDesc lastDescIndex)).sum

/-- A launch of the kind that leaves the ongoing transfers their descriptors. -/
structure RoomyLaunch (i : ChannelIndex) (s : EngineState) (args : LaunchArgs)
    (l : HailoVdmaDescriptorsList) (rets : List Int32) : Prop where
  nonempty : args.buffers ≠ []
  launchable : ∀ buffer ∈ args.buffers, Launchable l.descPageSize buffer
  room : heldDescs l.descCount.toNat (ongoing (s.engine.channels i).ongoingTransfers) +
    launchedCount rets ≤ l.descCount.toNat - 1

/-- The ongoing transfers lie one after the other up to `num_avail`. -/
structure Windowed (i : ChannelIndex) (address : Nat) (l₀ : HailoVdmaDescriptorsList)
    (s : EngineState) : Prop where
  list : ∃ l, s.heap address = some l ∧ SameShape l₀ l
  ring : ∃ b xs e, Windows l₀.descCount.toNat b xs e ∧
    xs.map Prod.fst = ongoing (s.engine.channels i).ongoingTransfers ∧
    e ≤ b + (l₀.descCount.toNat - 1) ∧
    (xs ≠ [] → (s.engine.channels i).state.numAvail.toNat = e % l₀.descCount.toNat)

section
variable {vdmaHw : HailoVdmaHw} {i : ChannelIndex} {address : Nat}
  {l₀ l : HailoVdmaDescriptorsList} {args : LaunchArgs} {rets : List Int32} {s s' : EngineState}

theorem heapCleared_sameShape {heap : DescListHeap} {lastDescList : Option Nat}
    (h : ∃ l, heap address = some l ∧ SameShape l₀ l) (ts : List HailoOngoingTransfer) :
    ∃ l, heapCleared heap lastDescList ts address = some l ∧ SameShape l₀ l := by
  obtain ⟨l, hheap, hshape⟩ := h
  by_cases hhere : lastDescList = some address
  · refine ⟨clearAll ts l, ?_, hshape.trans (clearAll_shape ts l)⟩
    rw [hhere, heapCleared_self, hheap, Option.map_some]
  · exact ⟨l, (heapCleared_of_ne hhere ts).trans hheap, hshape⟩

/-- Windows end where the next launch must start. -/
theorem Windowed.before_launch {c : LaunchCursor} (h : Windowed i address l₀ s)
    (hin : LaunchesIn vdmaHw i address args l rets s s' c) (hcount : l.descCount.toNat ≤ 65536) :
    SameShape l₀ l ∧ ∃ b xs e, Windows l.descCount.toNat b xs e ∧
      xs.map Prod.fst = ongoing (s.engine.channels i).ongoingTransfers ∧
      e ≤ b + (l.descCount.toNat - 1) ∧ e % l.descCount.toNat = args.startingDesc.toNat := by
  obtain ⟨⟨l', hheap, hshape⟩, b, xs, e, hwindows, hongoing, hfit, hnumAvail⟩ := h
  obtain rfl : l' = l := Option.some.inj (hheap.symm.trans hin.list)
  obtain ⟨descs, rfl⟩ := hshape
  refine ⟨⟨descs, rfl⟩, ?_⟩
  by_cases hxs : xs = []
  · subst hxs
    exact ⟨args.startingDesc.toNat, [], args.startingDesc.toNat, .nil _, hongoing, by omega,
      Nat.mod_eq_of_lt hin.start⟩
  · refine ⟨b, xs, e, hwindows, hongoing, hfit, ?_⟩
    exact (hnumAvail hxs).symm.trans (LaunchesIn.numAvail_eq hin hcount)

/-- What a roomy launch takes, and that it fits behind the ongoing transfers. -/
theorem RoomyLaunch.advanced {c : LaunchCursor} {xs : List (HailoOngoingTransfer × Nat)} {b e : Nat}
    (h : RoomyLaunch i s args l rets) (hwf : WellFormed l)
    (hin : LaunchesIn vdmaHw i address args l rets s s' c)
    (hwindows : Windows l.descCount.toNat b xs e)
    (hongoing : xs.map Prod.fst = ongoing (s.engine.channels i).ongoingTransfers)
    (hfit : e ≤ b + (l.descCount.toNat - 1)) :
    Advanced (launchStart args.startingDesc l) c (launchedCount rets) ∧
      0 < launchedCount rets ∧ e + launchedCount rets ≤ b + (l.descCount.toNat - 1) := by
  obtain ⟨hadvanced, hpos⟩ := Rounds.advanced hin.rounds hwf hin.start h.launchable hin.programmed
  have hroom := h.room
  have hle := hwindows.le
  rw [heldDescs, ← hongoing, hwindows.sum_held (by omega)] at hroom
  exact ⟨hadvanced, hpos h.nonempty, by omega⟩

theorem Windowed.launched (hwf : WellFormed l) (hcount : l.descCount.toNat ≤ 65536)
    (h : Windowed i address l₀ s) (hlaunch : Launches vdmaHw i address args l rets s s')
    (hroomy : RoomyLaunch i s args l rets) : Windowed i address l₀ s' := by
  obtain ⟨c, hin⟩ := hlaunch.spec
  obtain ⟨hshape, b, xs, e, hwindows, hongoing, hfit, he⟩ := h.before_launch hin hcount
  obtain ⟨hadvanced, hpos, hfit'⟩ := hroomy.advanced hwf hin hwindows hongoing hfit
  obtain ⟨hnew, hnumAvail⟩ := LaunchesIn.windows hin hcount hpos (hadvanced.lastDesc hpos) he
  have hN : l.descCount = l₀.descCount := by
    obtain ⟨descs, rfl⟩ := hshape
    rfl
  rw [hN] at hwindows hnew hnumAvail hfit'
  refine ⟨⟨_, hin.heap_self, hshape.trans hin.sameShape⟩, b, _, _, hwindows.append hnew, ?_, hfit',
    fun _ => hnumAvail⟩
  rw [hin.ongoing_eq, List.map_append, hongoing]
  rfl

/-- A roomy launch leaves the descriptors of the ongoing transfers alone. -/
theorem Windowed.launched_frame (hwf : WellFormed l) (hcount : l.descCount.toNat ≤ 65536)
    (h : Windowed i address l₀ s) (hlaunch : Launches vdmaHw i address args l rets s s')
    (hroomy : RoomyLaunch i s args l rets) :
    ∃ l', s'.heap address = some l' ∧
      ∀ t ∈ ongoing (s.engine.channels i).ongoingTransfers,
        ∀ x, HoldsDesc l.descCount.toNat t x → l'.descList x = l.descList x := by
  obtain ⟨c, hin⟩ := hlaunch.spec
  obtain ⟨hshape, b, xs, e, hwindows, hongoing, hfit, he⟩ := h.before_launch hin hcount
  obtain ⟨hadvanced, hpos, hfit'⟩ := hroomy.advanced hwf hin hwindows hongoing hfit
  refine ⟨_, hin.heap_self, ?_⟩
  intro t ht x hx
  rw [← hongoing] at ht
  obtain ⟨p, hp, hp', rfl⟩ := hwindows.holds (by omega) ht hx
  have hnot : ∀ j < launchedCount rets,
      (args.startingDesc.toNat + j) % l.descCount.toNat ≠ p % l.descCount.toNat := by
    intro j hj hmod
    rw [← he, Nat.mod_add_mod] at hmod
    have := eq_of_mod_eq (s := b) (by omega) (by omega) (by omega) (by omega) hmod
    omega
  have hfirst := hnot 0 hpos
  rw [Nat.add_zero, Nat.mod_eq_of_lt hin.start] at hfirst
  rw [launchedList_of_ne (Ne.symm hfirst), hadvanced.frame _ hnot]
  rfl

/-- Transfers leave the ring from the oldest on. -/
theorem Windowed.cleared {engine : HailoVdmaEngine} {heap : DescListHeap} {j : ChannelIndex}
    {channel' : HailoVdmaChannel} {ts : List HailoOngoingTransfer}
    (h : Windowed i address l₀ ⟨engine, heap⟩)
    (hring : ongoing (engine.channels j).ongoingTransfers =
      ts ++ ongoing channel'.ongoingTransfers)
    (hstate : channel'.state.numAvail = (engine.channels j).state.numAvail ∨
      ongoing channel'.ongoingTransfers = []) :
    Windowed i address l₀
      ⟨setChannel engine j channel', heapCleared heap (engine.channels j).lastDescList ts⟩ := by
  obtain ⟨hlist, b, xs, e, hwindows, hongoing, hfit, hnumAvail⟩ := h
  refine ⟨heapCleared_sameShape hlist ts, ?_⟩
  by_cases hij : i = j
  · subst hij
    simp only [setChannel_self]
    simp only at hongoing
    rw [hring] at hongoing
    obtain ⟨xs₁, xs₂, rfl, -, hxs₂⟩ := List.map_eq_append_iff.mp hongoing
    obtain ⟨m, hxs₁, hrest⟩ := hwindows.split
    have hle := hxs₁.le
    refine ⟨m, xs₂, e, hrest, hxs₂, by omega, fun hne => ?_⟩
    rcases hstate with hsame | hempty
    · rw [hsame]
      exact hnumAvail (List.append_ne_nil_of_right_ne_nil _ hne)
    · rw [hempty] at hxs₂
      exact absurd (List.map_eq_nil_iff.mp hxs₂) hne
  · simp only [setChannel_of_ne engine hij]
    exact ⟨b, xs, e, hwindows, hongoing, hfit, hnumAvail⟩

theorem Windowed.step (hwf : WellFormed l₀) (hcount : l₀.descCount.toNat ≤ 65536)
    (h : Windowed i address l₀ s)
    (hstep : EngineStep vdmaHw i address (RoomyLaunch i) s s') : Windowed i address l₀ s' := by
  cases hstep with
  | @launch _ args l rets hlaunch hroomy =>
    obtain ⟨l', hheap, descs, rfl⟩ := h.list
    obtain ⟨c, hin⟩ := hlaunch.spec
    obtain rfl : l₀.withDescs descs = l := Option.some.inj (hheap.symm.trans hin.list)
    exact h.launched (hwf.withDescs descs) hcount hlaunch hroomy
  | completionRead hfill =>
    obtain ⟨turns, hfills⟩ := fillChannels_fills hfill
    refine hfills.inv (I := fun c => Windowed i address l₀ ⟨c.engine, c.heap⟩) ?_ ⟨h.list, h.ring⟩
    intro c j data removed cc hinv _ _ hcompletes
    have hcleared := hinv.cleared hcompletes.ongoing_eq (Or.inl hcompletes.sameChannel.numAvail)
    rw [← hcompletes.heap_eq] at hcleared
    exact hcleared
  | disable hdisable =>
    refine disableChannels_inv (I := fun engine heap => Windowed i address l₀ ⟨engine, heap⟩)
      ?_ hdisable ⟨h.list, h.ring⟩
    intro engine heap j channel' heap' hinv _ hturn
    obtain ⟨-, hempty, rfl⟩ := disableChannel_ok hturn
    refine hinv.cleared ?_ (Or.inr hempty)
    rw [hempty, List.append_nil]
  | elsewhere hlist hstate hring hheap hothers =>
    obtain ⟨hlist, hring'⟩ := h
    refine ⟨by rwa [hheap], ?_⟩
    rw [hring, hstate]
    exact hring'

/-- From an empty ring on, as long as every launch leaves the ongoing transfers their
descriptors, the transfers hold no descriptor twice, they hold one less than the
ring has at most, and a launch changes no descriptor that one of them holds. -/
theorem ongoing_disjoint (hwf : WellFormed l₀) (hcount : l₀.descCount.toNat ≤ 65536)
    (hheap : s.heap address = some l₀)
    (hring : ongoing (s.engine.channels i).ongoingTransfers = [])
    (hrun : Relation.ReflTransGen (EngineStep vdmaHw i address (RoomyLaunch i)) s s') :
    (ongoing (s'.engine.channels i).ongoingTransfers).Pairwise (fun t u =>
      ∀ x, ¬ (HoldsDesc l₀.descCount.toNat t x ∧ HoldsDesc l₀.descCount.toNat u x)) ∧
    heldDescs l₀.descCount.toNat (ongoing (s'.engine.channels i).ongoingTransfers) ≤
      l₀.descCount.toNat - 1 ∧
    ∀ args l rets s'', Launches vdmaHw i address args l rets s' s'' →
      RoomyLaunch i s' args l rets → ∃ l', s''.heap address = some l' ∧
        ∀ t ∈ ongoing (s'.engine.channels i).ongoingTransfers,
          ∀ x, HoldsDesc l.descCount.toNat t x → l'.descList x = l.descList x := by
  have hstart : Windowed i address l₀ s :=
    ⟨⟨l₀, hheap, .refl _⟩, 0, [], 0, .nil 0, hring.symm, Nat.zero_le _, fun h => absurd rfl h⟩
  have hinv := inv_of_run (fun _ _ h hstep => Windowed.step hwf hcount h hstep) hrun hstart
  refine ⟨?_, ?_, ?_⟩
  · obtain ⟨b, xs, e, hwindows, hongoing, hfit, -⟩ := hinv.ring
    rw [← hongoing]
    exact hwindows.pairwise (by omega)
  · obtain ⟨b, xs, e, hwindows, hongoing, hfit, -⟩ := hinv.ring
    rw [heldDescs, ← hongoing, hwindows.sum_held (by omega)]
    omega
  · intro args l rets s'' hlaunch hroomy
    obtain ⟨l', hheap', descs, rfl⟩ := hinv.list
    obtain ⟨c, hin⟩ := hlaunch.spec
    obtain rfl : l₀.withDescs descs = l := Option.some.inj (hheap'.symm.trans hin.list)
    exact hinv.launched_frame (hwf.withDescs descs) hcount hlaunch hroomy

end

theorem ongoing_disjoint_splitBuffer :
    ∃ s', Launches hailoPcieVdmaHw 0 1 splitArgs ringOfFour [3] idleState s' ∧
      heldDescs 4 (ongoing (s'.engine.channels 0).ongoingTransfers) ≤ 3 := by
  obtain ⟨s', hlaunch⟩ := idleState_launches
  have hroomy : RoomyLaunch 0 idleState splitArgs ringOfFour [3] := by
    refine ⟨by decide, fun buffer hbuffer => ?_, by decide⟩
    obtain rfl := List.mem_singleton.mp hbuffer
    exact ⟨by decide, by decide⟩
  exact ⟨s', hlaunch, (ongoing_disjoint ringOfFour_wellFormed (by decide) idleState_heap rfl
    (.single (.launch hlaunch hroomy))).2.1⟩

/-- Two launches of three descriptors each on a ring of four, with no completion
between them: both succeed, and the second one reprograms the first one's. -/
theorem ringOfFour_overrun :
    ∃ channel₁ l₁ regs₁ channel₂ l₂ regs₂ t u,
      hailoVdmaLaunchTransfer hailoPcieVdmaHw idleChannel 1 ringOfFour activeRegs 0 [splitBuffer]
        true hailoVdmaInterruptsDomainNone hailoVdmaInterruptsDomainHost false =
        .ok (3, channel₁, l₁, regs₁) ∧
      hailoVdmaLaunchTransfer hailoPcieVdmaHw channel₁ 1 l₁ regs₁ 3 [splitBuffer]
        true hailoVdmaInterruptsDomainNone hailoVdmaInterruptsDomainHost false =
        .ok (3, channel₂, l₂, regs₂) ∧
      ongoing channel₂.ongoingTransfers = [t, u] ∧
      HoldsDesc 4 t 0 ∧ HoldsDesc 4 u 0 ∧ heldDescs 4 [t, u] = 6 ∧
      l₂.descList 0 ≠ l₁.descList 0 :=
  ⟨_, _, _, _, _, _, ⟨2, [splitBuffer], [0, 2], false⟩, ⟨1, [splitBuffer], [3, 1], false⟩, rfl, rfl,
    rfl, ⟨0, by decide, rfl⟩, ⟨1, by decide, rfl⟩, by decide, by decide⟩

end HailortDrivers.DescriptorWindow
