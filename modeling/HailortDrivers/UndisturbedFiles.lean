import HailortDrivers.KernelShares
import HailortDrivers.TransferAccounts
import HailortDrivers.Unwinding

/-! What an open file notices of the others. The files of a board share its engines and the heap of
the kernel. As long as each file keeps to channels of its own and frees nothing that is in use, a
file gets the answers that it would get if no other file were ever opened. -/
namespace HailortDrivers.UndisturbedFiles
open KernelExec VdmaTypes LaunchSteps OngoingRing VdmaEngine CompletionSteps EngineSteps
  ChannelHistories VdmaMemory VdmaIoctl VdmaSystem SystemSteps RequestEffects OwnedObjects
  ListLifetime BufferLifetime RelatedResults ChannelShares KernelShares TransferAccounts Unwinding

variable {n : Nat}

/-- The file that a request is of. An interrupt is of none. -/
def issuer : Request n → Option Nat
  | .openFile filp | .closeFile filp | .enableChannels filp _ _ | .disableChannels filp _
  | .interruptsWait filp _ _ | .launchTransfer filp _ _ | .bufferMap filp _ _ _
  | .bufferUnmap filp _ | .descListCreate filp _ _ _ _ | .descListRelease filp _ => some filp
  | .interrupt _ _ => none

/-- The requests of a file, and the interrupts. -/
def concerns (user : Nat) (request : Request n) : Bool :=
  match issuer request with
  | none => true
  | some filp => filp = user

/-- The request is for channels of `own` if it is of the user, and for others if not. -/
def KeepsToChannels (own : Channel n → Prop) (user : Nat) : Request n → Prop
  | .enableChannels filp bitmaps _ => ∀ c : Channel n,
      hailoTestBit c.2 (bitmaps c.1) = true → (own c ↔ filp = user)
  | .disableChannels filp bitmaps => ∀ c : Channel n,
      hailoTestBit c.2 (bitmaps c.1) = true → (own c ↔ filp = user)
  | .interruptsWait filp bitmaps _ => ∀ c : Channel n,
      hailoTestBit c.2 (bitmaps c.1) = true → (own c ↔ filp = user)
  | .launchTransfer filp params _ => ∀ c : Channel n, params.engineIndex.toNat = c.1 →
      params.channelIndex.toNat = c.2 → (own c ↔ filp = user)
  | _ => True

/-- Each file keeps to its channels and frees nothing that is in use. -/
structure Orderly (own : Channel n → Prop) (user : Nat) (s : SystemState n)
    (request : Request n) : Prop where
  fresh : AllocatesFresh s request
  channels : KeepsToChannels own user request
  lists : FreesDetached s request
  buffers : FreesIdle s request

/-- A request with its answer: the value that is returned, and the completions that it tells. -/
def serve (vdmaHw : HailoVdmaHw) (s : SystemState n) (request : Request n) :
    Exec ((Int32 × List HailoVdmaInterruptsChannelData) × SystemState n) :=
  (handle vdmaHw s request).map fun r => ((r.1, filledData s request), r.2)

/-- The descriptors lists of a file. -/
abbrev listsOf (s : SystemState n) (user : Nat) : List Nat := ofFile s.files listAddresses user

/-- How the files share the board. -/
structure Shares (own : Channel n → Prop) (user : Nat) (s : SystemState n) : Prop where
  lists : ListsOwned s.kernel (ofFile s.files listAddresses)
  buffers : BuffersOwned s.kernel (buffersOf s.files)
  indexed : AllIndexed s.kernel
  shared : SharedOut own (listsOf s user) (buffersOf s.files user) s.kernel
  enabled : ∀ filp (c : Channel n), hailoTestBit c.2 (channelsOf s.files filp c.1) = true →
    (own c ↔ filp = user)

/-- `alone` is what `s` would be without the other files. -/
structure SameFor (own : Channel n → Prop) (user : Nat) (s alone : SystemState n) : Prop where
  file : alone.files user = s.files user
  others : ∀ filp, filp ≠ user → alone.files filp = none
  kernel : KernelAlike own (listsOf s user) (buffersOf s.files user) s.kernel alone.kernel

section Steps
variable {vdmaHw : HailoVdmaHw} {own : Channel n → Prop} {user : Nat}
  {s s' : SystemState n} {request : Request n} {ret : Int32}

theorem shares_initialState (memory : Fin n → HailoVdmaEngine) :
    Shares own user (initialState memory) where
  lists := listsOwned_initialState memory
  buffers := buffersOwned_initialState memory
  indexed := fun e => indexed_init _ _
  shared := by
    constructor
    · intro c address hattached
      cases hattached
    · rintro c address ⟨t, ht, -⟩
      have hempty : ongoing (channelAt (initialState memory).kernel c).ongoingTransfers = [] :=
        ongoing_emptyRing _
      rw [hempty] at ht
      cases ht
  enabled := by
    intro filp c hbit
    have hnone : channelsOf (initialState memory).files filp c.1 = 0 := rfl
    rw [hnone, hailoTestBit_zero] at hbit
    cases hbit

/-- The lists of the user after a file's entry has changed. -/
theorem ofFile_update_of_ne {files : Nat → Option (HailoVdmaFileContext n)} {filp : Nat}
    {objects : HailoVdmaFileContext n → List Nat} (h : user ≠ filp)
    (entry : Option (HailoVdmaFileContext n)) :
    ofFile (Function.update files filp entry) objects user = ofFile files objects user := by
  rw [ofFile, ofFile, Function.update_of_ne h]

theorem ofFile_update_self {files : Nat → Option (HailoVdmaFileContext n)}
    {objects : HailoVdmaFileContext n → List Nat} (context : HailoVdmaFileContext n) :
    ofFile (Function.update files user (some context)) objects user = objects context := by
  rw [ofFile, Function.update_self, Option.elim_some]

theorem notMem_closed {files : Nat → Option (HailoVdmaFileContext n)} {filp a : Nat}
    {objects : HailoVdmaFileContext n → List Nat} :
    a ∉ ofFile (Function.update files filp none) objects filp := by
  rw [ofFile, Function.update_self]
  exact List.not_mem_nil

theorem mem_ofFile_context {files : Nat → Option (HailoVdmaFileContext n)} {filp : Nat}
    {objects : HailoVdmaFileContext n → List Nat} {context context' : HailoVdmaFileContext n}
    (hopen : files filp = some context) (hsame : objects context' = objects context) (a : Nat) :
    a ∈ ofFile (Function.update files filp (some context')) objects user ↔
      a ∈ ofFile files objects user := by
  rw [ofFile_context hopen hsame]

/-- A launch refers to objects of the file, from the channel that it names. -/
theorem sharedOut_launched (h : Shares own user s) {filp : Nat}
    {params : HailoVdmaLaunchTransferParams} {regs : ChannelRegs}
    (hchannels : KeepsToChannels own user (.launchTransfer filp params regs))
    {context : HailoVdmaFileContext n} (hopen : s.files filp = some context)
    {kernel' : KernelState n}
    (hlaunch : hailoVdmaLaunchTransferIoctl vdmaHw s.kernel context params regs =
      .ok (ret, kernel')) :
    SharedOut own (listsOf s user) (buffersOf s.files user) kernel' := by
  obtain ⟨hrefers, -⟩ := launchIoctl_refers hlaunch
  rcases launchIoctl_outcome hlaunch with
    rfl | ⟨c₀, channel, _, descList, hengine, hchannel, -, hkernel⟩
  · exact h.shared
  have hown := hchannels c₀ hengine hchannel
  have hother : ∀ c, c ≠ c₀ → channelAt kernel' c = channelAt s.kernel c := by
    intro c hc
    rw [hkernel, channelAt_setChannel, if_neg hc]
  constructor
  · intro c address hattached
    by_cases hc : c = c₀
    · rcases hrefers.attached c address hattached with hbefore | hmem
      · exact h.shared.attached c address hbefore
      · rw [hc, hown]
        rw [← ofFile_open listAddresses hopen] at hmem
        constructor
        · rintro rfl
          exact hmem
        · exact fun huser => h.lists.owned.disjoint filp user address hmem huser
    · refine h.shared.attached c address ?_
      rw [Attached, ← hother c hc]
      exact hattached
  · intro c address htransferring
    by_cases hc : c = c₀
    · rcases hrefers.transferring c address htransferring with hbefore | hmem
      · exact h.shared.transferring c address hbefore
      · rw [hc, hown]
        rw [← ofFile_open HailoVdmaFileContext.mappedUserBufferList hopen] at hmem
        constructor
        · rintro rfl
          exact hmem
        · exact fun huser => h.buffers.owned.disjoint filp user address hmem huser
    · refine h.shared.transferring c address ?_
      rw [Transferring, ← hother c hc]
      exact htransferring

theorem attached_ne_of_fresh (h : Shares own user s) {address : Nat}
    (hfresh : s.kernel.descLists address = none) {c : Channel n} {a : Nat}
    (hattached : Attached s.kernel c a) : a ≠ address := by
  rintro rfl
  obtain ⟨descList, hlist, -⟩ := h.lists.attached.present h.lists.owned hattached
  cases hfresh.symm.trans hlist

theorem transferring_ne_of_fresh (h : Shares own user s) {address : Nat}
    (hfresh : s.kernel.buffers address = none) {c : Channel n} {a : Nat}
    (htransferring : Transferring s.kernel c a) : a ≠ address := by
  rintro rfl
  obtain ⟨buffer, hbuffer, -⟩ := h.buffers.transferring.present h.buffers.owned htransferring
  cases hfresh.symm.trans hbuffer

theorem sharedOut_step (h : Shares own user s) (horderly : Orderly own user s request)
    (hhandle : handle vdmaHw s request = .ok (ret, s')) :
    SharedOut own (listsOf s' user) (buffersOf s'.files user) s'.kernel := by
  cases handle_effect horderly.fresh hhandle with
  | kept hrefers henabled hfiles =>
    rw [listsOf, hfiles.lists, buffersOf, hfiles.buffers]
    exact h.shared.keep hrefers
  | enabled hopen hfree =>
    exact (h.shared.keep (refersOnly_enable _ _)).relist
      (fun c a hc => ⟨hc, mem_ofFile_context hopen (by rfl) a⟩)
      (fun c a hc => ⟨hc, mem_ofFile_context hopen (by rfl) a⟩)
  | disabled hopen hdisables =>
    exact (h.shared.keep hdisables.refers).relist
      (fun c a hc => ⟨hc, mem_ofFile_context hopen (by rfl) a⟩)
      (fun c a hc => ⟨hc, mem_ofFile_context hopen (by rfl) a⟩)
  | @launched filp params regs context kernel' hopen hrefers henabled =>
    rcases withFile_ok hhandle with ⟨hclosed, -⟩ | ⟨context', kernel₁, context₁, hopen', hrun, heq⟩
    · rw [hclosed] at hopen
      cases hopen
    · obtain ⟨⟨ret', kernel₂⟩, hlaunch, hrun⟩ := bind_ok hrun
      cases hrun
      obtain rfl : kernel' = kernel₁ := congrArg SystemState.kernel heq
      exact sharedOut_launched h horderly.channels hopen' hlaunch
  | @mapped filp params memory copied context hopen hfresh handle buffer hkref =>
    refine h.shared.relist (fun c a hc => ⟨hc, mem_ofFile_context hopen (by rfl) a⟩)
      fun c a hc => ⟨hc, ?_⟩
    by_cases huser : user = filp
    · have hbefore : buffersOf s.files filp = context.mappedUserBufferList := ofFile_open _ hopen
      rw [huser, buffersOf, ofFile_update_self, hbefore]
      exact List.mem_cons.trans (or_iff_right (transferring_ne_of_fresh h hfresh hc))
    · rw [buffersOf, ofFile_update_of_ne huser]
  | @unmapped filp mappedHandle context address buffers' hopen hfound hput =>
    refine h.shared.relist (fun c a hc => ⟨hc, mem_ofFile_context hopen (by rfl) a⟩)
      fun c a hc => ⟨hc, ?_⟩
    by_cases huser : user = filp
    · have hne : a ≠ address := by
        rintro rfl
        exact horderly.buffers _ _ hopen hfound c hc
      have hbefore : buffersOf s.files filp = context.mappedUserBufferList := ofFile_open _ hopen
      rw [huser, buffersOf, ofFile_update_self, hbefore]
      exact List.mem_erase_of_ne hne
    · rw [buffersOf, ofFile_update_of_ne huser]
  | @created filp params address memory copied context hopen hfresh handle listHandle descList =>
    refine h.shared.relist (fun c a hc => ⟨hc, ?_⟩)
      fun c a hc => ⟨hc, mem_ofFile_context hopen (by rfl) a⟩
    by_cases huser : user = filp
    · have hbefore : listsOf s filp = listAddresses context := ofFile_open _ hopen
      rw [huser, listsOf, ofFile_update_self, hbefore]
      exact List.mem_cons.trans (or_iff_right (attached_ne_of_fresh h hfresh hc))
    · rw [listsOf, ofFile_update_of_ne huser]
  | @released filp descHandle context descriptors hopen hfind =>
    refine h.shared.relist (fun c a hc => ⟨hc, ?_⟩)
      fun c a hc => ⟨hc, mem_ofFile_context hopen (by rfl) a⟩
    by_cases huser : user = filp
    · have hne : a ≠ descriptors.descListAddress := by
        rintro rfl
        exact horderly.lists _ _ hopen hfind c hc
      have hbefore : listsOf s filp = listAddresses context := ofFile_open _ hopen
      have hnodup : (listAddresses context).Nodup := hbefore ▸ h.lists.owned.nodup filp
      rw [huser, listsOf, ofFile_update_self, hbefore]
      exact (mem_erase_descriptors hnodup (findDescriptorsBuffer_mem hfind) a).trans
        (and_iff_right hne)
    · rw [listsOf, ofFile_update_of_ne huser]
  | @closed filp context kernel' buffers' hopen hdisables hput =>
    refine h.shared.relist (fun c a hc => ?_) fun c a hc => ?_
    · have hbefore := (hdisables.refers.attached c a hc).resolve_right List.not_mem_nil
      refine ⟨hbefore, ?_⟩
      by_cases huser : user = filp
      · have hlists : listsOf s filp = listAddresses context := ofFile_open _ hopen
        rw [huser, hlists]
        refine iff_of_false notMem_closed fun hmem => ?_
        have hdisabled := hdisables.disabled_of_bit (horderly.lists _ hopen c a hmem hbefore)
        cases hdisabled.lastDescList.symm.trans hc
      · rw [listsOf, ofFile_update_of_ne huser]
    · have hbefore := (hdisables.refers.transferring c a hc).resolve_right List.not_mem_nil
      refine ⟨hbefore, ?_⟩
      by_cases huser : user = filp
      · have hbuffers : buffersOf s.files filp = context.mappedUserBufferList :=
          ofFile_open _ hopen
        rw [huser, hbuffers]
        refine iff_of_false notMem_closed fun hmem => ?_
        have hdisabled := hdisables.disabled_of_bit (horderly.buffers _ hopen c a hmem hbefore)
        obtain ⟨t, ht, -⟩ := hc
        have hnone : t ∈ ongoing (channelAt kernel' c).ongoingTransfers := ht
        rw [hdisabled.ongoing] at hnone
        cases hnone
      · rw [buffersOf, ofFile_update_of_ne huser]

/-- Each file enables channels of its own. -/
theorem enabled_step (h : Shares own user s) (horderly : Orderly own user s request)
    (hhandle : handle vdmaHw s request = .ok (ret, s')) {filp : Nat} {c : Channel n}
    (hbit : hailoTestBit c.2 (channelsOf s'.files filp c.1) = true) : own c ↔ filp = user := by
  -- a file whose entry was replaced, by one with other channels, or the file as it was
  have hupdate {filp₀ : Nat} {context : HailoVdmaFileContext n} (bitmaps : Fin n → UInt32)
      (hbit : hailoTestBit c.2 (channelsOf (Function.update s.files filp₀ (some
        { context with enabledChannelsBitmap := bitmaps })) filp c.1) = true) :
      filp = filp₀ ∧ hailoTestBit c.2 (bitmaps c.1) = true ∨
        hailoTestBit c.2 (channelsOf s.files filp c.1) = true := by
    rw [channelsOf_update, Option.elim_some] at hbit
    by_cases hfilp : filp = filp₀
    · rw [hfilp, Function.update_self] at hbit
      exact Or.inl ⟨hfilp, hbit⟩
    · rw [Function.update_of_ne hfilp] at hbit
      exact Or.inr hbit
  cases handle_effect horderly.fresh hhandle with
  | kept hrefers henabled hfiles =>
    rw [hfiles.channels] at hbit
    exact h.enabled filp c hbit
  | @enabled filp₀ bitmaps measure context hopen hfree =>
    rcases hupdate _ hbit with ⟨rfl, hnew⟩ | hold
    · rw [hailoTestBit_or, Bool.or_eq_true] at hnew
      rcases hnew with hnew | hnew
      · exact h.enabled filp c (channelsOf_open hopen ▸ hnew)
      · exact horderly.channels c hnew
    · exact h.enabled filp c hold
  | @disabled filp₀ bitmaps context kernel' hopen hdisables =>
    rcases hupdate _ hbit with ⟨rfl, hnew⟩ | hold
    · rw [hailoTestBit_and_not, Bool.and_eq_true] at hnew
      exact h.enabled filp c (channelsOf_open hopen ▸ hnew.1)
    · exact h.enabled filp c hold
  | launched hopen hrefers henabled => exact h.enabled filp c hbit
  | mapped hopen hfresh handle buffer hkref =>
    rw [channelsOf_context hopen (by rfl)] at hbit
    exact h.enabled filp c hbit
  | unmapped hopen hfound hput =>
    rw [channelsOf_context hopen (by rfl)] at hbit
    exact h.enabled filp c hbit
  | created hopen hfresh handle listHandle descList =>
    rw [channelsOf_context hopen (by rfl)] at hbit
    exact h.enabled filp c hbit
  | released hopen hfind =>
    rw [channelsOf_context hopen (by rfl)] at hbit
    exact h.enabled filp c hbit
  | @closed filp₀ context kernel' buffers' hopen hdisables hput =>
    rw [channelsOf_update, Option.elim_none] at hbit
    by_cases hfilp : filp = filp₀
    · rw [hfilp, Function.update_self, hailoTestBit_zero] at hbit
      cases hbit
    · rw [Function.update_of_ne hfilp] at hbit
      exact h.enabled filp c hbit

theorem shares_step (hn : n ≤ maxVdmaEngines) (h : Shares own user s)
    (horderly : Orderly own user s request) (hhandle : handle vdmaHw s request = .ok (ret, s')) :
    Shares own user s' where
  lists := listsOwned_step h.lists horderly.lists (handle_effect horderly.fresh hhandle)
  buffers := buffersOwned_step h.buffers horderly.buffers (handle_effect horderly.fresh hhandle)
  indexed := (@settlesIff_of_handle _ _ _ _ _ _ true hn h.indexed hhandle).1
  shared := sharedOut_step h horderly hhandle
  enabled := fun _ _ => enabled_step h horderly hhandle

end Steps

end HailortDrivers.UndisturbedFiles
