import HailortDrivers.ChannelOwnership
import HailortDrivers.SocConnect

/-!
Which open file has a SoC channel. A close ioctl takes any channels from the device, and from
the bitmap of its own file only. The descriptors lists of a file come and go in between.
-/
namespace HailortDrivers.SocOwnership
open KernelExec VdmaTypes ChannelControl SocControl SocConnect PartitionedSets EventRuns
open ChannelOwnership (bits mem_bits bits_zero bits_or bits_and_not disjoint_bits)

structure SocSystem where
  board : SocBoard
  files : Nat → Option HailoFileContext

inductive SocRequest
  | openFile (filp : Nat)
  | changeLists (filp : Nat) (descriptors : List HailoDescriptorsListBuffer)
  | connect (filp : Nat) (call : ConnectCall)
  | close (filp : Nat) (call : CloseCall)
  | closeFile (filp : Nat) (answer : SocAnswer)

/-- A file is opened once, and used and closed while it is open. -/
def handle (vdmaHw : HailoVdmaHw) (s : SocSystem) : SocRequest → Option (Int32 × SocSystem)
  | .openFile filp =>
    match s.files filp with
    | some _ => none
    | none => some (0, { s with files := Function.update s.files filp (some ⟨[], 0⟩) })
  | .changeLists filp descriptors =>
    match s.files filp with
    | none => none
    | some context =>
      let context := { context with descriptorsBufferList := descriptors }
      some (0, { s with files := Function.update s.files filp (some context) })
  | .connect filp call =>
    match s.files filp with
    | none => none
    | some context =>
      match hailoSocConnectIoctl vdmaHw call s.board context with
      | none => none
      | some (ret, _, board, context) =>
        some (ret, ⟨board, Function.update s.files filp (some context)⟩)
  | .close filp call =>
    match s.files filp with
    | none => none
    | some context =>
      match hailoSocCloseIoctl call s.board context with
      | none => none
      | some (ret, board, context) =>
        some (ret, ⟨board, Function.update s.files filp (some context)⟩)
  | .closeFile filp answer =>
    match s.files filp with
    | none => none
    | some context =>
      some (0, ⟨hailoSocFileContextFinalize context answer s.board,
        Function.update s.files filp none⟩)

def initialSystem (hostRegs : Nat → RegisterWindow) : SocSystem := ⟨⟨0, hostRegs⟩, fun _ => none⟩

/-- `soc_used_channels_bitmap`, which a file that is not open does not have. -/
def bitmapOf (files : Nat → Option HailoFileContext) (filp : Nat) : UInt32 :=
  (files filp).elim 0 HailoFileContext.socUsedChannelsBitmap

/-- The bitmaps of different files have no common channel, and together they are the channels
connected on the device. -/
structure Shared (s : SocSystem) : Prop where
  disjoint : ∀ filp filp', filp ≠ filp' → bitmapOf s.files filp &&& bitmapOf s.files filp' = 0
  union : ∀ channel, hailoTestBit channel s.board.connected = true ↔
    ∃ filp, hailoTestBit channel (bitmapOf s.files filp) = true

/-- What the device does: it connects the two channels that it answers with, which were free,
and closes the channels of a close request or none. -/
def Fair (s : SocSystem) : SocRequest → Prop
  | .connect _ call =>
    call.answer.channels =
        bitAt call.answered.inputChannelIndex ||| bitAt call.answered.outputChannelIndex ∧
      call.answer.channels &&& s.board.connected = 0
  | .close _ call => call.answer.channels = call.params.channelsBitmap ∨ call.answer.channels = 0
  | .closeFile filp answer => answer.channels = bitmapOf s.files filp ∨ answer.channels = 0
  | _ => True

/-- No other open file has a channel of the bitmap. -/
def NotOthers (s : SocSystem) (filp : Nat) (bitmap : UInt32) : Prop :=
  ∀ filp', filp' ≠ filp → bitmap &&& bitmapOf s.files filp' = 0

/-- A close ioctl names no channel of another file, and the device closes channels exactly if
the driver is told so; the channels of a closed file it does close. -/
def ClosesOwn (s : SocSystem) : SocRequest → Prop
  | .close filp call => call.readable = true →
      NotOthers s filp call.params.channelsBitmap ∧
      (socControl hailoPcieSocControlCodeClose call.answer = 0 ↔
        call.answer.channels = call.params.channelsBitmap)
  | .closeFile filp answer => answer.channels = bitmapOf s.files filp
  | _ => True

/-- Requests of the open files, of which the connects return 0. -/
def Steps (vdmaHw : HailoVdmaHw) (Allowed : SocSystem → SocRequest → Prop) (s s' : SocSystem) :
    Prop :=
  ∃ request ret, Fair s request ∧ Allowed s request ∧
    (∀ filp call, request = .connect filp call → ret = 0) ∧ handle vdmaHw s request = some (ret, s')

/-- The channels of the other files are neither stopped nor taken from the device. -/
def OthersKept (s s' : SocSystem) (filp : Nat) : Prop :=
  ∀ filp', filp' ≠ filp → ∀ channel, hailoTestBit channel (bitmapOf s.files filp') = true →
    s'.board.hostRegs channel = s.board.hostRegs channel ∧
      hailoTestBit channel s'.board.connected = true

section Bitmaps
variable {s : SocSystem} {filp : Nat}

theorem bitmapOf_open {files : Nat → Option HailoFileContext} {context : HailoFileContext}
    (hopen : files filp = some context) :
    bitmapOf files filp = context.socUsedChannelsBitmap := by
  rw [bitmapOf, hopen, Option.elim_some]

theorem shared_iff :
    Shared s ↔ Partitioned (fun filp => bits (bitmapOf s.files filp)) (bits s.board.connected) := by
  constructor
  · intro h
    exact ⟨fun filp filp' hne => disjoint_bits.mpr (h.disjoint filp filp' hne), h.union⟩
  · intro h
    exact ⟨fun filp filp' hne => disjoint_bits.mp (h.disjoint filp filp' hne), h.union⟩

/-- The bitmaps after that of one file changed. -/
theorem bits_bitmapOf_update (files : Nat → Option HailoFileContext)
    (entry : Option HailoFileContext) :
    (fun filp' => bits (bitmapOf (Function.update files filp entry) filp')) =
      Function.update (fun filp' => bits (bitmapOf files filp')) filp
        (bits (entry.elim 0 HailoFileContext.socUsedChannelsBitmap)) := by
  funext filp'
  by_cases h : filp' = filp
  · subst h
    simp [bitmapOf]
  · simp [bitmapOf, h]

end Bitmaps

section Effects
variable {board board' : SocBoard} {context context' : HailoFileContext}

/-- A request that returns 0 records the channels of the answer. -/
theorem connect_recorded {vdmaHw : HailoVdmaHw} {call : ConnectCall}
    {params : HailoSocConnectParams}
    (h : hailoSocConnectIoctl vdmaHw call board context = some (0, params, board', context')) :
    board'.connected = board.connected ||| call.answer.channels ∧
      context'.socUsedChannelsBitmap = context.socUsedChannelsBitmap |||
        (bitAt call.answered.inputChannelIndex ||| bitAt call.answered.outputChannelIndex) := by
  cases hread : call.readable with
  | false =>
    rw [connect_unread hread, Option.some.injEq, Prod.mk.injEq] at h
    exact absurd h.1 (by decide)
  | true =>
    by_cases hagreed : Agreed call.answer
    · rw [connect_agreed hread hagreed] at h
      rcases validateConnect_cases vdmaHw context call.answered with
        ⟨-, hchecked⟩ | ⟨hinEngine, ⟨-, hchecked⟩ | ⟨input, output, hvalid, hchecked⟩⟩
      · simp only [hchecked] at h
        cases h
      · simp only [hchecked, Option.some.injEq, Prod.mk.injEq] at h
        exact absurd h.1 (by decide)
      · simp only [hchecked, Option.some.injEq, startChannels] at h
        split at h
        · cases h
          exact ⟨rfl, UInt32.or_assoc _ _ _⟩
        · have hret : -VdmaMemory.enomem = (0 : Int32) := congrArg Prod.fst h
          exact absurd hret (by decide)
    · rw [connect_disagreed hread hagreed, Option.some.injEq, Prod.mk.injEq] at h
      have hneg := socControl_of_not_agreed hagreed
      rw [h.1] at hneg
      exact absurd hneg (by decide)

/-- What a close does to the registers, whether or not the device confirms it. -/
theorem closeChannels_hostRegs (channelsBitmap : UInt32) (answer : SocAnswer) {channel : Nat}
    (h : hailoTestBit channel channelsBitmap = false) :
    (closeChannels channelsBitmap answer board).2.hostRegs channel = board.hostRegs channel := by
  simp only [closeChannels, h, Bool.false_eq_true, if_false]

theorem closeChannels_connected (channelsBitmap : UInt32) (answer : SocAnswer) :
    (closeChannels channelsBitmap answer board).2.connected =
      board.connected &&& ~~~answer.channels := rfl

/-- A close ioctl did nothing, or closed the channels and cleared the bits if that was
confirmed. -/
theorem closeIoctl_cases {call : CloseCall} {ret : Int32}
    (h : hailoSocCloseIoctl call board context = some (ret, board', context')) :
    (call.readable = false ∧ board' = board ∧ context' = context) ∨
    call.readable = true ∧ ret = socControl hailoPcieSocControlCodeClose call.answer ∧
      board' = (closeChannels call.params.channelsBitmap call.answer board).2 ∧
      (ret ≠ 0 ∧ context' = context ∨
        ret = 0 ∧ context'.socUsedChannelsBitmap =
          context.socUsedChannelsBitmap &&& ~~~call.params.channelsBitmap) := by
  rw [hailoSocCloseIoctl] at h
  cases hread : call.readable with
  | false =>
    simp only [hread, Bool.not_false, if_true, Option.some.injEq, Prod.mk.injEq] at h
    obtain ⟨-, rfl, rfl⟩ := h
    exact Or.inl ⟨rfl, rfl, rfl⟩
  | true =>
    simp only [hread, Bool.not_true, Bool.false_eq_true, if_false] at h
    split at h
    · cases h
    · split at h
      · next herr =>
        cases h
        exact Or.inr ⟨rfl, rfl, rfl, Or.inl ⟨herr, rfl⟩⟩
      · next herr =>
        cases h
        refine Or.inr ⟨rfl, rfl, rfl, Or.inr ⟨not_not.mp herr, ?_⟩⟩
        refine eq_of_hailoTestBit fun channel => ?_
        simp [hailoClearBit, HailoSocCloseParams.channelsBitmap, Bool.and_assoc]

end Effects

section Sharing
variable {s : SocSystem} {filp : Nat} {context context' : HailoFileContext} {board' : SocBoard}

theorem shared_initialSystem (hostRegs : Nat → RegisterWindow) :
    Shared (initialSystem hostRegs) := by
  refine shared_iff.mpr ?_
  have hnone : (fun filp => bits (bitmapOf (initialSystem hostRegs).files filp)) = fun _ => ∅ := by
    funext filp
    exact bits_zero
  have hconnected : (initialSystem hostRegs).board.connected = 0 := rfl
  rw [hnone, hconnected, bits_zero]
  exact partitioned_empty

/-- What leaves the bitmap of a file and the connections alone leaves the sharing alone. -/
theorem Shared.keep (h : Shared s) (hconnected : board'.connected = s.board.connected)
    {entry : Option HailoFileContext}
    (hbitmap : entry.elim 0 HailoFileContext.socUsedChannelsBitmap = bitmapOf s.files filp) :
    Shared ⟨board', Function.update s.files filp entry⟩ := by
  refine shared_iff.mpr ?_
  rw [bits_bitmapOf_update, hbitmap, Function.update_eq_self, hconnected]
  exact shared_iff.mp h

theorem Shared.connect (h : Shared s) {granted : UInt32} (hfree : granted &&& s.board.connected = 0)
    (hconnected : board'.connected = s.board.connected ||| granted)
    (hbitmap : context'.socUsedChannelsBitmap = bitmapOf s.files filp ||| granted) :
    Shared ⟨board', Function.update s.files filp (some context')⟩ := by
  refine shared_iff.mpr ?_
  rw [bits_bitmapOf_update, Option.elim_some, hbitmap, hconnected, bits_or, bits_or]
  exact (shared_iff.mp h).grant filp (disjoint_bits.mpr hfree)

/-- A confirmed close keeps the sharing exactly if it names no channel of another file. -/
theorem Shared.close_iff (h : Shared s) {bitmap : UInt32}
    (hconnected : board'.connected = s.board.connected &&& ~~~bitmap)
    (hbitmap : context'.socUsedChannelsBitmap = bitmapOf s.files filp &&& ~~~bitmap) :
    Shared ⟨board', Function.update s.files filp (some context')⟩ ↔ NotOthers s filp bitmap := by
  rw [shared_iff, bits_bitmapOf_update, Option.elim_some, hbitmap, hconnected, bits_and_not,
    bits_and_not, (shared_iff.mp h).revoke_iff filp (bits bitmap)]
  simp only [disjoint_bits, NotOthers]

theorem Shared.closeFile (h : Shared s)
    (hconnected : board'.connected = s.board.connected &&& ~~~bitmapOf s.files filp) :
    Shared ⟨board', Function.update s.files filp none⟩ := by
  refine shared_iff.mpr ?_
  rw [bits_bitmapOf_update, Option.elim_none, bits_zero, hconnected, bits_and_not]
  exact (shared_iff.mp h).revokeAll filp

theorem hailoSocFileContextFinalize_eq (context : HailoFileContext) (answer : SocAnswer)
    (board : SocBoard) (hanswer : answer.channels = context.socUsedChannelsBitmap) :
    (hailoSocFileContextFinalize context answer board).connected =
      board.connected &&& ~~~context.socUsedChannelsBitmap := by
  rw [hailoSocFileContextFinalize]
  split
  · rw [closeChannels_connected, hanswer]
  · next hzero =>
    rw [not_not.mp hzero]
    simp

end Sharing

section Handled
variable {vdmaHw : HailoVdmaHw} {s s' : SocSystem} {filp : Nat} {ret : Int32}

theorem handle_connect {call : ConnectCall}
    (h : handle vdmaHw s (.connect filp call) = some (ret, s')) :
    ∃ context params board' context', s.files filp = some context ∧
      hailoSocConnectIoctl vdmaHw call s.board context = some (ret, params, board', context') ∧
      s' = ⟨board', Function.update s.files filp (some context')⟩ := by
  simp only [handle] at h
  split at h
  · cases h
  · next context hopen =>
    split at h
    · cases h
    · next hconnect =>
      cases h
      exact ⟨context, _, _, _, hopen, hconnect, rfl⟩

theorem handle_close {call : CloseCall}
    (h : handle vdmaHw s (.close filp call) = some (ret, s')) :
    ∃ context board' context', s.files filp = some context ∧
      hailoSocCloseIoctl call s.board context = some (ret, board', context') ∧
      s' = ⟨board', Function.update s.files filp (some context')⟩ := by
  simp only [handle] at h
  split at h
  · cases h
  · next context hopen =>
    split at h
    · cases h
    · next hclose =>
      cases h
      exact ⟨context, _, _, hopen, hclose, rfl⟩

theorem handle_closeFile {answer : SocAnswer}
    (h : handle vdmaHw s (.closeFile filp answer) = some (ret, s')) :
    ∃ context, s.files filp = some context ∧
      s' = ⟨hailoSocFileContextFinalize context answer s.board,
        Function.update s.files filp none⟩ := by
  simp only [handle] at h
  split at h
  · cases h
  · next context hopen =>
    cases h
    exact ⟨context, hopen, rfl⟩

/-- Once the device has done what the driver was told, a close ioctl keeps the sharing exactly
if it names no channel of another file. -/
theorem shared_close_iff (h : Shared s) {call : CloseCall} (hread : call.readable = true)
    (hclosed : call.answer.channels = call.params.channelsBitmap)
    (hhandle : handle vdmaHw s (.close filp call) = some (0, s')) :
    Shared s' ↔ NotOthers s filp call.params.channelsBitmap := by
  obtain ⟨context, board', context', hopen, hioctl, rfl⟩ := handle_close hhandle
  rcases closeIoctl_cases hioctl with ⟨hunread, -⟩ | ⟨-, -, hboard, ⟨hret, -⟩ | ⟨-, hbitmap⟩⟩
  · rw [hread] at hunread
    cases hunread
  · exact absurd rfl hret
  · refine h.close_iff ?_ ?_
    · rw [hboard, closeChannels_connected, hclosed]
    · rw [hbitmap, bitmapOf_open hopen]

theorem shared_close (h : Shared s) {call : CloseCall} (hfair : Fair s (.close filp call))
    (hown : ClosesOwn s (.close filp call))
    (hhandle : handle vdmaHw s (.close filp call) = some (ret, s')) : Shared s' := by
  obtain ⟨context, board', context', hopen, hioctl, hs'⟩ := handle_close hhandle
  rcases closeIoctl_cases hioctl with ⟨-, rfl, rfl⟩ |
    ⟨hread, hret, hboard, ⟨herr, rfl⟩ | ⟨rfl, -⟩⟩
  · rw [hs']
    exact h.keep rfl (bitmapOf_open hopen).symm
  · obtain ⟨-, hconfirmed⟩ := hown hread
    have hnone : call.answer.channels = 0 := by
      refine hfair.resolve_left fun hclosed => herr ?_
      rw [hret, hconfirmed.mpr hclosed]
    rw [hs']
    refine h.keep ?_ (bitmapOf_open hopen).symm
    rw [hboard, closeChannels_connected, hnone]
    simp
  · obtain ⟨hothers, hconfirmed⟩ := hown hread
    exact (shared_close_iff h hread (hconfirmed.mp hret.symm) hhandle).mpr hothers

theorem shared_closeFile (h : Shared s) {answer : SocAnswer}
    (hown : ClosesOwn s (.closeFile filp answer))
    (hhandle : handle vdmaHw s (.closeFile filp answer) = some (ret, s')) : Shared s' := by
  obtain ⟨context, hopen, rfl⟩ := handle_closeFile hhandle
  have hanswer : answer.channels = context.socUsedChannelsBitmap := by
    rw [← bitmapOf_open hopen]
    exact hown
  refine h.closeFile ?_
  rw [hailoSocFileContextFinalize_eq context answer s.board hanswer, bitmapOf_open hopen]

theorem shared_connect (h : Shared s) {call : ConnectCall} (hfair : Fair s (.connect filp call))
    (hhandle : handle vdmaHw s (.connect filp call) = some (0, s')) : Shared s' := by
  obtain ⟨context, params, board', context', hopen, hioctl, rfl⟩ := handle_connect hhandle
  obtain ⟨hconnected, hbitmap⟩ := connect_recorded hioctl
  refine h.connect hfair.2 hconnected ?_
  rw [hbitmap, bitmapOf_open hopen, hfair.1]

theorem shared_step (h : Shared s) (hstep : Steps vdmaHw ClosesOwn s s') : Shared s' := by
  obtain ⟨request, ret, hfair, hown, hsuccess, hhandle⟩ := hstep
  cases request with
  | openFile filp =>
    simp only [handle] at hhandle
    split at hhandle
    · cases hhandle
    · next hclosed =>
      cases hhandle
      refine h.keep rfl ?_
      rw [bitmapOf, hclosed]
      rfl
  | changeLists filp descriptors =>
    simp only [handle] at hhandle
    split at hhandle
    · cases hhandle
    · next hopen =>
      cases hhandle
      refine h.keep rfl ?_
      rw [bitmapOf_open hopen]
      rfl
  | connect filp call =>
    obtain rfl : ret = 0 := hsuccess filp call rfl
    exact shared_connect h hfair hhandle
  | close filp call => exact shared_close h hfair hown hhandle
  | closeFile filp answer => exact shared_closeFile h hown hhandle

/-- A close of channels that other files do not have leaves theirs alone. -/
theorem othersKept_of_closed (h : Shared s) {bitmap closed : UInt32} {board' : SocBoard}
    {files' : Nat → Option HailoFileContext} (hothers : NotOthers s filp bitmap)
    (hclosed : closed = bitmap ∨ closed = 0)
    (hregs : ∀ channel, hailoTestBit channel bitmap = false →
      board'.hostRegs channel = s.board.hostRegs channel)
    (hconnected : board'.connected = s.board.connected &&& ~~~closed) :
    OthersKept s ⟨board', files'⟩ filp := by
  intro filp' hne channel hchannel
  have hnot : hailoTestBit channel bitmap = false := by
    by_contra hmem
    have hdisjoint := and_eq_zero_iff.mp (hothers filp' hne) channel
      (Bool.eq_true_of_not_eq_false hmem)
    rw [hchannel] at hdisjoint
    cases hdisjoint
  refine ⟨hregs channel hnot, ?_⟩
  rw [hconnected, hailoTestBit_and_not, (h.union channel).mpr ⟨filp', hchannel⟩]
  rcases hclosed with rfl | rfl
  · rw [hnot]
    rfl
  · rw [hailoTestBit_zero]
    rfl

theorem othersKept_refl (h : Shared s) {files' : Nat → Option HailoFileContext} :
    OthersKept s ⟨s.board, files'⟩ filp := fun filp' _ channel hchannel =>
  ⟨rfl, (h.union channel).mpr ⟨filp', hchannel⟩⟩

theorem othersKept_close (h : Shared s) {call : CloseCall} (hfair : Fair s (.close filp call))
    (hown : call.readable = true → NotOthers s filp call.params.channelsBitmap)
    (hhandle : handle vdmaHw s (.close filp call) = some (ret, s')) : OthersKept s s' filp := by
  obtain ⟨context, board', context', hopen, hioctl, rfl⟩ := handle_close hhandle
  rcases closeIoctl_cases hioctl with ⟨-, rfl, rfl⟩ | ⟨hread, -, rfl, -⟩
  · exact othersKept_refl h
  · exact othersKept_of_closed h (hown hread) hfair
      (fun channel hchannel => closeChannels_hostRegs _ call.answer hchannel)
      (closeChannels_connected _ call.answer)

theorem othersKept_closeFile (h : Shared s) {answer : SocAnswer}
    (hfair : Fair s (.closeFile filp answer))
    (hhandle : handle vdmaHw s (.closeFile filp answer) = some (ret, s')) :
    OthersKept s s' filp := by
  obtain ⟨context, hopen, rfl⟩ := handle_closeFile hhandle
  rw [hailoSocFileContextFinalize]
  split
  · refine othersKept_of_closed h (fun filp' hne => ?_) hfair
      (fun channel hchannel => ?_) (closeChannels_connected _ answer)
    · exact h.disjoint filp filp' hne.symm
    · rw [bitmapOf_open hopen] at hchannel
      exact closeChannels_hostRegs _ answer hchannel
  · exact othersKept_refl h

/-- A channel that another file has is taken from the device. -/
theorem notOthers_of_othersKept {call : CloseCall} (hread : call.readable = true)
    (hclosed : call.answer.channels = call.params.channelsBitmap)
    (hhandle : handle vdmaHw s (.close filp call) = some (ret, s')) (hkept : OthersKept s s' filp) :
    NotOthers s filp call.params.channelsBitmap := by
  obtain ⟨context, board', context', hopen, hioctl, rfl⟩ := handle_close hhandle
  refine fun filp' hne => and_eq_zero_iff.mpr fun channel hnamed => ?_
  by_contra hother
  have hstill := (hkept filp' hne channel (Bool.eq_true_of_not_eq_false hother)).2
  rcases closeIoctl_cases hioctl with ⟨hunread, -⟩ | ⟨-, -, rfl, -⟩
  · rw [hread] at hunread
    cases hunread
  · rw [closeChannels_connected, hailoTestBit_and_not, hclosed, hnamed, Bool.not_true,
      Bool.and_false] at hstill
    cases hstill

end Handled

/-- In every run in which close ioctls name no channel of another file, and the device does what
the driver is told, the bitmaps share out the connected channels, and no close touches the
channels of the other files; a close ioctl keeps it so exactly if it names none of theirs. -/
theorem shared_of_run {hostRegs : Nat → RegisterWindow} {s : SocSystem}
    (hrun : Relation.ReflTransGen (Steps hailoPcieVdmaHw ClosesOwn) (initialSystem hostRegs) s) :
    Shared s ∧
    (∀ filp call ret s', Fair s (.close filp call) → ClosesOwn s (.close filp call) →
      handle hailoPcieVdmaHw s (.close filp call) = some (ret, s') → OthersKept s s' filp) ∧
    (∀ filp answer ret s', Fair s (.closeFile filp answer) →
      handle hailoPcieVdmaHw s (.closeFile filp answer) = some (ret, s') →
      OthersKept s s' filp) ∧
    ∀ filp call s', call.readable = true →
      call.answer.channels = call.params.channelsBitmap →
      handle hailoPcieVdmaHw s (.close filp call) = some (0, s') →
      (Shared s' ↔ NotOthers s filp call.params.channelsBitmap) ∧
        (OthersKept s s' filp ↔ NotOthers s filp call.params.channelsBitmap) := by
  have hshared : Shared s := by
    refine inv_of_run ?_ hrun (shared_initialSystem hostRegs)
    intro s s' h hstep
    exact shared_step h hstep
  refine ⟨hshared, ?_, ?_, ?_⟩
  · intro filp call ret s' hfair hown hhandle
    exact othersKept_close hshared hfair (fun hread => (hown hread).1) hhandle
  · intro filp answer ret s' hfair hhandle
    exact othersKept_closeFile hshared hfair hhandle
  · intro filp call s' hread hclosed hhandle
    refine ⟨shared_close_iff hshared hread hclosed hhandle, ?_, ?_⟩
    · exact notOthers_of_othersKept hread hclosed hhandle
    · intro hown
      exact othersKept_close hshared (Or.inl hclosed) (fun _ => hown) hhandle

section Examples

/-- The device connects or closes the two channels and says so. -/
def granted (controlCode : UInt32) (inputChannel outputChannel : UInt8) : SocAnswer :=
  ⟨bitAt inputChannel ||| bitAt outputChannel, 1,
    ⟨controlCode, 0, inputChannel, outputChannel⟩⟩

def connectRequest (filp : Nat) (inputChannel outputChannel : UInt8) : SocRequest :=
  .connect filp ⟨⟨80, 0, 0, 1, 2⟩, true, true,
    granted hailoPcieSocControlCodeConnect inputChannel outputChannel⟩

def closeRequest (filp : Nat) (inputChannel outputChannel : UInt8) : SocRequest :=
  .close filp ⟨⟨inputChannel, outputChannel⟩, true,
    granted hailoPcieSocControlCodeClose inputChannel outputChannel⟩

/-- Two files with channels of their own, one of which closes its channels. -/
theorem shared_of_run_twoFiles :
    ∃ s s', Shared s ∧ bitmapOf s.files 1 = 0x10001 ∧ bitmapOf s.files 2 = 0x20002 ∧
      handle hailoPcieVdmaHw s (closeRequest 2 1 17) = some (0, s') ∧ OthersKept s s' 2 ∧
      bitmapOf s'.files 2 = 0 := by
  obtain ⟨s, s', hrun, hfirst, hsecond, hclose, hnone, hthird⟩ : ∃ s s',
      Relation.ReflTransGen (Steps hailoPcieVdmaHw ClosesOwn)
        (initialSystem fun _ => idleRegs) s ∧
      bitmapOf s.files 1 = 0x10001 ∧ bitmapOf s.files 2 = 0x20002 ∧
      handle hailoPcieVdmaHw s (closeRequest 2 1 17) = some (0, s') ∧
      bitmapOf s'.files 2 = 0 ∧ ∀ filp, filp ≠ 1 → filp ≠ 2 → bitmapOf s.files filp = 0 := by
    refine ⟨_, _, .head ⟨.openFile 1, 0, trivial, trivial, fun _ _ _ => rfl, rfl⟩ <|
        .head ⟨.openFile 2, 0, trivial, trivial, fun _ _ _ => rfl, rfl⟩ <|
        .head ⟨.changeLists 1 twoLists.descriptorsBufferList, 0, trivial, trivial,
          fun _ _ _ => rfl, rfl⟩ <|
        .head ⟨.changeLists 2 twoLists.descriptorsBufferList, 0, trivial, trivial,
          fun _ _ _ => rfl, rfl⟩ <|
        .head ⟨connectRequest 1 0 16, 0, ⟨rfl, rfl⟩, trivial, fun _ _ _ => rfl, rfl⟩ <|
        .single ⟨connectRequest 2 1 17, 0, ⟨rfl, rfl⟩, trivial, fun _ _ _ => rfl, rfl⟩,
      rfl, rfl, rfl, rfl, fun filp hfirst hsecond => ?_⟩
    simp [bitmapOf, initialSystem, hfirst, hsecond]
  have hothers : NotOthers s 2 (HailoSocCloseParams.channelsBitmap ⟨1, 17⟩) := by
    intro filp hne
    by_cases hone : filp = 1
    · rw [hone, hfirst]
      rfl
    · rw [hthird filp hone hne]
      rfl
  obtain ⟨hshared, -, -, hclosed⟩ := shared_of_run hrun
  exact ⟨s, s', hshared, hfirst, hsecond, hclose, (hclosed 2 _ s' rfl rfl hclose).2.mpr hothers,
    hnone⟩

/-- File 2 closes the channels of file 1 and is given them by the device: both have them then. -/
theorem closeOther_shares :
    ∃ s s' s'', Relation.ReflTransGen (Steps hailoPcieVdmaHw fun _ _ => True)
        (initialSystem fun _ => idleRegs) s ∧
      handle hailoPcieVdmaHw s (closeRequest 2 0 16) = some (0, s') ∧
      ¬ OthersKept s s' 2 ∧ ¬ Shared s' ∧
      handle hailoPcieVdmaHw s' (connectRequest 2 0 16) = some (0, s'') ∧
      bitmapOf s''.files 1 = 0x10001 ∧ bitmapOf s''.files 2 = 0x10001 := by
  obtain ⟨s, s', s'', hrun, hclose, hfirst, hrecorded, hconnected, hconnect, hboth⟩ :
      ∃ s s' s'', Relation.ReflTransGen (Steps hailoPcieVdmaHw fun _ _ => True)
        (initialSystem fun _ => idleRegs) s ∧
      handle hailoPcieVdmaHw s (closeRequest 2 0 16) = some (0, s') ∧
      bitmapOf s.files 1 = 0x10001 ∧ bitmapOf s'.files 1 = 0x10001 ∧ s'.board.connected = 0 ∧
      handle hailoPcieVdmaHw s' (connectRequest 2 0 16) = some (0, s'') ∧
      bitmapOf s''.files 1 = 0x10001 ∧ bitmapOf s''.files 2 = 0x10001 :=
    ⟨_, _, _, .head ⟨.openFile 1, 0, trivial, trivial, fun _ _ _ => rfl, rfl⟩ <|
        .head ⟨.openFile 2, 0, trivial, trivial, fun _ _ _ => rfl, rfl⟩ <|
        .head ⟨.changeLists 1 twoLists.descriptorsBufferList, 0, trivial, trivial,
          fun _ _ _ => rfl, rfl⟩ <|
        .head ⟨.changeLists 2 twoLists.descriptorsBufferList, 0, trivial, trivial,
          fun _ _ _ => rfl, rfl⟩ <|
        .single ⟨connectRequest 1 0 16, 0, ⟨rfl, rfl⟩, trivial, fun _ _ _ => rfl, rfl⟩,
      rfl, rfl, rfl, rfl, rfl, rfl, rfl⟩
  refine ⟨s, s', s'', hrun, hclose, fun hkept => ?_, fun hshared => ?_, hconnect, hboth⟩
  · have hstill := (hkept 1 (by decide) 0 (by rw [hfirst]; decide)).2
    rw [hconnected, hailoTestBit_zero] at hstill
    cases hstill
  · have hstill := (hshared.union 0).mpr ⟨1, by rw [hrecorded]; decide⟩
    rw [hconnected, hailoTestBit_zero] at hstill
    cases hstill

end Examples

end HailortDrivers.SocOwnership
