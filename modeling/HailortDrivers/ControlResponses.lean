import HailortDrivers.ControlSteps
import HailortDrivers.EventRuns

/-!
The completion of the firmware controls carries no name: an answer to a call that gave
up wakes the next one. A call gets its own response as long as no late answer gets
between its `reinit_completion` and its read.
-/
namespace HailortDrivers.ControlResponses
open LittleEndian ResourceAccess ByteViews VdmaTypes FirmwareControl KernelCompletion ControlSteps

variable {T : Type} (board : ControlBoard) {s s' : ControlSystem T} {call : T}
  {phase : ControlPhase}

/-- What the call got is the response that the firmware produced for the request of it. -/
def Answers (s : ControlSystem T) (call : T) (command : HailoFwControl) : Prop :=
  ∃ answer, (s.doorbells call).answer = some answer ∧
    answer.request = command.requestBytes ∧
    command.responseLen.toNat = answer.response.length ∧
    bytesFrom command.response 0 command.responseLen.toNat = answer.response

/-- A call that returns 0 has copied the response to its own request. -/
def OwnResponse (s : ControlSystem T) (call : T) (result : ControlResult) : Prop :=
  result.err = 0 → ∃ command, result.copied = some command ∧ Answers s call command

/-- The call has reset the completion and has not yet been woken. -/
def Awaits : ControlPhase → Prop
  | .reinited | .written | .waiting => True
  | _ => False

/-- The call has reset the completion and has not yet read its response. -/
def Open : ControlPhase → Prop
  | .reinited | .written | .waiting | .woken | .lengthRead => True
  | _ => False

/-- No late answer gets in the way of the call that is at the mailbox: no interrupt without
a part of its own completes its wait, and no response is written over its own. -/
def NoLateAnswer (s : ControlSystem T) : Event T → Prop
  | .firmwareWrites call _ => ∀ o phase, s.mutex = some (o, phase) → Open phase → o ≠ call →
    (s.doorbells o).answer = none
  | .nncIrqHandler => ∀ o phase calls, s.mutex = some (o, phase) → Awaits phase →
    s.handler = some calls → o ∈ calls
  | _ => True

/-- The response that was written for the call is the one in the mailbox. -/
def InMailbox (s : ControlSystem T) (call : T) : Prop :=
  ∀ answer, (s.doorbells call).answer = some answer →
    bytesFrom s.device (board.fwAccess.address + pcieRequestSizeOffset)
      (4 + answer.response.length) =
      wordBytes (UInt32.ofNat answer.response.length) ++ answer.response

/-- The request of the call reached the firmware, and what it answered is in the mailbox. -/
structure Asked (s : ControlSystem T) (call : T) : Prop where
  request : (s.doorbells call).request = some s.command.requestBytes
  mailbox : InMailbox board s call

/-- What holds of the call at the mailbox. -/
def PhaseInv (s : ControlSystem T) (call : T) : ControlPhase → Prop
  | .locked | .copied | .preprocessed => s.doorbells call = .quiet
  | .reinited => s.doorbells call = .quiet ∧ s.completion.done = 0
  | .written => s.doorbells call = .quiet ∧ s.completion.done = 0 ∧
    s.command.requestLen.toNat ≤ 1500 ∧
    bytesFrom s.device board.fwAccess.address (requestSize s.command.requestLen) =
      s.command.requestBytes
  | .waiting => Asked board s call ∧
    (s.completion.done ≠ 0 → (s.doorbells call).answer.isSome = true)
  | .woken => Asked board s call ∧ (s.doorbells call).answer.isSome = true
  | .lengthRead => Asked board s call ∧ ∃ answer, (s.doorbells call).answer = some answer ∧
    s.command.responseLen.toNat = answer.response.length
  | .responded => Answers s call s.command
  | .leaving result => OwnResponse s call result

structure Inv (s : ControlSystem T) : Prop where
  fresh : ∀ call, s.returned call = none → (∀ phase, s.mutex ≠ some (call, phase)) →
    s.doorbells call = .quiet
  istatus : ∀ call ∈ s.istatusHost, (s.doorbells call).answer.isSome = true
  handler : ∀ calls, s.handler = some calls →
    ∀ call ∈ calls, (s.doorbells call).answer.isSome = true
  holder : ∀ call phase, s.mutex = some (call, phase) → PhaseInv board s call phase
  returned : ∀ call result, s.returned call = some result → OwnResponse s call result

/-- The firmware and the calls that returned are as they were. -/
structure SameAnswers (s s' : ControlSystem T) : Prop where
  doorbells : s'.doorbells = s.doorbells
  istatusHost : s'.istatusHost = s.istatusHost
  handler : s'.handler = s.handler
  returned : s'.returned = s.returned

theorem SameAnswers.rfl : SameAnswers s s := ⟨.refl _, .refl _, .refl _, .refl _⟩

section
variable [DecidableEq T]

/-- What a step of the call at the mailbox does. -/
inductive CallMove (s : ControlSystem T) (call : T) : ControlPhase → ControlSystem T → Prop
  | fail {phase : ControlPhase} {err : Int32} {s₁ : ControlSystem T} (herr : err ≠ 0)
      (hsame : SameAnswers s s₁) : CallMove s call phase (s₁.leave call err)
  | copy (command : HailoFwControl) :
      CallMove s call .locked ((s.setCommand command).setMutex (some (call, .copied)))
  | preprocess (request : Nat → UInt8) :
      CallMove s call .copied ((s.setRequest request).setMutex (some (call, .preprocessed)))
  | reinit :
      CallMove s call .preprocessed
        ((s.setCompletion s.completion.reinit).setMutex (some (call, .reinited)))
  | write (hlen : s.command.requestLen.toNat ≤ 1500) :
      CallMove s call .reinited ((s.setDevice (writeRequest board.fwAccess board.command s.command
        s.device).2).setMutex (some (call, .written)))
  | ring :
      CallMove s call .written ((s.setDoorbell call (.rung (accessBit s.command)
        (bytesFrom s.device board.fwAccess.address
          (requestSize (wordAt s.device board.fwAccess.address))))).setMutex
        (some (call, .waiting)))
  | wake {completion : Completion} (hwait : s.completion.tryWait = some completion) :
      CallMove s call .waiting ((s.setCompletion completion).setMutex (some (call, .woken)))
  | readLen :
      CallMove s call .woken ((s.setResponseLen (readResponseLen board.fwAccess
        (board.command + 1508) s.device)).setMutex (some (call, .lengthRead)))
  | read :
      CallMove s call .lengthRead ((s.setCommand (readResponse board.fwAccess
        (board.command + 1512) s.command s.device)).setMutex (some (call, .responded)))
  | copied :
      CallMove s call .responded (s.setMutex (some (call, .leaving ⟨0, some s.command⟩)))
  | up (result : ControlResult) :
      CallMove s call (.leaving result) ((s.setReturned call result).setMutex none)

theorem checkFirmwareControl_of_nonneg {loaded : Bool} {command : HailoFwControl}
    (h : ¬ checkFirmwareControl loaded command < 0) : command.requestLen.toNat ≤ 1500 := by
  rw [checkFirmwareControl] at h
  split at h
  · exact absurd (by decide) h
  · split at h
    · exact absurd (by decide) h
    · split at h
      · exact absurd (by decide) h
      · next hlen => exact UInt32.not_lt.mp hlen

theorem translateHandles_error {find : UInt64 → Option UInt64} {rounds i : Nat}
    {request : Nat → UInt8} {err : Int32}
    (h : translateHandles find rounds i request = .error err) : err ≠ 0 := by
  induction rounds generalizing i request with
  | zero => cases h
  | succ rounds ih =>
    rw [translateHandles] at h
    split at h
    · cases h
      decide
    · exact ih h

theorem hailoFwControlPreprocess_error {find : UInt64 → Option UInt64} {request : Nat → UInt8}
    {err : Int32} (h : hailoFwControlPreprocess find request = .error err) : err ≠ 0 := by
  rw [hailoFwControlPreprocess] at h
  split at h
  · cases h
  · split at h
    · cases h
      decide
    · exact translateHandles_error h

theorem callMove_of_callStep {event : Event T}
    (h : callStep board s call phase event = some s') : CallMove board s call phase s' := by
  revert h
  fun_cases callStep board s call phase event with
  | case1 command =>
    rintro ⟨⟩
    exact .copy command
  | case2 =>
    rintro ⟨⟩
    exact .fail (by decide) .rfl
  | case3 find err herr =>
    rintro ⟨⟩
    exact .fail (hailoFwControlPreprocess_error herr) .rfl
  | case4 find request =>
    rintro ⟨⟩
    exact .preprocess request
  | case5 =>
    rintro ⟨⟩
    exact .reinit
  | case6 loaded err herr =>
    rintro ⟨⟩
    exact .fail (fun hzero => absurd (hzero ▸ herr) (by decide)) .rfl
  | case7 loaded err _ result herr =>
    rintro ⟨⟩
    exact .fail (fun hzero => absurd (hzero ▸ herr) (by decide)) ⟨rfl, rfl, rfl, rfl⟩
  | case8 loaded err herr =>
    rintro ⟨⟩
    exact .write (checkFirmwareControl_of_nonneg herr)
  | case9 =>
    rintro ⟨⟩
    exact .ring
  | case10 =>
    intro h
    obtain ⟨completion, hwait, rfl⟩ := Option.map_eq_some_iff.mp h
    exact .wake hwait
  | case11 =>
    rintro ⟨⟩
    exact .fail (by decide) .rfl
  | case13 =>
    rintro ⟨⟩
    exact .fail (by decide) .rfl
  | case15 =>
    rintro ⟨⟩
    exact .fail (by decide) ⟨rfl, rfl, rfl, rfl⟩
  | case16 =>
    rintro ⟨⟩
    exact .readLen
  | case17 =>
    rintro ⟨⟩
    exact .read
  | case18 =>
    rintro ⟨⟩
    exact .copied
  | case19 =>
    rintro ⟨⟩
    exact .fail (by decide) .rfl
  | case20 result =>
    rintro ⟨⟩
    exact .up result
  | case12 | case14 | case21 =>
    rintro ⟨⟩

end

section Mailbox
variable (fwAccess : FwAccess) (address : Nat) (command : HailoFwControl) (device : Nat → UInt8)

theorem length_requestBytes : command.requestBytes.length = requestSize command.requestLen := by
  rw [HailoFwControl.requestBytes, List.length_append, length_wordBytes, length_bytesFrom,
    requestSize]
  omega

/-- The request ends before the response begins. -/
theorem requestSize_le {requestLen : UInt32} (h : requestLen.toNat ≤ 1500) :
    requestSize requestLen ≤ pcieRequestSizeOffset := by
  rw [requestSize, pcieRequestSizeOffset]
  omega

theorem writeRequest_eq : writeRequest fwAccess address command device =
    (0, overlay device fwAccess.address command.requestBytes) :=
  hailoResourceWriteBuffer_ram fwAccess.address_aligned 0 _ _ _

theorem readResponseLen_eq : readResponseLen fwAccess address device =
    wordAt device (fwAccess.address + pcieRequestSizeOffset) := by
  rw [readResponseLen, hailoResourceReadBuffer_ram fwAccess.address_aligned,
    wordIn_bytesFrom (Nat.le_refl 4), Nat.add_zero]

theorem readResponse_eq : readResponse fwAccess address command device =
    { command with
      response := overlay command.response 0 (bytesFrom device
        (fwAccess.address + (pcieRequestSizeOffset + 4)) command.responseLen.toNat) } := by
  rw [readResponse, hailoResourceReadBuffer_ram fwAccess.address_aligned]

end Mailbox

theorem InMailbox.response {answer : Answer} (h : InMailbox board s call)
    (hanswer : (s.doorbells call).answer = some answer) :
    (wordAt s.device (board.fwAccess.address + pcieRequestSizeOffset)).toNat =
        answer.response.length ∧
      bytesFrom s.device (board.fwAccess.address + (pcieRequestSizeOffset + 4))
        answer.response.length = answer.response := by
  have hbytes := h answer hanswer
  have hfits : 0 + 4 ≤ 4 + answer.response.length := Nat.le_add_right 4 _
  have hword : wordIn (bytesFrom s.device (board.fwAccess.address + pcieRequestSizeOffset)
      (4 + answer.response.length)) 0 =
      wordAt s.device (board.fwAccess.address + pcieRequestSizeOffset + 0) :=
    wordIn_bytesFrom hfits
  rw [hbytes, wordIn_wordBytes_append, Nat.add_zero] at hword
  constructor
  · rw [← hword, UInt32.toNat_ofNat_of_lt' answer.length_lt]
  · rw [bytesFrom_add] at hbytes
    have hlength : (bytesFrom s.device (board.fwAccess.address + pcieRequestSizeOffset) 4).length =
        (wordBytes (UInt32.ofNat answer.response.length)).length := by
      rw [length_bytesFrom, length_wordBytes]
    rw [← Nat.add_assoc]
    exact (List.append_inj hbytes hlength).2

theorem Asked.response_of_read {answer : Answer} (h : Asked board s call)
    (hanswer : (s.doorbells call).answer = some answer)
    (hlength : s.command.responseLen.toNat = answer.response.length) :
    bytesFrom (overlay s.command.response 0 (bytesFrom s.device
        (board.fwAccess.address + (pcieRequestSizeOffset + 4)) s.command.responseLen.toNat)) 0
      s.command.responseLen.toNat = answer.response := by
  rw [hlength, (h.mailbox.response board hanswer).2, bytesFrom_overlay]

/-- What the firmware answered stays. -/
def AnswersKept (s s' : ControlSystem T) : Prop :=
  ∀ c answer, (s.doorbells c).answer = some answer → (s'.doorbells c).answer = some answer

theorem AnswersKept.isSome (h : AnswersKept s s') {c : T}
    (hsome : (s.doorbells c).answer.isSome = true) : (s'.doorbells c).answer.isSome = true := by
  obtain ⟨answer, hanswer⟩ := Option.isSome_iff_exists.mp hsome
  rw [h c answer hanswer]
  rfl

theorem Answers.kept {command : HailoFwControl} (h : AnswersKept s s')
    (hanswers : Answers s call command) : Answers s' call command := by
  obtain ⟨answer, hanswer, hresponse⟩ := hanswers
  exact ⟨answer, h _ _ hanswer, hresponse⟩

theorem OwnResponse.kept {result : ControlResult} (h : AnswersKept s s')
    (hown : OwnResponse s call result) : OwnResponse s' call result := by
  intro herr
  obtain ⟨command, hcopied, hanswers⟩ := hown herr
  exact ⟨command, hcopied, hanswers.kept h⟩

theorem SameAnswers.kept (h : SameAnswers s s') : AnswersKept s s' := by
  intro c answer hanswer
  rwa [h.doorbells]

/-- What a step keeps that leaves the calls but one alone. -/
structure Kept (call : T) (s s' : ControlSystem T) : Prop where
  others : ∀ c, c ≠ call → s'.doorbells c = s.doorbells c
  answers : AnswersKept s s'
  istatusHost : s'.istatusHost = s.istatusHost
  handler : s'.handler = s.handler
  returned : s'.returned = s.returned

theorem SameAnswers.toKept (h : SameAnswers s s') : Kept call s s' where
  others := fun _ _ => by rw [h.doorbells]
  answers := h.kept
  istatusHost := h.istatusHost
  handler := h.handler
  returned := h.returned

/-- A step of the call at the mailbox needs to be looked at for that call only. -/
theorem Inv.move {phase' : ControlPhase} (h : Inv board s) (hmutex : s.mutex = some (call, phase))
    (hkept : Kept call s s') (hmutex' : s'.mutex = some (call, phase'))
    (hphase : PhaseInv board s' call phase') : Inv board s' where
  fresh := by
    intro c hreturned hholder
    have hne : c ≠ call := fun heq => hholder phase' (heq ▸ hmutex')
    rw [hkept.others c hne]
    refine h.fresh c (hkept.returned ▸ hreturned) fun phase hheld => hne ?_
    exact congrArg Prod.fst (Option.some.inj (hheld.symm.trans hmutex))
  istatus := fun c hc => hkept.answers.isSome (h.istatus c (hkept.istatusHost ▸ hc))
  handler := fun calls hcalls c hc =>
    hkept.answers.isSome (h.handler calls (hkept.handler ▸ hcalls) c hc)
  holder := by
    intro c phase hheld
    obtain ⟨rfl, rfl⟩ := Prod.mk.inj (Option.some.inj (hmutex'.symm.trans hheld))
    exact hphase
  returned := fun c result hreturned =>
    (h.returned c result (hkept.returned ▸ hreturned)).kept hkept.answers

theorem Inv.stay {phase' : ControlPhase} (h : Inv board s) (hmutex : s.mutex = some (call, phase))
    (hsame : SameAnswers s s') (hmutex' : s'.mutex = some (call, phase'))
    (hphase : PhaseInv board s' call phase') : Inv board s' :=
  h.move board hmutex hsame.toKept hmutex' hphase

theorem Inv.leave {err : Int32} (h : Inv board s) (hmutex : s.mutex = some (call, phase))
    (herr : err ≠ 0) (hsame : SameAnswers s s') : Inv board (s'.leave call err) :=
  h.stay board hmutex ⟨hsame.doorbells, hsame.istatusHost, hsame.handler, hsame.returned⟩ rfl
    fun hzero => absurd hzero herr

theorem requestBytes_in_device (command : HailoFwControl) (device : Nat → UInt8) (base : Nat) :
    bytesFrom (overlay device base command.requestBytes) base (requestSize command.requestLen) =
      command.requestBytes := by
  rw [← length_requestBytes, bytesFrom_overlay]

/-- The firmware finds the length of the request in the first word. -/
theorem request_of_device {command : HailoFwControl} {device : Nat → UInt8} {base : Nat}
    (h : bytesFrom device base (requestSize command.requestLen) = command.requestBytes) :
    bytesFrom device base (requestSize (wordAt device base)) = command.requestBytes := by
  have hfits : 0 + 4 ≤ requestSize command.requestLen := by
    rw [requestSize]
    omega
  have hword : wordIn (bytesFrom device base (requestSize command.requestLen)) 0 =
      wordAt device (base + 0) := wordIn_bytesFrom hfits
  rw [h, HailoFwControl.requestBytes, wordIn_wordBytes_append, Nat.add_zero] at hword
  rw [← hword, h]

theorem not_quiet_of_rung {access : UInt32} {request : List UInt8} (h : Inv board s)
    (hrung : s.doorbells call = .rung access request) (hreturned : s.returned call = none) :
    ∃ phase, s.mutex = some (call, phase) := by
  by_contra hholder
  rw [not_exists] at hholder
  cases hrung.symm.trans (h.fresh call hreturned hholder)

/-- The call sees of its doorbell only the request and the answer. -/
theorem PhaseInv.frame (hquiet : s.doorbells call = .quiet → s'.doorbells call = .quiet)
    (hrequest : (s'.doorbells call).request = (s.doorbells call).request)
    (hkept : AnswersKept s s') (hanswer : (s'.doorbells call).answer = (s.doorbells call).answer)
    (hdevice : s'.device = s.device) (hcommand : s'.command = s.command)
    (hcompletion : s'.completion = s.completion) (h : PhaseInv board s call phase) :
    PhaseInv board s' call phase := by
  have hasked : Asked board s call → Asked board s' call := by
    intro hasked
    refine ⟨by rw [hrequest, hcommand, hasked.request], ?_⟩
    rw [InMailbox, hanswer, hdevice]
    exact hasked.mailbox
  cases phase with
  | locked | copied | preprocessed => exact hquiet h
  | reinited => exact ⟨hquiet h.1, by rw [hcompletion, h.2]⟩
  | written =>
    rw [PhaseInv, hcompletion, hdevice, hcommand]
    exact ⟨hquiet h.1, h.2⟩
  | waiting =>
    rw [PhaseInv, hcompletion, hanswer]
    exact ⟨hasked h.1, h.2⟩
  | woken =>
    rw [PhaseInv, hanswer]
    exact ⟨hasked h.1, h.2⟩
  | lengthRead =>
    rw [PhaseInv, hanswer, hcommand]
    exact ⟨hasked h.1, h.2⟩
  | responded =>
    rw [PhaseInv, hcommand]
    exact Answers.kept hkept h
  | leaving result => exact OwnResponse.kept hkept h

theorem Inv.readInterrupt (h : Inv board s) {calls : List T} (hcalls : s.istatusHost = calls) :
    Inv board (s.setInterrupt [] (some calls)) where
  fresh := h.fresh
  istatus := fun c hc => absurd hc List.not_mem_nil
  handler := by
    intro calls' hcalls' c hc
    obtain rfl := Option.some.inj hcalls'
    exact h.istatus c (hcalls ▸ hc)
  holder := fun c phase hheld =>
    PhaseInv.frame (s := s) board id rfl (fun _ _ => id) rfl rfl rfl rfl
    (h.holder c phase hheld)
  returned := h.returned

/-- The handler wakes a call whose response is there, or one that does not wait. -/
theorem Inv.nncIrqHandler {calls : List T} (h : Inv board s) (hcalls : s.handler = some calls)
    (hlate : ∀ o phase, s.mutex = some (o, phase) → Awaits phase → o ∈ calls) :
    Inv board ((s.setCompletion s.completion.complete).setInterrupt s.istatusHost none) where
  fresh := h.fresh
  istatus := h.istatus
  handler := fun _ hnone => nomatch hnone
  holder := by
    intro c phase hheld
    have hphase := h.holder c phase hheld
    have hanswered : Awaits phase → (s.doorbells c).answer.isSome = true := fun hawaits =>
      h.handler calls hcalls c (hlate c phase hheld hawaits)
    cases phase with
    | reinited | written =>
      have hsome := hanswered trivial
      rw [hphase.1] at hsome
      cases hsome
    | waiting => exact ⟨⟨hphase.1.request, hphase.1.mailbox⟩, fun _ => hanswered trivial⟩
    | woken => exact ⟨⟨hphase.1.request, hphase.1.mailbox⟩, hphase.2⟩
    | lengthRead => exact ⟨⟨hphase.1.request, hphase.1.mailbox⟩, hphase.2⟩
    | locked | copied | preprocessed | responded | leaving => exact hphase
  returned := h.returned

theorem Inv.down (h : Inv board s) (hreturned : s.returned call = none)
    (hmutex : s.mutex = none) : Inv board (s.setMutex (some (call, .locked))) where
  fresh := fun c hc hholder => h.fresh c hc fun phase hheld => nomatch hmutex.symm.trans hheld
  istatus := h.istatus
  handler := h.handler
  holder := by
    intro c phase hheld
    obtain ⟨rfl, rfl⟩ := Prod.mk.inj (Option.some.inj hheld)
    exact h.fresh _ hreturned fun phase hheld => nomatch hmutex.symm.trans hheld
  returned := h.returned

theorem inv_initial (device : Nat → UInt8) (command : HailoFwControl) :
    Inv board (initialSystem (T := T) device command) where
  fresh := fun _ _ _ => rfl
  istatus := fun _ hc => absurd hc List.not_mem_nil
  handler := fun _ hnone => nomatch hnone
  holder := fun _ _ hheld => nomatch hheld
  returned := fun _ _ hreturned => nomatch hreturned

section
variable [DecidableEq T]

theorem Inv.ring (h : Inv board s) (hmutex : s.mutex = some (call, .written)) (access : UInt32)
    (request : List UInt8) (hrequest : request = s.command.requestBytes) :
    Inv board ((s.setDoorbell call (.rung access request)).setMutex (some (call, .waiting))) := by
  obtain ⟨hquiet, hdone, -, -⟩ := h.holder _ _ hmutex
  have hself : ((s.setDoorbell call (.rung access request)).setMutex
      (some (call, .waiting))).doorbells call = .rung access request :=
    ControlSystem.setDoorbell_self
  have hothers : ∀ c, c ≠ call → ((s.setDoorbell call (.rung access request)).setMutex
      (some (call, .waiting))).doorbells c = s.doorbells c :=
    fun c hc => ControlSystem.setDoorbell_of_ne hc _
  refine h.move board hmutex ⟨hothers, ?_, rfl, rfl, rfl⟩ rfl ?_
  · intro c answer hanswer
    have hne : c ≠ call := by
      rintro rfl
      rw [hquiet] at hanswer
      cases hanswer
    rw [hothers c hne, hanswer]
  · refine ⟨⟨?_, ?_⟩, fun hne => absurd hdone hne⟩
    · rw [hself, hrequest]
      rfl
    · intro answer hanswer
      rw [hself] at hanswer
      cases hanswer

theorem Inv.up {result : ControlResult} (h : Inv board s)
    (hmutex : s.mutex = some (call, .leaving result)) (hown : OwnResponse s call result) :
    Inv board ((s.setReturned call result).setMutex none) where
  fresh := by
    intro c hreturned _
    have hne : c ≠ call := by
      rintro rfl
      have hself : ((s.setReturned c result).setMutex none).returned c = some result :=
        ControlSystem.setReturned_self
      rw [hself] at hreturned
      cases hreturned
    refine h.fresh c ((ControlSystem.setReturned_of_ne hne _).symm.trans hreturned) ?_
    intro phase hheld
    exact hne (congrArg Prod.fst (Option.some.inj (hheld.symm.trans hmutex)))
  istatus := h.istatus
  handler := h.handler
  holder := fun _ _ hheld => nomatch hheld
  returned := by
    intro c result' hreturned
    by_cases hc : c = call
    · subst hc
      obtain rfl := Option.some.inj (ControlSystem.setReturned_self.symm.trans hreturned)
      exact hown
    · exact h.returned c result' ((ControlSystem.setReturned_of_ne hc _).symm.trans hreturned)

theorem Inv.callMove (h : Inv board s) (hmutex : s.mutex = some (call, phase))
    (hmove : CallMove board s call phase s') : Inv board s' := by
  have hphase := h.holder _ _ hmutex
  cases hmove with
  | fail herr hsame => exact h.leave board hmutex herr hsame
  | copy command => exact h.stay board hmutex ⟨rfl, rfl, rfl, rfl⟩ rfl hphase
  | preprocess request => exact h.stay board hmutex ⟨rfl, rfl, rfl, rfl⟩ rfl hphase
  | reinit => exact h.stay board hmutex ⟨rfl, rfl, rfl, rfl⟩ rfl ⟨hphase, rfl⟩
  | write hlen =>
    obtain ⟨hquiet, hdone⟩ := hphase
    refine h.stay board hmutex ⟨rfl, rfl, rfl, rfl⟩ rfl ⟨hquiet, hdone, hlen, ?_⟩
    simp only [writeRequest_eq]
    exact requestBytes_in_device s.command s.device board.fwAccess.address
  | ring =>
    obtain ⟨hquiet, hdone, hlen, hbytes⟩ := hphase
    exact h.ring board hmutex _ _ (request_of_device hbytes)
  | wake hwait =>
    obtain ⟨hasked, hanswered⟩ := hphase
    refine h.stay board hmutex ⟨rfl, rfl, rfl, rfl⟩ rfl ⟨⟨hasked.request, hasked.mailbox⟩, ?_⟩
    exact hanswered (Completion.done_ne_zero_of_tryWait hwait)
  | readLen =>
    obtain ⟨hasked, hsome⟩ := hphase
    obtain ⟨answer, hanswer⟩ := Option.isSome_iff_exists.mp hsome
    refine h.stay board hmutex ⟨rfl, rfl, rfl, rfl⟩ rfl
      ⟨⟨hasked.request, hasked.mailbox⟩, answer, hanswer, ?_⟩
    simp only [readResponseLen_eq]
    exact (hasked.mailbox.response board hanswer).1
  | read =>
    obtain ⟨hasked, answer, hanswer, hlength⟩ := hphase
    refine h.stay board hmutex ⟨rfl, rfl, rfl, rfl⟩ rfl ⟨answer, hanswer, ?_⟩
    have hrequest := Option.some.inj
      ((Doorbell.request_of_answer hanswer).symm.trans hasked.request)
    simp only [readResponse_eq]
    exact ⟨hrequest, hlength, hasked.response_of_read board hanswer hlength⟩
  | copied => exact h.stay board hmutex ⟨rfl, rfl, rfl, rfl⟩ rfl fun _ => ⟨_, rfl, hphase⟩
  | up result => exact h.up board hmutex hphase

/-- The mailbox after the firmware wrote its response to the call. -/
def afterWrite (s : ControlSystem T) (call : T) (answer : Answer) : ControlSystem T :=
  (s.setDevice (overlay s.device (board.fwAccess.address + pcieRequestSizeOffset)
    (wordBytes (UInt32.ofNat answer.response.length) ++ answer.response))).setDoorbell call
    (.written answer)

theorem afterWrite_kept {answer : Answer} (hnone : (s.doorbells call).answer = none) :
    AnswersKept s (afterWrite board s call answer) := by
  intro c answer' hanswer
  have hne : c ≠ call := by
    rintro rfl
    rw [hnone] at hanswer
    cases hanswer
  rw [afterWrite, ControlSystem.setDoorbell_of_ne hne]
  exact hanswer

/-- The response that the firmware writes is the one of the call that asked for it. -/
theorem PhaseInv.ownWrite {access : UInt32} {answer : Answer}
    (hrung : s.doorbells call = .rung access answer.request)
    (h : PhaseInv board s call phase) :
    PhaseInv board (afterWrite board s call answer) call phase := by
  have hself : (afterWrite board s call answer).doorbells call = .written answer :=
    ControlSystem.setDoorbell_self
  have hkept : AnswersKept s (afterWrite board s call answer) :=
    afterWrite_kept board (by rw [hrung]; rfl)
  cases phase with
  | locked | copied | preprocessed => cases hrung.symm.trans h
  | reinited | written => cases hrung.symm.trans h.1
  | waiting =>
    refine ⟨⟨?_, ?_⟩, fun _ => by rw [hself]; rfl⟩
    · rw [hself]
      exact (congrArg Doorbell.request hrung).symm.trans h.1.request
    · intro answer' hanswer
      rw [hself] at hanswer
      obtain rfl := Option.some.inj hanswer
      have hlength : 4 + answer.response.length =
          (wordBytes (UInt32.ofNat answer.response.length) ++ answer.response).length := by
        rw [List.length_append, length_wordBytes]
      rw [hlength]
      exact bytesFrom_overlay _ _ _
  | woken =>
    have hsome := h.2
    rw [hrung] at hsome
    cases hsome
  | lengthRead =>
    obtain ⟨-, answer', hanswer, -⟩ := h
    rw [hrung] at hanswer
    cases hanswer
  | responded => exact Answers.kept hkept h
  | leaving result => exact OwnResponse.kept hkept h

/-- A response that is written before the own one does no harm. -/
theorem PhaseInv.otherWrite {o : T} {answer : Answer} (hne : o ≠ call)
    (hnone : (s.doorbells call).answer = none)
    (hopen : Open phase → (s.doorbells o).answer = none)
    (h : PhaseInv board s o phase) : PhaseInv board (afterWrite board s call answer) o phase := by
  have hother : (afterWrite board s call answer).doorbells o = s.doorbells o :=
    ControlSystem.setDoorbell_of_ne hne _
  have hkept : AnswersKept s (afterWrite board s call answer) := afterWrite_kept board hnone
  cases phase with
  | locked | copied | preprocessed => exact hother.trans h
  | reinited => exact ⟨hother.trans h.1, h.2⟩
  | written =>
    obtain ⟨hquiet, hdone, hlen, hbytes⟩ := h
    refine ⟨hother.trans hquiet, hdone, hlen, Eq.trans ?_ hbytes⟩
    have hle := requestSize_le hlen
    refine bytesFrom_congr fun a _ hlt => overlay_of_lt (Nat.lt_of_lt_of_le hlt ?_)
    exact Nat.add_le_add_left hle _
  | waiting =>
    refine ⟨⟨?_, ?_⟩, fun hdone => ?_⟩
    · rw [hother]
      exact h.1.request
    · intro answer' hanswer
      rw [hother, hopen trivial] at hanswer
      cases hanswer
    · rw [hother]
      exact h.2 hdone
  | woken =>
    have hsome := h.2
    rw [hopen trivial] at hsome
    cases hsome
  | lengthRead =>
    obtain ⟨-, answer', hanswer, -⟩ := h
    rw [hopen trivial] at hanswer
    cases hanswer
  | responded => exact Answers.kept hkept h
  | leaving result => exact OwnResponse.kept hkept h

theorem Inv.firmwareWrites {access : UInt32} (answer : Answer) (h : Inv board s)
    (hrung : s.doorbells call = .rung access answer.request)
    (hlate : ∀ o phase, s.mutex = some (o, phase) → Open phase → o ≠ call →
      (s.doorbells o).answer = none) :
    Inv board (afterWrite board s call answer) := by
  have hnone : (s.doorbells call).answer = none := by rw [hrung]; rfl
  have hkept : AnswersKept s (afterWrite board s call answer) := afterWrite_kept board hnone
  refine ⟨?_, fun c hc => hkept.isSome (h.istatus c hc),
    fun calls hcalls c hc => hkept.isSome (h.handler calls hcalls c hc), ?_,
    fun c result hreturned => (h.returned c result hreturned).kept hkept⟩
  · intro c hreturned hholder
    have hne : c ≠ call := by
      rintro rfl
      obtain ⟨phase, hheld⟩ := not_quiet_of_rung board h hrung hreturned
      exact hholder phase hheld
    exact (ControlSystem.setDoorbell_of_ne hne _).trans (h.fresh c hreturned hholder)
  · intro o phase hheld
    have hphase := h.holder o phase hheld
    by_cases ho : o = call
    · subst ho
      exact PhaseInv.ownWrite board hrung hphase
    · exact PhaseInv.otherWrite board ho hnone (fun hopen => hlate o phase hheld hopen ho) hphase

theorem Inv.firmwareRaises {answer : Answer} (h : Inv board s)
    (hwritten : s.doorbells call = .written answer) :
    Inv board ((s.setDoorbell call (.raised answer)).setInterrupt (call :: s.istatusHost)
      s.handler) := by
  have hself : ((s.setDoorbell call (.raised answer)).setInterrupt (call :: s.istatusHost)
      s.handler).doorbells call = .raised answer := ControlSystem.setDoorbell_self
  have hother : ∀ c, c ≠ call → ((s.setDoorbell call (.raised answer)).setInterrupt
      (call :: s.istatusHost) s.handler).doorbells c = s.doorbells c :=
    fun c hc => ControlSystem.setDoorbell_of_ne hc _
  generalize hs' : (s.setDoorbell call (.raised answer)).setInterrupt (call :: s.istatusHost)
    s.handler = s' at hself hother ⊢
  have hanswer : ∀ c, (s'.doorbells c).answer = (s.doorbells c).answer := by
    intro c
    by_cases hc : c = call
    · rw [hc, hself, hwritten]
      rfl
    · rw [hother c hc]
  have hkept : AnswersKept s s' := fun c answer' hc => (hanswer c).trans hc
  have hquiet : ∀ c, s.doorbells c = .quiet → s'.doorbells c = .quiet := by
    intro c hc
    refine (hother c ?_).trans hc
    rintro rfl
    cases hwritten.symm.trans hc
  have hrequest : ∀ c, (s'.doorbells c).request = (s.doorbells c).request := by
    intro c
    by_cases hc : c = call
    · rw [hc, hself, hwritten]
      rfl
    · rw [hother c hc]
  subst hs'
  refine ⟨fun c hreturned hholder => hquiet c (h.fresh c hreturned hholder), ?_,
    fun calls hcalls c hc => hkept.isSome (h.handler calls hcalls c hc),
    fun c phase hheld => PhaseInv.frame board (hquiet c) (hrequest c) hkept (hanswer c) rfl rfl rfl
      (h.holder c phase hheld),
    fun c result hreturned => (h.returned c result hreturned).kept hkept⟩
  intro c hc
  obtain rfl | hc := List.mem_cons.mp hc
  · rw [hself]
    rfl
  · exact hkept.isSome (h.istatus c hc)

theorem Inv.downInterrupted (h : Inv board s) (hholder : (s.mutex.map Prod.fst) ≠ some call)
    (err : Int32) (herr : err ≠ 0) (hnone : s.returned call = none) :
    Inv board (s.setReturned call ⟨err, none⟩) where
  fresh := by
    intro c hreturned hc
    have hne : c ≠ call := by
      rintro rfl
      rw [ControlSystem.setReturned_self] at hreturned
      cases hreturned
    exact h.fresh c ((ControlSystem.setReturned_of_ne hne _).symm.trans hreturned) hc
  istatus := h.istatus
  handler := h.handler
  holder := fun c phase hheld => PhaseInv.frame (s := s) board id rfl (fun _ _ => id) rfl rfl rfl
    rfl (h.holder c phase hheld)
  returned := by
    intro c result hreturned
    by_cases hc : c = call
    · subst hc
      rw [ControlSystem.setReturned_self] at hreturned
      obtain rfl := Option.some.inj hreturned
      exact fun hzero => absurd hzero herr
    · rw [ControlSystem.setReturned_of_ne hc] at hreturned
      exact h.returned c result hreturned

theorem inv_step {event : Event T} (h : Inv board s) (hlate : NoLateAnswer s event)
    (hstep : step board s event = some s') : Inv board s' := by
  revert hstep
  fun_cases step board s event with
  | case1 call hfree =>
    rintro ⟨⟩
    rw [Bool.and_eq_true, Option.isNone_iff_eq_none, decide_eq_true_eq] at hfree
    exact h.downInterrupted board hfree.2 _ (by decide) hfree.1
  | case3 call hfree =>
    rintro ⟨⟩
    rw [Bool.and_eq_true, Option.isNone_iff_eq_none, Option.isNone_iff_eq_none] at hfree
    exact h.down board hfree.1 hfree.2
  | case5 call response access request hrung hlength =>
    rintro ⟨⟩
    exact h.firmwareWrites board ⟨request, response, hlength⟩ hrung hlate
  | case8 call answer hwritten =>
    rintro ⟨⟩
    exact h.firmwareRaises board hwritten
  | case10 call calls hraised =>
    rintro ⟨⟩
    exact h.readInterrupt board hraised
  | case12 calls hhandler =>
    rintro ⟨⟩
    exact h.nncIrqHandler board hhandler fun o phase hheld hawaits =>
      hlate o phase calls hheld hawaits hhandler
  | case14 =>
    intro hstep
    exact h.callMove board ‹_› (callMove_of_callStep board hstep)
  | case2 | case4 | case6 | case7 | case9 | case11 | case13 | case15 =>
    rintro ⟨⟩

/-- Runs as lists of events, each checked before it is taken. -/
def runEvents (admits : ControlSystem T → Event T → Bool) (s : ControlSystem T)
    (events : List (Event T)) : Option (ControlSystem T) :=
  events.foldlM (fun s event => if admits s event then step board s event else none) s

theorem steps_of_runEvents {Admitted : ControlSystem T → Event T → Prop}
    {admits : ControlSystem T → Event T → Bool}
    (hadmits : ∀ s event, admits s event = true → Admitted s event) {events : List (Event T)}
    (h : runEvents board admits s events = some s') :
    Relation.ReflTransGen (Steps board Admitted) s s' := by
  refine EventRuns.run_of_events (fun s event s' hstep => ?_) h
  split at hstep
  · next hadmit => exact ⟨event, hadmits s event hadmit, hstep⟩
  · cases hstep

/-- The firmware and the handler are at the call that is at the mailbox, if one is. -/
def punctual (s : ControlSystem T) : Event T → Bool
  | .firmwareWrites call _ => s.mutex.all fun held => held.1 == call
  | .nncIrqHandler => s.mutex.all fun held => s.handler.all fun calls => calls.contains held.1
  | _ => true

theorem noLateAnswer_of_punctual {event : Event T} (h : punctual s event = true) :
    NoLateAnswer s event := by
  cases event with
  | firmwareWrites call response =>
    intro o phase hheld _ hne
    rw [punctual, hheld, Option.all_some, beq_iff_eq] at h
    exact absurd h hne
  | nncIrqHandler =>
    intro o phase calls hheld _ hhandler
    rw [punctual, hheld, Option.all_some, hhandler, Option.all_some] at h
    exact List.contains_iff_mem.mp h
  | _ => trivial

theorem ownResponse_of_run {device : Nat → UInt8} {command : HailoFwControl}
    (hrun : Relation.ReflTransGen (Steps board NoLateAnswer) (initialSystem device command) s)
    {result : ControlResult} (hreturned : s.returned call = some result) :
    OwnResponse s call result := by
  have hinv := EventRuns.inv_of_run
    (fun _ _ h hstep => let ⟨_, hlate, hevent⟩ := hstep; inv_step board h hlate hevent) hrun
    (inv_initial board device command)
  exact hinv.returned call result hreturned

end

section Runs

def boardAtZero : ControlBoard := ⟨⟨⟨0, 0x2000⟩, rfl⟩, 0⟩

/-- `HAILO_CONTROL_OPCODE_IDENTIFY`, without parameters -/
def identify : HailoFwControl := ⟨4, fun _ => 0, 0, fun _ => 0⟩

def emptyBoard : ControlSystem Bool := initialSystem (fun _ => 0) identify

/-- The call takes the mutex, sends its request and rings. -/
def request (call : Bool) : List (Event Bool) :=
  [.down call, .copyFromUser (some identify), .preprocess fun _ => none, .reinit,
    .writeRequest true, .ringDoorbell]

def giveUp : List (Event Bool) := [.wait .timeout, .up]

/-- The firmware answers with one byte and the handler runs. -/
def answerTo (call : Bool) (byte : UInt8) : List (Event Bool) :=
  [.firmwareWrites call [byte], .firmwareRaises call, .readInterrupt, .nncIrqHandler]

def takeResponse : List (Event Bool) :=
  [.wait .completed, .readResponseLen, .readResponse, .copyToUser true, .up]

/-- The first call gave up; what the firmware has for it comes before the second one starts. -/
theorem ownResponse_of_run_afterTimeout : ∃ (s : ControlSystem Bool) (result : ControlResult),
    s.returned true = some result ∧ result.err = 0 ∧ OwnResponse s true result := by
  have hsome : (runEvents boardAtZero punctual emptyBoard (request false ++ giveUp ++
      answerTo false 7 ++ request true ++ answerTo true 8 ++ takeResponse)).isSome = true := rfl
  obtain ⟨s, hs⟩ := Option.isSome_iff_exists.mp hsome
  have hreturned : (s.returned true).map ControlResult.err = some 0 := by
    have heval : (runEvents boardAtZero punctual emptyBoard (request false ++ giveUp ++
        answerTo false 7 ++ request true ++ answerTo true 8 ++ takeResponse)).map
        (fun s => (s.returned true).map ControlResult.err) = some (some 0) := rfl
    rw [hs] at heval
    exact Option.some.inj heval
  obtain ⟨result, hresult, herr⟩ := Option.map_eq_some_iff.mp hreturned
  have hrun := steps_of_runEvents boardAtZero (fun _ _ => noLateAnswer_of_punctual) hs
  exact ⟨s, result, hresult, herr, ownResponse_of_run boardAtZero hrun hresult⟩

/-- The second call returns what the firmware has for the first, which gave up, before the
firmware has answered it. -/
theorem lateAnswer_returned : ∃ (s : ControlSystem Bool) (result : ControlResult),
    Relation.ReflTransGen (Steps boardAtZero fun _ _ => True) emptyBoard s ∧
      s.returned true = some result ∧ ¬ OwnResponse s true result := by
  have hsome : (runEvents boardAtZero (fun _ _ => true) emptyBoard (request false ++ giveUp ++
      request true ++ answerTo false 7 ++ takeResponse)).isSome = true := rfl
  obtain ⟨s, hs⟩ := Option.isSome_iff_exists.mp hsome
  have heval : (runEvents boardAtZero (fun _ _ => true) emptyBoard (request false ++ giveUp ++
      request true ++ answerTo false 7 ++ takeResponse)).map
      (fun s => ((s.returned true).map ControlResult.err, (s.doorbells true).answer.isNone)) =
        some (some 0, true) := rfl
  rw [hs] at heval
  obtain ⟨herr, hnone⟩ := Prod.mk.inj (Option.some.inj heval)
  obtain ⟨result, hresult, herr⟩ := Option.map_eq_some_iff.mp herr
  refine ⟨s, result, steps_of_runEvents boardAtZero (fun _ _ _ => trivial) hs, hresult, ?_⟩
  intro hown
  obtain ⟨command, -, answer, hanswer, -⟩ := hown herr
  rw [hanswer] at hnone
  cases hnone

end Runs

end HailortDrivers.ControlResponses
