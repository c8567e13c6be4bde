import HailortDrivers.EventRuns
import HailortDrivers.KernelCompletion
import Mathlib.Logic.Function.Basic

/-! Calls that ask a device through a mailbox and a doorbell, one at a time. The device answers
each doorbell when it likes: it takes what is then in the mailbox, posts a response, and raises an
interrupt whose handler signals the completion that all calls wait on. A call may give up, and
nothing tells whose answer a signal is. -/
namespace HailortDrivers.Doorbells
open KernelCompletion EventRuns

/-- The memory that requests and responses go through, and what an answer does to the
completion. -/
structure Mailbox (M Q R : Type) where
  signal : Completion → Completion
  send : Q → M → M
  seen : M → Q
  post : R → M → M
  read : M → R
  signal_done : ∀ x, (signal x).done ≠ 0
  seen_send : ∀ request m, seen (send request m) = request
  read_post : ∀ response m, read (post response m) = response

inductive Doorbell (Q R : Type)
  | quiet
  | rung
  | taken (request : Q)
  | posted (request : Q) (response : R)
  | raised (request : Q) (response : R)

/-- The device has not raised its answer. -/
def Doorbell.Busy {Q R : Type} : Doorbell Q R → Prop
  | .quiet | .raised _ _ => False
  | .rung | .taken _ | .posted _ _ => True

inductive Phase (Q : Type)
  | started (request : Q)
  | reinited (request : Q)
  | sent (request : Q)
  | waiting (request : Q)
  | woken (request : Q)

inductive Outcome (R : Type)
  | gaveUp
  | got (response : R)

/-- `status` are the calls for which the pending interrupt was raised, `handler` those for which
the one was that the handler is at. -/
structure Exchange (M Q R K : Type) where
  memory : M
  completion : Completion
  holder : Option (K × Phase Q)
  doorbells : K → Doorbell Q R
  status : List K
  handler : Option (List K)
  returned : K → Option (Outcome R)

inductive Event (Q R K : Type)
  | start (call : K) (request : Q)
  | reinit
  | send
  | ring
  | wake
  | giveUp
  | read
  | take (call : K)
  | post (call : K) (response : R)
  | raise (call : K)
  | readStatus
  | handle
  | clear

variable {M Q R K : Type} [DecidableEq K]

/-- With nothing asked yet. -/
def initial (memory : M) : Exchange M Q R K where
  memory := memory
  completion := .init
  holder := none
  doorbells := fun _ => .quiet
  status := []
  handler := none
  returned := fun _ => none

section Steps
variable (box : Mailbox M Q R)

namespace Exchange
variable (s : Exchange M Q R K)

def setDoorbell (call : K) (doorbell : Doorbell Q R) : Exchange M Q R K :=
  { s with doorbells := Function.update s.doorbells call doorbell }

def setHolder (call : K) (phase : Phase Q) : Exchange M Q R K :=
  { s with holder := some (call, phase) }

def leave (call : K) (outcome : Outcome R) : Exchange M Q R K :=
  { s with holder := none, returned := Function.update s.returned call (some outcome) }

@[simp] theorem leave_returned_self (call : K) (outcome : Outcome R) :
    (s.leave call outcome).returned call = some outcome := Function.update_self _ _ _

variable {s} in
theorem leave_returned_of_ne {call c : K} (h : c ≠ call) (outcome : Outcome R) :
    (s.leave call outcome).returned c = s.returned c := Function.update_of_ne h _ _

@[simp] theorem setDoorbell_self (call : K) (doorbell : Doorbell Q R) :
    (s.setDoorbell call doorbell).doorbells call = doorbell := Function.update_self _ _ _

variable {s} in
theorem setDoorbell_of_ne {call c : K} (h : c ≠ call) (doorbell : Doorbell Q R) :
    (s.setDoorbell call doorbell).doorbells c = s.doorbells c := Function.update_of_ne h _ _

/-- What the call does that holds the mutex. -/
def callStep (call : K) : Phase Q → Event Q R K → Option (Exchange M Q R K)
  | .started request, .reinit =>
    some { s with completion := s.completion.reinit, holder := some (call, .reinited request) }
  | .reinited request, .send =>
    some { s with memory := box.send request s.memory, holder := some (call, .sent request) }
  | .sent request, .ring => some ((s.setDoorbell call .rung).setHolder call (.waiting request))
  | .waiting request, .wake =>
    s.completion.tryWait.map fun completion =>
      { s with completion := completion, holder := some (call, .woken request) }
  | .waiting _, .giveUp => if s.completion.done = 0 then some (s.leave call .gaveUp) else none
  | .woken _, .read => some (s.leave call (.got (box.read s.memory)))
  | _, _ => none

def step : Event Q R K → Option (Exchange M Q R K)
  | .start call request =>
    match s.holder, s.returned call with
    | none, none => some (s.setHolder call (.started request))
    | _, _ => none
  | .take call =>
    match s.doorbells call with
    | .rung => some (s.setDoorbell call (.taken (box.seen s.memory)))
    | _ => none
  | .post call response =>
    match s.doorbells call with
    | .taken request =>
      some { s with
        memory := box.post response s.memory
        doorbells := Function.update s.doorbells call (.posted request response) }
    | _ => none
  | .raise call =>
    match s.doorbells call with
    | .posted request response =>
      some { s with
        status := call :: s.status
        doorbells := Function.update s.doorbells call (.raised request response) }
    | _ => none
  | .readStatus =>
    match s.handler, s.status with
    | none, call :: calls => some { s with status := [], handler := some (call :: calls) }
    | _, _ => none
  | .handle =>
    match s.handler with
    | some _ => some { s with completion := box.signal s.completion, handler := none }
    | none => none
  -- the interrupts are enabled anew
  | .clear => some { s with status := [] }
  | event =>
    match s.holder with
    | some (call, phase) => s.callStep box call phase event
    | none => none

end Exchange

end Steps

section Answers
variable {box : Mailbox M Q R} {s s' : Exchange M Q R K} {call : K} {request : Q}

def Steps (box : Mailbox M Q R) (s s' : Exchange M Q R K) : Prop :=
  ∃ event, s.step box event = some s'

/-- The response is the one that the device posted for the request of the call. -/
def Own (s : Exchange M Q R K) (call : K) (request : Q) (response : R) : Prop :=
  s.doorbells call = .raised request response

/-- The device has answered all that it was asked, and the handler is done with it. -/
structure Settled (s : Exchange M Q R K) : Prop where
  doorbells : ∀ call, s.doorbells call = .quiet ∨
    ∃ request response, s.doorbells call = .raised request response
  status : s.status = []
  handler : s.handler = none

/-- A call has not rung before it waits, and returns once. -/
structure Sound (s : Exchange M Q R K) : Prop where
  held : ∀ call phase, s.holder = some (call, phase) → s.returned call = none
  fresh : ∀ call, s.returned call = none → s.doorbells call = .quiet ∨
    ∃ request, s.holder = some (call, .waiting request) ∨ s.holder = some (call, .woken request)

/-- What the call at the mailbox can do. -/
inductive CallMove (box : Mailbox M Q R) (s : Exchange M Q R K) (call : K) :
    Phase Q → Exchange M Q R K → Prop
  | reinit (request : Q) : CallMove box s call (.started request)
      { s with completion := s.completion.reinit, holder := some (call, .reinited request) }
  | send (request : Q) : CallMove box s call (.reinited request)
      { s with memory := box.send request s.memory, holder := some (call, .sent request) }
  | ring (request : Q) : CallMove box s call (.sent request)
      ((s.setDoorbell call .rung).setHolder call (.waiting request))
  | wake (request : Q) {completion : Completion} (hdone : s.completion.done ≠ 0) :
      CallMove box s call (.waiting request)
        { s with completion := completion, holder := some (call, .woken request) }
  | giveUp (request : Q) : CallMove box s call (.waiting request) (s.leave call .gaveUp)
  | read (request : Q) :
      CallMove box s call (.woken request) (s.leave call (.got (box.read s.memory)))

theorem callMove_of_callStep {phase : Phase Q} {event : Event Q R K}
    (h : s.callStep box call phase event = some s') : CallMove box s call phase s' := by
  revert h
  fun_cases Exchange.callStep box s call phase event with
  | case1 request =>
    rintro ⟨⟩
    exact .reinit request
  | case2 request =>
    rintro ⟨⟩
    exact .send request
  | case3 request =>
    rintro ⟨⟩
    exact .ring request
  | case4 request =>
    intro h
    obtain ⟨completion, hwait, rfl⟩ := Option.map_eq_some_iff.mp h
    exact .wake request (Completion.done_ne_zero_of_tryWait hwait)
  | case5 request =>
    rintro ⟨⟩
    exact .giveUp request
  | case7 request =>
    rintro ⟨⟩
    exact .read request
  | case6 | case8 =>
    rintro ⟨⟩

/-- What a step can do. -/
inductive Move (box : Mailbox M Q R) (s : Exchange M Q R K) : Exchange M Q R K → Prop
  | start (call : K) (request : Q) (hholder : s.holder = none)
      (hreturned : s.returned call = none) : Move box s (s.setHolder call (.started request))
  | take (call : K) (hrung : s.doorbells call = .rung) :
      Move box s (s.setDoorbell call (.taken (box.seen s.memory)))
  | post (call : K) (response : R) {request : Q} (htaken : s.doorbells call = .taken request) :
      Move box s { s with
        memory := box.post response s.memory
        doorbells := Function.update s.doorbells call (.posted request response) }
  | raise (call : K) {request : Q} {response : R}
      (hposted : s.doorbells call = .posted request response) :
      Move box s { s with
        status := call :: s.status
        doorbells := Function.update s.doorbells call (.raised request response) }
  | readStatus (hhandler : s.handler = none) (hstatus : s.status ≠ []) :
      Move box s { s with status := [], handler := some s.status }
  | handle (hhandler : s.handler ≠ none) :
      Move box s { s with completion := box.signal s.completion, handler := none }
  | clear : Move box s { s with status := [] }
  | call {call : K} {phase : Phase Q} {s' : Exchange M Q R K}
      (hholder : s.holder = some (call, phase)) (hmove : CallMove box s call phase s') :
      Move box s s'

theorem move_of_steps (h : Steps box s s') : Move box s s' := by
  obtain ⟨event, h⟩ := h
  have hcall : (match s.holder with
      | some (call, phase) => s.callStep box call phase event
      | none => none) = some s' → Move box s s' := by
    intro h
    split at h
    · next call phase hholder => exact .call hholder (callMove_of_callStep h)
    · cases h
  cases event with
  | start call request =>
    rw [Exchange.step] at h
    split at h
    · next hholder hreturned =>
      cases h
      exact .start call request hholder hreturned
    · cases h
  | take call =>
    rw [Exchange.step] at h
    split at h
    · next hrung =>
      cases h
      exact .take call hrung
    · cases h
  | post call response =>
    rw [Exchange.step] at h
    split at h
    · next request htaken =>
      cases h
      exact .post call response htaken
    · cases h
  | raise call =>
    rw [Exchange.step] at h
    split at h
    · next request response hposted =>
      cases h
      exact .raise call hposted
    · cases h
  | readStatus =>
    rw [Exchange.step] at h
    split at h
    · next call calls hhandler hstatus =>
      cases h
      rw [← hstatus]
      exact .readStatus hhandler (by rw [hstatus]; exact List.cons_ne_nil _ _)
    · cases h
  | handle =>
    rw [Exchange.step] at h
    split at h
    · next calls hhandler =>
      cases h
      exact .handle (by rw [hhandler]; exact Option.some_ne_none _)
    · cases h
  | clear =>
    cases h
    exact .clear
  | reinit | send | ring | wake | giveUp | read => exact hcall h

omit [DecidableEq K] in
theorem sound_initial (memory : M) : Sound (initial memory : Exchange M Q R K) where
  held := fun _ _ hholder => by cases hholder
  fresh := fun _ _ => Or.inl rfl

/-- A doorbell that rang changes. -/
theorem Sound.answer (h : Sound s) {doorbell : Doorbell Q R} (hrung : s.doorbells call ≠ .quiet)
    (hdoorbells : s'.doorbells = Function.update s.doorbells call doorbell)
    (hholder : s'.holder = s.holder) (hreturned : s'.returned = s.returned) : Sound s' where
  held := by
    rw [hholder, hreturned]
    exact h.held
  fresh := by
    rw [hholder, hreturned, hdoorbells]
    intro c hc
    by_cases heq : c = call
    · subst heq
      exact Or.inr ((h.fresh c hc).resolve_left hrung)
    · rw [Function.update_of_ne heq]
      exact h.fresh c hc

omit [DecidableEq K] in
/-- The call at the mailbox goes on, before it rings or after. -/
theorem Sound.advance (h : Sound s) {phase phase' : Phase Q}
    (hholder : s.holder = some (call, phase)) (hholder' : s'.holder = some (call, phase'))
    (hphase : ∀ request, phase = .waiting request ∨ phase = .woken request →
      ∃ request, phase' = .waiting request ∨ phase' = .woken request)
    (hdoorbells : s'.doorbells = s.doorbells) (hreturned : s'.returned = s.returned) :
    Sound s' where
  held := by
    intro c other hc
    cases hholder'.symm.trans hc
    rw [hreturned]
    exact h.held call phase hholder
  fresh := by
    rw [hreturned, hdoorbells]
    intro c hc
    refine (h.fresh c hc).imp id fun ⟨request, hwaits⟩ => ?_
    have hcall : c = call ∧ (phase = .waiting request ∨ phase = .woken request) := by
      rcases hwaits with hwaits | hwaits
      · cases hholder.symm.trans hwaits
        exact ⟨rfl, Or.inl rfl⟩
      · cases hholder.symm.trans hwaits
        exact ⟨rfl, Or.inr rfl⟩
    obtain ⟨rfl, hboth⟩ := hcall
    obtain ⟨request', hphase'⟩ := hphase request hboth
    refine ⟨request', ?_⟩
    rw [hholder']
    exact hphase'.imp (congrArg fun p => some (c, p)) (congrArg fun p => some (c, p))

theorem Sound.leave (h : Sound s) {phase : Phase Q} (hholder : s.holder = some (call, phase))
    (outcome : Outcome R) : Sound (s.leave call outcome) where
  held := fun _ _ hnone => by cases hnone
  fresh := by
    intro c hc
    by_cases heq : c = call
    · subst heq
      rw [Exchange.leave_returned_self] at hc
      cases hc
    · rw [Exchange.leave_returned_of_ne heq] at hc
      refine Or.inl ((h.fresh c hc).resolve_right ?_)
      rintro ⟨request, hwaits | hwaits⟩
      · cases hholder.symm.trans hwaits
        exact heq rfl
      · cases hholder.symm.trans hwaits
        exact heq rfl

theorem Sound.callMove {phase : Phase Q} (h : Sound s) (hholder : s.holder = some (call, phase))
    (hmove : CallMove box s call phase s') : Sound s' := by
  cases hmove with
  | reinit request =>
    refine h.advance hholder rfl ?_ rfl rfl
    rintro _ (hwaits | hwaits) <;> cases hwaits
  | send request =>
    refine h.advance hholder rfl ?_ rfl rfl
    rintro _ (hwaits | hwaits) <;> cases hwaits
  | wake request hdone =>
    exact h.advance hholder rfl (fun _ _ => ⟨request, Or.inr rfl⟩) rfl rfl
  | giveUp request => exact h.leave hholder _
  | read request => exact h.leave hholder _
  | ring request =>
    refine ⟨fun c phase hc => ?_, fun c hc => ?_⟩
    · cases hc
      exact h.held call _ hholder
    · by_cases heq : c = call
      · subst heq
        exact Or.inr ⟨request, Or.inl rfl⟩
      · refine Or.inl ((Function.update_of_ne heq _ _).trans
          ((h.fresh c hc).resolve_right ?_))
        rintro ⟨other, hwaits | hwaits⟩
        · cases hholder.symm.trans hwaits
        · cases hholder.symm.trans hwaits

theorem Sound.step (h : Sound s) (hstep : Steps box s s') : Sound s' := by
  cases move_of_steps hstep with
  | start c request hholder hreturned =>
    refine ⟨fun c' phase hc => ?_, fun c' hc => ?_⟩
    · cases hc
      exact hreturned
    · refine Or.inl ((h.fresh c' hc).resolve_right ?_)
      rintro ⟨other, hwaits | hwaits⟩
      · cases hholder.symm.trans hwaits
      · cases hholder.symm.trans hwaits
  | take c hrung => exact h.answer (by rw [hrung]; nofun) rfl rfl rfl
  | post c response htaken =>
    exact h.answer (by rw [htaken]; nofun) rfl rfl rfl
  | raise c hposted => exact h.answer (by rw [hposted]; nofun) rfl rfl rfl
  | readStatus hhandler hstatus => exact ⟨h.held, h.fresh⟩
  | handle hhandler => exact ⟨h.held, h.fresh⟩
  | clear => exact ⟨h.held, h.fresh⟩
  | call hholder hmove => exact h.callMove hholder hmove

theorem sound_of_run {memory : M}
    (h : Relation.ReflTransGen (Steps box) (initial memory) s) : Sound s :=
  inv_of_run (fun _ _ hsound hstep => hsound.step hstep) h (sound_initial memory)

omit [DecidableEq K] in
/-- A call that starts has not rung. -/
theorem Sound.quiet (h : Sound s) (hholder : s.holder = some (call, .started request)) :
    s.doorbells call = .quiet := by
  refine (h.fresh call (h.held call _ hholder)).resolve_right ?_
  rintro ⟨other, hwaits | hwaits⟩
  · cases hholder.symm.trans hwaits
  · cases hholder.symm.trans hwaits

/-- No answer is under way to the waiting call. -/
structure Silent (s : Exchange M Q R K) : Prop where
  done : s.completion.done = 0
  status : s.status = []
  handler : s.handler = none

/-- How far the device is with the request that rang. -/
def Asked (box : Mailbox M Q R) (s : Exchange M Q R K) (request : Q) : Doorbell Q R → Prop
  | .quiet => False
  | .rung => box.seen s.memory = request ∧ Silent s
  | .taken taken => taken = request ∧ Silent s
  | .posted taken response => taken = request ∧ box.read s.memory = response ∧ Silent s
  | .raised taken response => taken = request ∧ box.read s.memory = response

/-- How far a call is whose request the device answers by itself. -/
def Served (box : Mailbox M Q R) (s : Exchange M Q R K) (call : K) (request : Q) :
    Phase Q → Prop
  | .started asked => asked = request ∧ s.doorbells call = .quiet ∧ s.status = [] ∧ s.handler = none
  | .reinited asked => asked = request ∧ s.doorbells call = .quiet ∧ Silent s
  | .sent asked =>
    asked = request ∧ s.doorbells call = .quiet ∧ Silent s ∧ box.seen s.memory = request
  | .waiting asked => asked = request ∧ Asked box s request (s.doorbells call)
  | .woken asked => asked = request ∧
    ∃ response, s.doorbells call = .raised request response ∧ box.read s.memory = response

/-- The call is served, and the device is done with all others, until it has returned. -/
inductive Serving (box : Mailbox M Q R) (s : Exchange M Q R K) (call : K) (request : Q) : Prop
  | holds (phase : Phase Q) (hholder : s.holder = some (call, phase))
      (hothers : ∀ other, other ≠ call → s.doorbells other = .quiet ∨
        ∃ request response, s.doorbells other = .raised request response)
      (hserved : Served box s call request phase)
  | returned (outcome : Outcome R) (hreturned : s.returned call = some outcome)
      (hown : ∀ response, outcome = .got response → Own s call request response)

omit [DecidableEq K] in
/-- A signal that the waiting call gets comes from its own answer. -/
theorem Asked.raised (h : Asked box s request (s.doorbells call))
    (hdone : s.completion.done ≠ 0) :
    ∃ response, s.doorbells call = .raised request response ∧ box.read s.memory = response := by
  cases hdoorbell : s.doorbells call with
  | quiet =>
    rw [hdoorbell] at h
    exact h.elim
  | rung =>
    rw [hdoorbell] at h
    exact absurd h.2.done hdone
  | taken taken =>
    rw [hdoorbell] at h
    exact absurd h.2.done hdone
  | posted taken response =>
    rw [hdoorbell] at h
    exact absurd h.2.2.done hdone
  | raised taken response =>
    rw [hdoorbell] at h
    exact ⟨response, by rw [h.1], h.2⟩

theorem Serving.callMove {phase : Phase Q} (hholder : s.holder = some (call, phase))
    (hothers : ∀ other, other ≠ call → s.doorbells other = .quiet ∨
      ∃ request response, s.doorbells other = .raised request response)
    (hserved : Served box s call request phase) (hmove : CallMove box s call phase s') :
    Serving box s' call request := by
  cases hmove with
  | reinit asked =>
    obtain ⟨rfl, hquiet, hstatus, hhandler⟩ := hserved
    exact .holds _ rfl hothers ⟨rfl, hquiet, rfl, hstatus, hhandler⟩
  | send asked =>
    obtain ⟨rfl, hquiet, hsilent⟩ := hserved
    exact .holds _ rfl hothers
      ⟨rfl, hquiet, ⟨hsilent.done, hsilent.status, hsilent.handler⟩, box.seen_send _ _⟩
  | ring asked =>
    obtain ⟨rfl, hquiet, hsilent, hseen⟩ := hserved
    refine .holds _ rfl (fun other hne => ?_) ⟨rfl, ?_⟩
    · rw [Exchange.setHolder, Exchange.setDoorbell_of_ne hne]
      exact hothers other hne
    · rw [Exchange.setHolder, Exchange.setDoorbell_self]
      exact ⟨hseen, hsilent.done, hsilent.status, hsilent.handler⟩
  | wake asked hdone =>
    obtain ⟨rfl, hasked⟩ := hserved
    obtain ⟨response, hraised, hread⟩ := hasked.raised hdone
    exact .holds _ rfl hothers ⟨rfl, response, hraised, hread⟩
  | giveUp asked => exact .returned .gaveUp (s.leave_returned_self _ _) fun _ h => by cases h
  | read asked =>
    obtain ⟨rfl, response, hraised, hread⟩ := hserved
    refine .returned _ (s.leave_returned_self _ _) fun other hother => ?_
    cases hother
    exact hraised.trans (by rw [hread])

omit [DecidableEq K] in
/-- The device is at work only for the call, and only while it waits. -/
theorem Served.waits {phase : Phase Q} {c : K}
    (hothers : ∀ other, other ≠ call → s.doorbells other = .quiet ∨
      ∃ request response, s.doorbells other = .raised request response)
    (h : Served box s call request phase) (hbusy : (s.doorbells c).Busy) :
    c = call ∧ phase = .waiting request ∧ Asked box s request (s.doorbells c) := by
  have hcall : c = call := by
    by_contra hne
    rcases hothers c hne with hquiet | ⟨asked, response, hraised⟩
    · rw [hquiet] at hbusy
      exact hbusy
    · rw [hraised] at hbusy
      exact hbusy
  subst hcall
  cases phase with
  | started asked => exact (by rw [h.2.1] at hbusy; exact hbusy.elim)
  | reinited asked => exact (by rw [h.2.1] at hbusy; exact hbusy.elim)
  | sent asked => exact (by rw [h.2.1] at hbusy; exact hbusy.elim)
  | waiting asked => exact ⟨rfl, by rw [h.1], h.2⟩
  | woken asked =>
    obtain ⟨-, response, hraised, -⟩ := h
    rw [hraised] at hbusy
    exact hbusy.elim

omit [DecidableEq K] in
/-- An interrupt that is on its way was raised for the call. -/
theorem Served.answered {phase : Phase Q} (h : Served box s call request phase)
    (hnoise : s.status ≠ [] ∨ s.handler ≠ none) :
    (phase = .waiting request ∨ phase = .woken request) ∧
      ∃ response, s.doorbells call = .raised request response ∧ box.read s.memory = response := by
  have hnot : ¬ (s.status = [] ∧ s.handler = none) := fun h => hnoise.elim (· h.1) (· h.2)
  cases phase with
  | started asked => exact absurd h.2.2 hnot
  | reinited asked => exact absurd ⟨h.2.2.status, h.2.2.handler⟩ hnot
  | sent asked => exact absurd ⟨h.2.2.1.status, h.2.2.1.handler⟩ hnot
  | woken asked => exact ⟨Or.inr (by rw [h.1]), h.2⟩
  | waiting asked =>
    obtain ⟨rfl, hasked⟩ := h
    refine ⟨Or.inl rfl, ?_⟩
    cases hdoorbell : s.doorbells call with
    | quiet =>
      rw [hdoorbell] at hasked
      exact hasked.elim
    | rung =>
      rw [hdoorbell] at hasked
      exact absurd ⟨hasked.2.status, hasked.2.handler⟩ hnot
    | taken taken =>
      rw [hdoorbell] at hasked
      exact absurd ⟨hasked.2.status, hasked.2.handler⟩ hnot
    | posted taken response =>
      rw [hdoorbell] at hasked
      exact absurd ⟨hasked.2.2.status, hasked.2.2.handler⟩ hnot
    | raised taken response =>
      rw [hdoorbell] at hasked
      exact ⟨response, by rw [hasked.1], hasked.2⟩

omit [DecidableEq K] in
/-- An interrupt that is lost does no harm. -/
theorem Served.clear {phase : Phase Q} (h : Served box s call request phase) :
    Served box { s with status := [] } call request phase := by
  have hsilent : Silent s → Silent { s with status := [] } := fun h => ⟨h.done, rfl, h.handler⟩
  cases phase with
  | started asked => exact ⟨h.1, h.2.1, rfl, h.2.2.2⟩
  | reinited asked => exact ⟨h.1, h.2.1, hsilent h.2.2⟩
  | sent asked => exact ⟨h.1, h.2.1, hsilent h.2.2.1, h.2.2.2⟩
  | woken asked => exact h
  | waiting asked =>
    obtain ⟨hasked, hdevice⟩ := h
    refine ⟨hasked, ?_⟩
    cases hdoorbell : s.doorbells call with
    | quiet =>
      rw [hdoorbell] at hdevice
      exact hdevice.elim
    | rung =>
      rw [hdoorbell] at hdevice
      exact ⟨hdevice.1, hsilent hdevice.2⟩
    | taken taken =>
      rw [hdoorbell] at hdevice
      exact ⟨hdevice.1, hsilent hdevice.2⟩
    | posted taken response =>
      rw [hdoorbell] at hdevice
      exact ⟨hdevice.1, hdevice.2.1, hsilent hdevice.2.2⟩
    | raised taken response =>
      rw [hdoorbell] at hdevice
      exact hdevice

omit [DecidableEq K] in
theorem Serving.of_raised {phase : Phase Q} {response : R} (hholder : s.holder = some (call, phase))
    (hothers : ∀ other, other ≠ call → s.doorbells other = .quiet ∨
      ∃ request response, s.doorbells other = .raised request response)
    (hphase : phase = .waiting request ∨ phase = .woken request)
    (hraised : s.doorbells call = .raised request response)
    (hread : box.read s.memory = response) : Serving box s call request := by
  rcases hphase with rfl | rfl
  · refine .holds _ hholder hothers ⟨rfl, ?_⟩
    rw [hraised]
    exact ⟨rfl, hread⟩
  · exact .holds _ hholder hothers ⟨rfl, response, hraised, hread⟩

/-- The device goes on with the request of the waiting call. -/
theorem Serving.answer {doorbell : Doorbell Q R}
    (hothers : ∀ other, other ≠ call → s.doorbells other = .quiet ∨
      ∃ request response, s.doorbells other = .raised request response)
    (hholder : s'.holder = some (call, .waiting request))
    (hdoorbells : s'.doorbells = Function.update s.doorbells call doorbell)
    (hasked : Asked box s' request doorbell) : Serving box s' call request := by
  refine .holds _ hholder (fun other hne => ?_) ⟨rfl, ?_⟩
  · rw [hdoorbells, Function.update_of_ne hne]
    exact hothers other hne
  · rw [hdoorbells, Function.update_self]
    exact hasked

/-- An answer that was raised stays. -/
theorem raised_kept {response : R} (hraised : s.doorbells call = .raised request response)
    {c : K} {doorbell : Doorbell Q R} (hbusy : (s.doorbells c).Busy) :
    Function.update s.doorbells c doorbell call = .raised request response := by
  have hne : call ≠ c := fun heq => by
    rw [← heq, hraised] at hbusy
    exact hbusy
  rw [Function.update_of_ne hne, hraised]

theorem Serving.step (h : Serving box s call request) (hsound : Sound s)
    (hstep : Steps box s s') : Serving box s' call request := by
  cases h with
  | holds phase hholder hothers hserved =>
    cases move_of_steps hstep with
    | start c asked hnone => cases hnone.symm.trans hholder
    | call hc hmove =>
      cases hholder.symm.trans hc
      exact Serving.callMove hholder hothers hserved hmove
    | take c hrung =>
      obtain ⟨rfl, rfl, hasked⟩ := hserved.waits hothers (c := c) (by rw [hrung]; trivial)
      rw [hrung] at hasked
      exact .answer hothers hholder rfl
        ⟨hasked.1, hasked.2.done, hasked.2.status, hasked.2.handler⟩
    | post c response htaken =>
      obtain ⟨rfl, rfl, hasked⟩ := hserved.waits hothers (c := c) (by rw [htaken]; trivial)
      rw [htaken] at hasked
      exact .answer hothers hholder rfl
        ⟨hasked.1, box.read_post _ _, hasked.2.done, hasked.2.status, hasked.2.handler⟩
    | raise c hposted =>
      obtain ⟨rfl, rfl, hasked⟩ := hserved.waits hothers (c := c) (by rw [hposted]; trivial)
      rw [hposted] at hasked
      exact .answer hothers hholder rfl ⟨hasked.1, hasked.2.1⟩
    | readStatus hhandler hstatus =>
      obtain ⟨hphase, response, hraised, hread⟩ := hserved.answered (Or.inl hstatus)
      exact .of_raised hholder hothers hphase hraised hread
    | handle hhandler =>
      obtain ⟨hphase, response, hraised, hread⟩ := hserved.answered (Or.inr hhandler)
      exact .of_raised hholder hothers hphase hraised hread
    | clear => exact .holds phase hholder hothers hserved.clear
  | returned outcome hreturned hown =>
    cases move_of_steps hstep with
    | start c asked hnone hc => exact .returned outcome hreturned hown
    | take c hrung =>
      exact .returned outcome hreturned fun response heq =>
        raised_kept (hown response heq) (by rw [hrung]; trivial)
    | post c response htaken =>
      exact .returned outcome hreturned fun response heq =>
        raised_kept (hown response heq) (by rw [htaken]; trivial)
    | raise c hposted =>
      exact .returned outcome hreturned fun response heq =>
        raised_kept (hown response heq) (by rw [hposted]; trivial)
    | readStatus hhandler hstatus => exact .returned outcome hreturned hown
    | handle hhandler => exact .returned outcome hreturned hown
    | clear => exact .returned outcome hreturned hown
    | @call c phase s' hc hmove =>
      have hne : call ≠ c := fun heq => by
        subst heq
        cases (hsound.held _ _ hc).symm.trans hreturned
      cases hmove with
      | reinit asked => exact .returned outcome hreturned hown
      | send asked => exact .returned outcome hreturned hown
      | wake asked hdone => exact .returned outcome hreturned hown
      | ring asked =>
        refine .returned outcome hreturned fun response heq => ?_
        exact (Exchange.setDoorbell_of_ne hne _).trans (hown response heq)
      | giveUp asked =>
        exact .returned outcome ((Exchange.leave_returned_of_ne hne _).trans hreturned) hown
      | read asked =>
        exact .returned outcome ((Exchange.leave_returned_of_ne hne _).trans hreturned) hown

/-- What the call returns is its own answer, if the device is done with all others when it
starts. -/
theorem own_of_settled (hsound : Sound s) (hholder : s.holder = some (call, .started request))
    (hsettled : Settled s) (hrun : Relation.ReflTransGen (Steps box) s s') {response : R}
    (hreturned : s'.returned call = some (.got response)) : Own s' call request response := by
  have hstart : Sound s ∧ Serving box s call request :=
    ⟨hsound, .holds _ hholder (fun other _ => hsettled.doorbells other)
      ⟨rfl, hsound.quiet hholder, hsettled.status, hsettled.handler⟩⟩
  have hkeep : ∀ s₁ s₂ : Exchange M Q R K, Sound s₁ ∧ Serving box s₁ call request →
      Steps box s₁ s₂ → Sound s₂ ∧ Serving box s₂ call request :=
    fun s₁ s₂ h hstep => ⟨h.1.step hstep, h.2.step h.1 hstep⟩
  have hend := inv_of_run hkeep hrun hstart
  cases hend.2 with
  | holds phase hholder' hothers hserved =>
    cases (hend.1.held call phase hholder').symm.trans hreturned
  | returned outcome hreturned' hown =>
    cases hreturned'.symm.trans hreturned
    exact hown response rfl

end Answers

section Late
variable (box : Mailbox M Q R) {s : Exchange M Q R K} {call other : K} {request : Q}

/-- The device goes on with an earlier request, to where an interrupt is pending for it, and the
call is where it was. -/
structure Pending (box : Mailbox M Q R) (s s' : Exchange M Q R K) (call : K) : Prop where
  run : Relation.ReflTransGen (Steps box) s s'
  holder : s'.holder = s.holder
  doorbell : s'.doorbells call = s.doorbells call
  noise : s'.status ≠ [] ∨ s'.handler ≠ none

theorem pending_of_posted (hne : call ≠ other) {asked : Q} {response : R}
    (hposted : s.doorbells other = .posted asked response) : ∃ s', Pending box s s' call := by
  have hstep : Steps box s { s with
      status := other :: s.status
      doorbells := Function.update s.doorbells other (.raised asked response) } :=
    ⟨.raise other, by rw [Exchange.step, hposted]⟩
  exact ⟨_, .single hstep, rfl, Function.update_of_ne hne _ _, Or.inl (List.cons_ne_nil _ _)⟩

theorem pending_of_taken (hne : call ≠ other) {asked : Q}
    (htaken : s.doorbells other = .taken asked) : ∃ s', Pending box s s' call := by
  have hstep : Steps box s { s with
      memory := box.post (box.read s.memory) s.memory
      doorbells := Function.update s.doorbells other (.posted asked (box.read s.memory)) } :=
    ⟨.post other (box.read s.memory), by rw [Exchange.step, htaken]⟩
  obtain ⟨s', h⟩ := pending_of_posted box (s := { s with
      memory := box.post (box.read s.memory) s.memory
      doorbells := Function.update s.doorbells other (.posted asked (box.read s.memory)) })
    hne (Function.update_self other _ _)
  exact ⟨s', .head hstep h.run, h.holder, h.doorbell.trans (Function.update_of_ne hne _ _), h.noise⟩

theorem pending_of_rung (hne : call ≠ other) (hrung : s.doorbells other = .rung) :
    ∃ s', Pending box s s' call := by
  have hstep : Steps box s (s.setDoorbell other (.taken (box.seen s.memory))) :=
    ⟨.take other, by rw [Exchange.step, hrung]⟩
  obtain ⟨s', h⟩ := pending_of_taken box hne (s.setDoorbell_self other _)
  exact ⟨s', .head hstep h.run, h.holder, h.doorbell.trans (Exchange.setDoorbell_of_ne hne _),
    h.noise⟩

theorem pending_of_unsettled (hquiet : s.doorbells call = .quiet) (h : ¬ Settled s) :
    ∃ s', Pending box s s' call := by
  by_cases hnoise : s.status ≠ [] ∨ s.handler ≠ none
  · exact ⟨s, .refl, rfl, rfl, hnoise⟩
  · obtain ⟨hstatus, hhandler⟩ := not_or.mp hnoise
    have hbusy : ∃ other, ¬ (s.doorbells other = .quiet ∨
        ∃ request response, s.doorbells other = .raised request response) := by
      by_contra hall
      exact h ⟨fun other => not_not.mp (not_exists.mp hall other), not_not.mp hstatus,
        not_not.mp hhandler⟩
    obtain ⟨other, hother⟩ := hbusy
    have hne : call ≠ other := fun heq => hother (Or.inl (heq ▸ hquiet))
    cases hdoorbell : s.doorbells other with
    | quiet => exact absurd (Or.inl hdoorbell) hother
    | rung => exact pending_of_rung box hne hdoorbell
    | taken asked => exact pending_of_taken box hne hdoorbell
    | posted asked response => exact pending_of_posted box hne hdoorbell
    | raised asked response => exact absurd (Or.inr ⟨_, _, hdoorbell⟩) hother

/-- The handler signals the completion for an interrupt that is pending. -/
theorem signalled_of_noise (h : s.status ≠ [] ∨ s.handler ≠ none) :
    ∃ s', Relation.ReflTransGen (Steps box) s s' ∧ s'.completion.done ≠ 0 ∧
      s'.memory = s.memory ∧ s'.holder = s.holder ∧ s'.doorbells = s.doorbells := by
  have hhandle : ∀ s : Exchange M Q R K, s.handler ≠ none → Steps box s
      { s with completion := box.signal s.completion, handler := none } := by
    intro s hhandler
    obtain ⟨calls, hcalls⟩ := Option.ne_none_iff_exists'.mp hhandler
    exact ⟨.handle, by rw [Exchange.step, hcalls]⟩
  by_cases hhandler : s.handler = none
  · obtain ⟨c, calls, hstatus⟩ := List.exists_cons_of_ne_nil (h.resolve_right (· hhandler))
    have hread : Steps box s { s with status := [], handler := some (c :: calls) } :=
      ⟨.readStatus, by rw [Exchange.step, hhandler, hstatus]⟩
    exact ⟨_, .tail (.single hread) (hhandle _ (Option.some_ne_none _)), box.signal_done _, rfl,
      rfl, rfl⟩
  · exact ⟨_, .single (hhandle s hhandler), box.signal_done _, rfl, rfl, rfl⟩

/-- A call that starts while an interrupt is pending may be woken by it, and reads back what it
has itself sent, while its doorbell still rings. -/
theorem misread_of_noise (hholder : s.holder = some (call, .started request))
    (h : s.status ≠ [] ∨ s.handler ≠ none) :
    ∃ s', Relation.ReflTransGen (Steps box) s s' ∧
      s'.returned call = some (.got (box.read (box.send request s.memory))) ∧
      s'.doorbells call = .rung := by
  have hreinit : Steps box s
      { s with completion := s.completion.reinit, holder := some (call, .reinited request) } :=
    ⟨.reinit, by simp only [Exchange.step, hholder, Exchange.callStep]⟩
  have hsend : Steps box
      { s with completion := s.completion.reinit, holder := some (call, .reinited request) }
      { s with
        memory := box.send request s.memory
        completion := s.completion.reinit
        holder := some (call, .sent request) } := ⟨.send, rfl⟩
  have hring : Steps box
      { s with
        memory := box.send request s.memory
        completion := s.completion.reinit
        holder := some (call, .sent request) }
      { s with
        memory := box.send request s.memory
        completion := s.completion.reinit
        holder := some (call, .waiting request)
        doorbells := Function.update s.doorbells call .rung } := ⟨.ring, rfl⟩
  obtain ⟨s₁, hrun, hdone, hmemory, hholder₁, hdoorbells⟩ := signalled_of_noise box
    (s := { s with
      memory := box.send request s.memory
      completion := s.completion.reinit
      holder := some (call, .waiting request)
      doorbells := Function.update s.doorbells call .rung }) h
  obtain ⟨completion, hwait⟩ := Option.isSome_iff_exists.mp
    (s₁.completion.tryWait_isSome.mpr hdone)
  have hwake : Steps box s₁
      { s₁ with completion := completion, holder := some (call, .woken request) } :=
    ⟨.wake, by simp only [Exchange.step, hholder₁, Exchange.callStep, hwait, Option.map_some]⟩
  refine ⟨_, (hrun.head hring |>.head hsend |>.head hreinit).tail hwake |>.tail ⟨.read, rfl⟩,
    ?_, ?_⟩
  · rw [Exchange.leave_returned_self]
    exact congrArg (fun m => some (Outcome.got (box.read m))) hmemory
  · exact (congrFun hdoorbells call).trans (Function.update_self call _ _)

theorem misread_of_unsettled (hsound : Sound s) (hholder : s.holder = some (call, .started request))
    (h : ¬ Settled s) : ∃ memory s', Relation.ReflTransGen (Steps box) s s' ∧
      s'.returned call = some (.got (box.read (box.send request memory))) ∧
      s'.doorbells call = .rung := by
  obtain ⟨s₁, hpending⟩ := pending_of_unsettled box (hsound.quiet hholder) h
  obtain ⟨s', hrun, hreturned, hrung⟩ :=
    misread_of_noise box (hpending.holder.trans hholder) hpending.noise
  exact ⟨s₁.memory, s', hpending.run.trans hrun, hreturned, hrung⟩

/-- A call is sure of its own answer exactly if the device is done with all others when it
starts. -/
theorem own_iff_settled (hsound : Sound s) (hholder : s.holder = some (call, .started request)) :
    (∀ s' response, Relation.ReflTransGen (Steps box) s s' →
      s'.returned call = some (.got response) → Own s' call request response) ↔ Settled s := by
  constructor
  · intro h
    by_contra hnot
    obtain ⟨memory, s', hrun, hreturned, hrung⟩ := misread_of_unsettled box hsound hholder hnot
    have hown : s'.doorbells call = _ := h s' _ hrun hreturned
    rw [hrung] at hown
    cases hown
  · intro hsettled s' response hrun hreturned
    exact own_of_settled hsound hholder hsettled hrun hreturned

end Late

end HailortDrivers.Doorbells
