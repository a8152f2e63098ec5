import MarketConnection.Foundations.Refinement
import MarketConnection.Rest.RunAll

/-!
# Rest/Service — what the five stages amount to

A caller sees little of what a process does: a request is submitted, some time later it is answered
with a body, and a `run_one` may find nothing to do.  `Service` is the machine of just that: a list
of tickets, of which a waiting one is answered in one step, whatever its body is decoded to.

**The process refines the service exactly** (`process_exact`): the stages before a read are silent,
the end of a read is the answer, and any waiting ticket can be answered next with any body.  So what
a trace leaves behind is what the service makes of it (`run_iff_replay`).
-/

namespace Twelvedata

open EventLoop Refinement

variable {τ : Type}

/-! ## The service

A call of the API becomes a ticket.  Stages, operations, error codes and objects are no part of it:
all that is left of the network is the body of an answer. -/

/-- What a caller sees. -/
inductive Visible (τ : Type)
  /-- A request that is not null is submitted, outside a token. -/
  | submitted (call : StocksCall τ)
  /-- The request in place `place` is answered. -/
  | answered (place : ℕ) (body : StdString)
  /-- A `run_one` finds no work. -/
  | idled

/-- A call, and the body it was answered with. -/
structure Ticket (τ : Type) where
  call : StocksCall τ
  body : Option StdString := none

/-- The tickets, what was written to `std::cout`, and whether anything is still answered. -/
@[ext] structure Service (τ : Type) where
  tickets : List (Ticket τ) := []
  stdout : StdString := []
  stopped : Bool := false

/-- What the token of a call does about a body: nothing, if the body cannot be decoded. -/
def reaction (platform : Platform) (callToken : τ → GetStocksListResponse → TokenCall τ)
    (call : StocksCall τ) (body : StdString) : TokenCall τ :=
  match decodeBody platform call.order.row body with
  | .ok response => callToken call.completionToken response
  | .error _ => {}

/-- The calls that a token makes about a body. -/
def reactionCalls (platform : Platform) (callToken : τ → GetStocksListResponse → TokenCall τ)
    (call : StocksCall τ) (body : StdString) : List (StocksCall τ) :=
  (reaction platform callToken call body).submissions.map Submission.origin

namespace Service

/-- Every ticket is answered. -/
def done (tickets : List (Ticket τ)) : Bool := tickets.all fun t => t.body.isSome

/-- A call gets the next ticket, also when the service has stopped. -/
def submit (call : StocksCall τ) (s : Service τ) : Service τ :=
  { s with tickets := s.tickets ++ [{ call := call }] }

variable (platform : Platform) (callToken : τ → GetStocksListResponse → TokenCall τ)

/-- **The ticket of `call`, in place `place`, is answered**: its token is called, and what it
submits gets tickets.  The service stops with the last one. -/
def answer (place : ℕ) (body : StdString) (call : StocksCall τ) (s : Service τ) : Service τ :=
  let tickets := s.tickets.set place ⟨call, some body⟩
    ++ (reactionCalls platform callToken call body).map fun call => { call := call }
  { tickets := tickets
    stdout := s.stdout ++ (reaction platform callToken call body).stdout
    stopped := done tickets }

/-- The step of the service: once stopped it answers nothing. -/
def next (s : Service τ) : Visible τ → Option (Service τ)
  | .submitted call => some (s.submit call)
  | .answered place body =>
    if s.stopped then none
    else match s.tickets[place]? with
      | some ⟨call, none⟩ => some (s.answer platform callToken place body call)
      | _ => none
  | .idled =>
    if s.stopped then none
    else if done s.tickets then some { s with stopped := true }
    else none

/-- What the service makes of a trace. -/
def replay (trace : List (Visible τ)) : Option (Service τ) :=
  trace.foldlM (next platform callToken) {}

end Service

/-! ## The process, by what is seen of it

`observeUse` and `observeRun` look at a step before it is taken: they know the operation that is
going to end, not what comes of it. -/

/-- What is seen of a use of the API. -/
def observeUse : StocksAct τ → Option (Visible τ)
  | .async (some request) apikey completionToken order =>
    some (.submitted ⟨request, apikey, completionToken, order⟩)
  | _ => none

/-- What is seen of a `run_one`: the end of a read, or that there was no work. -/
def observeRun (pick : ℕ) (c : Completion) (p : StocksProcess τ) : Option (Visible τ) :=
  if p.context.stopped then none
  else if p.context.outstandingWork = 0 then some .idled
  else (p.context.pending[p.choice pick]?).bind fun h =>
    if h.stage = .read then some (.answered h.self c.body) else none

/-- **The process as a transition system**: a use of the API outside the loop, or a `run_one`, which
an exception may leave. -/
def process (platform : Platform) (callToken : τ → GetStocksListResponse → TokenCall τ) :
    System (StocksProcess τ) (Visible τ) where
  start := Process.start
  step p l p' :=
    (∃ use, l = observeUse use ∧ p' = useStocks platform use p) ∨
    ∃ pick c res, l = observeRun pick c p ∧ runOne platform callToken pick c p = some (p', res)

/-- The ticket a request has. -/
def Request.ticket (r : StocksRequest τ) : Ticket τ where
  call := r.call
  body := if r.exchange.inFlight.isSome then none else some r.exchange.object.readResponse

/-- The service that a process amounts to. -/
def serviceOf (p : StocksProcess τ) : Service τ where
  tickets := p.state.requests.map Request.ticket
  stdout := p.state.stdout
  stopped := p.context.stopped

/-! ## One step

A request takes five steps to be answered.  Seen from the service the first four change nothing, and
the fifth does all the work: the answer, what the token writes, and tickets for what it submits. -/

variable {platform : Platform} {callToken : τ → GetStocksListResponse → TokenCall τ}

/-- A request just submitted has a ticket that waits. -/
theorem Request.Fresh.ticket_eq {r : StocksRequest τ} (h : Request.Fresh platform r) :
    r.ticket = { call := r.call } := by
  rw [Request.ticket, h.inFlight]
  rfl

/-- A ticket is answered when its request is finished. -/
theorem body_ticket_isSome {r : StocksRequest τ} :
    r.ticket.body.isSome = true ↔ r.exchange.inFlight = none := by
  rw [Request.ticket]
  rcases r.exchange.inFlight with _ | stage <;> simp

/-- Every ticket is answered when nothing is pending, and only then. -/
theorem done_serviceOf {p : StocksProcess τ} (hp : StocksSound platform callToken p) :
    Service.done (serviceOf p).tickets = true ↔ p.context.pending = [] := by
  rw [hp.pending_eq_nil_iff, Service.done, List.all_eq_true, serviceOf, List.forall_mem_map]
  exact forall₂_congr fun r _ => body_ticket_isSome

/-- A use of the API is a submission, or is not seen. -/
theorem serviceOf_use (platform : Platform) (use : StocksAct τ) (p : StocksProcess τ) :
    observeUse use = none ∧ serviceOf (useStocks platform use p) = serviceOf p ∨
      ∃ call, observeUse use = some (.submitted call) ∧
        serviceOf (useStocks platform use p) = (serviceOf p).submit call := by
  rcases use with ⟨_ | request, apikey, token, order⟩ | ⟨request, apikey, order, network⟩
  · exact .inl ⟨rfl, rfl⟩
  · refine .inr ⟨⟨request, apikey, token, order⟩, rfl, ?_⟩
    have hsubmitted := useStocks_async platform (⟨request, apikey, token, order⟩ : StocksCall τ) p
    have hticket : ((⟨request, apikey, token, order⟩ : StocksCall τ).submitted platform
        p.state.constructed).ticket = { call := ⟨request, apikey, token, order⟩ } := by
      rw [Request.ticket, StocksCall.submitted, inFlight_opened]
      rfl
    rw [hsubmitted, serviceOf, List.map_append, List.map_singleton, hticket]
    rfl
  · exact .inl ⟨rfl, rfl⟩

section Step

variable {p : StocksProcess τ} {h : Handler (StocksCompletion τ)} {c : Completion} {j k : ℕ}
  {r : StocksRequest τ} {stage : Stage} {new : List (StocksRequest τ)}

/-- A live process stops with its last ticket. -/
theorem stopped_settle_eq (hp : StocksSound platform callToken p) (hr : p.Runs j h) :
    (p.settle j (execStocks platform callToken c h p.state)).context.stopped
      = Service.done (serviceOf (p.settle j (execStocks platform callToken c h p.state))).tickets :=
    by
  have hsound := hp.settle (fun _ _ => isStocksAct_of_call) hr c
  rw [Bool.eq_iff_iff, done_serviceOf hsound]
  exact Loop.stopped_settle hp.counted hr.live hr.lt _

/-- **A stage before the read is not seen.** -/
theorem serviceOf_silent
    (hstep : HandlerStep platform (StocksCompletion.call callToken) p h c k r stage new)
    (hp : StocksSound platform callToken p) (hr : p.Runs j h) (hstage : stage ≠ .read) :
    serviceOf (p.settle j (execStocks platform callToken c h p.state)) = serviceOf p := by
  obtain ⟨next, hnext⟩ := Option.ne_none_iff_exists'.mp (mt Stage.next_eq_none_iff.mp hstage)
  have hinv := Request.invocation_of_next platform (StocksCompletion.call callToken) hnext c r
  -- no token is called, so nothing is submitted
  have hnew : new = [] := List.eq_nil_iff_forall_not_mem.mpr fun r' hr' => by
    have hact := (hstep.fresh r' hr').2
    rw [hinv] at hact
    exact absurd hact List.not_mem_nil
  have hticket : (r.turn platform (StocksCompletion.call callToken) stage c).ticket = r.ticket := by
    rw [Request.ticket, Request.ticket, Request.exchange_turn, Exchange.inFlight_advance, hnext,
      hstep.inFlight]
    rfl
  have htickets : (serviceOf (p.settle j (execStocks platform callToken c h p.state))).tickets
      = (serviceOf p).tickets := by
    obtain ⟨hlt, hget⟩ := List.getElem?_eq_some_iff.mp hstep.request
    change ((execStocks platform callToken c h p.state).state.requests.map Request.ticket)
      = p.state.requests.map Request.ticket
    rw [hstep.requests, hnew, List.append_nil, List.map_set, hticket, ← hget, ← List.map_set,
      List.set_getElem_self]
  -- the ticket of the handler's own request still waits, so the process does not stop
  have hwaits : Service.done (serviceOf p).tickets = false := by
    refine Bool.eq_false_iff.mpr fun hdone => ?_
    have hpending := (done_serviceOf hp).mp hdone
    exact absurd hr.mem (hpending ▸ List.not_mem_nil)
  ext1
  · exact htickets
  · change (execStocks platform callToken c h p.state).state.stdout = p.state.stdout
    rw [hstep.stdout_eq, hinv, List.append_nil]
  · change (p.settle j (execStocks platform callToken c h p.state)).context.stopped
      = p.context.stopped
    rw [stopped_settle_eq hp hr, htickets, hwaits, hr.live]

/-- What the token is made to do at the end of a read is its reaction. -/
theorem invocation_eq_reaction (hp : StocksSound platform callToken p)
    (hr : r ∈ p.state.requests) (c : Completion) :
    (r.invocation platform (StocksCompletion.call callToken) .read c).stdout
        = (reaction platform callToken r.call c.body).stdout ∧
      (r.invocation platform (StocksCompletion.call callToken) .read c).acts.filterMap
          Act.submission?
        = (reaction platform callToken r.call c.body).submissions := by
  obtain ⟨-, htoken⟩ := submission_of_isStocksAct (hp.requests r hr).allowed
  rw [invocation_read, htoken, reaction, StocksCall.completion]
  rcases decodeBody platform r.call.order.row c.body with x | response
  · exact ⟨rfl, rfl⟩
  · exact ⟨rfl, rfl⟩

/-- **The end of a read is an answer.** -/
theorem serviceOf_read
    (hstep : HandlerStep platform (StocksCompletion.call callToken) p h c k r .read new)
    (hp : StocksSound platform callToken p) (hr : p.Runs j h) :
    serviceOf (p.settle j (execStocks platform callToken c h p.state))
      = (serviceOf p).answer platform callToken k c.body r.call := by
  obtain ⟨hstdout, hsubmissions⟩ :=
    invocation_eq_reaction hp (List.mem_of_getElem? hstep.request) c
  have hticket : (r.turn platform (StocksCompletion.call callToken) .read c).ticket
      = ⟨r.call, some c.body⟩ := by
    rw [Request.ticket, Request.exchange_turn, Exchange.inFlight_advance]
    rfl
  -- the new requests are the token's calls, in order
  have hnew : new.map Request.ticket
      = (reactionCalls platform callToken r.call c.body).map fun call => { call := call } := by
    rw [reactionCalls, ← hsubmissions, ← hstep.map_submission_new, List.map_map, List.map_map]
    exact List.map_congr_left fun r' hr' => (hstep.fresh r' hr').1.ticket_eq
  have htickets : (serviceOf (p.settle j (execStocks platform callToken c h p.state))).tickets
      = ((serviceOf p).answer platform callToken k c.body r.call).tickets := by
    change (execStocks platform callToken c h p.state).state.requests.map Request.ticket
      = (p.state.requests.map Request.ticket).set k ⟨r.call, some c.body⟩ ++ _
    rw [hstep.requests, List.map_append, List.map_set, hticket, hnew]
  ext1
  · exact htickets
  · change (execStocks platform callToken c h p.state).state.stdout = p.state.stdout ++ _
    rw [hstep.stdout_eq, hstdout]
  · change (p.settle j (execStocks platform callToken c h p.state)).context.stopped
      = Service.done ((serviceOf p).answer platform callToken k c.body r.call).tickets
    rw [stopped_settle_eq hp hr, htickets]

/-- What is seen of the step of a handler. -/
theorem observeRun_of_runs {pick : ℕ} (hp : StocksSound platform callToken p)
    (hr : p.Runs (p.choice pick) h) :
    observeRun pick c p = if h.stage = .read then some (.answered h.self c.body) else none := by
  have hwork : p.context.outstandingWork ≠ 0 := by
    have hlt := hr.lt
    rw [hp.counted]
    omega
  rw [observeRun, hr.live, if_neg Bool.false_ne_true, if_neg hwork, hr.get, Option.bind_some]

end Step

/-! ## The refinement

Every step of the process is a step of the service, or is not seen.  The other way round a step of
the service takes up to five of the process: an environment lets the stages of one request end, one
after the other, and nothing else meanwhile (`exists_answered`). -/

namespace Service

variable {s : Service τ} {place : ℕ} {body : StdString} {call : StocksCall τ}

/-- A waiting ticket of a live service can be answered with any body. -/
theorem next_answered (hlive : s.stopped = false) (ht : s.tickets[place]? = some ⟨call, none⟩) :
    s.next platform callToken (.answered place body)
      = some (s.answer platform callToken place body call) := by
  simp only [next, hlive, ht, Bool.false_eq_true, if_false]

/-- **Only a waiting ticket of a live service is answered.** -/
theorem next_answered_inv {s' : Service τ}
    (h : s.next platform callToken (.answered place body) = some s') :
    s.stopped = false ∧ ∃ call, s.tickets[place]? = some ⟨call, none⟩ ∧
      s' = s.answer platform callToken place body call := by
  rcases hs : s.stopped with _ | _
  · rcases ht : s.tickets[place]? with _ | ⟨call, _ | b⟩
    · simp [next, hs, ht] at h
    · rw [next_answered hs ht] at h
      exact ⟨rfl, call, rfl, (Option.some.inj h).symm⟩
    · simp [next, hs, ht] at h
  · simp [next, hs] at h

/-- Only a live service without waiting tickets is found idle, and it stops. -/
theorem next_idled_inv {s' : Service τ} (h : s.next platform callToken .idled = some s') :
    s.stopped = false ∧ done s.tickets = true ∧ s' = { s with stopped := true } := by
  rcases hs : s.stopped with _ | _
  · rcases hd : done s.tickets with _ | _
    · simp [next, hs, hd] at h
    · simp only [next, hs, hd, Bool.false_eq_true, if_false, if_true, Option.some.injEq] at h
      exact ⟨rfl, rfl, h.symm⟩
  · simp [next, hs] at h

end Service

/-- The service as a transition system: everything it does is seen. -/
def Service.system (platform : Platform) (callToken : τ → GetStocksListResponse → TokenCall τ) :
    System (Service τ) (Visible τ) :=
  .ofFunction {} (Service.next platform callToken)

variable {p p' : StocksProcess τ}

/-- A use of the API is what the service makes of what is seen of it, … -/
theorem process_use (use : StocksAct τ) :
    (Service.system platform callToken).Path (serviceOf p) (observeUse use).toList
      (serviceOf (useStocks platform use p)) := by
  rcases serviceOf_use platform use p with ⟨hseen, hservice⟩ | ⟨call, hseen, hservice⟩
  · rw [hseen, hservice]
    exact .refl
  · rw [hseen, hservice]
    exact .single ⟨_, rfl, rfl⟩

/-- … and so is a `run_one`. -/
theorem process_runOne (hp : StocksSound platform callToken p) {pick : ℕ} {c : Completion}
    {res : Except Exception ℕ} (hrun : runOne platform callToken pick c p = some (p', res)) :
    StocksSound platform callToken p' ∧
      (Service.system platform callToken).Path (serviceOf p) (observeRun pick c p).toList
        (serviceOf p') := by
  rcases Loop.runOne_cases hrun with ⟨hs, rfl, -⟩ | ⟨hs, hw, rfl, -⟩ | ⟨h, hr, rfl, -⟩
  · -- stopped: nothing happens, and nothing is seen
    rw [observeRun, if_pos hs]
    exact ⟨hp, .refl⟩
  · -- idle: the context stops
    have hdone : Service.done (serviceOf p).tickets = true :=
      (done_serviceOf hp).mpr (List.length_eq_zero_iff.mp (hp.counted.symm.trans hw))
    have hnext : (serviceOf p).next platform callToken .idled
        = some { serviceOf p with stopped := true } := by
      have hlive : (serviceOf p).stopped = false := hs
      simp only [Service.next, hlive, hdone, Bool.false_eq_true, if_false, if_true]
    rw [observeRun, hs, if_neg Bool.false_ne_true, if_pos hw]
    exact ⟨hp.stop, .single ⟨_, rfl, hnext⟩⟩
  · -- a handler runs: its stage decides
    refine ⟨hp.settle (fun _ _ => isStocksAct_of_call) hr c, ?_⟩
    obtain ⟨k, r, stage, new, hstep⟩ := hp.exists_step hr c
    have hstage : h.stage = stage := by rw [hstep.handler, Handler.stage_ofStage]
    have hself : h.self = k := by rw [hstep.handler, Handler.self_ofStage]
    rw [observeRun_of_runs hp hr, hstage, hself]
    by_cases hread : stage = .read
    · subst hread
      have hticket : (serviceOf p).tickets[k]? = some ⟨r.call, none⟩ := by
        rw [serviceOf, List.getElem?_map, hstep.request, Option.map_some, Request.ticket,
          hstep.inFlight]
        rfl
      rw [if_pos rfl, serviceOf_read hstep hp hr]
      exact .single ⟨_, rfl, Service.next_answered hr.live hticket⟩
    · rw [if_neg hread, serviceOf_silent hstep hp hr hread]
      exact .refl

/-- **The process refines the service.** -/
theorem process_refines (platform : Platform)
    (callToken : τ → GetStocksListResponse → TokenCall τ) :
    Refines (process platform callToken) (Service.system platform callToken) serviceOf
      (StocksSound platform callToken) where
  start := rfl
  initially := Sound.start
  step := by
    rintro p l p' hp (⟨use, rfl, rfl⟩ | ⟨pick, c, res, rfl, hrun⟩)
    · exact ⟨hp.use use, process_use use⟩
    · exact process_runOne hp hrun

/-- A step of the process, as a path: a use of the API, or… -/
theorem path_use (platform : Platform) (callToken : τ → GetStocksListResponse → TokenCall τ)
    (use : StocksAct τ) (p : StocksProcess τ) :
    (process platform callToken).Path p (observeUse use).toList (useStocks platform use p) :=
  .single (Or.inl ⟨use, rfl, rfl⟩)

/-- … a `run_one`. -/
theorem path_runOne {pick : ℕ} {c : Completion} {res : Except Exception ℕ}
    (hrun : runOne platform callToken pick c p = some (p', res)) :
    (process platform callToken).Path p (observeRun pick c p).toList p' :=
  .single (Or.inr ⟨pick, c, res, rfl, hrun⟩)

/-- The operation of a request in flight can be the next to end. -/
theorem exists_pick (hp : StocksSound platform callToken p) (hlive : p.context.stopped = false)
    {i : ℕ} {r : StocksRequest τ} {stage : Stage} (hr : p.state.requests[i]? = some r)
    (hs : r.exchange.inFlight = some stage) (c : Completion) :
    ∃ pick h new, p.Runs (p.choice pick) h ∧
      HandlerStep platform (StocksCompletion.call callToken) p h c i r stage new := by
  have hwaits : r.waiting i = some (Handler.ofStage i r.submission.target
      r.submission.completionToken stage) := by rw [Request.waiting, hs]; rfl
  have hmem := hp.waiting.mem_iff.mpr (mem_waitingFrom.mpr ⟨i, r, hr, hwaits⟩)
  obtain ⟨pick, hpick⟩ := List.mem_iff_getElem?.mp hmem
  obtain ⟨hlt, -⟩ := List.getElem?_eq_some_iff.mp hpick
  have hchoice : p.choice pick = pick := Nat.mod_eq_of_lt hlt
  have hruns : p.Runs (p.choice pick) _ := ⟨hlive, hchoice.symm ▸ hpick⟩
  obtain ⟨k, r', stage', new, hstep⟩ := hp.exists_step hruns c
  have hk := congrArg Handler.self hstep.handler
  rw [Handler.self_ofStage, Handler.self_ofStage] at hk
  subst hk
  obtain rfl := Option.some.inj (hr.symm.trans hstep.request)
  obtain rfl := Option.some.inj (hs.symm.trans hstep.inFlight)
  exact ⟨pick, _, new, hruns, hstep⟩

/-- **A request in flight can be answered next, with any body**: the stages before its read end one
after the other. -/
theorem exists_answered (platform : Platform)
    (callToken : τ → GetStocksListResponse → TokenCall τ) (i : ℕ) (body : StdString) :
    ∀ (n : ℕ) (p : StocksProcess τ) (r : StocksRequest τ) (stage : Stage),
      stage.remaining = n → StocksSound platform callToken p → p.context.stopped = false →
      p.state.requests[i]? = some r → r.exchange.inFlight = some stage →
      ∃ p', (process platform callToken).Path p [.answered i body] p' ∧
        serviceOf p' = (serviceOf p).answer platform callToken i body r.call := by
  -- on the stages before the request, down to its read
  intro n
  induction n with
  | zero => exact fun _ _ stage hn => absurd (stage.remaining_eq.symm.trans hn) (Nat.succ_ne_zero _)
  | succ n ih =>
    intro p r stage hn hp hlive hr hs
    obtain ⟨pick, h, new, hruns, hstep⟩ :=
      exists_pick hp hlive hr hs ({ body := body } : Completion)
    have hrun : runOne platform callToken pick { body := body } p = some _ :=
      Loop.runOne_runs hp.counted hruns
    have hpath := path_runOne hrun
    have hstage : h.stage = stage := by rw [hstep.handler, Handler.stage_ofStage]
    have hself : h.self = i := by rw [hstep.handler, Handler.self_ofStage]
    rw [observeRun_of_runs hp hruns, hstage, hself] at hpath
    by_cases hread : stage = .read
    · subst hread
      rw [if_pos rfl] at hpath
      exact ⟨_, hpath, serviceOf_read hstep hp hruns⟩
    · rw [if_neg hread] at hpath
      have hsilent := serviceOf_silent hstep hp hruns hread
      obtain ⟨next, hnext⟩ := Option.ne_none_iff_exists'.mp (mt Stage.next_eq_none_iff.mp hread)
      have hleft := stage.remaining_eq
      rw [hnext, Option.elim_some, hn] at hleft
      obtain ⟨p', hpath', hservice⟩ := ih
        (p.settle (p.choice pick) (execStocks platform callToken { body := body } h p.state))
        (r.turn platform (StocksCompletion.call callToken) stage { body := body }) next
        (Nat.succ.inj hleft).symm (hp.settle (fun _ _ => isStocksAct_of_call) hruns _)
        ((congrArg Service.stopped hsilent).trans hlive) hstep.getElem?_self
        (by rw [Request.exchange_turn, Exchange.inFlight_advance, hnext])
      rw [hsilent] at hservice
      exact ⟨p', hpath.trans hpath', hservice⟩

/-- **The process refines the service, exactly.** -/
theorem process_exact (platform : Platform)
    (callToken : τ → GetStocksListResponse → TokenCall τ) :
    Exact (process platform callToken) (Service.system platform callToken) serviceOf
      (StocksSound platform callToken) where
  toRefines := process_refines platform callToken
  realises := by
    rintro p _ a hp ⟨v, rfl, hnext⟩
    rcases v with call | ⟨place, body⟩ | _
    · -- a submission is a use of the API
      obtain rfl := Option.some.inj hnext
      have hpath := path_use platform callToken
        (.async (some call.request) call.apikey call.completionToken call.order) p
      obtain ⟨hseen, -⟩ | ⟨_, hseen, hservice⟩ := serviceOf_use platform
        (.async (some call.request) call.apikey call.completionToken call.order) p
      · cases hseen
      · obtain rfl := Visible.submitted.inj (Option.some.inj hseen)
        exact ⟨_, hpath, hservice⟩
    · -- an answer is the stages of the request that waits for it
      obtain ⟨hlive, call, ht, rfl⟩ := Service.next_answered_inv hnext
      rw [serviceOf, List.getElem?_map] at ht
      obtain ⟨r, hr, hticket⟩ := Option.map_eq_some_iff.mp ht
      obtain ⟨rfl, hbody⟩ := Ticket.mk.inj hticket
      rcases hs : r.exchange.inFlight with _ | stage
      · rw [hs] at hbody
        cases hbody
      · exact exists_answered platform callToken place body _ p r stage rfl hp hlive hr hs
    · -- a service that is found idle is a `run_one` without work
      obtain ⟨hlive, hdone, rfl⟩ := Service.next_idled_inv hnext
      have hwork : p.context.outstandingWork = 0 := by
        rw [hp.counted, (done_serviceOf hp).mp hdone]
        rfl
      have hrun : runOne platform callToken 0 {} p = some _ := Loop.runOne_idle hlive hwork
      have hpath := path_runOne hrun
      have hlive' : p.context.stopped = false := hlive
      rw [observeRun, hlive', if_neg Bool.false_ne_true, if_pos hwork] at hpath
      exact ⟨_, hpath, rfl⟩

/-- **What a trace leaves behind is what the service makes of it**: the process has a run with that
trace exactly when the service can replay it, and comes to no other tickets and no other text. -/
theorem run_iff_replay (platform : Platform)
    (callToken : τ → GetStocksListResponse → TokenCall τ) (trace : List (Visible τ))
    (s : Service τ) :
    (∃ p, (process platform callToken).Run trace p ∧ serviceOf p = s)
      ↔ Service.replay platform callToken trace = some s := by
  have hreplay : (Service.system platform callToken).Run trace s
      ↔ Service.replay platform callToken trace = some s := System.path_ofFunction_iff
  rw [← hreplay]
  constructor
  · rintro ⟨p, hrun, rfl⟩
    exact ((process_refines platform callToken).run hrun).2
  · exact (process_exact platform callToken).run

end Twelvedata
