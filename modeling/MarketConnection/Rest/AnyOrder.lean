import MarketConnection.Foundations.Worklist
import MarketConnection.Foundations.Resumption
import MarketConnection.Rest.Forest
import MarketConnection.Rest.Lifetimes
import MarketConnection.Rest.ServiceLaws

/-!
# Rest/AnyOrder — a forest of requests comes to the same in any order

Tokens may submit requests, so the order in which operations end decides what there is to be
answered next.  With a server that answers a call in its own way whenever it is asked, the calls
that wait are a worklist of which any item may be taken, and the answers that are still to be given
do not depend on the choice.

What is seen of a `run_all` is the trace of its answers (`Shows`).  **If `run_all` returns in one
order, it returns in every order** (`forest_any_order`): it has had the same calls answered, in the
same way, as often, and the tokens have written the same texts, one for each answer of its trace and
in the order of the trace.
-/

namespace Twelvedata

open EventLoop Worklist

variable {τ : Type} {platform : Platform} {callToken : τ → GetStocksListResponse → TokenCall τ}
  {server : StocksCall τ → StdString}

/-! ## The worklist of a service

Tickets stand in the order their calls came in, which depends on the order of the answers.  What
waits and what was answered is therefore counted as a multiset. -/

namespace Service

/-- The calls that wait for an answer. -/
def waiting (s : Service τ) : Multiset (StocksCall τ) :=
  ((s.tickets.filter fun t => t.body.isNone).map Ticket.call : List (StocksCall τ))

/-- The calls that were answered, and with what. -/
def answered (s : Service τ) : Multiset (StocksCall τ × StdString) :=
  (s.tickets.filterMap fun t => t.body.map fun body => (t.call, body) :
    List (StocksCall τ × StdString))

variable {s : Service τ} {place : ℕ} {call : StocksCall τ}

theorem waiting_eq_zero_iff : s.waiting = 0 ↔ done s.tickets = true := by
  rw [waiting, Multiset.coe_eq_zero, List.map_eq_nil_iff, List.filter_eq_nil_iff, done,
    List.all_eq_true]
  exact forall₂_congr fun t _ => by rcases t.body with _ | body <;> simp

/-- The tickets before and after an answer, but for their order. -/
theorem perm_tickets (ht : s.tickets[place]? = some ⟨call, none⟩) (body : StdString) :
    s.tickets.Perm (⟨call, none⟩ :: s.tickets.eraseIdx place) ∧
    (s.tickets.set place ⟨call, some body⟩).Perm
      (⟨call, some body⟩ :: s.tickets.eraseIdx place) := by
  obtain ⟨hlt, hget⟩ := List.getElem?_eq_some_iff.mp ht
  have hbefore := (List.getElem_cons_eraseIdx_perm hlt).symm
  rw [hget] at hbefore
  exact ⟨hbefore, List.set_perm_cons_eraseIdx hlt _⟩

/-- An answer takes a call off the worklist, and puts those of its token there. -/
theorem exists_waiting_answer (platform : Platform)
    (callToken : τ → GetStocksListResponse → TokenCall τ)
    (ht : s.tickets[place]? = some ⟨call, none⟩) (body : StdString) :
    ∃ V, s.waiting = call ::ₘ V ∧ (s.answer platform callToken place body call).waiting
      = (reactionCalls platform callToken call body : Multiset (StocksCall τ)) + V := by
  obtain ⟨hbefore, hafter⟩ := perm_tickets ht body
  refine ⟨(((s.tickets.eraseIdx place).filter fun t => t.body.isNone).map Ticket.call : List _),
    Multiset.coe_eq_coe.mpr ((hbefore.filter _).map _), ?_⟩
  have hnew : ((reactionCalls platform callToken call body).map fun call =>
        ({ call := call } : Ticket τ)).filter (fun t => t.body.isNone)
      = (reactionCalls platform callToken call body).map fun call => { call := call } :=
    List.filter_eq_self.mpr (List.forall_mem_map.mpr fun _ _ => rfl)
  have hlist := ((hafter.filter fun t => t.body.isNone).map Ticket.call).append_right
    (reactionCalls platform callToken call body)
  rw [waiting, answer, List.filter_append, List.map_append, hnew, map_call_new, Multiset.coe_add,
    Multiset.coe_eq_coe]
  exact hlist.trans List.perm_append_comm

/-- …and the call is answered. -/
theorem answered_answer (ht : s.tickets[place]? = some ⟨call, none⟩) (body : StdString) :
    (s.answer platform callToken place body call).answered = (call, body) ::ₘ s.answered := by
  obtain ⟨hbefore, hafter⟩ := perm_tickets ht body
  have hnew : ((reactionCalls platform callToken call body).map fun call =>
        ({ call := call } : Ticket τ)).filterMap (fun t => t.body.map fun body => (t.call, body))
      = [] := List.filterMap_eq_nil_iff.mpr (List.forall_mem_map.mpr fun _ _ => rfl)
  rw [answered, answered, answer, List.filterMap_append, hnew, List.append_nil, Multiset.cons_coe,
    Multiset.coe_eq_coe]
  have hrest := (hbefore.filterMap fun t => t.body.map fun body => (t.call, body)).symm
  exact (hafter.filterMap _).trans (hrest.cons (call, body))

end Service

/-! ## What is seen of a `run_all` -/

/-- What is seen of the first `fuel` calls of `run_one`, one after the other. -/
def observeRunAll (platform : Platform) (callToken : τ → GetStocksListResponse → TokenCall τ)
    (env : Environment τ) : ℕ → StocksProcess τ → List (Visible τ)
  | 0, _ => []
  | fuel + 1, p =>
    (observeRun (env p).1 (env p).2 p).toList ++
      match runOne platform callToken (env p).1 (env p).2 p with
      | some (q, .ok (_ + 1)) => observeRunAll platform callToken env fuel q
      | _ => []

/-- **`run_all()` returns, and shows `trace`.** -/
def Shows (platform : Platform) (callToken : τ → GetStocksListResponse → TokenCall τ)
    (env : Environment τ) (p : StocksProcess τ) (trace : List (Visible τ)) (p' : StocksProcess τ)
    (res : Except Exception Unit) : Prop :=
  ∃ fuel, p.drain (execStocks platform callToken) env fuel = some (p', res) ∧
    observeRunAll platform callToken env fuel p = trace

namespace Shows

variable {env : Environment τ} {p q p' : StocksProcess τ} {trace : List (Visible τ)}
  {res : Except Exception Unit}

/-- It is a `run_all` like any other. -/
theorem runAll (h : Shows platform callToken env p trace p' res) :
    RunAll platform callToken env p p' res := by
  obtain ⟨fuel, hdrain, -⟩ := h
  exact ⟨fuel, hdrain⟩

/-- The last call, which runs nothing. -/
theorem of_zero (hone : runOne platform callToken (env p).1 (env p).2 p = some (q, .ok 0)) :
    Shows platform callToken env p (observeRun (env p).1 (env p).2 p).toList q (.ok ()) := by
  have hdrain : p.runOne (execStocks platform callToken) (env p).1 (env p).2 = some (q, .ok 0) :=
    hone
  exact ⟨1, by rw [Loop.drain, hdrain], by rw [observeRunAll, hone, List.append_nil]⟩

/-- A call that runs a handler, and the calls after it. -/
theorem of_succ {n : ℕ}
    (hone : runOne platform callToken (env p).1 (env p).2 p = some (q, .ok (n + 1)))
    (h : Shows platform callToken env q trace p' res) :
    Shows platform callToken env p ((observeRun (env p).1 (env p).2 p).toList ++ trace) p' res := by
  have hdrain : p.runOne (execStocks platform callToken) (env p).1 (env p).2
      = some (q, .ok (n + 1)) := hone
  obtain ⟨fuel, hrest, rfl⟩ := h
  exact ⟨fuel + 1, by rw [Loop.drain, hdrain]; exact hrest, by rw [observeRunAll, hone]⟩

end Shows

/-! ## A server that answers a call in its own way

Nothing is assumed of the order in which operations end, nor of their error codes.  Only the body
that ends a read must depend on the call alone: a server whose answers changed with time would tell
two orders apart. -/

/-- What the server answers to a call is what ends the read of its request. -/
def Serves (server : StocksCall τ → StdString) (env : Environment τ) : Prop :=
  ∀ (p : StocksProcess τ) (h : Handler (StocksCompletion τ)) (r : StocksRequest τ),
    p.Runs (p.choice (env p).1) h → h.stage = .read → p.state.requests[h.self]? = some r →
    (env p).2.body = server r.call

/-- The answer to the call can be decoded, and the token returns. -/
def Returns (platform : Platform) (callToken : τ → GetStocksListResponse → TokenCall τ)
    (server : StocksCall τ → StdString) (call : StocksCall τ) : Prop :=
  ∃ response, decodeBody platform call.order.row (server call) = .ok response ∧
    (callToken call.completionToken response).thrown = none

/-- The calls that the token of a call makes about its answer. -/
def kids (platform : Platform) (callToken : τ → GetStocksListResponse → TokenCall τ)
    (server : StocksCall τ → StdString) (call : StocksCall τ) : Multiset (StocksCall τ) :=
  reactionCalls platform callToken call (server call)

/-- The answers that were seen, each with the call whose ticket it went to. -/
def answeredCalls (trace : List (Visible τ)) (p : StocksProcess τ) :
    List (Option (StocksCall τ) × StdString) :=
  (answers trace).map fun answer =>
    (((serviceOf p).tickets.map Ticket.call)[answer.1]?, answer.2)

/-- **What was served between `p` and `p'`**, of which `trace` was seen: the calls `calls`, in this
order. -/
structure ServedBetween (platform : Platform) (callToken : τ → GetStocksListResponse → TokenCall τ)
    (server : StocksCall τ → StdString) (p : StocksProcess τ) (trace : List (Visible τ))
    (p' : StocksProcess τ) (calls : List (StocksCall τ)) : Prop where
  /-- Tickets keep their places. -/
  places : (serviceOf p).tickets.map Ticket.call <+: (serviceOf p').tickets.map Ticket.call
  /-- The answers that were seen are those to the calls, one after the other. -/
  seen : answeredCalls trace p' = calls.map fun call => (some call, server call)
  /-- The text is that of their tokens. -/
  stdout : p'.state.stdout = p.state.stdout
    ++ calls.flatMap fun call => (reaction platform callToken call (server call)).stdout
  /-- Nothing else was answered. -/
  answered : (serviceOf p').answered = (serviceOf p).answered
    + (calls.map fun call => (call, server call) : List (StocksCall τ × StdString))

/-- Nothing was served where nothing is answered. -/
theorem ServedBetween.of_eq {p p' : StocksProcess τ} {trace : List (Visible τ)}
    (htrace : answers trace = []) (htickets : (serviceOf p').tickets = (serviceOf p).tickets)
    (hstdout : p'.state.stdout = p.state.stdout) :
    ServedBetween platform callToken server p trace p' [] where
  places := by rw [htickets]
  seen := by rw [answeredCalls, htrace]; rfl
  stdout := by rw [hstdout, List.flatMap_nil, List.append_nil]
  answered := by
    rw [Service.answered, Service.answered, htickets]
    exact (Multiset.add_zero _).symm

/-- What was served first, and then. -/
theorem ServedBetween.trans {p p₁ p' : StocksProcess τ} {trace trace' : List (Visible τ)}
    {calls calls' : List (StocksCall τ)}
    (h : ServedBetween platform callToken server p trace p₁ calls)
    (h' : ServedBetween platform callToken server p₁ trace' p' calls') :
    ServedBetween platform callToken server p (trace ++ trace') p' (calls ++ calls') where
  places := h.places.trans h'.places
  seen := by
    rw [answeredCalls, answers_append, List.map_append, List.map_append, ← h'.seen, ← h.seen]
    refine congrArg (· ++ _) (List.map_congr_left fun ⟨place, body⟩ hmem => ?_)
    -- what was answered first had a ticket, which keeps its place
    have hcall : (((serviceOf p₁).tickets.map Ticket.call)[place]?, body)
        ∈ calls.map fun call => (some call, server call) := h.seen ▸ List.mem_map_of_mem hmem
    obtain ⟨call, -, hget⟩ := List.mem_map.mp hcall
    obtain ⟨hlt, -⟩ := List.getElem?_eq_some_iff.mp (Prod.mk.inj hget).1.symm
    obtain ⟨more, hmore⟩ := h'.places
    rw [← hmore, List.getElem?_append_left hlt]
  stdout := by rw [h'.stdout, h.stdout, List.flatMap_append, List.append_assoc]
  answered := by
    rw [h'.answered, h.answered, List.map_append, ← Multiset.coe_add, Multiset.add_assoc]

/-- A `run_one` that runs nothing. -/
theorem ServedBetween.of_zero {p q : StocksProcess τ} {pick : ℕ} {c : Completion}
    (hone : runOne platform callToken pick c p = some (q, .ok 0)) :
    ServedBetween platform callToken server p (observeRun pick c p).toList q [] := by
  rcases Loop.runOne_cases hone with ⟨hs, rfl, -⟩ | ⟨hs, hw, rfl, -⟩ | ⟨_, -, -, ⟨-, h⟩ | ⟨x, -, h⟩⟩
  · exact .of_eq (by rw [observeRun, if_pos hs]; rfl) rfl rfl
  · exact .of_eq (by rw [observeRun, hs, if_neg Bool.false_ne_true, if_pos hw]; rfl) rfl rfl
  all_goals cases h

/-- One answer. -/
theorem ServedBetween.answered_one {p q : StocksProcess τ} {place : ℕ} {call : StocksCall τ}
    (ht : (serviceOf p).tickets[place]? = some ⟨call, none⟩)
    (hq : serviceOf q = (serviceOf p).answer platform callToken place (server call) call) :
    ServedBetween platform callToken server p [.answered place (server call)] q [call] where
  places := by
    rw [hq, Service.answer, List.map_append, map_call_set ht]
    exact List.prefix_append _ _
  seen := by
    obtain ⟨hlt, -⟩ := List.getElem?_eq_some_iff.mp ht
    rw [answeredCalls, hq, Service.answer, List.map_append, map_call_set ht]
    refine congrArg (fun call? => [(call?, server call)]) ?_
    rw [List.getElem?_append_left (by rwa [List.length_map]), List.getElem?_map, ht]
    rfl
  stdout := by
    rw [List.flatMap_singleton]
    exact congrArg Service.stdout hq
  answered := by
    rw [hq, Service.answered_answer ht, Multiset.add_comm]
    rfl

/-- **A step**: nothing is seen of it, or a call is taken off the worklist. -/
theorem exists_served {p : StocksProcess τ} (hp : StocksSound platform callToken p) {pick : ℕ}
    {h : Handler (StocksCompletion τ)} (hr : p.Runs (p.choice pick) h) {c : Completion}
    (hserves : ∀ r, h.stage = .read → p.state.requests[h.self]? = some r →
      c.body = server r.call) :
    let q := p.settle (p.choice pick) (execStocks platform callToken c h p.state)
    let seen := (observeRun pick c p).toList
    (execStocks platform callToken c h p.state).thrown = none ∧
        (serviceOf q).waiting = (serviceOf p).waiting ∧
        ServedBetween platform callToken server p seen q [] ∧
        q.state.requests.length = p.state.requests.length ∨
      ∃ call V, (serviceOf p).waiting = call ::ₘ V ∧
        (serviceOf q).waiting = kids platform callToken server call + V ∧
        ServedBetween platform callToken server p seen q [call] ∧
        ((execStocks platform callToken c h p.state).thrown = none
          ↔ Returns platform callToken server call) := by
  intro q seen
  have hseen : seen = (if h.stage = .read then some (Visible.answered h.self c.body)
      else none).toList := congrArg Option.toList (observeRun_of_runs hp hr)
  obtain ⟨k, r, stage, new, hstep⟩ := hp.exists_step hr c
  have hstage : h.stage = stage := by rw [hstep.handler, Handler.stage_ofStage]
  have hself : h.self = k := by rw [hstep.handler, Handler.self_ofStage]
  by_cases hread : stage = .read
  · -- the end of a read: the call is answered, and its token's calls wait
    right
    subst hread
    have hbody := hserves r hstage (hself ▸ hstep.request)
    have hservice := serviceOf_read hstep hp hr
    have hticket : (serviceOf p).tickets[k]? = some ⟨r.call, none⟩ := by
      rw [serviceOf, List.getElem?_map, hstep.request, Option.map_some, Request.ticket,
        hstep.inFlight]
      rfl
    rw [hbody] at hservice
    obtain ⟨V, hbefore, hafter⟩ :=
      Service.exists_waiting_answer platform callToken hticket (server r.call)
    rw [if_pos hstage, hself, hbody, Option.toList_some] at hseen
    refine ⟨r.call, V, hbefore, hservice ▸ hafter, hseen ▸ .answered_one hticket hservice, ?_⟩
    obtain ⟨-, htoken⟩ :=
      submission_of_isStocksAct (hp.requests r (List.mem_of_getElem? hstep.request)).allowed
    rw [hstep.thrown, invocation_read, htoken, hbody, Returns, StocksCall.completion]
    rcases decodeBody platform r.call.order.row (server r.call) with x | response
    · simp
    · simp [delivery]
  · -- any other stage is not seen
    left
    have hservice := serviceOf_silent hstep hp hr hread
    have htickets := congrArg Service.tickets hservice
    have hlength := congrArg List.length htickets
    rw [serviceOf, serviceOf, List.length_map, List.length_map] at hlength
    obtain ⟨next, hnext⟩ := Option.ne_none_iff_exists'.mp (mt Stage.next_eq_none_iff.mp hread)
    rw [if_neg (hstage ▸ hread), Option.toList_none] at hseen
    refine ⟨?_, congrArg Service.waiting hservice,
      .of_eq (hseen ▸ rfl) htickets (congrArg Service.stdout hservice), hlength⟩
    rw [hstep.thrown, Request.invocation_of_next platform _ hnext]

/-- Nothing waits when nothing is pending, and only then. -/
theorem waiting_eq_zero_iff {p : StocksProcess τ} (hp : StocksSound platform callToken p) :
    (serviceOf p).waiting = 0 ↔ p.context.pending = [] :=
  Service.waiting_eq_zero_iff.trans (done_serviceOf hp)

/-- A `run_one` that runs nothing finds nothing that waits. -/
theorem waiting_of_zero {p q : StocksProcess τ} (hp : StocksSound platform callToken p)
    (htidy : p.context.Tidy) {pick : ℕ} {c : Completion}
    (hone : runOne platform callToken pick c p = some (q, .ok 0)) : (serviceOf p).waiting = 0 := by
  rw [waiting_eq_zero_iff hp]
  rcases Loop.runOne_cases hone with ⟨hs, -⟩ | ⟨-, hw, -⟩ | ⟨_, -, -, ⟨-, h⟩ | ⟨x, -, h⟩⟩
  · exact htidy hs
  · exact List.length_eq_zero_iff.mp (hp.counted.symm.trans hw)
  all_goals cases h

/-! ## One order

A run that returns is followed from its start: what waits at a step is what is answered from there
on, and what comes of it. -/

/-- **A `run_all` that returns has worked the worklist off.** -/
theorem exists_workedOff {env : Environment τ} (henv : Serves server env) {p' : StocksProcess τ} :
    ∀ (fuel : ℕ) (p : StocksProcess τ), StocksSound platform callToken p → p.context.Tidy →
      p.drain (execStocks platform callToken) env fuel = some (p', .ok ()) →
      ∃ trace calls, Shows platform callToken env p trace p' (.ok ()) ∧
        ServedBetween platform callToken server p trace p' calls ∧
        WorkedOff (kids platform callToken server) (serviceOf p).waiting calls ∧
        ∀ call ∈ calls, Returns platform callToken server call := by
  intro fuel
  induction fuel with
  | zero => exact fun _ _ _ h => by cases h
  | succ fuel ih =>
    intro p hp htidy h
    rw [Loop.drain] at h
    rcases hone : p.runOne (execStocks platform callToken) (env p).1 (env p).2
      with _ | ⟨q, x | _ | n⟩
    · simp [hone] at h
    · simp [hone] at h
    · -- nothing was run, and the call is the last
      simp only [hone, Option.some.injEq, Prod.mk.injEq, and_true] at h
      subst h
      rw [waiting_of_zero hp htidy hone]
      exact ⟨_, [], .of_zero hone, .of_zero hone, .nil, List.forall_mem_nil _⟩
    · simp only [hone] at h
      obtain ⟨f, hr, rfl, ht⟩ := Loop.runs_of_succ hone
      obtain ⟨trace, calls, hshows, hserved, hworked, hreturns⟩ := ih _
        (hp.settle (fun _ _ => isStocksAct_of_call) hr _) (Loop.tidy_settle hp.counted hr _) h
      rcases exists_served hp hr (fun r hread hk => henv p f r hr hread hk) with
        ⟨-, hwaiting, hnone, -⟩ | ⟨call, V, hbefore, hafter, hone', hiff⟩
      · rw [← hwaiting]
        exact ⟨_, calls, .of_succ hone hshows, hnone.trans hserved, hworked, hreturns⟩
      · rw [hbefore]
        rw [hafter] at hworked
        exact ⟨_, call :: calls, .of_succ hone hshows, hone'.trans hserved, .cons hworked,
          List.forall_mem_cons.mpr ⟨hiff.mp ht, hreturns⟩⟩

/-! ## Any order

The other run is built from the worklist alone.  Whatever operation ends next, either its stage is
not seen, and one stage less is to come, or a call is answered that may as well be the first
(`WorkedOff.first`), and one call less is to be answered. -/

/-- No request has more than five stages. -/
theorem ended_le {p : StocksProcess τ} (hp : StocksSound platform callToken p) :
    p.state.ended ≤ 5 * p.state.requests.length := by
  have hfive : ∀ n ∈ p.state.requests.map fun r => r.exchange.ended, n ≤ 5 :=
    List.forall_mem_map.mpr fun r hr => by
      have hdialogue := (hp.requests r hr).dialogue.ended_add_toCome
      omega
  have hsum := List.sum_le_card_nsmul _ 5 hfive
  rwa [List.length_map, smul_eq_mul, Nat.mul_comm] at hsum

/-- The stages to come, when one more has ended. -/
theorem toCome_lt {p q : StocksProcess τ} (hq : StocksSound platform callToken q)
    (hlength : q.state.requests.length = p.state.requests.length)
    (hended : q.state.ended = p.state.ended + 1) :
    5 * q.state.requests.length - q.state.ended
      < 5 * p.state.requests.length - p.state.ended := by
  have hle := ended_le hq
  omega

/-- Where nothing waits, `run_all` returns. -/
theorem exists_shows_of_done (env : Environment τ) {p : StocksProcess τ}
    (hp : StocksSound platform callToken p) (hdone : (serviceOf p).waiting = 0) :
    ∃ p' trace, Shows platform callToken env p trace p' (.ok ()) ∧
      ServedBetween platform callToken server p trace p' [] := by
  have hone : ∃ p', runOne platform callToken (env p).1 (env p).2 p = some (p', .ok 0) := by
    rcases hs : p.context.stopped with _ | _
    · have hpending := (waiting_eq_zero_iff hp).mp hdone
      exact ⟨_, Loop.runOne_idle hs (hp.counted.trans (List.length_eq_zero_iff.mpr hpending))⟩
    · exact ⟨_, Loop.runOne_stopped hs⟩
  obtain ⟨p', hone⟩ := hone
  exact ⟨p', _, .of_zero hone, .of_zero hone⟩

/-- **A worklist that can be worked off is worked off, in every order.** -/
theorem exists_shows_of_workedOff {env : Environment τ} (henv : Serves server env)
    {p : StocksProcess τ} {calls : List (StocksCall τ)} (hp : StocksSound platform callToken p)
    (htidy : p.context.Tidy)
    (hworked : WorkedOff (kids platform callToken server) (serviceOf p).waiting calls)
    (hreturns : ∀ call ∈ calls, Returns platform callToken server call) :
    ∃ p' trace calls', Shows platform callToken env p trace p' (.ok ()) ∧
      ServedBetween platform callToken server p trace p' calls' ∧ calls'.Perm calls := by
  -- on the calls still to be answered, and then on the stages to come of those that wait
  induction hn : calls.length generalizing p calls with
  | zero =>
    obtain rfl := List.length_eq_zero_iff.mp hn
    generalize hW : (serviceOf p).waiting = W at hworked
    rcases hworked
    obtain ⟨p', trace, hshows, hserved⟩ := exists_shows_of_done env hp hW
    exact ⟨p', trace, [], hshows, hserved, .refl _⟩
  | succ n ihn =>
    induction hm : 5 * p.state.requests.length - p.state.ended using Nat.strongRecOn
      generalizing p with
    | ind m ihm =>
      have hwaits : (serviceOf p).waiting ≠ 0 := fun hW => by
        rw [hW] at hworked
        obtain rfl := (WorkedOff.nil.perm hworked).nil_eq
        cases hn
      have hpending := mt (waiting_eq_zero_iff hp).mpr hwaits
      have hlive : p.context.stopped = false := Bool.eq_false_iff.mpr (mt htidy hpending)
      obtain ⟨f, hr⟩ := Loop.exists_runs hlive hpending (env p).1
      have hq := hp.settle (fun _ _ => isStocksAct_of_call) hr (env p).2
      have htidy' := Loop.tidy_settle hp.counted hr
        (execStocks platform callToken (env p).2 f p.state)
      rcases exists_served hp hr (fun r hread hk => henv p f r hr hread hk) with
        ⟨ht, hwaiting, hnone, hlength⟩ | ⟨call, V, hbefore, hafter, hone, hiff⟩
      · -- a stage before the read
        have hless := toCome_lt hq hlength (ended_settle hp hr (env p).2)
        rw [hm] at hless
        obtain ⟨p', trace, calls', hshows, hserved, hperm⟩ := ihm _ hless hq htidy'
          (hwaiting ▸ hworked) rfl
        exact ⟨p', _, calls', .of_succ (Loop.runOne_of_returns hp.counted hr rfl ht) hshows,
          hnone.trans hserved, hperm⟩
      · -- the answer to a call, which may as well be the first
        rw [hbefore] at hworked
        obtain ⟨as, hperm, hrest⟩ := hworked.first
        rw [← hafter] at hrest
        have hreturns' := fun call hcall => hreturns call (hperm.mem_iff.mpr hcall)
        have hlength := hperm.length_eq
        rw [hn, List.length_cons] at hlength
        obtain ⟨p', trace, calls', hshows, hserved, hperm'⟩ := ihn hq htidy' hrest
          (fun call hcall => hreturns' call (.tail _ hcall)) (Nat.succ.inj hlength).symm
        have ht := hiff.mpr (hreturns' call (.head _))
        exact ⟨p', _, call :: calls',
          .of_succ (Loop.runOne_of_returns hp.counted hr rfl ht) hshows, hone.trans hserved,
          (hperm'.cons call).trans hperm.symm⟩

/-- **Any order serves the same forest**: when `run_all` returns with operations ending in one
order, it returns whatever the order.  The calls answered meanwhile are the same, with the same
answers: each of the two runs has its own order of them, in which its trace has the answers and its
tokens wrote their texts. -/
theorem forest_any_order {p p' : StocksProcess τ} (hp : StocksReachable platform callToken p)
    (hlive : p.context.stopped = false) {env env' : Environment τ} (henv : Serves server env)
    (henv' : Serves server env') (hrun : RunAll platform callToken env p p' (.ok ())) :
    ∃ p'' trace trace' calls calls', Shows platform callToken env p trace p' (.ok ()) ∧
      Shows platform callToken env' p trace' p'' (.ok ()) ∧ calls.Perm calls' ∧
      ServedBetween platform callToken server p trace p' calls ∧
      ServedBetween platform callToken server p trace' p'' calls' := by
  obtain ⟨fuel, hdrain⟩ := hrun
  obtain ⟨trace, calls, hshows, hserved, hworked, hreturns⟩ :=
    exists_workedOff henv fuel p hp.sound (.of_live hlive) hdrain
  obtain ⟨p'', trace', calls', hshows', hserved', hperm⟩ :=
    exists_shows_of_workedOff henv' hp.sound (.of_live hlive) hworked hreturns
  exact ⟨p'', trace, trace', calls, calls', hshows, hshows', hperm.symm, hserved, hserved'⟩

/-! ## Two orders -/

/-- A server that has no stocks has them for no one. -/
theorem serves_listingNothing (pick : StocksProcess ℕ → ℕ) :
    Serves (fun _ => emptyListing) (listingNothing pick) := fun _ _ _ _ _ _ => rfl

/-- The text of the only `run_all` there can be. -/
theorem stdout_of_shows {env : Environment ℕ} {trace : List (Visible ℕ)} {p' : StocksProcess ℕ}
    {text : StdString} (h : Shows Platform.sample binary env heightThree trace p' (.ok ()))
    (hdrain : ((heightThree.drain (execStocks Platform.sample binary) env 76).map fun q =>
      q.1.state.stdout) = some text) : p'.state.stdout = text := by
  obtain ⟨⟨q, res⟩, hq, htext⟩ := Option.map_eq_some_iff.mp hdrain
  obtain ⟨rfl, -⟩ := Loop.Drains.unique h.runAll ⟨76, hq⟩
  exact htext

/-- The oldest operation ends first, or the newest: the same fifteen calls are answered, by breadth
or by depth. -/
theorem forest_any_order_binary :
    ∃ p' p'' trace trace' calls calls',
      Shows Platform.sample binary (listingNothing fun _ => 0) heightThree trace p' (.ok ()) ∧
      Shows Platform.sample binary (listingNothing fun p => p.context.pending.length - 1)
        heightThree trace' p'' (.ok ()) ∧ calls.Perm calls' ∧
      ServedBetween Platform.sample binary (fun _ => emptyListing) heightThree trace p' calls ∧
      ServedBetween Platform.sample binary (fun _ => emptyListing) heightThree trace' p''
        calls' ∧
      p'.state.stdout = "322111100000000".toList ∧
      p''.state.stdout = "321001002100100".toList := by
  obtain ⟨p', res, hrun⟩ := exists_runAll_forest reachable_heightThree.sound
    (finiteForest_heightThree (listingNothing fun _ => 0))
  obtain ⟨rfl, -⟩ :=
    hrun.exists_ran (neverThrows_heightThree _) reachable_heightThree.sound.counted rfl
  obtain ⟨p'', trace, trace', calls, calls', hshows, hshows', hperm, hserved, hserved'⟩ :=
    forest_any_order reachable_heightThree rfl (serves_listingNothing _)
      (serves_listingNothing fun p => p.context.pending.length - 1) hrun
  exact ⟨p', p'', trace, trace', calls, calls', hshows, hshows', hperm, hserved, hserved',
    stdout_of_shows hshows (by decide +kernel), stdout_of_shows hshows' (by decide +kernel)⟩

end Twelvedata
