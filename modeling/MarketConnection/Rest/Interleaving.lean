import MarketConnection.Foundations.Resumption
import MarketConnection.Rest.Agreement
import MarketConnection.Rest.History

/-!
# Rest/Interleaving — concurrent requests end as they would alone

Many requests share the context, each faces a network of its own, and their operations end in any
order.  How a request ends is nobody else's business: `fate`, the dialogue it would come to from
here alone, is kept by every step, of whichever request.

What a step may do to the others is to end the `run_all` they wait in.  Called again it goes on:
**the exceptions that repeated calls throw are those of the bodies that cannot be decoded, each
once, and when they are through every request has ended as it would have alone**
(`interleaving_irrelevant`).  So **requests in flight together come to what the same calls come to
one after the other** (`concurrent_as_sequential`), exchange by exchange.
-/

namespace Twelvedata

open EventLoop

variable {τ : Type} {platform : Platform} {callToken : τ → GetStocksListResponse → TokenCall τ}

/-! ## Environments

A request's network sees what that request did, and nothing of the others; the environment adds in
which order their operations end. -/

/-- In the environment the request in place `i` faces `networks i`. -/
def EachFaces (networks : ℕ → Network) (env : Environment τ) : Prop :=
  ∀ (p : StocksProcess τ) (h : Handler (StocksCompletion τ)),
    p.Runs (p.choice (env p).1) h → (env p).2 = networks h.self (traceOf h.self p)

/-- The environment that picks as `pick` does. -/
def eachFacing (networks : ℕ → Network) (pick : StocksProcess τ → ℕ) : Environment τ := fun p =>
  (pick p, (p.context.pending[p.choice (pick p)]?).elim ({} : Completion) fun h =>
    networks h.self (traceOf h.self p))

theorem eachFaces_eachFacing (networks : ℕ → Network) (pick : StocksProcess τ → ℕ) :
    EachFaces networks (eachFacing networks pick) := by
  intro p h hr
  change (p.context.pending[p.choice (eachFacing networks pick p).1]?).elim _ _ = _
  rw [hr.get, Option.elim_some]

/-! ## Fates

A request in flight has a future of its own: the stages it has before it, each answered by its
network.  `fates` looks into it for every request, finished ones included. -/

/-- What a call throws, if it does not return. -/
def thrownBy {α : Type} : Except Exception α → Option Exception
  | .error x => some x
  | .ok _ => none

/-- How the request ends, if it faces `network` from here on. -/
def Request.fate (platform : Platform) (network : Network) (r : StocksRequest τ) : Exchange :=
  r.exchange.finish platform network r.submission.target

/-- What its token is given then. -/
def Request.outcome (platform : Platform) (network : Network) (r : StocksRequest τ) :
    Except Exception GetStocksListResponse :=
  decodeBody platform r.submission.completionToken.order
    (r.fate platform network).object.readResponse

/-- Each request with its fate. -/
def fates (platform : Platform) (networks : ℕ → Network) (p : StocksProcess τ) (i : ℕ) :
    Option (StocksSubmission τ × Exchange) :=
  p.state.requests[i]?.map fun r => (r.submission, r.fate platform (networks i))

/-- The exception that the request in place `i` ends with. -/
def failure (platform : Platform) (networks : ℕ → Network) (p : StocksProcess τ) (i : ℕ) :
    Option Exception :=
  p.state.requests[i]?.bind fun r => thrownBy (r.outcome platform (networks i))

/-- The exceptions that the requests in flight have before them. -/
def failures (platform : Platform) (networks : ℕ → Network) (p : StocksProcess τ) :
    List Exception :=
  (p.context.pending.map Handler.self).filterMap (failure platform networks p)

/-- An exception is part of a fate. -/
theorem failure_of_fates {networks : ℕ → Network} {p p' : StocksProcess τ} {i : ℕ}
    (h : fates platform networks p' i = fates platform networks p i) :
    failure platform networks p' i = failure platform networks p i := by
  have hdecode : ∀ q : StocksProcess τ, failure platform networks q i
      = (fates platform networks q i).bind fun f => thrownBy
          (decodeBody platform f.1.completionToken.order f.2.object.readResponse) := by
    intro q
    rw [fates, Option.bind_map]
    rfl
  rw [hdecode, hdecode, h]

/-! ## One step -/

section Step

variable {networks : ℕ → Network} {p : StocksProcess τ} {h : Handler (StocksCompletion τ)}
  {c : Completion} {k : ℕ} {r : StocksRequest τ} {stage : Stage} {new : List (StocksRequest τ)}

namespace HandlerStep

/-- **A step keeps every fate**, when the request whose handler runs faces its network. -/
theorem fates_eq
    (hstep : HandlerStep platform (StocksCompletion.call callToken) p h c k r stage new)
    (hquiet : ∀ token response, (callToken token response).Quiet)
    (hfaces : c = networks k r.exchange.trace) (j i : ℕ) :
    fates platform networks (p.settle j (execStocks platform callToken c h p.state)) i
      = fates platform networks p i := by
  rw [fates, fates, Loop.state_settle]
  rcases eq_or_ne i k with rfl | hne
  · rw [hstep.getElem?_self, hstep.request, Option.map_some, Option.map_some]
    refine congrArg some (Prod.ext rfl ?_)
    rw [hfaces]
    exact Exchange.finish_advance (networks i) hstep.inFlight
  · rw [hstep.getElem?_other hquiet hne]

/-- **A step throws what its request was to end with**, and that only at its end. -/
theorem thrown_eq
    (hstep : HandlerStep platform (StocksCompletion.call callToken) p h c k r stage new)
    (hquiet : ∀ token response, (callToken token response).Quiet)
    (hfaces : c = networks k r.exchange.trace) :
    (execStocks platform callToken c h p.state).thrown
      = if stage = .read then failure platform networks p k else none := by
  rw [hstep.thrown]
  rcases stage with _ | _ | _ | _ | _
  case read =>
    have hfate : (r.fate platform (networks k)).object.readResponse = c.body := by
      rw [Request.fate, Exchange.finish_of_read (networks k) hstep.inFlight, ← hfaces]
      rfl
    rw [invocation_read, if_pos rfl, failure, hstep.request, Option.bind_some, Request.outcome,
      hfate]
    rcases decodeBody platform r.submission.completionToken.order c.body with x | response
    · rfl
    · exact (hquiet _ response).thrown
  all_goals rfl

/-- **A step pays the exception it throws**: it goes out of those to come. -/
theorem failures_perm
    (hstep : HandlerStep platform (StocksCompletion.call callToken) p h c k r stage new)
    (hquiet : ∀ token response, (callToken token response).Quiet)
    (hfaces : c = networks k r.exchange.trace) {j : ℕ} (hr : p.Runs j h) :
    (failures platform networks p).Perm
      ((execStocks platform callToken c h p.state).thrown.toList ++ failures platform networks
        (p.settle j (execStocks platform callToken c h p.state))) := by
  -- the same requests fail, but the one whose read ended is no longer in flight
  have hkept : failure platform networks
      (p.settle j (execStocks platform callToken c h p.state)) = failure platform networks p := by
    ext1 i
    exact failure_of_fates (hstep.fates_eq hquiet hfaces j i)
  have hself : h.self = k := by rw [hstep.handler, Handler.self_ofStage]
  have hpending := (hr.perm.map Handler.self).filterMap (failure platform networks p)
  rw [List.map_cons, hself] at hpending
  have hwaits : ((r.turn platform (StocksCompletion.call callToken) stage c).waiting k).toList.map
      Handler.self = if stage = .read then [] else [k] := by
    rw [Request.waiting_turn]
    rcases stage <;> rfl
  rw [failures, failures, hkept, Loop.pending_settle, hstep.initiated, hstep.new_eq_nil hquiet,
    waitingFrom_nil, List.append_nil, List.map_append, hwaits, hstep.thrown_eq hquiet hfaces,
    List.filterMap_append]
  refine hpending.trans ?_
  by_cases hread : stage = .read
  · rw [if_pos hread, if_pos hread, List.filterMap_nil, List.append_nil, List.filterMap_cons]
    rcases failure platform networks p k <;> exact .refl _
  · rw [if_neg hread, if_neg hread, Option.toList_none, List.nil_append, ← List.singleton_append,
      List.filterMap_append]
    exact List.perm_append_comm

end HandlerStep

end Step

/-! ## Runs

An exception leaves `run_all` with requests still in flight, on a context that goes on when it is
called again.  `Foundations/Resumption` has the rule for that: what is owed at the start is paid,
one exception a call, and the last call returns. -/

/-- **The request ended as it would have alone**: its exchange is the one it was coming to, and its
token got what the body was decoded to, if it was. -/
structure EndedAlone (platform : Platform) (network : Network) (r r' : StocksRequest τ) : Prop where
  submission : r'.submission = r.submission
  exchange : r'.exchange = r.fate platform network
  notes : r'.notes = (r.outcome platform network).toOption.toList

/-- How far repeated calls that began at `p₀` have come: every fate is what it was. -/
structure FatesKept (platform : Platform) (callToken : τ → GetStocksListResponse → TokenCall τ)
    (networks : ℕ → Network) (p₀ p : StocksProcess τ) : Prop where
  sound : StocksSound platform callToken p
  kept : ∀ i, fates platform networks p i = fates platform networks p₀ i

variable {networks : ℕ → Network} {p₀ p p' : StocksProcess τ}

/-- Its request's network answers the operation that ends. -/
theorem HandlerStep.faces {env : Environment τ} (henv : EachFaces networks env)
    {h : Handler (StocksCompletion τ)} {k : ℕ} {r : StocksRequest τ} {stage : Stage}
    {new : List (StocksRequest τ)}
    (hstep : HandlerStep platform (StocksCompletion.call callToken) p h (env p).2 k r stage new)
    (hr : p.Runs (p.choice (env p).1) h) : (env p).2 = networks k r.exchange.trace := by
  rw [henv p h hr, hstep.handler, Handler.self_ofStage, traceOf, hstep.request, Option.elim_some]

/-- **The exceptions to come are owed**: each is thrown by its own request's last handler. -/
theorem owes_failures (hquiet : ∀ token response, (callToken token response).Quiet)
    (networks : ℕ → Network) (p₀ : StocksProcess τ) :
    Loop.Owes (execStocks platform callToken) (EachFaces networks)
      (FatesKept platform callToken networks p₀) (failures platform networks) where
  counted _ hp := hp.sound.counted
  stop _ hp := ⟨hp.sound.stop, hp.kept⟩
  idle p _ hpending := by rw [failures, hpending, List.map_nil, List.filterMap_nil]
  settle env henv p h hp hr := by
    obtain ⟨k, r, stage, new, hstep⟩ := hp.sound.exists_step hr (env p).2
    have hfaces := hstep.faces henv hr
    refine ⟨⟨hp.sound.settle (fun _ _ => isStocksAct_of_call) hr _, fun i => ?_⟩,
      hstep.failures_perm hquiet hfaces hr⟩
    rw [hstep.fates_eq hquiet hfaces, hp.kept]

/-- No request is added or forgotten. -/
theorem FatesKept.length_eq (hp : FatesKept platform callToken networks p₀ p) :
    p.state.requests.length = p₀.state.requests.length := by
  have hnone : ∀ i, p.state.requests.length ≤ i ↔ p₀.state.requests.length ≤ i := by
    intro i
    have hfates := congrArg Option.isSome (hp.kept i)
    rw [fates, fates, Option.isSome_map, Option.isSome_map] at hfates
    rw [← List.getElem?_eq_none_iff, ← List.getElem?_eq_none_iff,
      ← Option.not_isSome_iff_eq_none, ← Option.not_isSome_iff_eq_none, hfates]
  exact le_antisymm ((hnone _).mpr le_rfl) ((hnone _).mp le_rfl)

/-- A finished request has met its fate. -/
theorem FatesKept.endedAlone (hp : FatesKept platform callToken networks p₀ p)
    (hpending : p.context.pending = []) {i : ℕ} {r : StocksRequest τ}
    (hr : p₀.state.requests[i]? = some r) :
    ∃ r', p.state.requests[i]? = some r' ∧ EndedAlone platform (networks i) r r' := by
  have hfates := hp.kept i
  rw [fates, fates, hr, Option.map_some] at hfates
  obtain ⟨r', hr', heq⟩ := Option.map_eq_some_iff.mp hfates
  obtain ⟨hsubmission, hfate⟩ := Prod.mk.inj heq
  have hmem := List.mem_of_getElem? hr'
  have hdone := hp.sound.pending_eq_nil_iff.mp hpending r' hmem
  have hexchange : r'.exchange = r.fate platform (networks i) := by
    rw [← hfate, Request.fate, Exchange.finish_of_done (networks i) hdone]
  refine ⟨r', hr', hsubmission, hexchange, ?_⟩
  obtain ⟨-, htoken⟩ := submission_of_isStocksAct (hp.sound.requests r' hmem).allowed
  rw [hp.sound.notes_eq hmem, hdone, Option.isSome_none, if_neg Bool.false_ne_true, hexchange,
    Request.outcome, ← hsubmission, htoken]
  rfl

/-- `run_all` is called as often as `rs` is long, and ends each time as `rs` says; each request
faces its own network. -/
abbrev RunAllAgain (platform : Platform) (callToken : τ → GetStocksListResponse → TokenCall τ)
    (networks : ℕ → Network) :
    StocksProcess τ → List (Except Exception Unit) → StocksProcess τ → Prop :=
  Loop.Redrains (execStocks platform callToken) (EachFaces networks)

/-- The calls can be made, … -/
theorem exists_runAllAgain (hp : StocksReachable platform callToken p)
    (hlive : p.context.stopped = false)
    (hquiet : ∀ token response, (callToken token response).Quiet) (networks : ℕ → Network) :
    ∃ rs p', rs.length = (failures platform networks p).length + 1 ∧
      RunAllAgain platform callToken networks p rs p' :=
  Loop.exists_redrains (owes_failures hquiet networks p)
    (eachFaces_eachFacing networks fun _ => 0) (fun _ hq => exists_runAll hquiet hq.sound _)
    ⟨hp.sound, fun _ => rfl⟩ (.of_live hlive) _

/-- … and this is where they end. -/
theorem RunAllAgain.ends (hp : StocksReachable platform callToken p)
    (hlive : p.context.stopped = false)
    (hquiet : ∀ token response, (callToken token response).Quiet)
    {rs : List (Except Exception Unit)} (hrun : RunAllAgain platform callToken networks p rs p')
    (hlength : rs.length = (failures platform networks p).length + 1) :
    (∃ xs : List Exception, xs.Perm (failures platform networks p) ∧
      rs = xs.map .error ++ [.ok ()]) ∧
    p'.state.requests.length = p.state.requests.length ∧
    ∀ i r, p.state.requests[i]? = some r →
      ∃ r', p'.state.requests[i]? = some r' ∧ EndedAlone platform (networks i) r r' := by
  obtain ⟨hkept, hpending, hpaid⟩ := hrun.pays (owes_failures hquiet networks p)
    ⟨hp.sound, fun _ => rfl⟩ (.of_live hlive) hlength
  exact ⟨hpaid, hkept.length_eq, fun i r hr => hkept.endedAlone hpending hr⟩

/-- **The interleaving is irrelevant**: whatever the order in which operations end, and wherever an
exception makes the program call `run_all` again, the calls throw the exceptions of the bodies that
cannot be decoded, each once, the one after them returns, and every request has ended as it would
have alone. -/
theorem interleaving_irrelevant (hp : StocksReachable platform callToken p)
    (hlive : p.context.stopped = false)
    (hquiet : ∀ token response, (callToken token response).Quiet) (networks : ℕ → Network) :
    (∃ rs p', rs.length = (failures platform networks p).length + 1 ∧
      RunAllAgain platform callToken networks p rs p') ∧
    ∀ rs p', rs.length = (failures platform networks p).length + 1 →
      RunAllAgain platform callToken networks p rs p' →
      (∃ xs : List Exception, xs.Perm (failures platform networks p) ∧
        rs = xs.map .error ++ [.ok ()]) ∧
      p'.state.requests.length = p.state.requests.length ∧
      ∀ i r, p.state.requests[i]? = some r →
        ∃ r', p'.state.requests[i]? = some r' ∧ EndedAlone platform (networks i) r r' :=
  ⟨exists_runAllAgain hp hlive hquiet networks,
    fun _ _ hlength hrun => RunAllAgain.ends hp hlive hquiet hrun hlength⟩

/-- The networks of a server that answers the first request with an empty body. -/
def oneEmpty : ℕ → Network := fun i _ => { body := if i = 0 then [] else emptyListing }

/-- Two requests: one exception, and the second request is served by the call after it. -/
theorem interleaving_oneEmpty :
    ∃ p', RunAllAgain Platform.sample (fun _ _ => {}) oneEmpty twoInFlight
        [.error (.systemError incompleteJson), .ok ()] p' ∧ Called p' 1 := by
  have hfailures : failures Platform.sample oneEmpty twoInFlight
      = [.systemError incompleteJson] := by decide
  obtain ⟨⟨rs, p', hlength, hrun⟩, hall⟩ := interleaving_irrelevant reachable_twoInFlight rfl
    (fun _ _ => TokenCall.quiet_default) oneEmpty
  obtain ⟨⟨xs, hxs, rfl⟩, -, hended⟩ := hall rs p' hlength hrun
  rw [hfailures, List.perm_singleton] at hxs
  subst hxs
  obtain ⟨r, hr, hend⟩ := hended 1 _ rfl
  refine ⟨p', hrun, r, hr, ?_⟩
  rw [hend.notes]
  decide

/-! ## The same calls, one after the other

Both ways make the same objects, in the same order: the `i`-th request and the `i`-th
`get_stocks_list` have the same setup, and face the same network. -/

end Twelvedata
