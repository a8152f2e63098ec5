import MarketConnection.Rest.Requests

/-!
# Rest/Agreement — the blocking and the asynchronous path agree

On a context without other work the loop has one operation to choose from, so `run_all` runs the
handlers of a lone request in a row (`LoneRun.goes_on`, `LoneRun.ends`), each one turn of its
dialogue.  `get_stocks_list` is that dialogue too: **facing the same network, the two paths do the
same and come to the same outcome** (`paths_agree`).
-/

namespace Twelvedata

open EventLoop

variable {τ : Type} {platform : Platform} {callToken : τ → GetStocksListResponse → TokenCall τ}

/-- The trace of the request in place `i`. -/
def traceOf (i : ℕ) (p : StocksProcess τ) : List Event :=
  (p.state.requests[i]?).elim [] fun r => r.exchange.trace

/-- The environment in which the request in place `i` faces `network`. -/
def facing (network : Network) (i : ℕ) (pick : StocksProcess τ → ℕ) : Environment τ :=
  fun p => (pick p, network (traceOf i p))

/-! ## A lone request

Earlier requests may have come and gone; all that matters of them is that they have no work. -/

variable {w : StocksWorld τ} {r r' : StocksRequest τ}

/-- The process in which the request `r`, submitted after those of `w`, is the only one with
work. -/
def lone (w : StocksWorld τ) (r : StocksRequest τ) : StocksProcess τ where
  state := { w with requests := w.requests ++ [r] }
  context :=
    { stopped := r.exchange.inFlight.isNone
      outstandingWork := (r.waiting w.requests.length).toList.length
      pending := (r.waiting w.requests.length).toList }

/-- Its work is counted. -/
theorem counted_lone : (lone w r).context.Counted := rfl

/-- It faces its network, wherever it stands. -/
theorem facing_lone (network : Network) (pick : StocksProcess τ → ℕ) :
    facing network w.requests.length pick (lone w r)
      = (pick (lone w r), network r.exchange.trace) := by
  simp [facing, traceOf, lone]

/-- There is no other choice. -/
theorem choice_lone {stage : Stage} (hs : r.exchange.inFlight = some stage) (pick : ℕ) :
    (lone w r).choice pick = 0 := by
  simp [Loop.choice, lone, Request.waiting, hs, Nat.mod_one]

/-- Its handler is the one that runs. -/
theorem runs_lone {stage : Stage} (hs : r.exchange.inFlight = some stage) :
    (lone w r).Runs 0 (Handler.ofStage w.requests.length r.submission.target
      r.submission.completionToken stage) := by
  refine ⟨?_, ?_⟩
  · simp [lone, hs]
  · simp [lone, Request.waiting, hs]

/-- **The step of a lone request**, if its token submits nothing: it is lone again. -/
theorem exists_step_lone (platform : Platform)
    (callToken : τ → GetStocksListResponse → TokenCall τ) (network : Network)
    (pick : StocksProcess τ → ℕ) (w : StocksWorld τ) {stage : Stage}
    (hs : r.exchange.inFlight = some stage)
    (hquiet : ∀ submission, Act.async submission ∉ (r.invocation platform
      (StocksCompletion.call callToken) stage (network r.exchange.trace)).acts) :
    ∃ f eff w', w'.requests = w.requests ∧
      (lone w r).Runs ((lone w r).choice (facing network w.requests.length pick (lone w r)).1) f ∧
      execStocks platform callToken (facing network w.requests.length pick (lone w r)).2 f
        (lone w r).state = eff ∧
      eff.thrown = (r.invocation platform (StocksCompletion.call callToken) stage
        (network r.exchange.trace)).thrown ∧
      (lone w r).settle ((lone w r).choice (facing network w.requests.length pick (lone w r)).1) eff
        = lone w' (r.turn platform (StocksCompletion.call callToken) stage
            (network r.exchange.trace)) := by
  have hget : (lone w r).state.requests[w.requests.length]? = some r := by simp [lone]
  obtain ⟨w₁, hrequests, hexec⟩ := exec_of_quiet platform (StocksCompletion.call callToken) hget
    hquiet
  have hsplit : w₁.requests = w.requests ++ [r.turn platform (StocksCompletion.call callToken)
      stage (network r.exchange.trace)] := by
    rw [hrequests]
    simp [lone]
  rw [choice_lone hs, facing_lone]
  refine ⟨_, _, { w₁ with requests := w.requests }, rfl, runs_lone hs, hexec, rfl, ?_⟩
  -- the state is that of a lone request again: the others were not touched
  have hstate : w₁ = { w₁ with requests := w.requests ++ [r.turn platform
      (StocksCompletion.call callToken) stage (network r.exchange.trace)] } := by rw [← hsplit]
  have hlone : lone { w₁ with requests := w.requests } (r.turn platform
      (StocksCompletion.call callToken) stage (network r.exchange.trace))
      = { state := w₁, context := _ } := congrArg (Loop.mk · _) hstate.symm
  rw [hlone, Loop.settle]
  refine congrArg (Loop.mk _) ?_
  -- and so is the context, which stops when there is no next stage
  rcases hn : stage.next with _ | next
  all_goals simp [lone, Request.waiting, hs, hn, Context.complete, Context.initiate,
    Context.workFinished]

/-! ## Its run

The run is put together from its end: what a stage leaves is a lone request, for which the rest of
the run is known. -/

/-- `run_all` takes the lone request `r`, submitted after `rs` and facing `network`, to `r'`. -/
def LoneRun (platform : Platform) (callToken : τ → GetStocksListResponse → TokenCall τ)
    (network : Network) (pick : StocksProcess τ → ℕ) (rs : List (StocksRequest τ))
    (r r' : StocksRequest τ) (res : Except Exception Unit) : Prop :=
  ∀ w : StocksWorld τ, w.requests = rs → ∃ w' : StocksWorld τ, w'.requests = rs ∧
    RunAll platform callToken (facing network rs.length pick) (lone w r) (lone w' r') res

variable {network : Network} {pick : StocksProcess τ → ℕ} {rs : List (StocksRequest τ)}

/-- How a call is left: by an exception, or normally. -/
def leaving : Option Exception → Except Exception Unit
  | none => .ok ()
  | some x => .error x

namespace LoneRun

/-- **A stage before the last, then the rest.** -/
theorem goes_on {stage next : Stage} {res : Except Exception Unit}
    (hs : r.exchange.inFlight = some stage) (hnext : stage.next = some next)
    (h : LoneRun platform callToken network pick rs
      (r.turn platform (StocksCompletion.call callToken) stage (network r.exchange.trace)) r' res) :
    LoneRun platform callToken network pick rs r r' res := by
  rintro w rfl
  have hinv := Request.invocation_of_next platform (StocksCompletion.call callToken) hnext
    (network r.exchange.trace) r
  obtain ⟨f, eff, w₁, hrequests, hruns, hexec, hthrown, hsettle⟩ := exists_step_lone platform
    callToken network pick w hs (by rw [hinv]; exact fun _ => List.not_mem_nil)
  rw [hinv] at hthrown
  obtain ⟨w', hrequests', hrest⟩ := h w₁ hrequests
  rw [← hsettle] at hrest
  exact ⟨w', hrequests', .of_runs counted_lone hruns hexec hthrown hrest⟩

/-- **The last stage**: the call returns, or the exception leaves it. -/
theorem ends (hs : r.exchange.inFlight = some .read)
    (hacts : ∀ response,
      (callToken r.submission.completionToken.completionToken response).Submitless) :
    LoneRun platform callToken network pick rs r
      (r.turn platform (StocksCompletion.call callToken) .read (network r.exchange.trace))
      (leaving (r.invocation platform (StocksCompletion.call callToken) .read
        (network r.exchange.trace)).thrown) := by
  rintro w rfl
  obtain ⟨f, eff, w', hrequests, hruns, hexec, hthrown, hsettle⟩ := exists_step_lone platform
    callToken network pick w hs (invocation_submitless hacts .read (network r.exchange.trace))
  rw [← hthrown]
  rcases ht : eff.thrown with _ | x
  · -- the last operation is gone, and the next `run_one` finds the context stopped
    refine ⟨w', hrequests, .of_runs counted_lone hruns hexec ht ?_⟩
    rw [hsettle]
    exact .of_stopped (congrArg Option.isNone (Exchange.inFlight_advance _ _ _))
  · -- the exception leaves the call; the context has stopped all the same
    refine ⟨w', hrequests, ?_⟩
    rw [← hsettle]
    exact .of_throws counted_lone hruns hexec ht

end LoneRun

/-- **How the call that serves a lone request ends**, when its body is decoded to `decoded`: the
responses its token was called with, and how the call is left. -/
def Concludes (callToken : τ → GetStocksListResponse → TokenCall τ) (token : τ)
    (decoded : Except Exception GetStocksListResponse) (notes : List GetStocksListResponse)
    (res : Except Exception Unit) : Prop :=
  match decoded with
  | .ok response => notes = [response] ∧ res = leaving (callToken token response).thrown
  | .error x => notes = [] ∧ res = .error x

/-- **The run of a lone request is its dialogue**, and its token gets what the body is decoded
to. -/
theorem LoneRun.converse (platform : Platform) (r : StocksRequest τ)
    (hs : r.exchange.inFlight = some .resolve) (hnotes : r.notes = [])
    (hacts : ∀ response,
      (callToken r.submission.completionToken.completionToken response).Submitless)
    (network : Network) (pick : StocksProcess τ → ℕ) (rs : List (StocksRequest τ)) :
    ∃ r' res, LoneRun platform callToken network pick rs r r' res ∧
      r'.exchange = r.exchange.converse platform network r.submission.target ∧
      Concludes callToken r.submission.completionToken.completionToken
        (decodeBody platform r.submission.completionToken.order r'.exchange.object.readResponse)
        r'.notes res := by
  -- the five stages, each answered from what was done before
  let turn (stage : Stage) (r : StocksRequest τ) : StocksRequest τ :=
    r.turn platform (StocksCompletion.call callToken) stage (network r.exchange.trace)
  let last := turn .write (turn .handshake (turn .connect (turn .resolve r)))
  have hlast : last.notes = [] := by
    change (((r.notes ++ []) ++ []) ++ []) ++ [] = []
    simp only [hnotes, List.append_nil]
  have hinv := invocation_read platform callToken (network last.exchange.trace) last
  refine ⟨turn .read last, _, .goes_on hs rfl (.goes_on (Exchange.inFlight_advance _ _ _) rfl
    (.goes_on (Exchange.inFlight_advance _ _ _) rfl (.goes_on (Exchange.inFlight_advance _ _ _) rfl
      (.ends (Exchange.inFlight_advance _ _ _) hacts)))), rfl, ?_⟩
  have hread : (turn .read last).notes = (last.invocation platform
      (StocksCompletion.call callToken) .read (network last.exchange.trace)).notes := by
    change last.notes ++ _ = _
    rw [hlast, List.nil_append]
  generalize hbody : decodeBody platform last.submission.completionToken.order
    (network last.exchange.trace).body = decoded at hinv
  change decodeBody platform r.submission.completionToken.order
    (turn .read last).exchange.object.readResponse = decoded at hbody
  rw [hbody, hread, hinv]
  rcases decoded with x | response
  · exact ⟨rfl, rfl⟩
  · exact ⟨rfl, rfl⟩

/-- A request just submitted to an idle context is alone. -/
theorem submit_lone (platform : Platform) {p : StocksProcess τ} (hc : p.context.Counted)
    (hlive : p.context.stopped = false) (hidle : p.context.outstandingWork = 0)
    (call : StocksCall τ) :
    useStocks platform (.async (some call.request) call.apikey call.completionToken call.order) p
      = lone p.state (call.submitted platform p.state.constructed) := by
  obtain ⟨state, stopped, work, pending⟩ := p
  obtain rfl : stopped = false := hlive
  obtain rfl : work = 0 := hidle
  obtain rfl : pending = [] := List.length_eq_zero_iff.mp hc.symm
  simp [useStocks_async, lone, StocksCall.submitted, Request.waiting, Context.initiate]

/-- **A request submitted to an idle context is served by one `run_all`**, which leaves the context
stopped. -/
theorem exists_runAll_submitted (platform : Platform) {p : StocksProcess τ}
    (hc : p.context.Counted) (hlive : p.context.stopped = false)
    (hidle : p.context.outstandingWork = 0) (call : StocksCall τ)
    (hacts : ∀ response, (callToken call.completionToken response).Submitless) (network : Network)
    (pick : StocksProcess τ → ℕ) :
    ∃ (p' : StocksProcess τ) (r : StocksRequest τ) (res : Except Exception Unit),
      RunAll platform callToken (facing network p.state.requests.length pick)
        (useStocks platform
          (.async (some call.request) call.apikey call.completionToken call.order) p) p' res ∧
      p'.state.requests = p.state.requests ++ [r] ∧ p'.context.Counted ∧
      p'.context.stopped = true ∧
      r.exchange = (call.submitted platform p.state.constructed).exchange.converse platform network
        call.target ∧
      Concludes callToken call.completionToken
        (decodeBody platform call.order.row r.exchange.object.readResponse) r.notes res := by
  obtain ⟨r, res, hrun, hexchange, hresult⟩ := LoneRun.converse platform
    (call.submitted platform p.state.constructed) (inFlight_opened _) rfl hacts network pick
    p.state.requests
  obtain ⟨w', hrequests, hrun⟩ := hrun p.state rfl
  rw [← submit_lone platform hc hlive hidle call] at hrun
  have hdone : r.exchange.inFlight = none := by rw [hexchange, Exchange.inFlight_converse]
  exact ⟨_, r, res, hrun, congrArg (· ++ [r]) hrequests, counted_lone,
    congrArg Option.isNone hdone, hexchange, hresult⟩

/-! ## Agreement -/

/-- **The two paths agree on a call**, facing the same network: they do the same, and either both
deliver the same response or both throw the same. -/
def PathsAgree (platform : Platform) (callToken : τ → GetStocksListResponse → TokenCall τ)
    (p : StocksProcess τ) (call : StocksCall τ) (network : Network)
    (pick : StocksProcess τ → ℕ) : Prop :=
  ∃ p' r e res,
    RunAll platform callToken (facing network p.state.requests.length pick)
      (useStocks platform
        (.async (some call.request) call.apikey call.completionToken call.order) p) p' res ∧
    p'.state.requests = p.state.requests ++ [r] ∧
    (getStocksList platform call.request call.apikey call.order network p.state).2.blocking
      = p.state.blocking ++ [e] ∧
    r.exchange.trace = e.trace ∧
    (∀ response,
      (getStocksList platform call.request call.apikey call.order network p.state).1
          = .ok response ↔
        r.notes = [response] ∧ res = .ok ()) ∧
    (∀ x,
      (getStocksList platform call.request call.apikey call.order network p.state).1 = .error x ↔
        r.notes = [] ∧ res = .error x)

/-- **The two paths agree**, for every request, key, order of visits and network, on a context
with no other work. -/
theorem paths_agree {p : StocksProcess τ} (h : StocksReachable platform callToken p)
    (hlive : p.context.stopped = false) (hidle : p.context.outstandingWork = 0)
    (call : StocksCall τ)
    (hquiet : ∀ response, (callToken call.completionToken response).Quiet) (network : Network)
    (pick : StocksProcess τ → ℕ) : PathsAgree platform callToken p call network pick := by
  obtain ⟨p', r, res, hrun, hrequests, -, -, hexchange, hresult⟩ := exists_runAll_submitted platform
    h.sound.counted hlive hidle call (fun response => (hquiet response).acts) network pick
  have hsync := getStocksList_eq platform call.request call.apikey call.order network p.state
  refine ⟨p', r, _, res, hrun, hrequests, by rw [hsync], by rw [hexchange]; rfl, ?_⟩
  have hbody : (getStocksList platform call.request call.apikey call.order network p.state).1
      = decodeBody platform call.order.row r.exchange.object.readResponse := by
    rw [hsync, hexchange]
    rfl
  rw [hbody]
  generalize decodeBody platform call.order.row r.exchange.object.readResponse = decoded
    at hresult ⊢
  rcases decoded with x | response
  · obtain ⟨hnotes, rfl⟩ := hresult
    simp [hnotes]
  · obtain ⟨hnotes, hres⟩ := hresult
    rw [(hquiet response).thrown, leaving] at hres
    simp [hnotes, hres]

/-- The first request of a program, answered with the listing of no stocks. -/
theorem paths_agree_sample : PathsAgree Platform.sample (fun _ _ => {}) Process.start .sample
    (fun _ => { body := emptyListing }) (fun _ => 0) :=
  paths_agree Reachable.start rfl rfl .sample (fun _ => TokenCall.quiet_default) _ _

end Twelvedata
