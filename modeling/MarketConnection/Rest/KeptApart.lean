import MarketConnection.Rest.Requests

/-!
# Rest/KeptApart — responses are never mixed up or duplicated

Any number of requests share one context, and their operations may end in any order.  **In every
reachable process they are kept apart** (`kept_apart`): what is pending for a request, what it
writes and what its token is called with come from the request's own call and its own stream, and a
request that dies by an exception dies alone.
-/

namespace Twelvedata

open EventLoop

variable {τ : Type} {platform : Platform} {callToken : τ → GetStocksListResponse → TokenCall τ}

/-- **Requests kept apart.** -/
structure KeptApart (platform : Platform) (callToken : τ → GetStocksListResponse → TokenCall τ)
    (p : StocksProcess τ) : Prop where
  /-- Each is finished, or exactly one operation is pending for it: that of its stage in flight,
  with its own target and token. -/
  pending : ∀ i r, p.state.requests[i]? = some r →
    p.context.pending.filter (fun h => h.self = i)
      = (r.exchange.inFlight.map (Handler.ofStage i r.call.target r.call.completion)).toList
  /-- The work counts the unfinished ones. -/
  work : p.context.outstandingWork
    = p.state.requests.countP fun r => r.exchange.inFlight.isSome
  /-- A write carries the target of its own call. -/
  written : ∀ r ∈ p.state.requests, ∀ request,
    Event.started (.write request) ∈ r.exchange.trace → request.target = r.call.target
  /-- A token is called at most once, … -/
  calledOnce : ∀ r ∈ p.state.requests, r.notes.length ≤ 1
  /-- … after the last stage, with what the body read on its own stream is decoded to. -/
  calledWith : ∀ r ∈ p.state.requests, ∀ response ∈ r.notes, r.exchange.inFlight = none ∧
    ∃ answer ec, Event.completed .read answer ec ∈ r.exchange.trace ∧
      decodeBody platform r.call.order.row answer.body = .ok response
  /-- A body that cannot be decoded finishes its own request, token not called, and changes
  nothing about any other. -/
  dies : ∀ i r pick c x, p.state.requests[i]? = some r → r.exchange.inFlight = some .read →
    p.context.stopped = false → (p.context.pending[p.choice pick]?).map Handler.self = some i →
    decodeBody platform r.call.order.row c.body = .error x →
    ∃ p' r', runOne platform callToken pick c p = some (p', .error x) ∧
      p'.state.requests = p.state.requests.set i r' ∧
      r'.exchange.inFlight = none ∧ r'.notes = [] ∧
      ∀ j, j ≠ i → j < p.state.requests.length →
        p'.context.pending.filter (fun h => h.self = j)
          = p.context.pending.filter (fun h => h.self = j)

namespace StocksSound

/-- The step of a body that cannot be decoded. -/
theorem dies {p : StocksProcess τ} (hp : StocksSound platform callToken p) {i pick : ℕ}
    {r : StocksRequest τ} {c : Completion} {x : Exception} (hr : p.state.requests[i]? = some r)
    (hs : r.exchange.inFlight = some .read) (hlive : p.context.stopped = false)
    (hpick : (p.context.pending[p.choice pick]?).map Handler.self = some i)
    (hx : decodeBody platform r.call.order.row c.body = .error x) :
    ∃ p' r', runOne platform callToken pick c p = some (p', .error x) ∧
      p'.state.requests = p.state.requests.set i r' ∧
      r'.exchange.inFlight = none ∧ r'.notes = [] ∧
      ∀ j, j ≠ i → j < p.state.requests.length →
        p'.context.pending.filter (fun h => h.self = j)
          = p.context.pending.filter (fun h => h.self = j) := by
  have hmem := List.mem_of_getElem? hr
  obtain ⟨-, htoken⟩ := submission_of_isStocksAct (hp.requests r hmem).allowed
  -- the handler picked is the one that waits for the request
  obtain ⟨h, hget, hself⟩ := Option.map_eq_some_iff.mp hpick
  have hwaits : h ∈ (r.waiting i).toList := by
    rw [← hp.filter_pending hr]
    exact List.mem_filter.mpr ⟨List.mem_of_getElem? hget, decide_eq_true hself⟩
  obtain ⟨stage, hstage, rfl⟩ := exists_of_waiting (Option.mem_toList.mp hwaits)
  obtain rfl : Stage.read = stage := Option.some.inj (hs.symm.trans hstage)
  have hruns : p.Runs (p.choice pick) _ := ⟨hlive, hget⟩
  have hinv : r.invocation platform (StocksCompletion.call callToken) .read c
      = { thrown := some x } := by
    rw [invocation_read, htoken, StocksCall.completion, hx]
  obtain ⟨w', hrequests, hexec⟩ := exec_of_quiet platform (StocksCompletion.call callToken) hr
    (by rw [hinv]; exact fun _ => List.not_mem_nil)
  have hsound := hp.settle (fun _ _ => isStocksAct_of_call) hruns c
  have hrun := Loop.runOne_of_throws hp.counted hruns hexec (by rw [hinv])
  rw [hexec] at hsound
  refine ⟨_, r.turn platform (StocksCompletion.call callToken) .read c, hrun, hrequests,
    Exchange.inFlight_advance _ c _, ?_, fun j hj hlt => ?_⟩
  · rw [Request.turn, hinv, (hp.requests r hmem).notes_of_inFlight hs]
    rfl
  · have hget := List.getElem?_eq_getElem hlt
    have hsame : w'.requests[j]? = some p.state.requests[j] := by
      rw [hrequests, List.getElem?_set_ne hj.symm, hget]
    rw [hp.filter_pending hget]
    exact hsound.filter_pending hsame

end StocksSound

/-- **Requests are kept apart**, in every reachable process. -/
theorem kept_apart {p : StocksProcess τ} (h : StocksReachable platform callToken p) :
    KeptApart platform callToken p where
  pending i r hr := by
    rw [h.sound.filter_pending hr, h.sound.waiting_eq (List.mem_of_getElem? hr)]
  work := h.sound.outstandingWork_eq
  written r hr request hmem := by
    obtain ⟨htarget, -⟩ := submission_of_isStocksAct (h.sound.requests r hr).allowed
    exact ((h.sound.requests r hr).dialogue.target_of_write request hmem).trans htarget
  calledOnce r hr := by
    rw [h.sound.notes_eq hr]
    split
    · exact Nat.zero_le 1
    · exact Option.length_toList_le
  calledWith r hr response hmem := by
    rw [h.sound.notes_eq hr] at hmem
    split at hmem
    · cases hmem
    · next hfinished =>
      have hnone : r.exchange.inFlight = none := by simpa using hfinished
      have hd := (h.sound.requests r hr).dialogue
      rw [hnone] at hd
      obtain ⟨answer, ec, hread, hbody⟩ := hd.read_of_finished
      rw [hbody] at hmem
      exact ⟨hnone, answer, ec, hread,
        Lists.eq_ok_of_toOption (Option.mem_toList.mp hmem)⟩
  dies _ _ _ _ _ hr hs hlive hpick hx := h.sound.dies hr hs hlive hpick hx

/-! ## Three requests -/

/-- Calls of `run_one`, one after the other, whatever they return or throw. -/
def afterRuns (platform : Platform) (callToken : τ → GetStocksListResponse → TokenCall τ)
    (runs : List (ℕ × Completion)) (p : StocksProcess τ) : Option (StocksProcess τ) :=
  runs.foldlM (fun p run => (runOne platform callToken run.1 run.2 p).map Prod.fst) p

theorem StocksReachable.afterRuns {runs : List (ℕ × Completion)} {p p' : StocksProcess τ}
    (h : StocksReachable platform callToken p)
    (hruns : afterRuns platform callToken runs p = some p') :
    StocksReachable platform callToken p' := by
  induction runs generalizing p with
  | nil =>
    obtain rfl := Option.some.inj hruns
    exact h
  | cons run runs ih =>
    rw [Twelvedata.afterRuns, List.foldlM_cons, Option.bind_eq_bind, Option.bind_eq_some_iff]
      at hruns
    obtain ⟨q, hq, hrest⟩ := hruns
    obtain ⟨⟨q, res⟩, hone, rfl⟩ := Option.map_eq_some_iff.mp hq
    exact ih (h.runOne hone) hrest

/-- A request for one symbol, with a token of its own. -/
def requestFor (symbol : StdString) (token : ℕ) : StocksAct ℕ :=
  .async (some (GetStocksListRequest.ofSymbol symbol)) "k".toList token ⟨1, fun _ => 1⟩

/-- Three requests, submitted one after the other. -/
def threeRequests : StocksProcess ℕ :=
  useStocks Platform.sample (requestFor "C".toList 2)
    (useStocks Platform.sample (requestFor "B".toList 1)
      (useStocks Platform.sample (requestFor "A".toList 0) Process.start))

theorem reachable_threeRequests :
    StocksReachable Platform.sample (fun _ _ => {}) threeRequests :=
  ((StocksReachable.use Reachable.start _).use _).use _

/-- Their stages end in turn up to the read; then the first is answered with a row, and the second
with nothing that could be parsed. -/
def threeRuns : List (ℕ × Completion) :=
  List.replicate 12 (0, ({} : Completion)) ++ [(0, { body := stockListing }), (0, { body := [] })]

/-- What there is to see of a request: its token, its stage, and the rows its token got. -/
def Request.summary (r : StocksRequest ℕ) : ℕ × Option Stage × List ℕ :=
  (r.call.completionToken, r.exchange.inFlight, r.notes.map fun response => response.data.length)

/-- The token of the first has been called with one row, the second is dead, and the third is at its
read: if it dies there as well, it dies alone. -/
theorem kept_apart_three : ∃ (p : StocksProcess ℕ) (r : StocksRequest ℕ),
    afterRuns Platform.sample (fun _ _ => {}) threeRuns threeRequests = some p ∧
    p.state.requests.map Request.summary = [(0, none, [1]), (1, none, []), (2, some .read, [])] ∧
    KeptApart Platform.sample (fun _ _ => {}) p ∧ p.state.requests[2]? = some r ∧
    ∃ p' r', runOne Platform.sample (fun _ _ => {}) 0 {} p
        = some (p', .error (.systemError incompleteJson)) ∧
      p'.state.requests = p.state.requests.set 2 r' ∧ r'.notes = [] := by
  have hruns : (afterRuns Platform.sample (fun _ _ => {}) threeRuns threeRequests).map
      (fun p => (p.state.requests.map Request.summary, p.context.stopped,
        p.context.pending.map Handler.self))
      = some ([(0, none, [1]), (1, none, []), (2, some .read, [])], false, [2]) := by decide +kernel
  obtain ⟨p, hp, hseen⟩ := Option.map_eq_some_iff.mp hruns
  obtain ⟨hsummary, hrest⟩ := Prod.mk.inj hseen
  obtain ⟨hlive, hpending⟩ := Prod.mk.inj hrest
  have hkept := kept_apart (reachable_threeRequests.afterRuns hp)
  -- the third request, and the operation that waits for it
  have hthird := congrArg (fun l => l[2]?) hsummary
  simp only [List.getElem?_map] at hthird
  obtain ⟨r, hr, hstage⟩ := Option.map_eq_some_iff.mp hthird
  have hread : r.exchange.inFlight = some .read := (Prod.mk.inj (Prod.mk.inj hstage).2).1
  have hpick : (p.context.pending[p.choice 0]?).map Handler.self = some 2 := by
    rw [← List.getElem?_map, hpending, Loop.choice, Nat.zero_mod]
    rfl
  have hbody : decodeBody Platform.sample r.call.order.row []
      = .error (.systemError incompleteJson) := by rfl
  obtain ⟨p', r', hrun, hrequests, -, hnotes, -⟩ :=
    hkept.dies 2 r 0 {} _ hr hread hlive hpick hbody
  exact ⟨p, r, hp, hsummary, hkept, hr, p', r', hrun, hrequests, hnotes⟩

end Twelvedata
