import MarketConnection.Rest.Forest
import MarketConnection.Rest.Service

/-!
# Rest/Termination — when `run_all` ends, whatever happens

A token may submit a request, and the token of that one again: a program that polls.  `Begets` is
the relation between a completion and those of the requests its token may submit, and `run_all` can
only be kept going along a chain of it.

**`run_all` ends in every environment exactly when no such chain starts at a request in flight and
goes on for ever** (`runAll_ends_iff`), or the context is stopped.  When there is none, submissions
go down in `Begets`, whichever operation ends next.  When there is one, an environment follows it:
it lets only the request end that the chain has come to, and answers it with the body that begets
the next one.
-/

namespace Twelvedata

open EventLoop

variable {τ : Type} {platform : Platform} {callToken : τ → GetStocksListResponse → TokenCall τ}
  {p : StocksProcess τ}

/-! ## What comes of what -/

/-- **The completion `child` may come of `parent`**: about some body the token of `parent` returns,
having submitted the request of `child`. -/
def Begets (platform : Platform) (callToken : τ → GetStocksListResponse → TokenCall τ)
    (child parent : StocksCompletion τ) : Prop :=
  ∃ (body : StdString) (response : GetStocksListResponse),
    decodeBody platform parent.order body = .ok response ∧
    (callToken parent.completionToken response).thrown = none ∧
    ∃ submission ∈ (callToken parent.completionToken response).submissions,
      submission.completionToken = child

/-- A chain that starts at `completion` and goes on for ever. -/
def Endless (platform : Platform) (callToken : τ → GetStocksListResponse → TokenCall τ)
    (completion : StocksCompletion τ) : Prop :=
  ∃ chain : ℕ → StocksCompletion τ, chain 0 = completion ∧
    ∀ n, Begets platform callToken (chain (n + 1)) (chain n)

theorem endless_iff {completion : StocksCompletion τ} :
    Endless platform callToken completion ↔ ¬ Acc (Begets platform callToken) completion :=
  not_acc_iff_exists_descending_chain.symm

/-- What a handler that returns submits, it begets. -/
theorem begets_of_invocation {r : StocksRequest τ} {stage : Stage} {c : Completion}
    {submission : StocksSubmission τ}
    (ht : (r.invocation platform (StocksCompletion.call callToken) stage c).thrown = none)
    (hmem : Act.async submission
      ∈ (r.invocation platform (StocksCompletion.call callToken) stage c).acts) :
    Begets platform callToken submission.completionToken r.submission.completionToken := by
  obtain ⟨response, hbody, hsub⟩ := mem_submissions_of_invocation hmem
  rcases stage with _ | _ | _ | _ | _
  case read =>
    rw [invocation_read, hbody] at ht
    exact ⟨c.body, response, hbody, ht, submission, hsub, rfl⟩
  all_goals exact absurd hmem List.not_mem_nil

/-! ## Along an endless chain -/

/-- A live process in which an endless chain starts at a request in flight. -/
structure Chained (platform : Platform) (callToken : τ → GetStocksListResponse → TokenCall τ)
    (p : StocksProcess τ) : Prop where
  sound : StocksSound platform callToken p
  live : p.context.stopped = false
  endless : ∃ (k : ℕ) (r : StocksRequest τ) (stage : Stage), p.state.requests[k]? = some r ∧
    r.exchange.inFlight = some stage ∧
    ¬ Acc (Begets platform callToken) r.submission.completionToken

/-- A process with a request in flight is live after a step. -/
theorem live_settle {j k : ℕ} {h : Handler (StocksCompletion τ)} {c : Completion}
    {r : StocksRequest τ} {stage : Stage} (hp : StocksSound platform callToken p)
    (hr : p.Runs j h)
    (hk : (p.settle j (execStocks platform callToken c h p.state)).state.requests[k]? = some r)
    (hs : r.exchange.inFlight = some stage) :
    (p.settle j (execStocks platform callToken c h p.state)).context.stopped = false := by
  refine Bool.eq_false_iff.mpr fun hstopped => ?_
  have hidle := (Loop.stopped_settle hp.counted hr.live hr.lt _).mp hstopped
  have hsound := hp.settle (fun _ _ => isStocksAct_of_call) hr c
  have hdone := hsound.pending_eq_nil_iff.mp hidle r (List.mem_of_getElem? hk)
  rw [hs] at hdone
  cases hdone

/-- **A chain can be followed one step further.** -/
theorem Chained.step (hp : Chained platform callToken p) :
    ∃ (pick : ℕ) (c : Completion) (h : Handler (StocksCompletion τ)), p.Runs (p.choice pick) h ∧
      (execStocks platform callToken c h p.state).thrown = none ∧
      Chained platform callToken
        (p.settle (p.choice pick) (execStocks platform callToken c h p.state)) := by
  obtain ⟨k, r, stage, hk, hs, hacc⟩ := hp.endless
  obtain ⟨child, hchild, body, response, hbody, ht, submission, hsub, rfl⟩ :=
    exists_not_acc_lt_of_not_acc hacc
  obtain ⟨pick, h, new, hruns, hstep⟩ :=
    exists_pick hp.sound hp.live hk hs ({ body := body } : Completion)
  refine ⟨pick, { body := body }, h, hruns, ?_⟩
  have hsound := hp.sound.settle (fun _ _ => isStocksAct_of_call) hruns { body := body }
  by_cases hread : stage = .read
  · -- the token submits the next one
    subst hread
    have hinv := invocation_read platform callToken { body := body } r
    rw [hbody] at hinv
    have hnew : submission ∈ new.map Request.submission := by
      rw [hstep.map_submission_new, hinv]
      exact hsub
    obtain ⟨r', hr', rfl⟩ := List.mem_map.mp hnew
    obtain ⟨i, hi⟩ := List.mem_iff_getElem?.mp hr'
    have hplace : (p.settle (p.choice pick)
        (execStocks platform callToken { body := body } h p.state)).state.requests[
          p.state.requests.length + i]? = some r' := by
      rw [Loop.state_settle, hstep.getElem?_of_le (Nat.le_add_right _ _), Nat.add_sub_cancel_left,
        hi]
    have hflight := (hstep.fresh r' hr').1.inFlight
    refine ⟨?_, hsound, live_settle hp.sound hruns hplace hflight,
      ⟨_, r', _, hplace, hflight, hchild⟩⟩
    rw [hstep.thrown, hinv]
    exact ht
  · -- the request goes on to its next stage
    obtain ⟨next, hnext⟩ := Option.ne_none_iff_exists'.mp (mt Stage.next_eq_none_iff.mp hread)
    have hflight : (r.turn platform (StocksCompletion.call callToken) stage
        { body := body }).exchange.inFlight = some next := by
      rw [Request.exchange_turn, Exchange.inFlight_advance, hnext]
    have hplace := hstep.getElem?_self
    refine ⟨?_, hsound, live_settle hp.sound hruns hplace hflight,
      ⟨k, _, next, hplace, hflight, hacc⟩⟩
    rw [hstep.thrown, Request.invocation_of_next platform _ hnext]

/-- **When `run_all` ends, whatever happens**: it ends in every environment — in whatever order
operations end, and whatever they end with — exactly when the context is stopped or no chain of
completions that beget one another starts at a request in flight and goes on for ever. -/
theorem runAll_ends_iff (hp : StocksReachable platform callToken p) :
    (∀ env : Environment τ, ∃ p' res, RunAll platform callToken env p p' res) ↔
      (p.context.stopped = false → ∀ r ∈ p.state.requests, r.exchange.inFlight ≠ none →
        ¬ Endless platform callToken r.submission.completionToken) := by
  constructor
  · intro hends hlive r hr hflight hendless
    obtain ⟨k, hk⟩ := List.mem_iff_getElem?.mp hr
    obtain ⟨stage, hs⟩ := Option.ne_none_iff_exists'.mp hflight
    have hchained : Chained platform callToken p :=
      ⟨hp.sound, hlive, k, r, stage, hk, hs, endless_iff.mp hendless⟩
    obtain ⟨env, hforever⟩ :=
      Loop.exists_env_forever (fun _ hJ => hJ.sound.counted) (fun _ hJ => hJ.step) hchained
    obtain ⟨p', res, hrun⟩ := hends env
    exact hforever p' res hrun
  · intro hends env
    rcases hlive : p.context.stopped with _ | _
    · exact exists_runAll_of_acc (fun _ _ _ _ => begets_of_invocation) hp.sound
        fun r hr hflight => not_not.mp (mt endless_iff.mpr (hends hlive r hr hflight))
    · exact ⟨p, .ok (), .of_stopped hlive⟩

/-! ## A program that polls -/

/-- A request whose token is `poll`'s. -/
def pollRequest : StocksAct Unit :=
  .async (some StocksCall.sample.request) StocksCall.sample.apikey () StocksCall.sample.order

/-- Each token submits the next request. -/
def poll (_ : Unit) (_ : GetStocksListResponse) : TokenCall Unit := { acts := [pollRequest] }

/-- A server can keep a program that polls in `run_all`. -/
theorem runAll_ends_poll : ∃ env : Environment Unit, ∀ p' res,
    ¬ RunAll Platform.sample poll env (useStocks Platform.sample pollRequest Process.start) p'
      res := by
  have hp : StocksReachable Platform.sample poll
      (useStocks Platform.sample pollRequest Process.start) := StocksReachable.use Reachable.start _
  have hbegets : ∀ completion : StocksCompletion Unit,
      Begets Platform.sample poll ⟨(), StocksCall.sample.order.row⟩ completion := by
    intro completion
    obtain ⟨response, hresponse⟩ :=
      (decodeBody_ok_iff completion.order).mpr acceptable_emptyListing
    exact ⟨emptyListing, response, hresponse, rfl, _, List.mem_singleton_self _, rfl⟩
  have hendless : Endless Platform.sample poll ⟨(), StocksCall.sample.order.row⟩ :=
    ⟨fun _ => ⟨(), StocksCall.sample.order.row⟩, rfl, fun _ => hbegets _⟩
  have hnot := mt (runAll_ends_iff hp).mp fun hends =>
    hends rfl _ (List.mem_singleton_self _) (Option.some_ne_none _) hendless
  obtain ⟨env, hforever⟩ := not_forall.mp hnot
  exact ⟨env, fun p' res hrun => hforever ⟨p', res, hrun⟩⟩

end Twelvedata
