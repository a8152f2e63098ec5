import MarketConnection.Rest.Requests

/-!
# Rest/RunAll — which requests one `run_all` serves

`run_all` gives up at the first exception that leaves a handler.  With tokens that neither throw
nor submit it comes to an end (`exists_runAll`), and the only exceptions are those of bodies that
cannot be decoded: **it serves every request in flight exactly when all their bodies are
acceptable** (`runAll_serves_iff`).
-/

namespace Twelvedata

open EventLoop

variable {τ : Type} {platform : Platform} {callToken : τ → GetStocksListResponse → TokenCall τ}

/-! ## Finished requests -/

/-- The request in place `i` is not finished. -/
def InFlight (p : StocksProcess τ) (i : ℕ) : Prop :=
  ∃ r, p.state.requests[i]? = some r ∧ r.exchange.inFlight ≠ none

/-- The token of the request in place `i` was called once. -/
def Called (p : StocksProcess τ) (i : ℕ) : Prop :=
  ∃ r, p.state.requests[i]? = some r ∧ r.notes.length = 1

/-- Nothing is pending once every request is finished, and only then. -/
theorem Sound.pending_eq_nil_iff {S F ν : Type} {invoke : F → Json → Invocation S F ν}
    {Allowed : Act S F → Prop} {p : Process S F ν} (hp : Sound platform invoke Allowed p) :
    p.context.pending = [] ↔ ∀ r ∈ p.state.requests, r.exchange.inFlight = none := by
  rw [← List.length_eq_zero_iff, hp.waiting.length_eq, length_waitingFrom, List.countP_eq_zero]
  simp

/-! ## One step

With quiet tokens a step is about one request: nothing is added, and the others stay as they are. -/

variable {p : StocksProcess τ} {h : Handler (StocksCompletion τ)} {c : Completion} {k : ℕ}
  {r : StocksRequest τ} {stage : Stage} {new : List (StocksRequest τ)}

/-- **Where a handler throws**: at the end of a read whose body is not acceptable, if tokens do not
throw. -/
theorem thrown_eq_none_iff (htoken : ∀ response,
      (callToken r.submission.completionToken.completionToken response).thrown = none) :
    (r.invocation platform (StocksCompletion.call callToken) stage c).thrown = none
      ↔ (stage = .read → Acceptable platform c.body) := by
  rcases stage with _ | _ | _ | _ | _
  case read =>
    rw [invocation_read, ← decodeBody_ok_iff r.submission.completionToken.order]
    rcases decodeBody platform r.submission.completionToken.order c.body with x | response
    · simp
    · simp [delivery, htoken response]
  all_goals exact iff_of_true rfl nofun

namespace HandlerStep

/-- A quiet token's handler submits nothing. -/
theorem new_eq_nil
    (hstep : HandlerStep platform (StocksCompletion.call callToken) p h c k r stage new)
    (hquiet : ∀ token response, (callToken token response).Quiet) : new = [] :=
  List.eq_nil_iff_forall_not_mem.mpr fun r' hr' =>
    invocation_submitless (fun response => (hquiet _ response).acts) stage c _
      (hstep.fresh r' hr').2

/-- …so its step changes the one place. -/
theorem requests_quiet
    (hstep : HandlerStep platform (StocksCompletion.call callToken) p h c k r stage new)
    (hquiet : ∀ token response, (callToken token response).Quiet) :
    (execStocks platform callToken c h p.state).state.requests
      = p.state.requests.set k (r.turn platform (StocksCompletion.call callToken) stage c) := by
  rw [hstep.requests, hstep.new_eq_nil hquiet, List.append_nil]

/-- …and the requests in other places are what they were. -/
theorem getElem?_other
    (hstep : HandlerStep platform (StocksCompletion.call callToken) p h c k r stage new)
    (hquiet : ∀ token response, (callToken token response).Quiet) {j : ℕ} (hj : j ≠ k) :
    (execStocks platform callToken c h p.state).state.requests[j]? = p.state.requests[j]? := by
  rw [hstep.requests_quiet hquiet]
  exact List.getElem?_set_ne hj.symm

/-- **A step that finishes its request without a throw has called the token.** -/
theorem called (hstep : HandlerStep platform (StocksCompletion.call callToken) p h c k r stage new)
    (hquiet : ∀ token response, (callToken token response).Quiet)
    (hp : StocksSound platform callToken p) {i : ℕ} (hr : p.Runs i h)
    (ht : (execStocks platform callToken c h p.state).thrown = none)
    (hdone : ¬ InFlight (p.settle i (execStocks platform callToken c h p.state)) k) :
    h.stage = .read ∧ Acceptable platform c.body ∧
      Called (p.settle i (execStocks platform callToken c h p.state)) k := by
  have hself := hstep.getElem?_self
  have hread : stage = .read := by
    refine Stage.next_eq_none_iff.mp (not_not.mp fun hnext => hdone ⟨_, hself, ?_⟩)
    rwa [Request.exchange_turn, Exchange.inFlight_advance]
  subst hread
  have haccept : Acceptable platform c.body :=
    (thrown_eq_none_iff fun response => (hquiet _ response).thrown).mp
      (hstep.thrown.symm.trans ht) rfl
  have hsound : StocksSound platform callToken
      (p.settle i (execStocks platform callToken c h p.state)) :=
    hp.settle (fun _ _ => isStocksAct_of_call) hr c
  refine ⟨by rw [hstep.handler, Handler.stage_ofStage], haccept, _, hself, ?_⟩
  exact (hsound.length_notes_eq_one_iff (List.mem_of_getElem? hself)).mpr
    ⟨Exchange.inFlight_advance _ _ _, haccept⟩

end HandlerStep

/-! ## Termination -/

/-- The stages a request has before it, the one in flight included. -/
def Stage.remaining : Stage → ℕ
  | resolve => 5
  | connect => 4
  | handshake => 3
  | write => 2
  | read => 1

/-- One more than the next stage has. -/
theorem Stage.remaining_eq (stage : Stage) :
    stage.remaining = stage.next.elim 0 remaining + 1 := by
  rcases stage <;> rfl

/-- The stages that are left to the requests in flight. -/
def stagesLeft (p : StocksProcess τ) : ℕ := (p.context.pending.map fun h => h.stage.remaining).sum

/-- **Each handler takes one stage away**, when tokens are quiet. -/
theorem stagesLeft_settle (hquiet : ∀ token response, (callToken token response).Quiet)
    (hp : StocksSound platform callToken p) {i : ℕ} (hr : p.Runs i h) (c : Completion) :
    stagesLeft (p.settle i (execStocks platform callToken c h p.state)) + 1 = stagesLeft p := by
  obtain ⟨k, r, stage, new, hstep⟩ := hp.exists_step hr c
  have hnew := hstep.new_eq_nil hquiet
  have hleft : stagesLeft p = h.stage.remaining
      + ((p.context.pending.eraseIdx i).map fun h => h.stage.remaining).sum := by
    rw [stagesLeft, (hr.perm.map fun h => h.stage.remaining).sum_nat, List.map_cons, List.sum_cons]
  have hwaits : (((r.turn platform (StocksCompletion.call callToken) stage c).waiting k).toList.map
      fun h => h.stage.remaining).sum = stage.next.elim 0 Stage.remaining := by
    rw [Request.waiting_turn]
    rcases stage.next <;> simp
  have hstage : h.stage = stage := by rw [hstep.handler, Handler.stage_ofStage]
  rw [hleft, hstage, stage.remaining_eq, stagesLeft, Loop.pending_settle, hstep.initiated, hnew,
    waitingFrom_nil, List.append_nil, List.map_append, List.sum_append, hwaits]
  omega

/-- **`run_all` ends**, when tokens are quiet. -/
theorem exists_runAll (hquiet : ∀ token response, (callToken token response).Quiet)
    (hp : StocksSound platform callToken p) (env : Environment τ) :
    ∃ p' res, RunAll platform callToken env p p' res :=
  Loop.exists_drains (I := StocksSound platform callToken) (m := stagesLeft)
    (fun _ hp => hp.counted)
    (fun _ _ hp hr _ => ⟨hp.settle (fun _ _ => isStocksAct_of_call) hr _,
      Nat.lt_of_succ_le (stagesLeft_settle hquiet hp hr _).le⟩) hp

/-! ## Which requests are served

A drain serves what it finishes (`ServedSince`): a handler that throws is the last it runs, so until
then every request that was finished had an acceptable body. -/

/-- The environment ends the read of the request in place `i` with `body i`. -/
def Answers (env : Environment τ) (body : ℕ → StdString) : Prop :=
  ∀ (p : StocksProcess τ) (h : Handler (StocksCompletion τ)),
    p.Runs (p.choice (env p).1) h → h.stage = .read → (env p).2.body = body h.self

/-- How far a drain that started at `p₀` has come: what it finished, it served. -/
structure ServedSince (platform : Platform) (callToken : τ → GetStocksListResponse → TokenCall τ)
    (p₀ : StocksProcess τ) (body : ℕ → StdString) (p : StocksProcess τ) : Prop where
  sound : StocksSound platform callToken p
  length : p.state.requests.length = p₀.state.requests.length
  started : ∀ i, InFlight p i → InFlight p₀ i
  served : ∀ i, InFlight p₀ i → ¬ InFlight p i → Acceptable platform (body i) ∧ Called p i

variable {p₀ : StocksProcess τ} {body : ℕ → StdString} {env : Environment τ}

/-- A handler that returns serves the request it finishes, if it finishes any. -/
theorem ServedSince.settle (hquiet : ∀ token response, (callToken token response).Quiet)
    (hbody : Answers env body) (hp : ServedSince platform callToken p₀ body p)
    (hr : p.Runs (p.choice (env p).1) h)
    (ht : (execStocks platform callToken (env p).2 h p.state).thrown = none) :
    ServedSince platform callToken p₀ body
      (p.settle (p.choice (env p).1) (execStocks platform callToken (env p).2 h p.state)) := by
  obtain ⟨k, r, stage, new, hstep⟩ := hp.sound.exists_step hr (env p).2
  refine ⟨hp.sound.settle (fun _ _ => isStocksAct_of_call) hr (env p).2, ?_, fun i hi => ?_,
    fun i hi hdone => ?_⟩
  · rw [Loop.state_settle, hstep.requests_quiet hquiet, List.length_set, hp.length]
  · rcases eq_or_ne i k with rfl | hik
    · exact hp.started i ⟨r, hstep.request, by simp [hstep.inFlight]⟩
    · rw [InFlight, Loop.state_settle, hstep.getElem?_other hquiet hik] at hi
      exact hp.started i hi
  · rcases eq_or_ne i k with rfl | hik
    · obtain ⟨hread, haccept, hcalled⟩ := hstep.called hquiet hp.sound hr ht hdone
      have hbodyi := hbody p h hr hread
      rw [hstep.handler, Handler.self_ofStage] at hbodyi
      exact ⟨hbodyi ▸ haccept, hcalled⟩
    · rw [InFlight, Loop.state_settle, hstep.getElem?_other hquiet hik] at hdone
      rw [Called, Loop.state_settle, hstep.getElem?_other hquiet hik]
      exact hp.served i hi hdone

/-- At its start a drain has served nothing. -/
theorem servedSince_self (hp : StocksSound platform callToken p₀) :
    ServedSince platform callToken p₀ body p₀ :=
  ⟨hp, rfl, fun _ => id, fun _ hi hdone => absurd hi hdone⟩

/-- **One `run_all` serves every request in flight exactly when all their bodies are acceptable**,
whatever the order in which operations end and the error codes they end with; and it does end. -/
theorem runAll_serves_iff (hp₀ : StocksReachable platform callToken p₀)
    (hlive : p₀.context.stopped = false)
    (hquiet : ∀ token response, (callToken token response).Quiet) (hbody : Answers env body) :
    ∃ p' res, RunAll platform callToken env p₀ p' res ∧
      ((res = .ok () ∧ ∀ i, InFlight p₀ i → Acceptable platform (body i) → Called p' i)
        ↔ ∀ i, InFlight p₀ i → Acceptable platform (body i)) := by
  obtain ⟨p', res, hrun⟩ := exists_runAll hquiet hp₀.sound env
  refine ⟨p', res, hrun, ?_⟩
  rcases hrun.invariant (I := ServedSince platform callToken p₀ body)
    (fun p hp _ _ => ⟨hp.sound.stop, hp.length, hp.started, hp.served⟩)
    (fun p h hp hr ht => hp.settle hquiet hbody hr ht) (servedSince_self hp₀.sound) with
    ⟨rfl, hp'⟩ | ⟨p, h, x, rfl, hp, hr, ht, rfl⟩
  · -- it returned: nothing is in flight any more
    have hdone : ∀ i, ¬ InFlight p' i := by
      have hpending := (hrun.stopped_of_ok hp₀.sound.counted).2 hlive
      rintro i ⟨r, hr, hs⟩
      exact hs ((hp'.sound.pending_eq_nil_iff.mp hpending) r (List.mem_of_getElem? hr))
    exact ⟨fun _ i hi => (hp'.served i hi (hdone i)).1,
      fun _ => ⟨rfl, fun i hi _ => (hp'.served i hi (hdone i)).2⟩⟩
  · -- it threw: the request whose handler threw was in flight, and its body is not acceptable
    refine iff_of_false (fun h => nomatch h.1) fun hall => ?_
    obtain ⟨k, r, stage, new, hstep⟩ := hp.sound.exists_step hr (env p).2
    have hnone : (r.invocation platform (StocksCompletion.call callToken) stage
        (env p).2).thrown = none := by
      refine (thrown_eq_none_iff fun response => (hquiet _ response).thrown).mpr fun hread => ?_
      have hbodyk := hbody p h hr (by rw [hstep.handler, Handler.stage_ofStage, hread])
      rw [hstep.handler, Handler.self_ofStage] at hbodyk
      rw [hbodyk]
      exact hall k (hp.started k ⟨r, hstep.request, by simp [hstep.inFlight]⟩)
    exact absurd (hnone.symm.trans (hstep.thrown.symm.trans ht)) nofun

/-- The environment that ends every operation well, with `body i` for the request in place `i`. -/
def answering (pick : StocksProcess τ → ℕ) (body : ℕ → StdString) : Environment τ := fun p =>
  (pick p, { body := (p.context.pending[p.choice (pick p)]?).elim [] fun h => body h.self })

theorem answers_answering (pick : StocksProcess τ → ℕ) (body : ℕ → StdString) :
    Answers (answering pick body) body := by
  intro p h hr _
  change (p.context.pending[p.choice (answering pick body p).1]?).elim [] (fun h => body h.self)
    = body h.self
  rw [hr.get, Option.elim_some]

/-- Two requests in flight. -/
def twoInFlight : StocksProcess Unit :=
  useStocks Platform.sample .sample (useStocks Platform.sample .sample Process.start)

theorem reachable_twoInFlight :
    StocksReachable Platform.sample (fun _ _ => {}) twoInFlight :=
  (StocksReachable.use Reachable.start .sample).use .sample

theorem runAll_serves_sample :
    ∃ p', RunAll Platform.sample (fun _ _ => {}) (answering (fun _ => 0) fun _ => emptyListing)
        twoInFlight p' (.ok ()) ∧ Called p' 0 ∧ Called p' 1 := by
  obtain ⟨p', res, hrun, hiff⟩ := runAll_serves_iff reachable_twoInFlight rfl
    (fun _ _ => TokenCall.quiet_default) (answers_answering (fun _ => 0) fun _ => emptyListing)
  obtain ⟨rfl, hcalled⟩ := hiff.mpr fun _ _ => acceptable_emptyListing
  exact ⟨p', hrun, hcalled 0 ⟨_, rfl, by decide⟩ acceptable_emptyListing,
    hcalled 1 ⟨_, rfl, by decide⟩ acceptable_emptyListing⟩

/-- An empty body for the first request, whose operations end first: the exception leaves
`run_all`, and the second request is not served. -/
theorem runAll_gives_up :
    ¬ ∀ (p : StocksProcess Unit) (env : Environment Unit) (body : ℕ → StdString),
      StocksReachable Platform.sample (fun _ _ => {}) p → p.context.stopped = false →
      Answers env body → ∀ p' res, RunAll Platform.sample (fun _ _ => {}) env p p' res →
        res = .ok () ∧ ∀ i, InFlight p i → Acceptable Platform.sample (body i) → Called p' i := by
  intro h
  let body : ℕ → StdString := fun i => if i = 0 then [] else emptyListing
  let env : Environment Unit :=
    answering (fun p => p.context.pending.findIdx fun h => h.self = 0) body
  have hdrain : ((twoInFlight.drain (execStocks Platform.sample fun _ _ => {}) env 5).map
      fun q => q.2.isOk) = some false := by decide
  obtain ⟨⟨p', res⟩, hrun, hres⟩ := Option.map_eq_some_iff.mp hdrain
  obtain ⟨rfl, -⟩ := h twoInFlight env body reachable_twoInFlight rfl
    (answers_answering _ body) p' res ⟨5, hrun⟩
  cases hres

end Twelvedata
