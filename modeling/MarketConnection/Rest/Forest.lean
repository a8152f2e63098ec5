import MarketConnection.Rest.RunAll

/-!
# Rest/Forest — one `run_all` serves the requests that tokens submit

A token may submit requests, whose tokens submit more: what a `run_all` has to serve is a forest
that grows while it runs.  Nothing counts down, but a handler leaves behind only later stages of its
own request and first stages of requests its token submits (`rank_initiated`), so the drain ends
whenever the tokens form no infinite chain (`exists_runAll_of_acc`, `exists_runAll_forest`).

The context cannot stop on the way: a token's requests are counted before its own is released.  So
**when no handler throws, the drain runs the five stages of every request of the forest, in order,
calls every token once and leaves nothing pending** (`runAll_serves_forest`).
-/

namespace Twelvedata

open EventLoop

variable {τ : Type} {platform : Platform} {callToken : τ → GetStocksListResponse → TokenCall τ}

/-! ## The forest -/

/-- The caller's token of a submission. -/
abbrev Submission.token (submission : StocksSubmission τ) : τ :=
  submission.completionToken.completionToken

/-- The requests the token of `r` submitted, by the time `r` is looked at. -/
def children (callToken : τ → GetStocksListResponse → TokenCall τ) (r : StocksRequest τ) :
    List (StocksSubmission τ) :=
  r.notes.flatMap fun response => (callToken r.submission.token response).submissions

/-- **The token `parent` may submit a request with the token `child`**: it does when it is called
with some response that the environment's answers are decoded to. -/
def Submits (platform : Platform) (callToken : τ → GetStocksListResponse → TokenCall τ)
    (env : Environment τ) (child parent : τ) : Prop :=
  ∃ (p : StocksProcess τ) (order : ℕ → Unsequenced.Order responseFields.length)
    (response : GetStocksListResponse), decodeBody platform order (env p).2.body = .ok response ∧
      ∃ submission ∈ (callToken parent response).submissions, submission.token = child

/-- The tokens of the requests in flight start a finite forest: no chain of submissions from one of
them goes on for ever. -/
def FiniteForest (platform : Platform) (callToken : τ → GetStocksListResponse → TokenCall τ)
    (env : Environment τ) (p : StocksProcess τ) : Prop :=
  ∀ r ∈ p.state.requests, r.exchange.inFlight ≠ none →
    Acc (Submits platform callToken env) r.submission.token

/-! ## What a token submits -/

section Invocation

variable {r : StocksRequest τ} {stage : Stage} {c : Completion}

/-- **After a request's turn its children are what the turn submitted.** -/
theorem children_turn (hnotes : r.notes = []) :
    children callToken (r.turn platform (StocksCompletion.call callToken) stage c)
      = (r.invocation platform (StocksCompletion.call callToken) stage c).acts.filterMap
          Act.submission? := by
  rw [children, Request.turn, hnotes, List.nil_append]
  rcases stage with _ | _ | _ | _ | _
  case read =>
    rw [invocation_read]
    rcases decodeBody platform r.submission.completionToken.order c.body with x | response
    · rfl
    · exact List.flatMap_singleton ..
  all_goals rfl

/-- A turn that finishes a request without a throw has called its token. -/
theorem length_notes_turn (hnotes : r.notes = []) (hlast : stage.next = none)
    (ht : (r.invocation platform (StocksCompletion.call callToken) stage c).thrown = none) :
    (r.turn platform (StocksCompletion.call callToken) stage c).notes.length = 1 := by
  obtain rfl := Stage.next_eq_none_iff.mp hlast
  rw [Request.turn, hnotes, List.nil_append]
  rw [invocation_read] at ht ⊢
  rcases hbody : decodeBody platform r.submission.completionToken.order c.body with x | response
  · rw [hbody] at ht
    cases ht
  · rfl

end Invocation

/-! ## Termination -/

section Descent

variable {env : Environment τ} {R : StocksCompletion τ → StocksCompletion τ → Prop}

/-- **Submissions go down in `R`**: what a handler that returns submits is below its own request. -/
def Descends (platform : Platform) (callToken : τ → GetStocksListResponse → TokenCall τ)
    (env : Environment τ) (R : StocksCompletion τ → StocksCompletion τ → Prop) : Prop :=
  ∀ (p : StocksProcess τ) (r : StocksRequest τ) (stage : Stage) (submission : StocksSubmission τ),
    (r.invocation platform (StocksCompletion.call callToken) stage (env p).2).thrown = none →
    Act.async submission
      ∈ (r.invocation platform (StocksCompletion.call callToken) stage (env p).2).acts →
    R submission.completionToken r.submission.completionToken

/-- The rank of an operation: the completion its chain ends with, and the stages it has before
it. -/
def rank (h : Handler (StocksCompletion τ)) : StocksCompletion τ × ℕ :=
  (h.completionToken, h.stage.remaining)

/-- **A handler that returns only initiates smaller operations**: later stages of its own request,
and whatever its token submits. -/
theorem rank_initiated (hR : Descends platform callToken env R) {p : StocksProcess τ} {i : ℕ}
    {h : Handler (StocksCompletion τ)} (hp : StocksSound platform callToken p) (hr : p.Runs i h)
    (ht : (execStocks platform callToken (env p).2 h p.state).thrown = none) :
    ∀ h' ∈ (execStocks platform callToken (env p).2 h p.state).initiated,
      Prod.Lex R (· < ·) (rank h') (rank h) := by
  obtain ⟨k, r, stage, new, hstep⟩ := hp.exists_step hr (env p).2
  intro h' hh'
  rw [hstep.initiated, Request.waiting_turn] at hh'
  have hrank : rank h = (r.submission.completionToken, stage.remaining) := by
    rw [hstep.handler, rank, Handler.completionToken_ofStage, Handler.stage_ofStage]
  rw [hrank]
  rcases List.mem_append.mp hh' with hh' | hh'
  · -- the next stage of the same request
    obtain ⟨next, hnext, rfl⟩ := Option.map_eq_some_iff.mp (Option.mem_toList.mp hh')
    rw [rank, Handler.completionToken_ofStage, Handler.stage_ofStage, stage.remaining_eq, hnext]
    exact .right _ (Nat.lt_succ_self _)
  · -- the first stage of a request the token submitted
    obtain ⟨⟨r', j⟩, hj, hw⟩ := List.mem_flatMap.mp hh'
    obtain ⟨stage', -, rfl⟩ := exists_of_waiting (Option.mem_toList.mp hw)
    rw [rank, Handler.completionToken_ofStage]
    exact .left _ _ (hR p r stage r'.submission (hstep.thrown.symm.trans ht)
      (hstep.fresh r' (List.fst_mem_of_mem_zipIdx hj)).2)

/-- **`run_all` ends when submissions go down in a relation** that has no infinite descent from a
request in flight. -/
theorem exists_runAll_of_acc (hR : Descends platform callToken env R) {p : StocksProcess τ}
    (hp : StocksSound platform callToken p)
    (hacc : ∀ r ∈ p.state.requests, r.exchange.inFlight ≠ none →
      Acc R r.submission.completionToken) :
    ∃ p' res, RunAll platform callToken env p p' res := by
  refine Loop.exists_drains_of_smaller rank (I := StocksSound platform callToken)
    (r := Prod.Lex R (· < ·)) (fun _ hp => hp.counted) (fun q h hq hr ht => ?_) hp fun h hh => ?_
  · exact ⟨hq.settle (fun _ _ => isStocksAct_of_call) hr _, rank_initiated hR hq hr ht⟩
  · obtain ⟨k, r, hk, hw⟩ := mem_waitingFrom.mp (hp.waiting.mem_iff.mp hh)
    obtain ⟨stage, hs, rfl⟩ := exists_of_waiting hw
    rw [rank, Handler.completionToken_ofStage]
    exact Prod.lexAccessible
      (hacc r (List.mem_of_getElem? hk) (hs ▸ Option.some_ne_none _)) Nat.lt_wfRel.wf.apply _

end Descent

/-- **`run_all` ends on a finite forest**, by a return or by an exception. -/
theorem exists_runAll_forest {env : Environment τ} {p : StocksProcess τ}
    (hp : StocksSound platform callToken p) (hforest : FiniteForest platform callToken env p) :
    ∃ p' res, RunAll platform callToken env p p' res := by
  refine exists_runAll_of_acc
    (R := InvImage (Submits platform callToken env) StocksCompletion.completionToken)
    (fun q r stage submission _ hmem => ?_) hp
    fun r hr hflight => InvImage.accessible _ (hforest r hr hflight)
  obtain ⟨response, hbody, hsub⟩ := mem_submissions_of_invocation hmem
  exact ⟨q, _, response, hbody, submission, hsub, rfl⟩

/-! ## The stages run, and those still due -/

/-- The stages that the handlers `hs` ran for the request in place `i`. -/
def stagesRun (hs : List (Handler (StocksCompletion τ))) (i : ℕ) : List Stage :=
  (hs.filter fun h => h.self = i).map Handler.stage

/-- The stages the request in place `i` has before it. -/
def due (p : StocksProcess τ) (i : ℕ) : List Stage :=
  (p.state.requests[i]?.bind fun r => r.exchange.inFlight).elim [] Stage.onward

/-- All stages, for a place that is taken by the time there are `n'` requests, but not when there
are `n`. -/
def dueSince (n n' i : ℕ) : List Stage := if n ≤ i ∧ i < n' then Stage.order else []

theorem dueSince_of_lt {n n' i : ℕ} (hi : i < n) : dueSince n n' i = [] :=
  if_neg fun h => h.1.not_gt hi

theorem dueSince_of_ge {n n' i : ℕ} (hi : n' ≤ i) : dueSince n n' i = [] :=
  if_neg fun h => h.2.not_ge hi

theorem dueSince_of_mem {n n' i : ℕ} (hn : n ≤ i) (hn' : i < n') : dueSince n n' i = Stage.order :=
  if_pos ⟨hn, hn'⟩

theorem dueSince_append {n m n' : ℕ} (hn : n ≤ m) (hm : m ≤ n') (i : ℕ) :
    dueSince n m i ++ dueSince m n' i = dueSince n n' i := by
  rcases lt_or_ge i m with hi | hi
  · rw [dueSince_of_lt hi, List.append_nil, dueSince, dueSince]
    exact if_congr (by omega) rfl rfl
  · rw [dueSince_of_ge hi, List.nil_append, dueSince, dueSince]
    exact if_congr (by omega) rfl rfl

theorem due_of_getElem? {p : StocksProcess τ} {i : ℕ} {r : StocksRequest τ}
    (hr : p.state.requests[i]? = some r) : due p i = r.exchange.inFlight.elim [] Stage.onward := by
  rw [due, hr, Option.bind_some]

theorem due_of_le {p : StocksProcess τ} {i : ℕ} (hi : p.state.requests.length ≤ i) :
    due p i = [] := by
  rw [due, List.getElem?_eq_none hi]
  rfl

theorem stagesRun_concat (hs : List (Handler (StocksCompletion τ)))
    (h : Handler (StocksCompletion τ)) (i : ℕ) :
    stagesRun (hs ++ [h]) i = stagesRun hs i ++ if h.self = i then [h.stage] else [] := by
  rw [stagesRun, List.filter_append, List.map_append, stagesRun]
  by_cases hi : h.self = i <;> simp [hi]

section Step

variable {p : StocksProcess τ} {h : Handler (StocksCompletion τ)} {c : Completion} {k : ℕ}
  {r : StocksRequest τ} {stage : Stage} {new : List (StocksRequest τ)}

/-- **A step runs a stage that was due, and new requests owe all five.** -/
theorem HandlerStep.due_settle
    (hstep : HandlerStep platform (StocksCompletion.call callToken) p h c k r stage new) (i j : ℕ) :
    (if h.self = i then [h.stage] else [])
        ++ due (p.settle j (execStocks platform callToken c h p.state)) i
      = due p i ++ dueSince p.state.requests.length
          (p.settle j (execStocks platform callToken c h p.state)).state.requests.length i := by
  have hself : h.self = k := by rw [hstep.handler, Handler.self_ofStage]
  have hstage : h.stage = stage := by rw [hstep.handler, Handler.stage_ofStage]
  rw [hself, hstage, Loop.state_settle, hstep.length_requests]
  rcases lt_or_ge i p.state.requests.length with hi | hi
  · rw [dueSince_of_lt hi, List.append_nil]
    rcases eq_or_ne i k with rfl | hne
    · rw [if_pos rfl, due_of_getElem? hstep.getElem?_self, due_of_getElem? hstep.request,
        hstep.inFlight, Request.exchange_turn, Exchange.inFlight_advance]
      exact stage.onward_eq.symm
    · rw [if_neg hne.symm, List.nil_append, due, Loop.state_settle, hstep.getElem?_of_ne hi hne,
        due]
  · have hne : k ≠ i := (hstep.lt.trans_le hi).ne
    rw [if_neg hne, List.nil_append, due_of_le hi, List.nil_append, due, Loop.state_settle,
      hstep.getElem?_of_le hi]
    rcases hr' : new[i - p.state.requests.length]? with _ | r'
    · have hlen := List.getElem?_eq_none_iff.mp hr'
      exact (dueSince_of_ge (by omega)).symm
    · obtain ⟨hlt, -⟩ := List.getElem?_eq_some_iff.mp hr'
      rw [Option.bind_some, (hstep.fresh r' (List.mem_of_getElem? hr')).1.inFlight]
      exact (dueSince_of_mem hi (by omega)).symm

/-- **A step adds to the children what it adds to the requests.** -/
theorem HandlerStep.children_perm (hp : StocksSound platform callToken p)
    (hstep : HandlerStep platform (StocksCompletion.call callToken) p h c k r stage new) :
    ((execStocks platform callToken c h p.state).state.requests.flatMap (children callToken)).Perm
      (p.state.requests.flatMap (children callToken) ++ new.map Request.submission) := by
  have hnotes := hstep.notes_eq_nil hp
  have hchildless : new.flatMap (children callToken) = [] :=
    List.flatMap_eq_nil_iff.mpr fun r' hr' => by
      rw [children, (hstep.fresh r' hr').1.notes, List.flatMap_nil]
  have hset := Lists.flatMap_set_perm hstep.request
    (r.turn platform (StocksCompletion.call callToken) stage c) (f := children callToken)
    (by rw [children, hnotes, List.flatMap_nil])
  rw [hstep.requests, List.flatMap_append, hchildless, List.append_nil, hstep.map_submission_new,
    ← children_turn hnotes]
  exact hset.trans List.perm_append_comm

end Step

/-! ## What a run leaves behind -/

/-- How far a run that started at `p₀` has come by the time it ran the handlers `hs`. -/
structure ForestSince (platform : Platform) (callToken : τ → GetStocksListResponse → TokenCall τ)
    (p₀ : StocksProcess τ) (hs : List (Handler (StocksCompletion τ))) (p : StocksProcess τ) :
    Prop where
  sound : StocksSound platform callToken p
  length : p₀.state.requests.length ≤ p.state.requests.length
  stages : ∀ i, stagesRun hs i ++ due p i
    = due p₀ i ++ dueSince p₀.state.requests.length p.state.requests.length i
  finished : ∀ (i : ℕ) (r : StocksRequest τ), p.state.requests[i]? = some r →
    r.exchange.inFlight = none → p₀.state.requests[i]? = some r ∨ r.notes.length = 1
  kept : ∀ (i : ℕ) (r : StocksRequest τ), p₀.state.requests[i]? = some r →
    r.exchange.inFlight = none → p.state.requests[i]? = some r
  forest : ∃ new, p.state.requests.map Request.submission
      = p₀.state.requests.map Request.submission ++ new ∧
    (p.state.requests.flatMap (children callToken)).Perm
      (p₀.state.requests.flatMap (children callToken) ++ new)

variable {p₀ : StocksProcess τ} {env : Environment τ}

theorem forestSince_self (hp : StocksSound platform callToken p₀) :
    ForestSince platform callToken p₀ [] p₀ where
  sound := hp
  length := le_rfl
  stages i := by
    have hnone : dueSince p₀.state.requests.length p₀.state.requests.length i = [] :=
      (lt_or_ge i _).elim dueSince_of_lt dueSince_of_ge
    rw [hnone, List.append_nil]
    rfl
  finished _ _ hr _ := .inl hr
  kept _ _ hr _ := hr
  forest := ⟨[], (List.append_nil _).symm, .of_eq (List.append_nil _).symm⟩

/-- **A handler that returns takes the run one step on.** -/
theorem ForestSince.settle {p : StocksProcess τ} {hs : List (Handler (StocksCompletion τ))}
    {h : Handler (StocksCompletion τ)} {c : Completion} {j : ℕ}
    (hp : ForestSince platform callToken p₀ hs p) (hr : p.Runs j h)
    (ht : (execStocks platform callToken c h p.state).thrown = none) :
    ForestSince platform callToken p₀ (hs ++ [h])
      (p.settle j (execStocks platform callToken c h p.state)) := by
  obtain ⟨k, r, stage, new, hstep⟩ := hp.sound.exists_step hr c
  have hgrown := hp.sound.length_le_settle hr c
  have hnotes := hstep.notes_eq_nil hp.sound
  refine ⟨hp.sound.settle (fun _ _ => isStocksAct_of_call) hr c, hp.length.trans hgrown,
    ?stages, ?finished, ?kept, ?forest⟩
  case stages =>
    -- the stage just run was due
    intro i
    rw [stagesRun_concat, List.append_assoc, hstep.due_settle i j, ← List.append_assoc,
      hp.stages, List.append_assoc, dueSince_append hp.length hgrown]
  case finished =>
    -- a request that is finished now was finished before, or has just called its token
    intro i r' hr' hdone
    rw [Loop.state_settle] at hr'
    rcases lt_or_ge i p.state.requests.length with hi | hi
    · rcases eq_or_ne i k with rfl | hne
      · obtain rfl := Option.some.inj (hstep.getElem?_self.symm.trans hr')
        rw [Request.exchange_turn, Exchange.inFlight_advance] at hdone
        exact .inr (length_notes_turn hnotes hdone (hstep.thrown.symm.trans ht))
      · exact hp.finished i r' ((hstep.getElem?_of_ne hi hne).symm.trans hr') hdone
    · rw [hstep.getElem?_of_le hi] at hr'
      have hflight := (hstep.fresh r' (List.mem_of_getElem? hr')).1.inFlight
      exact absurd (hdone.symm.trans hflight) nofun
  case kept =>
    intro i r' hr' hdone
    have hbefore := hp.kept i r' hr' hdone
    have hne : i ≠ k := by
      rintro rfl
      obtain rfl := Option.some.inj (hstep.request.symm.trans hbefore)
      exact absurd (hdone.symm.trans hstep.inFlight) nofun
    rw [Loop.state_settle,
      hstep.getElem?_of_ne (List.getElem?_eq_some_iff.mp hbefore).1 hne, hbefore]
  case forest =>
    obtain ⟨added, hsubmissions, hchildren⟩ := hp.forest
    refine ⟨added ++ new.map Request.submission, ?_, ?_⟩
    · rw [Loop.state_settle, hstep.map_submission, hsubmissions, List.append_assoc]
    · rw [Loop.state_settle, ← List.append_assoc]
      exact (hstep.children_perm hp.sound).trans (hchildren.append_right _)

/-- What holds of a run after any number of handlers. -/
theorem ForestSince.of_ran {p : StocksProcess τ} {hs : List (Handler (StocksCompletion τ))}
    (hp₀ : StocksSound platform callToken p₀)
    (hran : Loop.Ran (execStocks platform callToken) env p₀ hs p) :
    ForestSince platform callToken p₀ hs p := by
  induction hran with
  | refl => exact forestSince_self hp₀
  | step _ hr ht ih => exact ih.settle hr ht

/-- **The forest that starts at `p` is served**: by a drain that ran the handlers `hs` and left
`p'` behind. -/
structure ForestServed (platform : Platform)
    (callToken : τ → GetStocksListResponse → TokenCall τ) (env : Environment τ)
    (p : StocksProcess τ) (hs : List (Handler (StocksCompletion τ))) (p' : StocksProcess τ) :
    Prop where
  ran : ∃ q, Loop.Ran (execStocks platform callToken) env p hs q ∧
    p' = { q with context := q.context.stop }
  /-- No operation is pending, and no work is left. -/
  idle : p'.context.pending = [] ∧ p'.context.outstandingWork = 0
  /-- A request in flight had its stages run from there on, in order (all five of them, if it was
  just submitted), and its token was called once. -/
  inFlight : ∀ (i : ℕ) (r : StocksRequest τ) (stage : Stage), p.state.requests[i]? = some r →
    r.exchange.inFlight = some stage → stagesRun hs i = stage.onward ∧ r.notes = [] ∧
      ∃ r', p'.state.requests[i]? = some r' ∧ r'.notes.length = 1
  /-- So had every request submitted on the way, from its first stage on. -/
  submitted : ∀ (i : ℕ) (r' : StocksRequest τ), p.state.requests.length ≤ i →
    p'.state.requests[i]? = some r' → stagesRun hs i = Stage.order ∧ r'.notes.length = 1
  /-- Nothing else was run, and no request finished before was touched. -/
  others : ∀ i, ¬ InFlight p i → (i < p.state.requests.length ∨ p'.state.requests.length ≤ i) →
    stagesRun hs i = [] ∧ p'.state.requests[i]? = p.state.requests[i]?
  /-- The requests submitted on the way are those that the tokens called on the way submitted, each
  of them once. -/
  forest : ∃ new, p'.state.requests.map Request.submission
      = p.state.requests.map Request.submission ++ new ∧
    (p'.state.requests.flatMap (children callToken)).Perm
      (p.state.requests.flatMap (children callToken) ++ new)

namespace ForestSince

variable {p q : StocksProcess τ} {hs : List (Handler (StocksCompletion τ))}

/-- At its end, a run has run what was due, … -/
theorem stagesRun_eq (hq : ForestSince platform callToken p hs q)
    (hdone : ∀ r ∈ q.state.requests, r.exchange.inFlight = none) (i : ℕ) :
    stagesRun hs i
      = due p i ++ dueSince p.state.requests.length q.state.requests.length i := by
  have hnothing : due q i = [] := by
    rcases lt_or_ge i q.state.requests.length with hi | hi
    · rw [due_of_getElem? (List.getElem?_eq_getElem hi), hdone _ (List.getElem_mem hi)]
      rfl
    · exact due_of_le hi
  rw [← hq.stages, hnothing, List.append_nil]

/-- …and called the token of every request that was not finished before. -/
theorem length_notes (hq : ForestSince platform callToken p hs q)
    (hdone : ∀ r ∈ q.state.requests, r.exchange.inFlight = none) {i : ℕ} {r : StocksRequest τ}
    (hr : q.state.requests[i]? = some r) (hnew : p.state.requests[i]? ≠ some r) :
    r.notes.length = 1 :=
  (hq.finished i r hr (hdone r (List.mem_of_getElem? hr))).resolve_left hnew

/-- **A run that leaves nothing pending has served its forest.** -/
theorem served (hq : ForestSince platform callToken p hs q)
    (hran : Loop.Ran (execStocks platform callToken) env p hs q)
    (hp : StocksSound platform callToken p) (hidle : q.context.pending = []) :
    ForestServed platform callToken env p hs { q with context := q.context.stop } := by
  have hdone := hq.sound.pending_eq_nil_iff.mp hidle
  have hstages := hq.stagesRun_eq hdone
  have hwork : q.context.outstandingWork = 0 := by
    rw [hq.sound.counted, hidle]
    rfl
  refine ⟨⟨q, hran, rfl⟩, ⟨hidle, hwork⟩, ?inFlight, ?submitted, ?others, hq.forest⟩
  case inFlight =>
    intro i r stage hr hstage
    have hi : i < p.state.requests.length := (List.getElem?_eq_some_iff.mp hr).1
    have hlater := List.getElem?_eq_getElem (hi.trans_le hq.length)
    have hrun : stagesRun hs i = stage.onward := by
      rw [hstages, dueSince_of_lt hi, List.append_nil, due_of_getElem? hr, hstage]
      rfl
    refine ⟨hrun, (hp.requests r (List.mem_of_getElem? hr)).notes_of_inFlight hstage, _, hlater,
      hq.length_notes hdone hlater fun hsame => ?_⟩
    -- the request is finished now, and was not then
    obtain rfl := Option.some.inj (hr.symm.trans hsame)
    exact absurd ((hdone _ (List.mem_of_getElem? hlater)).symm.trans hstage) nofun
  case submitted =>
    intro i r hi hr
    have hbeyond := List.getElem?_eq_none hi
    refine ⟨?_, hq.length_notes hdone hr (by rw [hbeyond]; exact nofun)⟩
    rw [hstages, due_of_le hi, List.nil_append]
    exact dueSince_of_mem hi (List.getElem?_eq_some_iff.mp hr).1
  case others =>
    intro i hi hplace
    have hnew : dueSince p.state.requests.length q.state.requests.length i = [] :=
      hplace.elim dueSince_of_lt dueSince_of_ge
    rw [hstages, hnew, List.append_nil]
    rcases hplace with hlt | hle
    · have hr := List.getElem?_eq_getElem hlt
      have hrest : p.state.requests[i].exchange.inFlight = none :=
        not_not.mp fun hstage => hi ⟨_, hr, hstage⟩
      rw [due_of_getElem? hr, hrest, hr]
      exact ⟨rfl, hq.kept i _ hr hrest⟩
    · have hbeyond : p.state.requests.length ≤ i := hq.length.trans hle
      rw [due_of_le hbeyond, List.getElem?_eq_none hbeyond]
      exact ⟨rfl, List.getElem?_eq_none hle⟩

end ForestSince

/-- **`run_all` serves a forest of requests**: on a context that is not stopped, when the tokens of
the requests in flight start a finite forest and no handler throws, it ends by a return, once it ran
the five stages of every request of the forest, in order, and called every token once — whatever the
order in which operations end and the error codes they end with. -/
theorem runAll_serves_forest {p : StocksProcess τ} (hp : StocksReachable platform callToken p)
    (hlive : p.context.stopped = false) (hforest : FiniteForest platform callToken env p)
    (hthrow : Loop.NeverThrows (execStocks platform callToken) env p) :
    ∃ hs p', RunAll platform callToken env p p' (.ok ()) ∧
      ForestServed platform callToken env p hs p' := by
  obtain ⟨p', res, hrun⟩ := exists_runAll_forest hp.sound hforest
  obtain ⟨rfl, hs, q, hran, hidle, rfl⟩ := hrun.exists_ran hthrow hp.sound.counted hlive
  exact ⟨hs, _, hrun, (ForestSince.of_ran hp.sound hran).served hran hp.sound hidle⟩

/-- Handlers do not throw when tokens do not and bodies can be decoded. -/
theorem neverThrows_of_acceptable {p : StocksProcess τ} (hp : StocksSound platform callToken p)
    (htoken : ∀ token response, (callToken token response).thrown = none)
    (hbody : ∀ q, Acceptable platform (env q).2.body) :
    Loop.NeverThrows (execStocks platform callToken) env p := by
  intro hs q h hran hr
  obtain ⟨k, r, stage, new, hstep⟩ := (ForestSince.of_ran hp hran).sound.exists_step hr (env q).2
  exact hstep.thrown.trans ((thrown_eq_none_iff fun _ => htoken _ _).mpr fun _ => hbody q)

/-! ## A forest to run the model on -/

/-- A request for one symbol, with a given token. -/
def requestWith (n : ℕ) : StocksAct ℕ :=
  .async (some StocksCall.sample.request) StocksCall.sample.apikey n StocksCall.sample.order

/-- Each token writes its height, and submits two requests with the next smaller one. -/
def binary : ℕ → GetStocksListResponse → TokenCall ℕ
  | 0, _ => { stdout := "0".toList }
  | n + 1, _ =>
    { stdout := (toString (n + 1)).toList, acts := [requestWith n, requestWith n] }

theorem lt_of_submits {env : Environment ℕ} {child parent : ℕ}
    (h : Submits Platform.sample binary env child parent) : child < parent := by
  obtain ⟨_, _, response, -, submission, hmem, rfl⟩ := h
  rcases parent with _ | n
  · cases hmem
  · have hsame : ∀ s ∈ (binary (n + 1) response).submissions, s.token = n :=
      List.forall_mem_cons.mpr ⟨rfl, List.forall_mem_singleton.mpr rfl⟩
    rw [hsame submission hmem]
    exact n.lt_succ_self

/-- Operations end in the order `pick` has it, and every body lists no stocks. -/
def listingNothing (pick : StocksProcess ℕ → ℕ) : Environment ℕ := fun p =>
  (pick p, { body := emptyListing })

/-- One request from outside, with a token of height three. -/
def heightThree : StocksProcess ℕ := useStocks Platform.sample (requestWith 3) Process.start

theorem reachable_heightThree : StocksReachable Platform.sample binary heightThree :=
  StocksReachable.use Reachable.start _

theorem finiteForest_heightThree (env : Environment ℕ) :
    FiniteForest Platform.sample binary env heightThree := fun _ _ _ =>
  Subrelation.accessible lt_of_submits (Nat.lt_wfRel.wf.apply _)

theorem neverThrows_heightThree (pick : StocksProcess ℕ → ℕ) :
    Loop.NeverThrows (execStocks Platform.sample binary) (listingNothing pick) heightThree :=
  neverThrows_of_acceptable reachable_heightThree.sound
    (fun token _ => by rcases token with _ | n <;> rfl) fun _ => acceptable_emptyListing

/-- The one request from outside, and fourteen that tokens submit. -/
theorem runAll_serves_binary :
    ∃ hs p', RunAll Platform.sample binary (listingNothing fun _ => 0) heightThree p' (.ok ()) ∧
      ForestServed Platform.sample binary (listingNothing fun _ => 0) heightThree hs p' ∧
      p'.state.requests.length = 15 := by
  have hdrain : ((heightThree.drain (execStocks Platform.sample binary)
      (listingNothing fun _ => 0) 76).map fun q => q.1.state.requests.length) = some 15 := by
    decide +kernel
  obtain ⟨hs, p', hrun, hserved⟩ := runAll_serves_forest reachable_heightThree rfl
    (finiteForest_heightThree _) (neverThrows_heightThree fun _ => 0)
  obtain ⟨⟨q, res⟩, hq, hlength⟩ := Option.map_eq_some_iff.mp hdrain
  obtain ⟨rfl, -⟩ := Loop.Drains.unique hrun ⟨76, hq⟩
  exact ⟨hs, p', hrun, hserved, hlength⟩

end Twelvedata
