import MarketConnection.Rest.RunAll

/-!
# Rest/History — submissions and drains, one after the other

The context is stopped by the first `run_all` that returns, nothing restarts it, and a stopped
context runs nothing: a request submitted later stays in flight for ever.  **When a `run_all`
returns, every request submitted before has been called exactly when none of them was submitted
after an earlier `run_all`** (`called_iff`).
-/

namespace Twelvedata

open EventLoop

variable {τ : Type} {platform : Platform} {callToken : τ → GetStocksListResponse → TokenCall τ}

/-- A call the program makes: an `async_get_stocks_list` with a request that is not null, or a
`run_all`. -/
inductive ApiCall (τ : Type)
  | submit (call : StocksCall τ)
  | runAll (env : Environment τ)

namespace ApiCall

def isSubmit : ApiCall τ → Bool
  | submit _ => true
  | runAll _ => false

def isRunAll : ApiCall τ → Bool
  | submit _ => false
  | runAll _ => true

end ApiCall

/-- The environment ends every read with a body that can be decoded. -/
def DecodableBodies (platform : Platform) (env : Environment τ) : Prop :=
  ∀ p, Acceptable platform (env p).2.body

/-- The process after a submission. -/
def submit (platform : Platform) (call : StocksCall τ) (p : StocksProcess τ) : StocksProcess τ :=
  useStocks platform
    (.async (some call.request) call.apikey call.completionToken call.order) p

/-- **A history the process lived through**: the calls made so far, each of which returned. -/
inductive Lived (platform : Platform) (callToken : τ → GetStocksListResponse → TokenCall τ) :
    List (ApiCall τ) → StocksProcess τ → Prop
  | start : Lived platform callToken [] Process.start
  | submit {history : List (ApiCall τ)} {p : StocksProcess τ} (call : StocksCall τ)
      (h : Lived platform callToken history p) :
      Lived platform callToken (history ++ [.submit call]) (submit platform call p)
  | runAll {history : List (ApiCall τ)} {p p' : StocksProcess τ} {env : Environment τ}
      (h : Lived platform callToken history p) (henv : DecodableBodies platform env)
      (hrun : RunAll platform callToken env p p' (.ok ())) :
      Lived platform callToken (history ++ [.runAll env]) p'

/-- No request is submitted after a `run_all`. -/
def SubmittedEarly (history : List (ApiCall τ)) : Prop :=
  history.Pairwise fun earlier later => earlier.isRunAll = true → later.isSubmit = false

/-! ## What a history leaves behind -/

/-- Every finished request had an acceptable body. -/
def AllAcceptable (platform : Platform) (p : StocksProcess τ) : Prop :=
  ∀ r ∈ p.state.requests, r.exchange.inFlight = none →
    Acceptable platform r.exchange.object.readResponse

/-- A handler whose body is acceptable keeps it so, whatever its token submits. -/
theorem AllAcceptable.settle {p : StocksProcess τ} (ha : AllAcceptable platform p)
    (hp : StocksSound platform callToken p) {i : ℕ} {h : Handler (StocksCompletion τ)}
    (hr : p.Runs i h) {c : Completion} (hc : Acceptable platform c.body) :
    AllAcceptable platform (p.settle i (execStocks platform callToken c h p.state)) := by
  obtain ⟨k, r, stage, new, hstep⟩ := hp.exists_step hr c
  intro r' hr' hdone
  rcases hstep.mem_requests hr' with hr' | rfl | hr'
  · exact ha r' hr' hdone
  · -- the turn that finishes a request is the one after its read
    rw [Request.exchange_turn, Exchange.inFlight_advance] at hdone
    obtain rfl := Stage.next_eq_none_iff.mp hdone
    exact hc
  · exact absurd (hdone.symm.trans (hstep.fresh r' hr').1.inFlight) nofun

/-- What a drain that returns leaves behind. -/
theorem AllAcceptable.runAll {p p' : StocksProcess τ} (ha : AllAcceptable platform p)
    (hp : StocksSound platform callToken p) {env : Environment τ}
    (henv : DecodableBodies platform env)
    (hrun : RunAll platform callToken env p p' (.ok ())) :
    StocksSound platform callToken p' ∧ AllAcceptable platform p' ∧
      p.state.requests.length ≤ p'.state.requests.length := by
  rcases hrun.invariant
    (I := fun q => StocksSound platform callToken q ∧ AllAcceptable platform q ∧
      p.state.requests.length ≤ q.state.requests.length)
    (fun q hq _ _ => ⟨hq.1.stop, hq.2⟩)
    (fun q h hq hr _ => ⟨hq.1.settle (fun _ _ => isStocksAct_of_call) hr _,
      hq.2.1.settle hq.1 hr (henv q), hq.2.2.trans (hq.1.length_le_settle hr _)⟩)
    ⟨hp, ha, le_rfl⟩ with ⟨-, h⟩ | ⟨_, _, _, hres, _⟩
  · exact h
  · cases hres

/-- With acceptable bodies, all have been called exactly when nothing is pending. -/
theorem AllAcceptable.all_called_iff {p : StocksProcess τ} (ha : AllAcceptable platform p)
    (hp : StocksSound platform callToken p) :
    (∀ i < p.state.requests.length, Called p i) ↔ p.context.pending = [] := by
  rw [hp.pending_eq_nil_iff]
  constructor
  · intro hcalled r hr
    obtain ⟨i, hi, rfl⟩ := List.mem_iff_getElem.mp hr
    obtain ⟨r', hget, hnotes⟩ := hcalled i hi
    obtain rfl := Option.some.inj ((List.getElem?_eq_getElem hi).symm.trans hget)
    exact ((hp.length_notes_eq_one_iff hr).mp hnotes).1
  · intro hdone i hi
    have hmem := List.getElem_mem hi
    exact ⟨_, List.getElem?_eq_getElem hi,
      (hp.length_notes_eq_one_iff hmem).mpr ⟨hdone _ hmem, ha _ hmem (hdone _ hmem)⟩⟩

/-- **What a history leaves behind**: a context stopped by the first drain, and on a stopped one
operations that wait exactly when a request came late. -/
structure Aftermath (platform : Platform) (callToken : τ → GetStocksListResponse → TokenCall τ)
    (history : List (ApiCall τ)) (p : StocksProcess τ) : Prop where
  sound : StocksSound platform callToken p
  acceptable : AllAcceptable platform p
  stopped : p.context.stopped = true ↔ ∃ call ∈ history, call.isRunAll = true
  pending : p.context.stopped = true → (p.context.pending = [] ↔ SubmittedEarly history)

theorem submittedEarly_concat_runAll {history : List (ApiCall τ)} {env : Environment τ} :
    SubmittedEarly (history ++ [.runAll env]) ↔ SubmittedEarly history := by
  rw [SubmittedEarly, List.pairwise_append]
  exact ⟨And.left, fun h => ⟨h, List.pairwise_singleton _ _, fun _ _ _ hb _ => by
    rw [List.mem_singleton.mp hb]; rfl⟩⟩

/-- With no `run_all` before, nothing comes late. -/
theorem submittedEarly_of_no_runAll {history : List (ApiCall τ)}
    (h : ¬ ∃ call ∈ history, call.isRunAll = true) : SubmittedEarly history :=
  List.pairwise_of_forall_mem_list fun a ha _ _ hrun => absurd ⟨a, ha, hrun⟩ h

theorem Aftermath.submit {history : List (ApiCall τ)} {p : StocksProcess τ}
    (h : Aftermath platform callToken history p) (call : StocksCall τ) :
    Aftermath platform callToken (history ++ [.submit call]) (submit platform call p) where
  sound := StocksSound.use h.sound _
  acceptable := by
    intro r hr hdone
    rw [Twelvedata.submit, useStocks_async] at hr
    rcases List.mem_append.mp hr with hr | hr
    · exact h.acceptable r hr hdone
    · rw [List.mem_singleton.mp hr, StocksCall.submitted, inFlight_opened] at hdone
      cases hdone
  stopped := h.stopped.trans (by simp [ApiCall.isRunAll])
  pending hs := by
    obtain ⟨earlier, hmem, hrun⟩ := h.stopped.mp hs
    refine iff_of_false (by simp [Twelvedata.submit, useStocks_async]) fun hearly => ?_
    have hlate := (List.pairwise_append.mp hearly).2.2 earlier hmem _ List.mem_cons_self hrun
    cases hlate

theorem Aftermath.runAll {history : List (ApiCall τ)} {p p' : StocksProcess τ}
    {env : Environment τ} (h : Aftermath platform callToken history p)
    (henv : DecodableBodies platform env)
    (hrun : RunAll platform callToken env p p' (.ok ())) :
    Aftermath platform callToken (history ++ [.runAll env]) p' := by
  obtain ⟨hsound, hacceptable, -⟩ := h.acceptable.runAll h.sound henv hrun
  obtain ⟨hstopped, hpending⟩ := hrun.stopped_of_ok h.sound.counted
  refine ⟨hsound, hacceptable, iff_of_true hstopped ⟨.runAll env, by simp, rfl⟩, fun _ => ?_⟩
  rw [submittedEarly_concat_runAll]
  by_cases hs : p.context.stopped = true
  · -- a stopped context is left as it is
    obtain ⟨rfl, -⟩ := hrun.unique (.of_stopped hs)
    exact h.pending hs
  · exact iff_of_true (hpending (by simpa using hs))
      (submittedEarly_of_no_runAll (mt h.stopped.mpr hs))

theorem Lived.aftermath {history : List (ApiCall τ)} {p : StocksProcess τ}
    (h : Lived platform callToken history p) : Aftermath platform callToken history p := by
  induction h with
  | start => exact ⟨Sound.start, nofun, by simp [Process.start], nofun⟩
  | submit call _ ih => exact ih.submit call
  | runAll _ henv hrun ih => exact ih.runAll henv hrun

/-- **When a `run_all` returns, every request submitted before it has been called, exactly when none
of them was submitted after an earlier `run_all`.** -/
theorem called_iff {history : List (ApiCall τ)} {p p' : StocksProcess τ} {env : Environment τ}
    (h : Lived platform callToken history p) (henv : DecodableBodies platform env)
    (hrun : RunAll platform callToken env p p' (.ok ())) :
    (∀ i < p.state.requests.length, Called p' i) ↔ SubmittedEarly history := by
  have hafter := h.aftermath
  obtain ⟨hsound, hacceptable, hlength⟩ := hafter.acceptable.runAll hafter.sound henv hrun
  by_cases hs : p.context.stopped = true
  · obtain ⟨rfl, -⟩ := hrun.unique (.of_stopped hs)
    exact (hacceptable.all_called_iff hsound).trans (hafter.pending hs)
  · have hpending := (hrun.stopped_of_ok hafter.sound.counted).2 (by simpa using hs)
    refine iff_of_true (fun i hi => ?_) (submittedEarly_of_no_runAll (mt hafter.stopped.mpr hs))
    exact (hacceptable.all_called_iff hsound).mpr hpending i (hi.trans_le hlength)

/-- The network that ends every operation well, with the listing of no stocks. -/
def healthy : Environment Unit := fun _ => (0, { body := emptyListing })

theorem called_first_batch :
    ∃ p', RunAll Platform.sample (fun _ _ => {}) healthy
        (submit Platform.sample .sample Process.start) p' (.ok ()) ∧ ∀ i < 1, Called p' i := by
  have hdrain : (((submit Platform.sample .sample Process.start).drain
      (execStocks Platform.sample fun _ _ => {}) healthy 6).map fun q => q.2.isOk) = some true := by
    decide
  obtain ⟨⟨p', x | u⟩, hrun, hok⟩ := Option.map_eq_some_iff.mp hdrain
  · cases hok
  · have hcalled := (called_iff (.submit .sample .start) (fun _ => acceptable_emptyListing)
      ⟨6, hrun⟩).mpr (List.pairwise_singleton _ _)
    exact ⟨p', ⟨6, hrun⟩, hcalled⟩

/-- A drain before the first request, and the request is never called. -/
theorem not_called_second_batch :
    ¬ ∀ (history : List (ApiCall Unit)) (p p' : StocksProcess Unit) (env : Environment Unit),
      Lived Platform.sample (fun _ _ => {}) history p → DecodableBodies Platform.sample env →
      RunAll Platform.sample (fun _ _ => {}) env p p' (.ok ()) →
      ∀ i < p.state.requests.length, Called p' i := by
  intro h
  have hdecodable : DecodableBodies Platform.sample healthy := fun _ => acceptable_emptyListing
  -- the first drain finds no work, and stops the context
  have hfirst : RunAll Platform.sample (fun _ _ => {}) healthy Process.start _ (.ok ()) :=
    .of_idle rfl rfl
  have hlived := (Lived.start.runAll hdecodable hfirst).submit .sample
  obtain ⟨r, hr, hnotes⟩ := h _ _ _ healthy hlived hdecodable (.of_stopped rfl) 0 (by decide)
  obtain rfl := Option.some.inj hr
  cases hnotes

end Twelvedata
