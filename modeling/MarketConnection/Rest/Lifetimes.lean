import MarketConnection.Foundations.Composed
import MarketConnection.Rest.Service

/-!
# Rest/Lifetimes — who owns a request's object, and how long a `run_all` takes

`async_send_request` lets go of its object when it returns: what keeps it alive are the copies of
`self` in the lambda that waits, and in those that this one captures (`Handler.owners`).  There is
one for each stage that has not ended, so **an object is owned exactly while its request is in
flight** (`lifetimes`): a `run_all` that returns frees them all, and one that is submitted to a
stopped context is never freed.

The same count of stages tells how often `run_all` calls `run_one` (`runAll_turns`), when the
operations of the network are composed of smaller ones: their inner handlers are calls too, and that
is all that there is to see of them.
-/

namespace Twelvedata

open EventLoop Refinement

/-! ## Owners -/

section Owners

variable {F : Type}

/-- The copies of `self` in a lambda and in the lambdas it captures. -/
def OnRead.owners (h : OnRead F) : List ℕ := [h.self]

def OnWrite.owners (h : OnWrite F) : List ℕ := h.self :: h.onRead.owners

def OnHandshake.owners (h : OnHandshake F) : List ℕ := h.self :: h.onWrite.owners

def OnConnect.owners (h : OnConnect F) : List ℕ := h.self :: h.onHandshake.owners

def OnResolve.owners (h : OnResolve F) : List ℕ := h.self :: h.onConnect.owners

def Handler.owners : Handler F → List ℕ
  | onResolve h => h.owners
  | onConnect h => h.owners
  | onHandshake h => h.owners
  | onWrite h => h.owners
  | onRead h => h.owners

/-- There is one for each stage from here on. -/
theorem Handler.owners_ofStage (self : ℕ) (target : StdString) (token : F) (stage : Stage) :
    (Handler.ofStage self target token stage).owners
      = List.replicate stage.onward.length self := by
  rcases stage <;> rfl

end Owners

variable {S F ν : Type}

namespace Process

/-- `use_count()` of the object in place `i`, between two calls of `run_one`. -/
def owners (p : Process S F ν) (i : ℕ) : ℕ := (p.context.pending.flatMap Handler.owners).count i

end Process

/-- The stages that have not ended. -/
def Exchange.toCome (e : Exchange) : ℕ := (e.inFlight.elim [] Stage.onward).length

/-- The handlers of one object are the only ones that own it. -/
theorem count_owners {hs : List (Handler F)} {i : ℕ}
    (hsound : ∀ h ∈ hs, ∃ target token stage, h = Handler.ofStage h.self target token stage) :
    (hs.flatMap Handler.owners).count i
      = ((hs.filter fun h => h.self = i).flatMap Handler.owners).length := by
  induction hs with
  | nil => rfl
  | cons h hs ih =>
    obtain ⟨target, token, stage, heq⟩ := hsound h List.mem_cons_self
    have hrest := ih fun h' hh' => hsound h' (List.mem_cons_of_mem _ hh')
    have howners : h.owners = List.replicate stage.onward.length h.self := by
      conv_lhs => rw [heq]
      exact Handler.owners_ofStage _ _ _ _
    rw [List.flatMap_cons, List.count_append, hrest]
    by_cases hi : h.self = i
    · rw [List.filter_cons_of_pos (by simpa using hi), List.flatMap_cons, List.length_append,
        howners, hi, List.count_replicate_self, List.length_replicate]
    · rw [List.filter_cons_of_neg (by simpa using hi), howners, List.count_replicate,
        if_neg (by simpa using hi), Nat.zero_add]

section Sound

variable {platform : Platform} {invoke : F → Json → Invocation S F ν} {Allowed : Act S F → Prop}
  {p : Process S F ν}

/-- **An object has an owner for each stage that has not ended.** -/
theorem Sound.owners_eq (hp : Sound platform invoke Allowed p) {i : ℕ} {r : Request S F ν}
    (hr : p.state.requests[i]? = some r) : p.owners i = r.exchange.toCome := by
  have hstages : ∀ h ∈ p.context.pending,
      ∃ target token stage, h = Handler.ofStage h.self target token stage := by
    intro h hh
    obtain ⟨k, r', -, hw⟩ := mem_waitingFrom.mp (hp.waiting.mem_iff.mp hh)
    obtain ⟨stage, -, rfl⟩ := exists_of_waiting hw
    exact ⟨_, _, stage, by rw [Handler.self_ofStage]⟩
  rw [Process.owners, count_owners hstages, hp.filter_pending hr, Exchange.toCome, Request.waiting]
  rcases r.exchange.inFlight with _ | stage
  · rfl
  · rw [Option.map_some, Option.toList_some, List.flatMap_singleton, Handler.owners_ofStage,
      List.length_replicate]
    rfl

end Sound

/-! ## From one moment to a later one -/

variable {τ : Type} {platform : Platform} {callToken : τ → GetStocksListResponse → TokenCall τ}
  {p q : StocksProcess τ}

/-- **What time does to the owners**: objects lose them one by one, and on a stopped context keep
them. -/
structure Ages (platform : Platform) (callToken : τ → GetStocksListResponse → TokenCall τ)
    (p q : StocksProcess τ) : Prop where
  sound : StocksSound platform callToken q
  length : p.state.requests.length ≤ q.state.requests.length
  owners : ∀ i < p.state.requests.length, q.owners i ≤ p.owners i
  stopped : p.context.stopped = true → q.context.stopped = true
  kept : p.context.stopped = true → ∀ i < p.state.requests.length, q.owners i = p.owners i

namespace Ages

theorem refl (hp : StocksSound platform callToken p) : Ages platform callToken p p :=
  ⟨hp, le_rfl, fun _ _ => le_rfl, id, fun _ _ _ => rfl⟩

theorem trans {r : StocksProcess τ} (h : Ages platform callToken p q)
    (h' : Ages platform callToken q r) : Ages platform callToken p r where
  sound := h'.sound
  length := h.length.trans h'.length
  owners i hi := (h'.owners i (hi.trans_le h.length)).trans (h.owners i hi)
  stopped hs := h'.stopped (h.stopped hs)
  kept hs i hi := (h'.kept (h.stopped hs) i (hi.trans_le h.length)).trans (h.kept hs i hi)

/-- What leaves the requests there are alone. -/
theorem of_append (hp : StocksSound platform callToken p) (hq : StocksSound platform callToken q)
    {rs : List (StocksRequest τ)} (hrs : q.state.requests = p.state.requests ++ rs)
    (hs : p.context.stopped = true → q.context.stopped = true) : Ages platform callToken p q := by
  have hsame : ∀ i < p.state.requests.length, q.owners i = p.owners i := fun i hi => by
    rw [hp.owners_eq (List.getElem?_eq_getElem hi)]
    refine hq.owners_eq ?_
    rw [hrs, List.getElem?_append_left hi, List.getElem?_eq_getElem hi]
  refine ⟨hq, ?_, fun i hi => (hsame i hi).le, hs, fun _ => hsame⟩
  rw [hrs, List.length_append]
  exact Nat.le_add_right _ _

theorem use (hp : StocksSound platform callToken p) (use : StocksAct τ) :
    Ages platform callToken p (useStocks platform use p) := by
  have hq := hp.use use
  rcases use with ⟨_ | request, apikey, token, order⟩ | ⟨request, apikey, order, network⟩
  · exact refl hp
  · exact of_append hp hq rfl id
  · exact of_append hp hq (List.append_nil _).symm id

/-- **A stage that ends takes an owner with it.** -/
theorem toCome_turn (platform : Platform) (callToken : τ → GetStocksListResponse → TokenCall τ)
    {r : StocksRequest τ} {stage : Stage} (hs : r.exchange.inFlight = some stage) (c : Completion) :
    (r.turn platform (StocksCompletion.call callToken) stage c).exchange.toCome + 1
      = r.exchange.toCome := by
  rw [Exchange.toCome, Exchange.toCome, Request.exchange_turn, Exchange.inFlight_advance, hs,
    Option.elim_some, stage.onward_eq, List.length_cons]

theorem settle (hp : StocksSound platform callToken p) {j : ℕ}
    {h : Handler (StocksCompletion τ)} (hr : p.Runs j h) (c : Completion) :
    Ages platform callToken p (p.settle j (execStocks platform callToken c h p.state)) := by
  obtain ⟨k, r, stage, new, hstep⟩ := hp.exists_step hr c
  have hq := hp.settle (fun _ _ => isStocksAct_of_call) hr c
  have hlive : p.context.stopped ≠ true := by simp [hr.live]
  refine ⟨hq, hp.length_le_settle hr c, fun i hi => ?_, fun hs => absurd hs hlive,
    fun hs => absurd hs hlive⟩
  rcases eq_or_ne i k with rfl | hik
  · rw [hq.owners_eq hstep.getElem?_self, hp.owners_eq hstep.request,
      ← toCome_turn platform callToken hstep.inFlight c]
    exact Nat.le_succ _
  · rw [hp.owners_eq (List.getElem?_eq_getElem hi)]
    refine (hq.owners_eq ?_).le
    rw [Loop.state_settle, hstep.getElem?_of_ne hi hik, List.getElem?_eq_getElem hi]

theorem runOne (hp : StocksSound platform callToken p) {pick : ℕ} {c : Completion}
    {res : Except Exception ℕ} (hrun : runOne platform callToken pick c p = some (q, res)) :
    Ages platform callToken p q := by
  rcases Loop.runOne_cases hrun with ⟨-, rfl, -⟩ | ⟨-, -, rfl, -⟩ | ⟨f, hr, rfl, -⟩
  · exact refl hp
  · exact of_append hp hp.stop (List.append_nil _).symm fun _ => rfl
  · exact settle hp hr c

theorem path {trace : List (Visible τ)} (hp : StocksSound platform callToken p)
    (h : (process platform callToken).Path p trace q) : Ages platform callToken p q :=
  h.invariant (P := fun _ q => Ages platform callToken p q) (refl hp) <| by
    rintro _ _ q q' hq (⟨use, -, rfl⟩ | ⟨pick, c, res, -, hrun⟩)
    · exact hq.trans (.use hq.sound use)
    · exact hq.trans (.runOne hq.sound hrun)

end Ages

theorem Exchange.toCome_pos_iff {e : Exchange} : 0 < e.toCome ↔ e.inFlight ≠ none := by
  rw [toCome]
  rcases e.inFlight with _ | stage
  · simp
  · simp [stage.onward_eq]

/-- **An object is owned exactly while its request is in flight**, once for each stage that has not
ended.  Owners only ever go; a `run_all` that returns on a live context frees every object, and a
stopped context keeps what it has for good. -/
theorem lifetimes (hp : StocksReachable platform callToken p) {trace : List (Visible τ)}
    (h : (process platform callToken).Path p trace q) :
    (∀ (i : ℕ) (r : StocksRequest τ), p.state.requests[i]? = some r →
      p.owners i = r.exchange.toCome ∧ (0 < p.owners i ↔ r.exchange.inFlight ≠ none)) ∧
    (∀ i < p.state.requests.length, q.owners i ≤ p.owners i ∧
      (p.context.stopped = true → q.owners i = p.owners i)) ∧
    ∀ (env : Environment τ) (p' : StocksProcess τ), RunAll platform callToken env p p' (.ok ()) →
      p.context.stopped = false → ∀ i, p'.owners i = 0 := by
  have hages := Ages.path hp.sound h
  refine ⟨fun i r hr => ?_, fun i hi => ⟨hages.owners i hi, fun hs => hages.kept hs i hi⟩,
    fun env p' hrun hlive i => ?_⟩
  · rw [hp.sound.owners_eq hr]
    exact ⟨rfl, Exchange.toCome_pos_iff⟩
  · rw [Process.owners, (hrun.stopped_of_ok hp.sound.counted).2 hlive]
    rfl

theorem lifetimes_twoInFlight : twoInFlight.owners 1 = 5 ∧
    (useStocks Platform.sample .sample twoInFlight).owners 1 ≤ 5 := by
  have hpath := path_use Platform.sample (fun _ _ => {}) .sample twoInFlight
  obtain ⟨howned, hkept, -⟩ := lifetimes reachable_twoInFlight hpath
  have hfive : twoInFlight.owners 1 = 5 := (howned 1 _ rfl).1.trans (by decide)
  exact ⟨hfive, hfive ▸ (hkept 1 (by decide)).1⟩

/-! ## The calls of `run_one` -/

def Event.isCompleted : Event → Bool
  | .completed _ _ _ => true
  | _ => false

/-- The stages that have ended. -/
def Exchange.ended (e : Exchange) : ℕ := e.trace.countP Event.isCompleted

/-- …in all requests of the program. -/
def World.ended (w : World S F ν) : ℕ := (w.requests.map fun r => r.exchange.ended).sum

theorem countP_isCompleted_cerr (lines : List StdString) :
    (lines.map Event.cerr).countP Event.isCompleted = 0 :=
  List.countP_eq_zero.mpr (List.forall_mem_map.mpr fun _ _ => Bool.false_ne_true)

theorem Exchange.ended_advance (target : StdString) (stage : Stage) (c : Completion)
    (e : Exchange) : (e.advance platform target stage c).ended = e.ended + 1 := by
  have hsequel : ∀ object : GenericRestRequest,
      (object.sequel platform stage c).countP Event.isCompleted = 0 := by
    intro object
    rcases stage with _ | _ | _ | _ | _
    case handshake =>
      rw [GenericRestRequest.sequel, GenericRestRequest.transmit]
      rcases object.stream.session <;> rfl
    case read => exact countP_isCompleted_cerr _
    all_goals rfl
  rw [ended, advance, List.countP_append, turn, List.countP_cons, List.countP_append, hsequel,
    countP_isCompleted_cerr]
  rfl

theorem Exchange.ended_opened (platform : Platform) (setup : Setup) :
    (GenericRestRequest.construct platform setup).opened.ended = 0 := by
  obtain ⟨lines, hlines⟩ := trace_construct platform setup
  rw [ended, opened, log, hlines, List.countP_append, countP_isCompleted_cerr]
  rfl

/-- Five stages, ended or to come. -/
theorem Dialogue.ended_add_toCome {target : StdString} {stage : Option Stage} {e : Exchange}
    (h : Dialogue platform target stage e) :
    e.ended + (stage.elim [] Stage.onward).length = 5 := by
  induction h with
  | opened n => rw [Exchange.ended_opened]; rfl
  | @advance stage e c h ih =>
    rw [Option.elim_some, stage.onward_eq, List.length_cons] at ih
    rw [Exchange.ended_advance]
    omega

/-- **A handler ends one stage.** -/
theorem ended_settle (hp : StocksSound platform callToken p) {j : ℕ}
    {h : Handler (StocksCompletion τ)} (hr : p.Runs j h) (c : Completion) :
    (p.settle j (execStocks platform callToken c h p.state)).state.ended = p.state.ended + 1 := by
  obtain ⟨k, r, stage, new, hstep⟩ := hp.exists_step hr c
  obtain ⟨hlt, hget⟩ := List.getElem?_eq_some_iff.mp hstep.request
  have hnew : (new.map fun r => r.exchange.ended).sum = 0 := by
    refine List.sum_eq_zero (List.forall_mem_map.mpr fun r' hr' => ?_)
    obtain ⟨n, hn⟩ := (hstep.fresh r' hr').1.exchange
    rw [hn, Exchange.ended_opened]
  have hbefore : p.state.ended =
      ((p.state.requests.take k).map fun r => r.exchange.ended).sum + (r.exchange.ended +
        ((p.state.requests.drop (k + 1)).map fun r => r.exchange.ended).sum) := by
    rw [World.ended]
    conv_lhs => rw [← List.take_append_drop k p.state.requests, List.drop_eq_getElem_cons hlt, hget]
    rw [List.map_append, List.sum_append, List.map_cons, List.sum_cons]
  rw [hbefore, Loop.state_settle, World.ended, hstep.requests, List.map_append, List.sum_append,
    hnew, List.set_eq_take_append_cons_drop, if_pos hlt, List.map_append, List.sum_append,
    List.map_cons, List.sum_cons, Request.exchange_turn, Exchange.ended_advance]
  omega

theorem counts_ended (platform : Platform)
    (callToken : τ → GetStocksListResponse → TokenCall τ) :
    Loop.Counts (execStocks platform callToken) (StocksSound platform callToken)
      (fun p => p.state.ended) where
  stop _ := rfl
  settle _ _ _ c hq hr := ⟨hq.settle (fun _ _ => isStocksAct_of_call) hr c, ended_settle hq hr c⟩

/-- All five stages of every request have ended when none is to come. -/
theorem ended_of_finished (hq : StocksSound platform callToken q)
    (hdone : ∀ r ∈ q.state.requests, r.exchange.inFlight = none) :
    q.state.ended = 5 * q.state.requests.length := by
  have hfive : ∀ r ∈ q.state.requests, r.exchange.ended = 5 := fun r hr => by
    have hdialogue := (hq.requests r hr).dialogue.ended_add_toCome
    rw [hdone r hr] at hdialogue
    exact hdialogue
  rw [World.ended, List.map_congr_left hfive, List.map_const', List.sum_replicate, smul_eq_mul,
    Nat.mul_comm]

/-- **`run_all()` returns, and these are the turns that its calls of `run_one` meet**: a stage ends,
or its operation runs one of its own handlers and goes on.  `async_connect` tries one endpoint after
the other, and a handshake, a write and a read exchange several messages. -/
def RunAllBy (platform : Platform) (callToken : τ → GetStocksListResponse → TokenCall τ)
    (turns : List (Turn Completion)) (p p' : StocksProcess τ) (res : Except Exception Unit) :
    Prop :=
  p.drainBy (execStocks platform callToken) turns = some (p', res)

/-- **How often `run_all` calls `run_one`**: once for each stage that ends, those of the requests
that tokens submit included, once for each handler inside an operation, and once more when it
returns.  Handlers inside operations change nothing about what it comes to, and there may be any
number of them; a return on a live context leaves all five stages of every request ended. -/
theorem runAll_turns (hp : StocksReachable platform callToken p)
    (hlive : p.context.stopped = false) :
    (∀ (turns : List (Turn Completion)) (q : StocksProcess τ) (res : Except Exception Unit),
      RunAllBy platform callToken turns p q res →
      turns.length + p.state.ended
        = q.state.ended + turns.countP Turn.isGoesOn + res.isOk.toNat ∧
      (∃ env : Environment τ, RunAll platform callToken env p q res) ∧
      (res = .ok () → q.state.ended = 5 * q.state.requests.length)) ∧
    ∀ (env : Environment τ) (q : StocksProcess τ) (res : Except Exception Unit),
      RunAll platform callToken env p q res → ∀ m, (m = 0 ∨ p.context.pending ≠ []) →
      ∃ turns, RunAllBy platform callToken turns p q res ∧ turns.countP Turn.isGoesOn = m := by
  have hcounts := counts_ended platform callToken
  constructor
  · intro turns q res h
    have : Inhabited Completion := ⟨{}⟩
    obtain ⟨env, hrun⟩ := Loop.exists_drains_of_drainBy hcounts hp.sound h
    refine ⟨Loop.length_turns hcounts hp.sound h, ⟨env, hrun⟩, ?_⟩
    rintro rfl
    have hq := (hp.runAll hrun).sound
    exact ended_of_finished hq
      (hq.pending_eq_nil_iff.mp ((hrun.stopped_of_ok hp.sound.counted).2 hlive))
  · exact fun env q res hrun m hm => Loop.exists_drainBy hrun (hm.imp_right fun hp => ⟨hlive, hp⟩)

/-- Six stages of two requests, a connect or a handshake that takes three handlers more, the other
four stages, and a call that finds nothing. -/
def fourteenTurns : List (Turn Completion) :=
  List.replicate 6 (.ends 0 { body := emptyListing }) ++ List.replicate 3 .goesOn
    ++ List.replicate 5 (.ends 0 { body := emptyListing })

theorem runAll_turns_twoInFlight :
    ∃ q, RunAllBy Platform.sample (fun _ _ => {}) fourteenTurns twoInFlight q (.ok ()) ∧
      q.state.ended = 10 ∧
      ∃ env, RunAll Platform.sample (fun _ _ => {}) env twoInFlight q (.ok ()) := by
  have hdrain : ((twoInFlight.drainBy (execStocks Platform.sample fun _ _ => {})
      fourteenTurns).map fun q => q.2.isOk) = some true := by decide
  obtain ⟨⟨q, x | u⟩, hrun, hres⟩ := Option.map_eq_some_iff.mp hdrain
  · cases hres
  · obtain ⟨hturns, henv, -⟩ := (runAll_turns reachable_twoInFlight rfl).1 _ q _ hrun
    have hstarted : twoInFlight.state.ended = 0 := by decide
    have hinner : fourteenTurns.countP Turn.isGoesOn = 3 := rfl
    have hlength : fourteenTurns.length = 14 := rfl
    rw [hstarted, hinner, hlength] at hturns
    refine ⟨q, hrun, ?_, henv⟩
    simp only [Except.isOk, Except.toBool, Bool.toNat_true] at hturns
    omega

end Twelvedata
