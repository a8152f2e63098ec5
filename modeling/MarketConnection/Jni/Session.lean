import MarketConnection.Foundations.Refinement
import MarketConnection.Jni.Connect
import MarketConnection.Rest.RunAll

/-!
# Jni/Session — what the JVM sees of the library

Between calls of `connect` a process differs from another, for its callers, in three things only:
the text on `std::cout`, whether the `io_context` was stopped, and how many requests wait on it in
vain.  `Session` is the machine of these three, in which a call is one step: **the process refines
it exactly** (`jvm_exact`).

So a history of calls is what the answers make of it (`history_iff`): every call lists what the
blocking request gets, the asynchronous listing is there once in the life of the process, and a call
after that leaves a request behind for good.
-/

namespace Twelvedata

open Unsequenced EventLoop Refinement

/-! ## What a request prints -/

/-- What a request answered in these circumstances prints, or throws. -/
def Circumstances.listing (platform : Platform) (label : StdString) (c : Circumstances) :
    Except Exception StdString :=
  (decodeBody platform c.order.row c.body).map (listingText label c.print)

/-! ## The session

A session has no network, no handlers and no requests: what the two requests of a call are answered
with is part of the call.  It leaves open nothing, so a call is a function. -/

/-- What is left of a process between calls. -/
@[ext] structure Session where
  stdout : StdString := []
  /-- An earlier call has run the context dry. -/
  stopped : Bool := false
  /-- The requests that wait in vain. -/
  waiting : ℕ := 0

namespace Session

/-- Text on `std::cout`. -/
def print (text : StdString) (s : Session) : Session := { s with stdout := s.stdout ++ text }

/-- The asynchronous request of a call: on a stopped context it is left to wait. -/
def await (platform : Platform) (async : Circumstances) (s : Session) :
    Except Exception Unit × Session :=
  if s.stopped then (.ok (), { s with waiting := s.waiting + 1 })
  else match async.listing platform "async: ".toList with
    | .error x => (.error x, { s with stopped := true })
    | .ok text => (.ok (), { s.print text with stopped := true })

/-- **A call**, and how it is left. -/
def connect (platform : Platform) (sync async : Circumstances) (s : Session) :
    Except Exception Unit × Session :=
  match sync.listing platform "sync: ".toList with
  | .error x => (.error x, s.print connectBanner)
  | .ok text => (((s.print connectBanner).print text).print connectRule).await platform async

end Session

/-- A call of the JVM: what is left open about its two requests, and how it is left. -/
structure JniCall where
  sync : Circumstances
  async : Circumstances
  res : Except Exception Unit

/-- The calls on the session. -/
def sessions (platform : Platform) : System Session JniCall where
  start := {}
  step s l s' := ∃ call : JniCall, l = some call ∧
    s.connect platform call.sync call.async = (call.res, s')

/-- The calls on the process.  What the JVM makes of an exception is not part of the library: a
history may go on after one. -/
def jvm (platform : Platform) : System JniProcess JniCall where
  start := Process.start
  step p l p' := ∃ (call : JniCall) (pick : JniProcess → ℕ), l = some call ∧
    Connect platform call.sync call.async pick p p' call.res

/-- The session that a process amounts to. -/
def sessionOf (p : JniProcess) : Session where
  stdout := p.state.stdout
  stopped := p.context.stopped
  waiting := p.context.outstandingWork

variable {platform : Platform}

/-- A process between calls. -/
structure Settled (platform : Platform) (p : JniProcess) : Prop where
  sound : StocksSound platform printCompletion p
  rest : p.context.stopped = true ∨ p.context.outstandingWork = 0

/-- There is nothing it could run. -/
theorem Settled.atRest {p : JniProcess} (h : Settled platform p) : AtRest p :=
  ⟨h.sound.counted, h.rest⟩

/-- Nothing is in flight on a context that may still run. -/
theorem Settled.finished {p : JniProcess} (h : Settled platform p)
    (hlive : p.context.stopped = false) : ∀ r ∈ p.state.requests, r.exchange.inFlight = none := by
  have hidle := h.rest.resolve_left (by simp [hlive])
  rw [h.sound.counted] at hidle
  exact h.sound.pending_eq_nil_iff.mp (List.length_eq_zero_iff.mp hidle)

/-! ## The blocking request

It has an object of its own, which is gone when the call is left.  What it leaves is its text, or an
exception. -/

/-- **The blocking request prints its listing, or throws.** -/
theorem exists_syncRequest (platform : Platform) (c : Circumstances) (apikey : StdString)
    (w : JniWorld) :
    ∃ e target, Dialogue platform target none e ∧
      (∀ x, c.listing platform "sync: ".toList = .error x →
        syncRequest platform c apikey w
          = (.error x, { w with blocking := w.blocking ++ [e] })) ∧
      ∀ text, c.listing platform "sync: ".toList = .ok text →
        syncRequest platform c apikey w
          = (.ok ⟨⟩, { w with blocking := w.blocking ++ [e], stdout := w.stdout ++ text }) := by
  let target := fieldsToTargetString c.order.request "stocks".toList apikey appleRequest
  let e := (GenericRestRequest.construct platform (platform.setup w.constructed)).opened.converse
    platform c.network target
  have hget : getStocksList platform appleRequest apikey c.order c.network w
      = (decodeBody platform c.order.row c.body, { w with blocking := w.blocking ++ [e] }) :=
    getStocksList_eq platform appleRequest apikey c.order c.network w
  refine ⟨e, target, (Dialogue.opened w.constructed).converse c.network, ?_⟩
  rw [syncRequest, hget, Circumstances.listing]
  -- an exception of the decoding leaves the call before anything is printed
  rcases hdecoded : decodeBody platform c.order.row c.body with x | response
  · exact ⟨fun _ h => by rw [Except.error.inj h], fun _ h => by cases h⟩
  · refine ⟨fun _ h => (by cases h), fun text htext => ?_⟩
    obtain rfl := Except.ok.inj htext
    have hwrites := writes_printResponse "sync: ".toList c.print (decodeBody_filled hdecoded)
      w.stdout
    simp only [World.stream, hwrites]

/-! ## The asynchronous request

Its `run_all` serves the one request that can be in flight: those of earlier calls are finished, or
the context has stopped and runs nothing.  So all that is printed meanwhile is printed by its token
(`Awaiting`). -/

/-- What a token of `async_request` prints. -/
theorem stdout_printCompletion {order : ℕ → Order responseFields.length} {body : StdString}
    (print : PrintOrder) {response : GetStocksListResponse}
    (h : decodeBody platform order body = .ok response) :
    (printCompletion print response).stdout = listingText "async: ".toList print response := by
  rw [printCompletion, writes_printResponse "async: ".toList print (decodeBody_filled h) []]
  exact List.nil_append _

/-- What the end of a stage makes the token print is what it makes it note. -/
theorem stdout_invocation (platform : Platform) {r : StocksRequest PrintOrder}
    {call : StocksCall PrintOrder} (htoken : r.submission.completionToken = call.completion)
    (stage : Stage) (c : Completion) :
    (r.invocation platform (StocksCompletion.call printCompletion) stage c).stdout
      = (r.invocation platform (StocksCompletion.call printCompletion) stage c).notes.flatMap
          (listingText "async: ".toList call.completionToken) := by
  rcases stage with _ | _ | _ | _ | _
  case read =>
    rw [invocation_read, htoken]
    rcases hbody : decodeBody platform call.completion.order c.body with x | response
    · rfl
    · exact (stdout_printCompletion call.completionToken hbody).trans (List.append_nil _).symm
  all_goals rfl

/-- How far the asynchronous request, submitted after the requests `rs`, has come: it is the only
one in flight, and `out` was written before. -/
structure Awaiting (platform : Platform) (rs : List (StocksRequest PrintOrder))
    (call : StocksCall PrintOrder) (out : StdString) (p : JniProcess) : Prop where
  sound : StocksSound platform printCompletion p
  finished : ∀ r ∈ rs, r.exchange.inFlight = none
  text : ∃ r : StocksRequest PrintOrder, p.state.requests = rs ++ [r] ∧
    r.submission.completionToken = call.completion ∧
    p.state.stdout = out ++ r.notes.flatMap (listingText "async: ".toList call.completionToken)

/-- A handler that runs belongs to that request, whose token prints what it is given. -/
theorem Awaiting.settle {rs : List (StocksRequest PrintOrder)} {call : StocksCall PrintOrder}
    {out : StdString} {p : JniProcess} (hp : Awaiting platform rs call out p) {i : ℕ}
    {h : Handler (StocksCompletion PrintOrder)} (hr : p.Runs i h) (c : Completion) :
    Awaiting platform rs call out
      (p.settle i (execStocks platform printCompletion c h p.state)) := by
  obtain ⟨k, r, stage, new, hstep⟩ := hp.sound.exists_step hr c
  obtain ⟨r', hrequests, htoken, hstdout⟩ := hp.text
  have hnew : new = [] := List.eq_nil_iff_forall_not_mem.mpr fun r' hr' =>
    invocation_submitless (fun response => printCompletion_submitless _ response) stage c _
      (hstep.fresh r' hr').2
  have hget := hstep.request
  rw [hrequests] at hget
  rcases lt_or_ge k rs.length with hk | hk
  · -- the others have no handler that could run
    rw [List.getElem?_append_left hk] at hget
    have hdone := hp.finished r (List.mem_of_getElem? hget)
    rw [hstep.inFlight] at hdone
    cases hdone
  · have hlt := hstep.lt
    rw [hrequests, List.length_append, List.length_singleton] at hlt
    obtain rfl : k = rs.length := by omega
    rw [List.getElem?_concat_length] at hget
    obtain rfl := Option.some.inj hget
    refine ⟨hp.sound.settle (fun _ _ => isStocksAct_of_call) hr c, hp.finished,
      r'.turn platform (StocksCompletion.call printCompletion) stage c, ?_, htoken, ?_⟩
    · rw [Loop.state_settle, hstep.requests, hrequests, hnew, List.append_nil,
        List.set_append_right _ _ le_rfl, Nat.sub_self, List.set_cons_zero]
    · rw [Loop.state_settle, hstep.stdout_eq, hstdout, Request.turn, List.flatMap_append,
        List.append_assoc, stdout_invocation platform htoken]

/-- So it is when `run_all` is left, by a return or by an exception. -/
theorem Awaiting.of_drains {rs : List (StocksRequest PrintOrder)} {call : StocksCall PrintOrder}
    {out : StdString} {p p' : JniProcess} {env : Environment PrintOrder}
    {res : Except Exception Unit} (hp : Awaiting platform rs call out p)
    (h : RunAll platform printCompletion env p p' res) : Awaiting platform rs call out p' := by
  rcases h.invariant (I := Awaiting platform rs call out)
    (fun q hq _ _ => ⟨hq.sound.stop, hq.finished, hq.text⟩) (fun q f hq hr _ => hq.settle hr _) hp
    with ⟨-, hp'⟩ | ⟨q, f, x, -, hq, hr, -, rfl⟩
  · exact hp'
  · exact hq.settle hr _

/-- **The asynchronous request does what the session makes of it.** -/
theorem exists_await (platform : Platform) {p : JniProcess} (hp : Settled platform p)
    (c : Circumstances) (pick : JniProcess → ℕ) (apikey : StdString) :
    ∃ p' res, AsyncRequest platform c pick apikey p p' res ∧ Settled platform p' ∧
      (sessionOf p).await platform c = (res, sessionOf p') := by
  let call : StocksCall PrintOrder := ⟨appleRequest, apikey, c.print, c.order⟩
  have hsubmitted : StocksSound platform printCompletion (submitApple platform c apikey p) :=
    StocksSound.use hp.sound _
  by_cases hs : p.context.stopped = true
  · -- a stopped context runs nothing, and keeps what is initiated
    have hstopped : (sessionOf p).stopped = true := hs
    refine ⟨_, _, .of_stopped hs, ⟨hsubmitted, .inl hs⟩, ?_⟩
    rw [Session.await, if_pos hstopped]
    rfl
  have hlive : p.context.stopped = false := by simpa using hs
  obtain ⟨p', r, res, hrun, hrequests, -, hstopped, hexchange, hresult⟩ := exists_runAll_submitted
    platform hp.sound.counted hlive (hp.rest.resolve_left hs) call
    (printCompletion_submitless c.print) c.network pick
  have hawaiting : Awaiting platform p.state.requests call p.state.stdout p' :=
    Awaiting.of_drains ⟨hsubmitted, hp.finished hlive, call.submitted platform p.state.constructed,
      rfl, rfl, (List.append_nil _).symm⟩ hrun
  obtain ⟨r', hrequests', -, hstdout⟩ := hawaiting.text
  obtain rfl : r = r' := by simpa using hrequests.symm.trans hrequests'
  -- the request is finished, and so are the earlier ones: nothing waits
  have hwork : p'.context.outstandingWork = 0 := by
    have hdone : r.exchange.inFlight = none := by rw [hexchange, Exchange.inFlight_converse]
    rw [hawaiting.sound.outstandingWork_eq, hrequests, List.countP_eq_zero]
    intro r' hr'
    rcases List.mem_append.mp hr' with hr' | hr'
    · simp [hp.finished hlive r' hr']
    · simp [List.mem_singleton.mp hr', hdone]
  refine ⟨p', res, hrun, ⟨hawaiting.sound, .inl hstopped⟩, ?_⟩
  have hbody : r.exchange.object.readResponse = c.body := by
    rw [hexchange]
    rfl
  rw [hbody] at hresult
  rw [Session.await, if_neg (by simp [sessionOf, hlive]), Circumstances.listing]
  have hsession : sessionOf p'
      = ⟨p.state.stdout ++ r.notes.flatMap (listingText "async: ".toList c.print), true, 0⟩ := by
    rw [sessionOf, hstdout, hstopped, hwork]
  have hidle : (sessionOf p).waiting = 0 := hp.rest.resolve_left hs
  rcases hdecoded : decodeBody platform c.order.row c.body with x | response
  · -- the token is not called, and the exception leaves `run_all`
    have hthrown : r.notes = [] ∧ res = .error x := by rwa [hdecoded] at hresult
    obtain ⟨hnotes, rfl⟩ := hthrown
    rw [hsession, hnotes, List.flatMap_nil, List.append_nil, ← hidle]
    rfl
  · have hreturned : r.notes = [response] ∧ res = leaving (printCompletion c.print response).thrown
      := by rwa [hdecoded] at hresult
    obtain ⟨hnotes, rfl⟩ := hreturned
    rw [printCompletion_thrown c.print (decodeBody_filled hdecoded), hsession, hnotes,
      List.flatMap_singleton, ← hidle]
    rfl

/-! ## A call

A call that throws in its blocking request makes no asynchronous one; any other call makes both. -/

/-- Neither what is printed nor a finished object unsettles a process. -/
theorem Settled.print {p : JniProcess} (hp : Settled platform p) {e : Exchange} {target : StdString}
    (he : Dialogue platform target none e) (text : StdString) :
    Settled platform { p with
      state := { p.state with blocking := p.state.blocking ++ [e], stdout := text } } := by
  refine ⟨⟨hp.sound.counted, hp.sound.waiting, hp.sound.requests, fun e' he' => ?_⟩, hp.rest⟩
  rcases List.mem_append.mp he' with he' | he'
  · exact hp.sound.blocking e' he'
  · exact ⟨target, List.mem_singleton.mp he' ▸ he⟩

/-- **A call on a settled process does what the session makes of it.** -/
theorem exists_connect_session (platform : Platform) {p : JniProcess} (hp : Settled platform p)
    (sync async : Circumstances) (pick : JniProcess → ℕ) :
    ∃ p' res, Connect platform sync async pick p p' res ∧ Settled platform p' ∧
      (sessionOf p).connect platform sync async = (res, sessionOf p') := by
  obtain ⟨e, target, he, hthrows, hreturns⟩ := exists_syncRequest platform sync connectApikey
    (p.state.print connectBanner)
  rw [Session.connect]
  rcases hlisting : sync.listing platform "sync: ".toList with x | text
  · refine ⟨_, .error x, ?_, hp.print he (p.state.stdout ++ connectBanner), rfl⟩
    rw [Connect, hthrows x hlisting]
    exact ⟨rfl, rfl⟩
  · have hsettled := hp.print he (p.state.stdout ++ connectBanner ++ text ++ connectRule)
    obtain ⟨p', res, hasync, hp', hsession⟩ := exists_await platform hsettled async pick
      connectApikey
    refine ⟨p', res, ?_, hp', hsession⟩
    rw [Connect, hreturns text hlisting]
    exact hasync

/-- **The process refines the session exactly.** -/
theorem jvm_exact (platform : Platform) :
    Exact (jvm platform) (sessions platform) sessionOf (Settled platform) where
  start := rfl
  initially := ⟨Sound.start, .inr rfl⟩
  step := by
    rintro p _ p' hp ⟨call, pick, rfl, hcall⟩
    obtain ⟨q, res, hq, hsettled, hsession⟩ := exists_connect_session platform hp call.sync
      call.async pick
    obtain ⟨rfl, rfl⟩ := hq.unique hcall
    exact ⟨hsettled, .single ⟨call, rfl, hsession⟩⟩
  realises := by
    rintro p _ s hp ⟨call, rfl, hcall⟩
    obtain ⟨q, res, hq, -, hsession⟩ := exists_connect_session platform hp call.sync
      call.async fun _ => 0
    obtain ⟨rfl, rfl⟩ := Prod.mk.inj (hsession.symm.trans hcall)
    exact ⟨q, .single ⟨call, _, rfl, hq⟩, rfl⟩

/-! ## A history of calls

The context stops with the first call whose blocking request is answered.  Every later call of that
kind leaves a request waiting, so what a call prints depends on whether there was one before it. -/

namespace JniCall

variable (platform : Platform)

/-- The blocking request of the call gets a listing. -/
def lists (call : JniCall) : Bool := (call.sync.listing platform "sync: ".toList).isOk

/-- What a call prints, `late` when an earlier one has stopped the context. -/
def text (late : Bool) (call : JniCall) : StdString :=
  match call.sync.listing platform "sync: ".toList with
  | .error _ => connectBanner
  | .ok text => connectBanner ++ text ++ connectRule
      ++ if late then [] else (call.async.listing platform "async: ".toList).toOption.getD []

/-- …and how it is left. -/
def outcome (late : Bool) (call : JniCall) : Except Exception Unit :=
  match call.sync.listing platform "sync: ".toList with
  | .error x => .error x
  | .ok _ => if late then .ok ()
      else (call.async.listing platform "async: ".toList).map fun _ => ()

end JniCall

/-- **Each call is left as it has to be**: one is late when an earlier one has listed anything. -/
def Answered (platform : Platform) (history : List JniCall) : Prop :=
  ∀ (i : ℕ) (call : JniCall), history[i]? = some call →
    call.res = call.outcome platform ((history.take i).any (JniCall.lists platform))

/-- The session after a history of calls. -/
def sessionAfter (platform : Platform) (history : List JniCall) : Session where
  stdout := history.zipIdx.flatMap fun q =>
    q.1.text platform ((history.take q.2).any (JniCall.lists platform))
  stopped := history.any (JniCall.lists platform)
  waiting := history.countP (JniCall.lists platform) - 1

/-- The asynchronous request, in one formula. -/
theorem Session.await_eq (platform : Platform) (async : Circumstances) (s : Session) :
    s.await platform async
      = (if s.stopped then .ok () else (async.listing platform "async: ".toList).map fun _ => (),
        { stdout := s.stdout ++ if s.stopped then []
            else (async.listing platform "async: ".toList).toOption.getD []
          stopped := true
          waiting := s.waiting + s.stopped.toNat }) := by
  obtain ⟨out, _ | _, waiting⟩ := s
  · rw [await, if_neg Bool.false_ne_true]
    rcases async.listing platform "async: ".toList with x | text
    · simp [Except.map, Except.toOption]
    · simp [Except.map, Except.toOption, print]
  · simp [await]

/-- **A call, in one formula.** -/
theorem Session.connect_eq (platform : Platform) (call : JniCall) (s : Session) :
    s.connect platform call.sync call.async = (call.outcome platform s.stopped,
      { stdout := s.stdout ++ call.text platform s.stopped
        stopped := s.stopped || call.lists platform
        waiting := s.waiting + (s.stopped && call.lists platform).toNat }) := by
  rw [connect, JniCall.outcome, JniCall.text, JniCall.lists]
  rcases call.sync.listing platform "sync: ".toList with x | text
  · simp [print, Except.isOk, Except.toBool]
  · have hawait := await_eq platform call.async (((s.print connectBanner).print text).print
      connectRule)
    generalize call.async.listing platform "async: ".toList = async at hawait ⊢
    refine hawait.trans ?_
    simp [print, Except.isOk, Except.toBool]

/-- One call more. -/
theorem answered_concat {history : List JniCall} {call : JniCall} :
    Answered platform (history ++ [call]) ↔ Answered platform history ∧
      call.res = call.outcome platform (history.any (JniCall.lists platform)) := by
  constructor
  · intro h
    refine ⟨fun i earlier hi => ?_, ?_⟩
    · have hlt := (List.getElem?_eq_some_iff.mp hi).1
      have hres := h i earlier (by rw [List.getElem?_append_left hlt, hi])
      rwa [List.take_append_of_le_length hlt.le] at hres
    · have hres := h history.length call List.getElem?_concat_length
      rwa [List.take_left' rfl] at hres
  · rintro ⟨h, hlast⟩ i earlier hi
    rcases lt_trichotomy i history.length with hlt | rfl | hgt
    · rw [List.getElem?_append_left hlt] at hi
      rw [List.take_append_of_le_length hlt.le]
      exact h i earlier hi
    · rw [List.getElem?_concat_length] at hi
      obtain rfl := Option.some.inj hi
      rwa [List.take_left' rfl]
    · rw [List.getElem?_eq_none (by simpa using hgt)] at hi
      cases hi

/-- All calls that list anything but the first leave a request behind. -/
theorem waiting_concat (platform : Platform) (history : List JniCall) (call : JniCall) :
    history.countP (JniCall.lists platform) - 1
        + (history.any (JniCall.lists platform) && call.lists platform).toNat
      = (history ++ [call]).countP (JniCall.lists platform) - 1 := by
  rw [List.countP_append, List.countP_singleton]
  rcases hany : history.any (JniCall.lists platform) with _ | _
  · have hzero : history.countP (JniCall.lists platform) = 0 :=
      List.countP_eq_zero.mpr fun call hcall => by simp [List.any_eq_false.mp hany call hcall]
    rw [hzero]
    rcases call.lists platform with _ | _ <;> rfl
  · have hpos : 0 < history.countP (JniCall.lists platform) :=
      List.countP_pos_iff.mpr (List.any_eq_true.mp hany)
    rcases call.lists platform with _ | _
    · simp
    · simp only [Bool.and_self, Bool.toNat_true, if_true]
      omega

/-- A call after a history. -/
theorem connect_sessionAfter (platform : Platform) (history : List JniCall) (call : JniCall) :
    (sessionAfter platform history).connect platform call.sync call.async
      = (call.outcome platform (history.any (JniCall.lists platform)),
          sessionAfter platform (history ++ [call])) := by
  have htext : (sessionAfter platform (history ++ [call])).stdout
      = (sessionAfter platform history).stdout
        ++ call.text platform (history.any (JniCall.lists platform)) := by
    simp only [sessionAfter, List.zipIdx_append, List.flatMap_append, Nat.zero_add,
      List.zipIdx_singleton, List.flatMap_singleton, List.take_left']
    refine congrArg (· ++ _) (List.flatMap_congr fun q hq => ?_)
    rw [List.take_append_of_le_length (List.snd_lt_of_mem_zipIdx hq).le]
  have hstopped : (sessionAfter platform (history ++ [call])).stopped
      = ((sessionAfter platform history).stopped || call.lists platform) := by
    simp [sessionAfter]
  rw [Session.connect_eq]
  exact Prod.ext rfl
    (Session.ext htext.symm hstopped.symm (waiting_concat platform history call))

/-- The histories of the session. -/
theorem run_sessions_iff {history : List JniCall} {s : Session} :
    (sessions platform).Run history s
      ↔ Answered platform history ∧ s = sessionAfter platform history := by
  constructor
  · intro h
    refine h.invariant (P := fun history s => Answered platform history ∧
      s = sessionAfter platform history) ⟨fun _ _ hi => by simp at hi, rfl⟩ ?_
    rintro history _ _ s ⟨hanswered, rfl⟩ ⟨call, rfl, hcall⟩
    rw [connect_sessionAfter] at hcall
    obtain ⟨hres, rfl⟩ := Prod.mk.inj hcall
    exact ⟨answered_concat.mpr ⟨hanswered, hres.symm⟩, rfl⟩
  · rintro ⟨hanswered, rfl⟩
    induction history using List.reverseRecOn with
    | nil => exact .refl
    | append_singleton history call ih =>
      obtain ⟨hearlier, hres⟩ := answered_concat.mp hanswered
      refine (ih hearlier).step (l := some call) ⟨call, rfl, ?_⟩
      rw [connect_sessionAfter, hres]

end Twelvedata
