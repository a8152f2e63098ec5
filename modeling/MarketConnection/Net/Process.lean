import MarketConnection.Foundations.EventLoop
import MarketConnection.Net.Dialogue

/-!
# Net/Process — any number of requests on the one `io_context`

A process is a loop whose state is the requests submitted so far: the context of `native_ioc()` is
created once and never restarted.  What a completion token does when it is called is a parameter
(`invoke`): it may note what it got, submit or send further requests, and throw.

`exec_ofStage` says once what a step does.  From it, **every reachable process is sound**
(`Reachable.sound`): each request is a dialogue with its own target, the operations pending are the
stages in flight, and a token was given what its own object read.
-/

namespace Twelvedata

open EventLoop

/-! ## The process

The state is what the program can see of itself: its objects, and `std::cout`.  The context beside
it is the library's, and belongs to `Foundations/EventLoop`. -/

/-- An `async_send_request` of a target; `origin` is the caller's own record of it, which nothing
reads. -/
structure Submission (S F : Type) where
  origin : S
  target : StdString
  completionToken : F

/-- A request the program makes, outside the loop or from inside a token. -/
inductive Act (S F : Type)
  | async (submission : Submission S F)
  | sync (target : StdString) (network : Network)

/-- What a completion token does when it is called. -/
structure Invocation (S F ν : Type) where
  notes : List ν := []
  stdout : StdString := []
  acts : List (Act S F) := []
  thrown : Option Exception := none

/-- A submitted request: its object, and what its token noted. -/
structure Request (S F ν : Type) where
  submission : Submission S F
  exchange : Exchange
  notes : List ν := []

/-- The objects of `async_send_request`, by the order they were made in, those of `send_request`,
which are done, and what was written to `std::cout`. -/
structure World (S F ν : Type) where
  requests : List (Request S F ν) := []
  blocking : List Exchange := []
  stdout : StdString := []

/-- The program beside the context of `native_ioc()`. -/
abbrev Process (S F ν : Type) := Loop (World S F ν) (Handler F)

variable {S F ν : Type}

namespace World

/-- How many objects were constructed so far. -/
def constructed (w : World S F ν) : ℕ := w.requests.length + w.blocking.length

/-- The objects of the process, and what they did. -/
def exchanges (w : World S F ν) : List Exchange := w.requests.map Request.exchange ++ w.blocking

/-- The object in place `i` has gone on. -/
def replace (i : ℕ) (r : Request S F ν) (w : World S F ν) : World S F ν :=
  { w with requests := w.requests.set i r }

def print (text : StdString) (w : World S F ν) : World S F ν :=
  { w with stdout := w.stdout ++ text }

@[simp] theorem print_nil (w : World S F ν) : w.print [] = w := by simp [print]

/-- `send_request(target)`: an object of its own, used up in the call. -/
def sendRequest (platform : Platform) (target : StdString) (network : Network)
    (w : World S F ν) : Except Exception Json × World S F ν :=
  let obj := GenericRestRequest.construct platform (platform.setup w.constructed)
  let (json, obj) := (Twelvedata.sendRequest platform network target).run.run obj
  (json, { w with blocking := w.blocking ++ [obj] })

/-- `async_send_request(target, token)`: a shared object, and the operation it starts. -/
def asyncSendRequest (platform : Platform) (submission : Submission S F) (w : World S F ν) :
    World S F ν × List (Handler F) :=
  let obj := GenericRestRequest.construct platform (platform.setup w.constructed)
  let (handler, obj) := (Twelvedata.asyncSendRequest w.requests.length submission.target
    submission.completionToken).run obj
  ({ w with requests := w.requests ++ [{ submission := submission, exchange := obj }] }, [handler])

/-- One request of the program, and the operation it leaves in flight, if any. -/
def act (platform : Platform) (w : World S F ν) : Act S F → World S F ν × List (Handler F)
  | .async submission => w.asyncSendRequest platform submission
  | .sync target network => ((w.sendRequest platform target network).2, [])

/-- The requests a token makes, one after the other. -/
def acts (platform : Platform) : World S F ν → List (Act S F) → World S F ν × List (Handler F)
  | w, [] => (w, [])
  | w, a :: as =>
    let (w, hs) := w.act platform a
    let (w, hs') := w.acts platform as
    (w, hs ++ hs')

end World

/-- **One handler**: the operation of its object ends as `c` says, the handler is called, and the
token with it if the document was parsed. -/
def exec (platform : Platform) (invoke : F → Json → Invocation S F ν) (c : Completion)
    (h : Handler F) (w : World S F ν) : Effect (World S F ν) (Handler F) Exception :=
  match w.requests[h.self]? with
  -- a handler owns its object, so this does not happen
  | none => { state := w }
  | some r =>
    match (h.call platform c).run r.exchange with
    | (.initiated next, e) =>
      { state := w.replace h.self { r with exchange := e }, initiated := [next] }
    | (.parsed _ (.error x), e) =>
      { state := w.replace h.self { r with exchange := e }, thrown := some x }
    | (.parsed token (.ok json), e) =>
      let call := invoke token json
      let r := { r with exchange := e, notes := r.notes ++ call.notes }
      let (w, hs) := ((w.replace h.self r).print call.stdout).acts platform call.acts
      { state := w, initiated := hs, thrown := call.thrown }

namespace Process

/-- Before the first request. -/
def start : Process S F ν := { state := {}, context := {} }

/-- A request from outside the loop. -/
def act (platform : Platform) (a : Act S F) (p : Process S F ν) : Process S F ν :=
  let (w, hs) := p.state.act platform a
  { state := w, context := p.context.initiate hs }

end Process

/-- **A process at any time**, when the program outside the tokens makes only the requests
`Allowed`: it may make another, or call `run_one` and have any pending operation end in any way.
An exception that leaves `run_one` need not end the program. -/
inductive Reachable (platform : Platform) (invoke : F → Json → Invocation S F ν)
    (Allowed : Act S F → Prop) : Process S F ν → Prop
  | start : Reachable platform invoke Allowed Process.start
  | act {p : Process S F ν} {a : Act S F} (h : Reachable platform invoke Allowed p)
      (ha : Allowed a) : Reachable platform invoke Allowed (p.act platform a)
  | runOne {p p' : Process S F ν} {pick : ℕ} {c : Completion} {res : Except Exception ℕ}
      (h : Reachable platform invoke Allowed p)
      (hr : p.runOne (exec platform invoke) pick c = some (p', res)) :
      Reachable platform invoke Allowed p'

/-! ## The requests that wait -/

namespace Request

/-- The handler of the stage in flight, for the request in place `i`. -/
def waiting (i : ℕ) (r : Request S F ν) : Option (Handler F) :=
  r.exchange.inFlight.map (Handler.ofStage i r.submission.target r.submission.completionToken)

/-- What the token is made to do by the end of a stage: to be called, if it was the last and the
text it left is a document. -/
def invocation (platform : Platform) (invoke : F → Json → Invocation S F ν) (stage : Stage)
    (c : Completion) (r : Request S F ν) : Invocation S F ν :=
  match stage.next with
  | some _ => {}
  | none =>
    match released platform
      (r.exchange.advance platform r.submission.target stage c).object.readResponse with
    | .error x => { thrown := some x }
    | .ok json => invoke r.submission.completionToken json

/-- The three ways a stage can leave the token: not called before the last, not called when the text
is no document, … -/
theorem invocation_of_next (platform : Platform) (invoke : F → Json → Invocation S F ν)
    {stage next : Stage} (h : stage.next = some next) (c : Completion) (r : Request S F ν) :
    r.invocation platform invoke stage c = {} := by rw [invocation, h]

theorem invocation_of_error (platform : Platform) (invoke : F → Json → Invocation S F ν)
    {stage : Stage} (h : stage.next = none) {c : Completion} {r : Request S F ν} {x : Exception}
    (hx : released platform
      (r.exchange.advance platform r.submission.target stage c).object.readResponse = .error x) :
    r.invocation platform invoke stage c = { thrown := some x } := by rw [invocation, h, hx]

/-- … and called with the document. -/
theorem invocation_of_ok (platform : Platform) (invoke : F → Json → Invocation S F ν)
    {stage : Stage} (h : stage.next = none) {c : Completion} {r : Request S F ν} {json : Json}
    (hjson : released platform
      (r.exchange.advance platform r.submission.target stage c).object.readResponse = .ok json) :
    r.invocation platform invoke stage c = invoke r.submission.completionToken json := by
  rw [invocation, h, hjson]

/-- The request after a stage. -/
def turn (platform : Platform) (invoke : F → Json → Invocation S F ν) (stage : Stage)
    (c : Completion) (r : Request S F ν) : Request S F ν :=
  { r with
    exchange := r.exchange.advance platform r.submission.target stage c
    notes := r.notes ++ (r.invocation platform invoke stage c).notes }

@[simp] theorem submission_turn (platform : Platform) (invoke : F → Json → Invocation S F ν)
    (stage : Stage) (c : Completion) (r : Request S F ν) :
    (r.turn platform invoke stage c).submission = r.submission := rfl

@[simp] theorem exchange_turn (platform : Platform) (invoke : F → Json → Invocation S F ν)
    (stage : Stage) (c : Completion) (r : Request S F ν) :
    (r.turn platform invoke stage c).exchange
      = r.exchange.advance platform r.submission.target stage c := rfl

/-- After its turn the next stage waits, if there is one. -/
theorem waiting_turn (platform : Platform) (invoke : F → Json → Invocation S F ν) (stage : Stage)
    (c : Completion) (i : ℕ) (r : Request S F ν) :
    (r.turn platform invoke stage c).waiting i
      = stage.next.map (Handler.ofStage i r.submission.target r.submission.completionToken) := by
  rw [waiting, exchange_turn, Exchange.inFlight_advance, submission_turn]

end Request

/-- **What a handler does**: its request takes a turn, the token does what it is made to do, and
the next stage of the request waits beside the requests it submitted. -/
theorem exec_ofStage (platform : Platform) (invoke : F → Json → Invocation S F ν) {i : ℕ}
    {r : Request S F ν} {w : World S F ν} (hr : w.requests[i]? = some r) (stage : Stage)
    (c : Completion) :
    exec platform invoke c
        (Handler.ofStage i r.submission.target r.submission.completionToken stage) w
      = { state := (((w.replace i (r.turn platform invoke stage c)).print
            (r.invocation platform invoke stage c).stdout).acts platform
              (r.invocation platform invoke stage c).acts).1
          initiated := ((r.turn platform invoke stage c).waiting i).toList
            ++ (((w.replace i (r.turn platform invoke stage c)).print
              (r.invocation platform invoke stage c).stdout).acts platform
                (r.invocation platform invoke stage c).acts).2
          thrown := (r.invocation platform invoke stage c).thrown } := by
  rw [exec, Handler.self_ofStage, hr, Request.waiting_turn]
  simp only [call_ofStage, Request.turn, Request.invocation]
  -- the last stage calls the token, or throws; any other initiates the next
  rcases stage.next with _ | next
  · rcases released platform _ with x | json
    · simp [World.acts]
    · rfl
  · simp [World.acts]

/-! ## The handlers of a list of requests

What is pending is told by the requests: one handler for each that is not finished.  The order in
which they came to be pending is not, so the two are compared up to `Perm`. -/

/-- The handlers that wait for the requests `rs`, when the first of them is in place `k`. -/
def waitingFrom (k : ℕ) (rs : List (Request S F ν)) : List (Handler F) :=
  (rs.zipIdx k).flatMap fun p => (p.1.waiting p.2).toList

@[simp] theorem waitingFrom_nil (k : ℕ) : waitingFrom k ([] : List (Request S F ν)) = [] := rfl

@[simp] theorem waitingFrom_cons (k : ℕ) (r : Request S F ν) (rs : List (Request S F ν)) :
    waitingFrom k (r :: rs) = (r.waiting k).toList ++ waitingFrom (k + 1) rs := by
  simp [waitingFrom]

theorem waitingFrom_append (k : ℕ) (rs rs' : List (Request S F ν)) :
    waitingFrom k (rs ++ rs') = waitingFrom k rs ++ waitingFrom (k + rs.length) rs' := by
  simp [waitingFrom, List.zipIdx_append]

theorem mem_waitingFrom {rs : List (Request S F ν)} {h : Handler F} :
    h ∈ waitingFrom 0 rs
      ↔ ∃ (i : ℕ) (r : Request S F ν), rs[i]? = some r ∧ r.waiting i = some h := by
  simp only [waitingFrom, List.mem_flatMap, List.mem_zipIdx_iff_getElem?, Option.mem_toList,
    Prod.exists]
  exact ⟨fun ⟨r, i, h⟩ => ⟨i, r, h⟩, fun ⟨i, r, h⟩ => ⟨r, i, h⟩⟩

/-- Only the request in place `i` decides what waits for `i`. -/
theorem exists_waitingFrom_set {rs : List (Request S F ν)} {i : ℕ} (hi : i < rs.length) :
    ∃ others, ∀ r : Request S F ν,
      (waitingFrom 0 (rs.set i r)).Perm ((r.waiting i).toList ++ others) := by
  refine ⟨waitingFrom 0 (rs.take i) ++ waitingFrom (i + 1) (rs.drop (i + 1)), fun r => ?_⟩
  have hlen : (rs.take i).length = i := List.length_take_of_le hi.le
  rw [List.set_eq_take_append_cons_drop, if_pos hi, waitingFrom_append, waitingFrom_cons, hlen,
    Nat.zero_add]
  exact List.perm_append_comm_assoc _ _ _

/-- What waits is the handler of a stage, … -/
theorem exists_of_waiting {i : ℕ} {r : Request S F ν} {h : Handler F} (hw : r.waiting i = some h) :
    ∃ stage, r.exchange.inFlight = some stage ∧
      h = Handler.ofStage i r.submission.target r.submission.completionToken stage := by
  obtain ⟨stage, hs, rfl⟩ := Option.map_eq_some_iff.mp hw
  exact ⟨stage, hs, rfl⟩

/-- … with the place of its own request. -/
theorem self_of_waiting {i : ℕ} {r : Request S F ν} {h : Handler F} (hw : r.waiting i = some h) :
    h.self = i := by
  obtain ⟨stage, -, rfl⟩ := exists_of_waiting hw
  exact Handler.self_ofStage _ _ _

/-- What waits for the request in place `k + j` is its own handler and no other. -/
theorem filter_waitingFrom (rs : List (Request S F ν)) (k j : ℕ) :
    (waitingFrom k rs).filter (fun h => h.self = k + j)
      = (rs[j]?.bind (Request.waiting (k + j))).toList := by
  induction rs generalizing k j with
  | nil => rfl
  | cons r rs ih =>
    rw [waitingFrom_cons, List.filter_append]
    rcases j with _ | j
    · -- the others have later places
      have hrest : (waitingFrom (k + 1) rs).filter (fun h => h.self = k) = [] := by
        refine List.filter_eq_nil_iff.mpr fun h hh => ?_
        obtain ⟨p, hp, hw⟩ := List.mem_flatMap.mp hh
        have hself := self_of_waiting (Option.mem_toList.mp hw)
        have hle := List.le_snd_of_mem_zipIdx hp
        simp only [decide_eq_true_eq]
        omega
      rw [Nat.add_zero, hrest, List.append_nil]
      rcases hw : r.waiting k with _ | h
      · simp [hw]
      · simp [hw, self_of_waiting hw]
    · have hfirst : (r.waiting k).toList.filter (fun h => h.self = k + (j + 1)) = [] := by
        refine List.filter_eq_nil_iff.mpr fun h hh => ?_
        have hself := self_of_waiting (Option.mem_toList.mp hh)
        simp only [decide_eq_true_eq]
        omega
      rw [hfirst, List.nil_append, List.getElem?_cons_succ,
        show k + (j + 1) = k + 1 + j by omega]
      exact ih (k + 1) j

/-- There are as many as requests that are not finished. -/
theorem length_waitingFrom (rs : List (Request S F ν)) (k : ℕ) :
    (waitingFrom k rs).length = rs.countP fun r => r.exchange.inFlight.isSome := by
  induction rs generalizing k with
  | nil => rfl
  | cons r rs ih =>
    rw [waitingFrom_cons, List.length_append, ih, List.countP_cons, Nat.add_comm]
    rcases hs : r.exchange.inFlight with _ | stage <;> simp [Request.waiting, hs]

/-! ## What a token's requests add -/

/-- The submission a request of the program makes, if it is asynchronous. -/
def Act.submission? : Act S F → Option (Submission S F)
  | .async submission => some submission
  | .sync _ _ => none

theorem Act.mem_filterMap_submission {submission : Submission S F} {as : List (Act S F)} :
    submission ∈ as.filterMap Act.submission? ↔ .async submission ∈ as := by
  rw [List.mem_filterMap]
  constructor
  · rintro ⟨a | _, ha, hs⟩
    · exact Option.some.inj hs ▸ ha
    · cases hs
  · exact fun h => ⟨_, h, rfl⟩

/-- A request just submitted. -/
structure Request.Fresh (platform : Platform) (r : Request S F ν) : Prop where
  exchange : ∃ n, r.exchange
    = (GenericRestRequest.construct platform (platform.setup n)).opened
  notes : r.notes = []

/-- Its resolve is in flight. -/
theorem Request.Fresh.inFlight {platform : Platform} {r : Request S F ν} (h : r.Fresh platform) :
    r.exchange.inFlight = some .resolve := by
  obtain ⟨n, hn⟩ := h.exchange
  rw [hn, inFlight_opened]

/-- **Requests are added, none is touched**: `hs` are the handlers that wait for the new ones. -/
structure World.Grows (platform : Platform) (as : List (Act S F)) (w w' : World S F ν)
    (hs : List (Handler F)) : Prop where
  requests : ∃ rs, w'.requests = w.requests ++ rs ∧ hs = waitingFrom w.requests.length rs ∧
    ∀ r ∈ rs, r.Fresh platform ∧ Act.async r.submission ∈ as
  blocking : ∃ es, w'.blocking = w.blocking ++ es ∧
    ∀ e ∈ es, ∃ target, Dialogue platform target none e

/-- `async_send_request` makes an object, and starts its resolve. -/
theorem World.act_async (platform : Platform) (w : World S F ν) (submission : Submission S F) :
    w.act platform (.async submission)
      = ({ w with
            requests := w.requests ++ [{ submission := submission
                                         exchange := (GenericRestRequest.construct platform
                                           (platform.setup w.constructed)).opened }] },
          [Handler.ofStage w.requests.length submission.target submission.completionToken
            .resolve]) := by
  rw [World.act, World.asyncSendRequest, run_asyncSendRequest]

/-- `send_request` makes an object, and leaves nothing in flight. -/
theorem World.act_sync (platform : Platform) (w : World S F ν) (target : StdString)
    (network : Network) :
    w.act platform (.sync target network)
      = ({ w with
            blocking := w.blocking ++ [(GenericRestRequest.construct platform
              (platform.setup w.constructed)).opened.converse platform network target] }, []) := by
  rw [World.act, World.sendRequest, run_sendRequest]

/-- One request adds to the objects, … -/
theorem World.grows_act (platform : Platform) (w : World S F ν) (a : Act S F) :
    World.Grows platform [a] w (w.act platform a).1 (w.act platform a).2 := by
  rcases a with submission | ⟨target, network⟩
  · rw [act_async]
    refine ⟨⟨[_], rfl, ?_, List.forall_mem_singleton.mpr ⟨⟨⟨_, rfl⟩, rfl⟩, ?_⟩⟩,
      ⟨[], (List.append_nil _).symm, nofun⟩⟩
    · rw [waitingFrom_cons, Request.waiting, inFlight_opened]
      rfl
    · exact List.mem_singleton_self _
  · rw [act_sync]
    refine ⟨⟨[], (List.append_nil _).symm, rfl, nofun⟩, ⟨[_], rfl, ?_⟩⟩
    exact List.forall_mem_singleton.mpr ⟨target, (Dialogue.opened _).converse network⟩

theorem World.acts_cons (platform : Platform) (w : World S F ν) (a : Act S F)
    (as : List (Act S F)) :
    w.acts platform (a :: as)
      = (((w.act platform a).1.acts platform as).1,
          (w.act platform a).2 ++ ((w.act platform a).1.acts platform as).2) := rfl

/-- … and so do any number of them. -/
theorem World.grows_acts (platform : Platform) :
    ∀ (as : List (Act S F)) (w : World S F ν),
      World.Grows platform as w (w.acts platform as).1 (w.acts platform as).2
  | [], w => ⟨⟨[], (List.append_nil _).symm, rfl, nofun⟩, ⟨[], (List.append_nil _).symm, nofun⟩⟩
  | a :: as, w => by
      obtain ⟨⟨rs, hrs, hhs, hfresh⟩, ⟨es, hes, hdone⟩⟩ := World.grows_act platform w a
      obtain ⟨⟨rs', hrs', hhs', hfresh'⟩, ⟨es', hes', hdone'⟩⟩ :=
        World.grows_acts platform as (w.act platform a).1
      refine ⟨⟨rs ++ rs', ?_, ?_, ?_⟩, ⟨es ++ es', ?_, ?_⟩⟩
      · rw [World.acts_cons, hrs', hrs, List.append_assoc]
      · rw [World.acts_cons, waitingFrom_append, hhs, hhs', hrs, List.length_append]
      · rintro r hr
        rcases List.mem_append.mp hr with hr | hr
        · have h := hfresh r hr
          exact ⟨h.1, List.mem_cons.mpr (.inl (List.mem_singleton.mp h.2))⟩
        · have h := hfresh' r hr
          exact ⟨h.1, List.mem_cons_of_mem _ h.2⟩
      · rw [World.acts_cons, hes', hes, List.append_assoc]
      · exact fun e he => (List.mem_append.mp he).elim (hdone e) (hdone' e)

/-- **The requests added are the submissions made**, in their order. -/
theorem World.map_submission_acts (platform : Platform) :
    ∀ (as : List (Act S F)) (w : World S F ν),
      (w.acts platform as).1.requests.map Request.submission
        = w.requests.map Request.submission ++ as.filterMap Act.submission?
  | [], w => (List.append_nil _).symm
  | .async submission :: as, w => by
      rw [acts_cons, map_submission_acts platform as, act_async, List.map_append, List.append_assoc]
      rfl
  | .sync target network :: as, w => by
      rw [acts_cons, map_submission_acts platform as, act_sync]
      rfl

/-- Requests write nothing to `std::cout`. -/
theorem World.stdout_acts (platform : Platform) :
    ∀ (as : List (Act S F)) (w : World S F ν), (w.acts platform as).1.stdout = w.stdout
  | [], _ => rfl
  | .async submission :: as, w => by rw [acts_cons, stdout_acts platform as, act_async]
  | .sync target network :: as, w => by rw [acts_cons, stdout_acts platform as, act_sync]

/-- Without an `async_send_request` no request is added, and nothing waits. -/
theorem World.Grows.requests_eq {platform : Platform} {as : List (Act S F)} {w w' : World S F ν}
    {hs : List (Handler F)} (h : World.Grows platform as w w' hs)
    (has : ∀ submission, Act.async submission ∉ as) : w'.requests = w.requests ∧ hs = [] := by
  obtain ⟨rs, hrs, rfl, hfresh⟩ := h.requests
  have hnil : rs = [] := List.eq_nil_iff_forall_not_mem.mpr fun r hr => has _ (hfresh r hr).2
  subst hnil
  exact ⟨hrs.trans (List.append_nil _), rfl⟩

/-- **What a handler does when its token submits nothing**: its request takes a turn. -/
theorem exec_of_quiet (platform : Platform) (invoke : F → Json → Invocation S F ν) {i : ℕ}
    {r : Request S F ν} {w : World S F ν} (hr : w.requests[i]? = some r) {stage : Stage}
    {c : Completion}
    (hquiet : ∀ submission, Act.async submission ∉ (r.invocation platform invoke stage c).acts) :
    ∃ w', w'.requests = w.requests.set i (r.turn platform invoke stage c) ∧
      exec platform invoke c
          (Handler.ofStage i r.submission.target r.submission.completionToken stage) w
        = { state := w'
            initiated := ((r.turn platform invoke stage c).waiting i).toList
            thrown := (r.invocation platform invoke stage c).thrown } := by
  have hgrows := World.grows_acts platform (r.invocation platform invoke stage c).acts
    ((w.replace i (r.turn platform invoke stage c)).print
      (r.invocation platform invoke stage c).stdout)
  obtain ⟨hrequests, hwaiting⟩ := hgrows.requests_eq hquiet
  refine ⟨_, hrequests, ?_⟩
  rw [exec_ofStage platform invoke hr, hwaiting, List.append_nil]

/-! ## Soundness

The invariant has a part for each thing a step can disturb: the count of the context, the handlers
that are pending, and the objects.  `HandlerStep` says what a step does to them; that it keeps the
invariant (`Sound.settle`) is read off it. -/

section Sound

variable (platform : Platform) (invoke : F → Json → Invocation S F ν) (Allowed : Act S F → Prop)

/-- What the token of a finished request was given to note, from the text its own object read. -/
def Request.delivered (r : Request S F ν) : List ν :=
  match r.exchange.inFlight, released platform r.exchange.object.readResponse with
  | none, .ok json => (invoke r.submission.completionToken json).notes
  | _, _ => []

/-- **A sound request** is a dialogue with its own target, and its token was given what its own
object read. -/
structure Request.Sound (r : Request S F ν) : Prop where
  dialogue : Dialogue platform r.submission.target r.exchange.inFlight r.exchange
  notes : r.notes = r.delivered platform invoke
  allowed : Allowed (.async r.submission)

/-- **A sound process**: its work is counted, what is pending is what its requests wait for, and all
its objects are in dialogues. -/
structure Sound (p : Process S F ν) : Prop where
  counted : p.context.Counted
  waiting : p.context.pending.Perm (waitingFrom 0 p.state.requests)
  requests : ∀ r ∈ p.state.requests, r.Sound platform invoke Allowed
  blocking : ∀ e ∈ p.state.blocking, ∃ target, Dialogue platform target none e

variable {platform invoke Allowed}

/-- What a turn makes the token note is what the token of a finished request is given. -/
theorem Request.delivered_turn (stage : Stage) (c : Completion) (r : Request S F ν) :
    (r.turn platform invoke stage c).delivered platform invoke
      = (r.invocation platform invoke stage c).notes := by
  rw [delivered, invocation, exchange_turn, Exchange.inFlight_advance, submission_turn]
  rcases stage.next with _ | next
  · rcases released platform _ with x | json <;> rfl
  · rfl

/-- Before the end of its read the token has noted nothing. -/
theorem Request.Sound.notes_of_inFlight {r : Request S F ν} (hr : r.Sound platform invoke Allowed)
    {stage : Stage} (hs : r.exchange.inFlight = some stage) : r.notes = [] := by
  rw [hr.notes, Request.delivered, hs]

/-- A turn keeps a request sound. -/
theorem Request.Sound.turn {r : Request S F ν} (hr : r.Sound platform invoke Allowed)
    {stage : Stage} (hs : r.exchange.inFlight = some stage) (c : Completion) :
    (r.turn platform invoke stage c).Sound platform invoke Allowed where
  dialogue := by
    have h := hr.dialogue
    rw [hs] at h
    rw [Request.exchange_turn, Exchange.inFlight_advance]
    exact h.advance c
  notes := by
    rw [Request.delivered_turn, Request.turn, hr.notes_of_inFlight hs, List.nil_append]
  allowed := hr.allowed

/-- So is a request just submitted. -/
theorem Request.Fresh.sound {r : Request S F ν} (hr : r.Fresh platform)
    (ha : Allowed (.async r.submission)) : r.Sound platform invoke Allowed where
  dialogue := by
    obtain ⟨n, hn⟩ := hr.exchange
    rw [hr.inFlight, hn]
    exact .opened n
  notes := by rw [Request.delivered, hr.inFlight, hr.notes]
  allowed := ha

namespace World.Grows

variable {as : List (Act S F)} {w w' : World S F ν} {hs : List (Handler F)}

/-- The handlers of the new requests join those that wait. -/
theorem waiting_eq (h : World.Grows platform as w w' hs) :
    waitingFrom 0 w'.requests = waitingFrom 0 w.requests ++ hs := by
  obtain ⟨rs, hrs, rfl, -⟩ := h.requests
  rw [hrs, waitingFrom_append, Nat.zero_add]

theorem sound (h : World.Grows platform as w w' hs) (has : ∀ a ∈ as, Allowed a)
    (hw : ∀ r ∈ w.requests, r.Sound platform invoke Allowed) :
    ∀ r ∈ w'.requests, r.Sound platform invoke Allowed := by
  obtain ⟨rs, hrs, -, hfresh⟩ := h.requests
  intro r hr
  rw [hrs] at hr
  exact (List.mem_append.mp hr).elim (hw r) fun hr =>
    (hfresh r hr).1.sound (has _ (hfresh r hr).2)

theorem blocking_done (h : World.Grows platform as w w' hs)
    (hw : ∀ e ∈ w.blocking, ∃ target, Dialogue platform target none e) :
    ∀ e ∈ w'.blocking, ∃ target, Dialogue platform target none e := by
  obtain ⟨es, hes, hdone⟩ := h.blocking
  intro e he
  rw [hes] at he
  exact (List.mem_append.mp he).elim (hw e) (hdone e)

end World.Grows

/-- Without the handler that runs, the pending ones are those of the other requests. -/
theorem Sound.exists_others {p : Process S F ν} (hp : Sound platform invoke Allowed p) {i k : ℕ}
    {r : Request S F ν} {stage : Stage} (hk : p.state.requests[k]? = some r)
    (hs : r.exchange.inFlight = some stage)
    (hr : p.Runs i (Handler.ofStage k r.submission.target r.submission.completionToken stage)) :
    ∀ r', (waitingFrom 0 (p.state.requests.set k r')).Perm
      ((r'.waiting k).toList ++ p.context.pending.eraseIdx i) := by
  obtain ⟨hlt, hget⟩ := List.getElem?_eq_some_iff.mp hk
  obtain ⟨others, hothers⟩ := exists_waitingFrom_set hlt
  have hsame := hothers r
  rw [← hget, List.set_getElem_self, hget, Request.waiting, hs] at hsame
  -- what is pending beside the handler that runs does not depend on what becomes of `r`
  have herase : (p.context.pending.eraseIdx i).Perm others :=
    ((hr.perm.symm.trans hp.waiting).trans hsame).cons_inv
  exact fun r' => (hothers r').trans (herase.symm.append_left _)

/-- **What one step changes**: the handler `h` belongs to the request `r` in place `k`, which takes
its turn, and `new` are the requests its token submits. -/
structure HandlerStep (platform : Platform) (invoke : F → Json → Invocation S F ν)
    (p : Process S F ν) (h : Handler F) (c : Completion) (k : ℕ) (r : Request S F ν)
    (stage : Stage) (new : List (Request S F ν)) : Prop where
  request : p.state.requests[k]? = some r
  inFlight : r.exchange.inFlight = some stage
  handler : h = Handler.ofStage k r.submission.target r.submission.completionToken stage
  thrown : (exec platform invoke c h p.state).thrown
    = (r.invocation platform invoke stage c).thrown
  requests : (exec platform invoke c h p.state).state.requests
    = p.state.requests.set k (r.turn platform invoke stage c) ++ new
  initiated : (exec platform invoke c h p.state).initiated
    = ((r.turn platform invoke stage c).waiting k).toList
      ++ waitingFrom p.state.requests.length new
  fresh : ∀ r' ∈ new, r'.Fresh platform ∧
    Act.async r'.submission ∈ (r.invocation platform invoke stage c).acts
  blocking : ∀ e ∈ (exec platform invoke c h p.state).state.blocking,
    e ∈ p.state.blocking ∨ ∃ target, Dialogue platform target none e

/-- **Every step is one of these.** -/
theorem Sound.exists_step {p : Process S F ν} (hp : Sound platform invoke Allowed p) {i : ℕ}
    {h : Handler F} (hr : p.Runs i h) (c : Completion) :
    ∃ k r stage new, HandlerStep platform invoke p h c k r stage new := by
  obtain ⟨k, r, hk, hw⟩ := mem_waitingFrom.mp (hp.waiting.mem_iff.mp hr.mem)
  obtain ⟨stage, hs, rfl⟩ := exists_of_waiting hw
  have hgrows := World.grows_acts platform (r.invocation platform invoke stage c).acts
    ((p.state.replace k (r.turn platform invoke stage c)).print
      (r.invocation platform invoke stage c).stdout)
  obtain ⟨⟨new, hrequests, hinitiated, hfresh⟩, ⟨es, hes, hdone⟩⟩ := hgrows
  have hexec := exec_ofStage platform invoke hk stage c
  refine ⟨k, r, stage, new, hk, hs, rfl, by rw [hexec], by rw [hexec]; exact hrequests, ?_, hfresh,
    fun e he => ?_⟩
  · rw [hexec, hinitiated, World.print, World.replace, List.length_set]
  · rw [hexec, hes] at he
    exact (List.mem_append.mp he).imp_right (hdone e)

namespace HandlerStep

variable {p : Process S F ν} {h : Handler F} {c : Completion} {k : ℕ} {r : Request S F ν}
  {stage : Stage} {new : List (Request S F ν)}

theorem lt (hstep : HandlerStep platform invoke p h c k r stage new) :
    k < p.state.requests.length := (List.getElem?_eq_some_iff.mp hstep.request).1

/-- Its token noted nothing so far. -/
theorem notes_eq_nil (hstep : HandlerStep platform invoke p h c k r stage new)
    (hp : Sound platform invoke Allowed p) : r.notes = [] :=
  (hp.requests r (List.mem_of_getElem? hstep.request)).notes_of_inFlight hstep.inFlight

theorem length_requests (hstep : HandlerStep platform invoke p h c k r stage new) :
    (exec platform invoke c h p.state).state.requests.length
      = p.state.requests.length + new.length := by
  rw [hstep.requests, List.length_append, List.length_set]

/-- The request whose handler runs takes its turn, … -/
theorem getElem?_self (hstep : HandlerStep platform invoke p h c k r stage new) :
    (exec platform invoke c h p.state).state.requests[k]?
      = some (r.turn platform invoke stage c) := by
  rw [hstep.requests, List.getElem?_append_left (by rw [List.length_set]; exact hstep.lt)]
  exact List.getElem?_set_self hstep.lt

/-- … the others stay as they are, … -/
theorem getElem?_of_ne (hstep : HandlerStep platform invoke p h c k r stage new) {i : ℕ}
    (hi : i < p.state.requests.length) (hne : i ≠ k) :
    (exec platform invoke c h p.state).state.requests[i]? = p.state.requests[i]? := by
  rw [hstep.requests, List.getElem?_append_left (by rwa [List.length_set])]
  exact List.getElem?_set_ne hne.symm

/-- … and the new ones come after them. -/
theorem getElem?_of_le (hstep : HandlerStep platform invoke p h c k r stage new) {i : ℕ}
    (hi : p.state.requests.length ≤ i) :
    (exec platform invoke c h p.state).state.requests[i]?
      = new[i - p.state.requests.length]? := by
  rw [hstep.requests, List.getElem?_append_right (by rwa [List.length_set]), List.length_set]

/-- So a request afterwards is an old one, the one that took its turn, or a new one. -/
theorem mem_requests (hstep : HandlerStep platform invoke p h c k r stage new)
    {r' : Request S F ν} (hr' : r' ∈ (exec platform invoke c h p.state).state.requests) :
    r' ∈ p.state.requests ∨ r' = r.turn platform invoke stage c ∨ r' ∈ new := by
  rw [hstep.requests] at hr'
  rcases List.mem_append.mp hr' with hr' | hr'
  · exact (List.mem_or_eq_of_mem_set hr').imp_right .inl
  · exact .inr (.inr hr')

/-- Every submission stays, and those of the new requests join them. -/
theorem map_submission (hstep : HandlerStep platform invoke p h c k r stage new) :
    (exec platform invoke c h p.state).state.requests.map Request.submission
      = p.state.requests.map Request.submission ++ new.map Request.submission := by
  obtain ⟨hlt, hget⟩ := List.getElem?_eq_some_iff.mp hstep.request
  rw [hstep.requests, List.map_append, List.map_set, Request.submission_turn, ← hget,
    ← List.map_set, List.set_getElem_self]

/-- The new requests are what the token submits, in order. -/
theorem map_submission_new (hstep : HandlerStep platform invoke p h c k r stage new) :
    new.map Request.submission
      = (r.invocation platform invoke stage c).acts.filterMap Act.submission? := by
  have hrequests := hstep.requests
  rw [hstep.handler, exec_ofStage platform invoke hstep.request] at hrequests
  have hmap := congrArg (List.map Request.submission) hrequests
  rw [World.map_submission_acts, List.map_append] at hmap
  exact (List.append_cancel_left hmap).symm

/-- What is written is what the token writes. -/
theorem stdout_eq (hstep : HandlerStep platform invoke p h c k r stage new) :
    (exec platform invoke c h p.state).state.stdout
      = p.state.stdout ++ (r.invocation platform invoke stage c).stdout := by
  rw [hstep.handler, exec_ofStage platform invoke hstep.request, World.stdout_acts]
  rfl

end HandlerStep

/-- The token is only made to do what its completion does. -/
theorem Request.mem_invocation_acts {stage : Stage} {c : Completion} {r : Request S F ν}
    {a : Act S F} (ha : a ∈ (r.invocation platform invoke stage c).acts) :
    ∃ token json, a ∈ (invoke token json).acts := by
  rw [Request.invocation] at ha
  split at ha
  · exact absurd ha List.not_mem_nil
  · split at ha
    · exact absurd ha List.not_mem_nil
    · exact ⟨_, _, ha⟩

/-- **A handler keeps a process sound.** -/
theorem Sound.settle {p : Process S F ν} (hp : Sound platform invoke Allowed p)
    (hclosed : ∀ token json, ∀ a ∈ (invoke token json).acts, Allowed a) {i : ℕ} {h : Handler F}
    (hr : p.Runs i h) (c : Completion) :
    Sound platform invoke Allowed (p.settle i (exec platform invoke c h p.state)) := by
  obtain ⟨k, r, stage, new, hstep⟩ := hp.exists_step hr c
  obtain rfl := hstep.handler
  refine ⟨Loop.settle_counted hp.counted hr.lt _, ?_, fun r' hr' => ?_, fun e he => ?_⟩
  · rw [Loop.pending_settle, Loop.state_settle, hstep.requests, hstep.initiated,
      waitingFrom_append, Nat.zero_add, List.length_set, ← List.append_assoc]
    have hothers := hp.exists_others hstep.request hstep.inFlight hr
      (r.turn platform invoke stage c)
    exact (List.perm_append_comm.trans hothers.symm).append_right _
  · rcases hstep.mem_requests hr' with hr' | rfl | hr'
    · exact hp.requests r' hr'
    · exact (hp.requests r (List.mem_of_getElem? hstep.request)).turn hstep.inFlight c
    · obtain ⟨hfresh, hact⟩ := hstep.fresh r' hr'
      obtain ⟨token, json, hact⟩ := Request.mem_invocation_acts hact
      exact hfresh.sound (hclosed token json _ hact)
  · exact (hstep.blocking e he).elim (hp.blocking e) id

/-- No request is ever forgotten. -/
theorem Sound.length_le_settle {p : Process S F ν} (hp : Sound platform invoke Allowed p) {i : ℕ}
    {h : Handler F} (hr : p.Runs i h) (c : Completion) :
    p.state.requests.length
      ≤ (p.settle i (exec platform invoke c h p.state)).state.requests.length := by
  obtain ⟨k, r, stage, new, hstep⟩ := hp.exists_step hr c
  rw [Loop.state_settle, hstep.length_requests]
  exact Nat.le_add_right _ _

/-- A request from outside the loop keeps it sound. -/
theorem Sound.act {p : Process S F ν} (hp : Sound platform invoke Allowed p) {a : Act S F}
    (ha : Allowed a) : Sound platform invoke Allowed (p.act platform a) := by
  have hgrows := World.grows_act platform p.state a
  refine ⟨hp.counted.initiate _, ?_, ?_, hgrows.blocking_done hp.blocking⟩
  · change (p.context.pending ++ _).Perm (waitingFrom 0 (p.state.act platform a).1.requests)
    rw [hgrows.waiting_eq]
    exact hp.waiting.append_right _
  · exact hgrows.sound (List.forall_mem_singleton.mpr ha) hp.requests

theorem Sound.stop {p : Process S F ν} (hp : Sound platform invoke Allowed p) :
    Sound platform invoke Allowed { p with context := p.context.stop } :=
  ⟨hp.counted.stop, hp.waiting, hp.requests, hp.blocking⟩

theorem Sound.start : Sound platform invoke Allowed (Process.start : Process S F ν) :=
  ⟨rfl, .refl _, nofun, nofun⟩

/-- **Every reachable process is sound.** -/
theorem Reachable.sound {p : Process S F ν} (h : Reachable platform invoke Allowed p)
    (hclosed : ∀ token json, ∀ a ∈ (invoke token json).acts, Allowed a) :
    Sound platform invoke Allowed p := by
  induction h with
  | start => exact Sound.start
  | act _ ha ih => exact ih.act ha
  | runOne _ hr ih =>
    rcases Loop.runOne_cases hr with ⟨-, rfl, -⟩ | ⟨-, -, rfl, -⟩ | ⟨f, hruns, rfl, -⟩
    · exact ih
    · exact ih.stop
    · exact ih.settle hclosed hruns _

/-- The operation pending for a request is that of its stage in flight. -/
theorem Sound.filter_pending {p : Process S F ν} (hp : Sound platform invoke Allowed p) {i : ℕ}
    {r : Request S F ν} (hr : p.state.requests[i]? = some r) :
    p.context.pending.filter (fun h => h.self = i) = (r.waiting i).toList := by
  have hperm := hp.waiting.filter fun h => h.self = i
  have hwaits := filter_waitingFrom p.state.requests 0 i
  rw [Nat.zero_add, hr, Option.bind_some] at hwaits
  rw [hwaits] at hperm
  rcases hw : r.waiting i with _ | h
  · rw [hw] at hperm
    exact hperm.eq_nil
  · rw [hw] at hperm
    exact List.perm_singleton.mp hperm

/-- The work counts the requests that are not finished. -/
theorem Sound.outstandingWork_eq {p : Process S F ν} (hp : Sound platform invoke Allowed p) :
    p.context.outstandingWork
      = p.state.requests.countP fun r => r.exchange.inFlight.isSome := by
  rw [hp.counted, hp.waiting.length_eq, length_waitingFrom]

/-- **Every object is in a dialogue.** -/
theorem Sound.dialogue {p : Process S F ν} (hp : Sound platform invoke Allowed p) :
    ∀ e ∈ p.state.exchanges, ∃ target stage, Dialogue platform target stage e := by
  intro e he
  rcases List.mem_append.mp he with he | he
  · obtain ⟨r, hr, rfl⟩ := List.mem_map.mp he
    exact ⟨_, _, (hp.requests r hr).dialogue⟩
  · obtain ⟨target, h⟩ := hp.blocking e he
    exact ⟨target, _, h⟩

end Sound

/-! ## A process to run the model on -/

/-- A process that sent one request, which `network` answered. -/
def sentOne (network : Network) : Process Unit Unit Unit :=
  Process.start.act Platform.sample (.sync "/stocks?apikey=k".toList network)

theorem reachable_sentOne (network : Network) :
    Reachable Platform.sample (fun _ _ => {}) (fun _ => True) (sentOne network) :=
  .act .start trivial

end Twelvedata
