import MarketConnection.Net.Process
import MarketConnection.Rest.FromJson

/-!
# Rest/Requests — `get_stocks_list`, `async_get_stocks_list` and `run_all`

`rest_requests.{h,hpp,cpp}`: the stocks API over the process of `Net/Process`.  A caller's token is
an arbitrary value of `τ`, and what it does with a response is the parameter `callToken`.

Both functions make the same of a body, `decodeBody`; which bodies are `Acceptable` does not depend
on the orders in which fields are visited.
-/

namespace Twelvedata

open Unsequenced EventLoop

/-! ## Calls -/

/-- The orders in which one call visits fields: those of the request, and those of each row of the
response. -/
structure VisitOrder where
  request : Order requestFields.length
  row : ℕ → Order responseFields.length

/-- The arguments of an `async_get_stocks_list` whose request is not null. -/
structure StocksCall (τ : Type) where
  request : GetStocksListRequest
  apikey : StdString
  completionToken : τ
  order : VisitOrder

def StocksCall.target {τ : Type} (call : StocksCall τ) : StdString :=
  fieldsToTargetString call.order.request "stocks".toList call.apikey call.request

/-- The lambda `completion`, by what it captures, and the orders its `from_json` will use. -/
structure StocksCompletion (τ : Type) where
  completionToken : τ
  order : ℕ → Order responseFields.length

/-- The lambda `completion` of a call. -/
def StocksCall.completion {τ : Type} (call : StocksCall τ) : StocksCompletion τ :=
  ⟨call.completionToken, call.order.row⟩

variable {τ : Type}

/-- `async_get_stocks_list(request, apikey, completion_token)`. -/
def asyncGetStocksList (request : Option GetStocksListRequest) (apikey : StdString)
    (completionToken : τ) (order : VisitOrder) :
    List (Act (StocksCall τ) (StocksCompletion τ)) :=
  match request with
  | none => []
  | some request =>
    let call : StocksCall τ := ⟨request, apikey, completionToken, order⟩
    [.async ⟨call, call.target, call.completion⟩]

/-- A use of the API, outside the loop or inside a token. -/
inductive StocksAct (τ : Type)
  | async (request : Option GetStocksListRequest) (apikey : StdString) (completionToken : τ)
      (order : VisitOrder)
  | sync (request : GetStocksListRequest) (apikey : StdString) (order : VisitOrder)
      (network : Network)

/-- The requests a use makes. -/
def StocksAct.acts : StocksAct τ → List (Act (StocksCall τ) (StocksCompletion τ))
  | async request apikey completionToken order =>
    asyncGetStocksList request apikey completionToken order
  | sync request apikey order network =>
    [.sync (fieldsToTargetString order.request "stocks".toList apikey request) network]

/-- What a caller's token does when it is called. -/
structure TokenCall (τ : Type) where
  stdout : StdString := []
  acts : List (StocksAct τ) := []
  thrown : Option Exception := none

abbrev StocksSubmission (τ : Type) := Submission (StocksCall τ) (StocksCompletion τ)

/-- The requests a token's call submits. -/
def TokenCall.submissions (call : TokenCall τ) : List (StocksSubmission τ) :=
  (call.acts.flatMap StocksAct.acts).filterMap Act.submission?

theorem TokenCall.mem_submissions {call : TokenCall τ} {submission : StocksSubmission τ} :
    submission ∈ call.submissions ↔ ∃ use ∈ call.acts, Act.async submission ∈ use.acts := by
  rw [submissions, Act.mem_filterMap_submission, List.mem_flatMap]

/-- The token submits no request. -/
def TokenCall.Submitless (call : TokenCall τ) : Prop :=
  ∀ use ∈ call.acts, ∀ submission, Act.async submission ∉ use.acts

/-- …and does not throw either. -/
structure TokenCall.Quiet (call : TokenCall τ) : Prop where
  thrown : call.thrown = none
  acts : call.Submitless

theorem TokenCall.quiet_default : ({} : TokenCall τ).Quiet :=
  ⟨rfl, fun _ h => absurd h List.not_mem_nil⟩

/-- `from_json(json, response)` on a fresh response. -/
def readResponse (order : ℕ → Order responseFields.length) (json : Json) :
    Except Exception GetStocksListResponse :=
  match (fromJson order json).runOn {} with
  | (.ok _, response) => .ok response
  | (.error x, _) => .error x

/-- `completion_token(std::move(response))`: the request notes the response, and the rest is the
token's. -/
def delivery (callToken : τ → GetStocksListResponse → TokenCall τ) (token : τ)
    (response : GetStocksListResponse) :
    Invocation (StocksCall τ) (StocksCompletion τ) GetStocksListResponse where
  notes := [response]
  stdout := (callToken token response).stdout
  acts := (callToken token response).acts.flatMap StocksAct.acts
  thrown := (callToken token response).thrown

/-- The body of the lambda `completion`: an exception of `from_json` leaves it before the token is
called. -/
def StocksCompletion.call (callToken : τ → GetStocksListResponse → TokenCall τ)
    (completion : StocksCompletion τ) (json : Json) :
    Invocation (StocksCall τ) (StocksCompletion τ) GetStocksListResponse :=
  match readResponse completion.order json with
  | .error x => { thrown := some x }
  | .ok response => delivery callToken completion.completionToken response

/-! ## The process -/

/-- The process of the stocks API; a request notes the responses its token was called with. -/
abbrev StocksProcess (τ : Type) :=
  Process (StocksCall τ) (StocksCompletion τ) GetStocksListResponse

abbrev StocksWorld (τ : Type) := World (StocksCall τ) (StocksCompletion τ) GetStocksListResponse

abbrev StocksRequest (τ : Type) :=
  Request (StocksCall τ) (StocksCompletion τ) GetStocksListResponse

/-- The call a request was submitted by. -/
abbrev Request.call (r : StocksRequest τ) : StocksCall τ := r.submission.origin

/-- `get_stocks_list(request, apikey)`. -/
def getStocksList (platform : Platform) (request : GetStocksListRequest) (apikey : StdString)
    (order : VisitOrder) (network : Network)
    (w : StocksWorld τ) : Except Exception GetStocksListResponse × StocksWorld τ :=
  let target := fieldsToTargetString order.request "stocks".toList apikey request
  let (json, w) := w.sendRequest platform target network
  (json >>= readResponse order.row, w)

section Loop

variable (platform : Platform) (callToken : τ → GetStocksListResponse → TokenCall τ)

/-- The handlers of the stocks API. -/
abbrev execStocks : Completion → Handler (StocksCompletion τ) → StocksWorld τ →
    Effect (StocksWorld τ) (Handler (StocksCompletion τ)) Exception :=
  exec platform (StocksCompletion.call callToken)

/-- `run_one()`: the operation `pick` chooses ends as `c` says. -/
def runOne (pick : ℕ) (c : Completion) (p : StocksProcess τ) :
    Option (StocksProcess τ × Except Exception ℕ) :=
  p.runOne (execStocks platform callToken) pick c

/-- What answers the calls of `run_one`: the choice of an operation, and how it ends. -/
abbrev Environment (τ : Type) := StocksProcess τ → ℕ × Completion

/-- A use of the API outside the loop. -/
def useStocks (use : StocksAct τ) (p : StocksProcess τ) : StocksProcess τ :=
  use.acts.foldl (fun p a => Process.act platform a p) p

/-- **`run_all()` returns**, normally or by an exception: `while (run_one() != 0) {}`.  Here an
operation has the handler of its stage and no other; `Rest/Lifetimes` counts the calls when it has
handlers of its own before that, which change nothing else. -/
def RunAll (env : Environment τ) (p p' : StocksProcess τ) (res : Except Exception Unit) : Prop :=
  Loop.Drains (execStocks platform callToken) env p p' res

/-- A request some use of the API makes. -/
def IsStocksAct (a : Act (StocksCall τ) (StocksCompletion τ)) : Prop :=
  ∃ use : StocksAct τ, a ∈ use.acts

/-- **A process that uses the stocks API, at any time.** -/
abbrev StocksReachable : StocksProcess τ → Prop :=
  Reachable platform (StocksCompletion.call callToken) IsStocksAct

abbrev StocksSound : StocksProcess τ → Prop :=
  Sound platform (StocksCompletion.call callToken) IsStocksAct

end Loop

/-! ## Bodies -/

/-- What both functions make of the body of a response. -/
def decodeBody (platform : Platform) (order : ℕ → Order responseFields.length)
    (body : StdString) : Except Exception GetStocksListResponse :=
  released platform body >>= readResponse order

/-- The body is a document of the format `from_json` accepts. -/
def Acceptable (platform : Platform) (body : StdString) : Prop :=
  ∃ json, platform.parserRelease body = .ok json ∧
    ¬ json.Malformed (Json.HoldsFields responseFields)

variable {platform : Platform} {callToken : τ → GetStocksListResponse → TokenCall τ}

theorem readResponse_ok_iff {order : ℕ → Order responseFields.length} {json : Json} :
    (∃ response, readResponse order json = .ok response)
      ↔ ¬ json.Malformed (Json.HoldsFields responseFields) := by
  rw [← fromJson_throws_iff order json {}, readResponse]
  rcases (fromJson order json).runOn {} with ⟨x | n, response⟩ <;> simp

/-- **Whether a body is decoded does not depend on the visiting orders.** -/
theorem decodeBody_ok_iff (order : ℕ → Order responseFields.length) {body : StdString} :
    (∃ response, decodeBody platform order body = .ok response) ↔ Acceptable platform body := by
  rw [decodeBody, Acceptable, released]
  rcases platform.parserRelease body with ec | json
  · exact iff_of_false (fun ⟨_, h⟩ => nomatch h) (fun ⟨_, h, _⟩ => nomatch h)
  · refine readResponse_ok_iff.trans ⟨fun h => ⟨json, rfl, h⟩, ?_⟩
    rintro ⟨_, ⟨rfl⟩, h⟩
    exact h

/-! ## What the handlers of the stocks API do -/

/-- **The end of a read**: the token is called with what the body is decoded to, or the exception
of the decoding leaves the handler. -/
theorem invocation_read (platform : Platform)
    (callToken : τ → GetStocksListResponse → TokenCall τ) (c : Completion)
    (r : StocksRequest τ) :
    r.invocation platform (StocksCompletion.call callToken) .read c
      = match decodeBody platform r.submission.completionToken.order c.body with
        | .error x => { thrown := some x }
        | .ok response => delivery callToken r.submission.completionToken.completionToken
            response := by
  rw [decodeBody]
  rcases hjson : released platform c.body with x | json
  · exact Request.invocation_of_error platform _ rfl hjson
  · have hinv : r.invocation platform (StocksCompletion.call callToken) .read c
        = StocksCompletion.call callToken r.submission.completionToken json :=
      Request.invocation_of_ok platform _ rfl hjson
    exact hinv.trans rfl

/-- **Only the end of a read makes a token submit something**, and it submits what its call does. -/
theorem mem_submissions_of_invocation {r : StocksRequest τ} {stage : Stage} {c : Completion}
    {submission : StocksSubmission τ}
    (h : Act.async submission
      ∈ (r.invocation platform (StocksCompletion.call callToken) stage c).acts) :
    ∃ response, decodeBody platform r.submission.completionToken.order c.body = .ok response ∧
      submission
        ∈ (callToken r.submission.completionToken.completionToken response).submissions := by
  rcases stage with _ | _ | _ | _ | _
  case read =>
    rw [invocation_read] at h
    rcases hbody : decodeBody platform r.submission.completionToken.order c.body with x | response
    · rw [hbody] at h
      cases h
    · rw [hbody] at h
      exact ⟨response, rfl, Act.mem_filterMap_submission.mpr h⟩
  all_goals cases h

/-- A token that submits nothing does so at the end of any stage. -/
theorem invocation_submitless {r : StocksRequest τ}
    (hacts : ∀ response,
      (callToken r.submission.completionToken.completionToken response).Submitless)
    (stage : Stage) (c : Completion) (submission : StocksSubmission τ) :
    Act.async submission
      ∉ (r.invocation platform (StocksCompletion.call callToken) stage c).acts := by
  intro h
  obtain ⟨response, -, hmem⟩ := mem_submissions_of_invocation h
  obtain ⟨use, huse, hact⟩ := TokenCall.mem_submissions.mp hmem
  exact hacts response use huse submission hact

/-- A submission carries the target and the token of its own call. -/
theorem submission_of_isStocksAct
    {submission : Submission (StocksCall τ) (StocksCompletion τ)}
    (h : IsStocksAct (.async submission)) :
    submission.target = submission.origin.target ∧
      submission.completionToken = submission.origin.completion := by
  obtain ⟨⟨_ | request, apikey, token, order⟩ | ⟨request, apikey, order, network⟩, huse⟩ := h
  · cases huse
  · obtain ⟨rfl⟩ := List.mem_singleton.mp huse
    exact ⟨rfl, rfl⟩
  · cases List.mem_singleton.mp huse

theorem isStocksAct_of_call {completion : StocksCompletion τ} {json : Json} :
    ∀ a ∈ (completion.call callToken json).acts, IsStocksAct a := by
  intro a ha
  rw [StocksCompletion.call] at ha
  split at ha
  · cases ha
  · obtain ⟨use, -, huse⟩ := List.mem_flatMap.mp ha
    exact ⟨use, huse⟩

theorem StocksReachable.sound {p : StocksProcess τ} (h : StocksReachable platform callToken p) :
    StocksSound platform callToken p :=
  Reachable.sound h fun _ _ => isStocksAct_of_call

namespace StocksSound

variable {p : StocksProcess τ}

/-- The handler that waits for a request captures its own call. -/
theorem waiting_eq {r : StocksRequest τ} (hp : StocksSound platform callToken p)
    (hr : r ∈ p.state.requests) (i : ℕ) :
    r.waiting i
      = r.exchange.inFlight.map (Handler.ofStage i r.call.target r.call.completion) := by
  obtain ⟨htarget, htoken⟩ := submission_of_isStocksAct (hp.requests r hr).allowed
  rw [Request.waiting, htarget, htoken]

/-- The responses a finished request's token was called with. -/
theorem notes_eq {r : StocksRequest τ} (hp : StocksSound platform callToken p)
    (hr : r ∈ p.state.requests) :
    r.notes = if r.exchange.inFlight.isSome then [] else
      (decodeBody platform r.call.order.row r.exchange.object.readResponse).toOption.toList := by
  obtain ⟨-, htoken⟩ := submission_of_isStocksAct (hp.requests r hr).allowed
  rw [(hp.requests r hr).notes, Request.delivered, htoken, decodeBody]
  rcases r.exchange.inFlight with _ | stage
  · rcases released platform r.exchange.object.readResponse with x | json
    · rfl
    · change (StocksCompletion.call callToken r.call.completion json).notes
        = (readResponse r.call.order.row json).toOption.toList
      rw [StocksCompletion.call, StocksCall.completion]
      rcases readResponse r.call.order.row json with x | response <;> rfl
  · rfl

/-- A token was called exactly when its request is finished with an acceptable body. -/
theorem length_notes_eq_one_iff {r : StocksRequest τ} (hp : StocksSound platform callToken p)
    (hr : r ∈ p.state.requests) :
    r.notes.length = 1 ↔
      r.exchange.inFlight = none ∧ Acceptable platform r.exchange.object.readResponse := by
  rw [hp.notes_eq hr, ← decodeBody_ok_iff r.call.order.row]
  rcases r.exchange.inFlight with _ | stage
  · rcases decodeBody platform r.call.order.row r.exchange.object.readResponse with x | response
    all_goals simp [Except.toOption]
  · simp

end StocksSound

theorem StocksReachable.use {p : StocksProcess τ} (h : StocksReachable platform callToken p)
    (use : StocksAct τ) : StocksReachable platform callToken (useStocks platform use p) :=
  List.foldlRecOn use.acts _ h fun _ h _ ha => Reachable.act h ⟨use, ha⟩

theorem StocksSound.use {p : StocksProcess τ} (hp : StocksSound platform callToken p)
    (use : StocksAct τ) : StocksSound platform callToken (useStocks platform use p) :=
  List.foldlRecOn use.acts _ hp fun _ hp _ ha => Sound.act hp ⟨use, ha⟩

/-- What `run_all` leaves behind is a process at some time. -/
theorem StocksReachable.runAll {p p' : StocksProcess τ} {env : Environment τ}
    {res : Except Exception Unit} (h : StocksReachable platform callToken p)
    (hrun : RunAll platform callToken env p p' res) : StocksReachable platform callToken p' := by
  obtain ⟨fuel, hrun⟩ := hrun
  induction fuel generalizing p with
  | zero => cases hrun
  | succ fuel ih =>
    rw [Loop.drain] at hrun
    rcases hone : p.runOne (execStocks platform callToken) (env p).1 (env p).2
      with _ | ⟨q, x | _ | n⟩
    · simp [hone] at hrun
    · simp only [hone, Option.some.injEq, Prod.mk.injEq] at hrun
      exact hrun.1 ▸ h.runOne hone
    · simp only [hone, Option.some.injEq, Prod.mk.injEq] at hrun
      exact hrun.1 ▸ h.runOne hone
    · simp only [hone] at hrun
      exact ih (h.runOne hone) hrun

/-- **`get_stocks_list` is the dialogue of its target**, then the decoding of the body. -/
theorem getStocksList_eq (platform : Platform) (request : GetStocksListRequest) (apikey : StdString)
    (order : VisitOrder) (network : Network)
    (w : StocksWorld τ) :
    let e := (GenericRestRequest.construct platform (platform.setup w.constructed)).opened.converse
      platform network (fieldsToTargetString order.request "stocks".toList apikey request)
    getStocksList platform request apikey order network w
      = (decodeBody platform order.row e.object.readResponse,
          { w with blocking := w.blocking ++ [e] }) := by
  rw [getStocksList, World.sendRequest, run_sendRequest]
  rfl

/-- The request a call submits, when it makes the `n`-th object. -/
def StocksCall.submitted (platform : Platform) (n : ℕ) (call : StocksCall τ) : StocksRequest τ where
  submission := ⟨call, call.target, call.completion⟩
  exchange := (GenericRestRequest.construct platform (platform.setup n)).opened

/-- **A submission**: one more request, and the handler of its first stage. -/
theorem useStocks_async (platform : Platform) (call : StocksCall τ) (p : StocksProcess τ) :
    useStocks platform (.async (some call.request) call.apikey call.completionToken call.order) p
      = { state := { p.state with
            requests := p.state.requests ++ [call.submitted platform p.state.constructed] }
          context := p.context.initiate [Handler.ofStage p.state.requests.length call.target
            call.completion .resolve] } := rfl

/-! ## A call to run the model on -/

/-- A request for one symbol. -/
def StocksCall.sample : StocksCall Unit :=
  ⟨GetStocksListRequest.ofSymbol "AAPL".toList, "k".toList, (), ⟨1, fun _ => 1⟩⟩

def StocksAct.sample : StocksAct Unit :=
  .async (some StocksCall.sample.request) StocksCall.sample.apikey () StocksCall.sample.order

theorem acceptable_emptyListing : Acceptable Platform.sample emptyListing := by
  have hparse : parseListing emptyListing = .ok emptyListingJson := by
    rw [parseListing, if_pos rfl]
  refine ⟨emptyListingJson, hparse, ?_⟩
  rintro (hstatus | ⟨-, hdata⟩)
  · exact hstatus ⟨_, rfl⟩
  · exact hdata ⟨[], rfl, nofun⟩

/-- What the listing of one stock is decoded to, in whatever order its fields are read. -/
def stockResponse : GetStocksListResponse where
  data := [readRow responseFields completeElement]
  status := "ok".toList

theorem decodeBody_stockListing (order : ℕ → Order responseFields.length) :
    decodeBody Platform.sample order stockListing = .ok stockResponse := by
  have hne : stockListing ≠ emptyListing := by decide
  have hparse : parseListing stockListing = .ok stockListingJson := by
    rw [parseListing, if_neg hne, if_pos rfl]
  have hread : readResponse order stockListingJson = .ok stockResponse := by
    have hfilled : (readRow responseFields completeElement).filled = true := by decide
    have hdecode : decode (statusOf stockListingJson) (rowsOf responseFields stockListingJson) {}
        = (some 0, stockResponse) := by
      have hrows : rowsOf responseFields stockListingJson
          = some [readRow responseFields completeElement] := rfl
      have hstatus : statusOf stockListingJson = some "ok".toList := rfl
      rw [hstatus, hrows, decode_ok_some, List.takeWhile_cons_of_pos hfilled, List.all_cons,
        hfilled]
      rfl
    have hout := (outcome_fromJson order stockListingJson {}).trans hdecode
    have hrun : (fromJson order stockListingJson).runOn {} = (.ok 0, stockResponse) :=
      Prod.ext (outcome_fst_eq_some.mp (congrArg Prod.fst hout))
        ((outcome_snd _).symm.trans (congrArg Prod.snd hout))
    rw [readResponse, hrun]
  have hreleased : released Platform.sample stockListing = .ok stockListingJson :=
    congrArg (Except.mapError Exception.systemError) hparse
  rw [decodeBody, hreleased]
  exact hread

theorem acceptable_stockListing : Acceptable Platform.sample stockListing :=
  (decodeBody_ok_iff fun _ => 1).mp ⟨stockResponse, decodeBody_stockListing _⟩

end Twelvedata
