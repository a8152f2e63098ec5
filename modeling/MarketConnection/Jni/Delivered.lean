import MarketConnection.Jni.Printing

/-!
# Jni/Delivered — every response a caller gets can be printed

The printing code asks every field of every row for its value, and neither caller looks at what
`from_json` returned.  It need not: a response a caller gets to see was decoded without a throw, so
it is `Consistent` with its document — no rows, or a filled one for each of the document's — and
such a response is `Printable`.  `delivered_consistent` says it of both ways a response reaches a
caller, `get_stocks_list` and a completion token.
-/

namespace Twelvedata

open EventLoop

variable {Fs : List Field}

/-! ## Consistent responses -/

/-- **The response is consistent with the document** it was decoded from: it has no rows, or status
`ok` and as many rows as the document, all of their fields set. -/
structure ResponseBase.Consistent (response : ResponseBase Fs) (json : Json) : Prop where
  status : json.member? "status".toList = some (.string response.status)
  rows : response.status ≠ "ok".toList ∧ response.data = [] ∨
    response.status = "ok".toList ∧ ∃ els, json.member? "data".toList = some (.array els) ∧
      response.data.length = els.length ∧ ∀ row ∈ response.data, row.filled = true

/-- Streaming the status and the rows throws nothing, whatever the orders of visits and the text
written before. -/
def ResponseBase.Printable (response : ResponseBase Fs) : Prop :=
  ∀ σ : ℕ → Unsequenced.Order Fs.length, ∃ text,
    Writes (do write response.status; printVector σ 0 response.data) text

theorem ResponseBase.Consistent.filled {response : ResponseBase Fs} {json : Json}
    (h : response.Consistent json) : ∀ row ∈ response.data, row.filled = true := by
  rcases h.rows with ⟨-, hnil⟩ | ⟨-, _, -, -, hfilled⟩
  · rw [hnil]
    exact nofun
  · exact hfilled

/-- **A consistent response can be printed.** -/
theorem ResponseBase.Consistent.printable {response : ResponseBase Fs} {json : Json}
    (h : response.Consistent json) : response.Printable := fun σ =>
  ⟨_, (writes_write _).seq (printVector_filled σ response.data 0 h.filled)⟩

/-- What `from_json` makes of a fresh response, when it returns. -/
theorem decode_fresh_consistent {json : Json} (hformat : ¬ json.Malformed (Json.HoldsFields Fs)) :
    (decode (statusOf json) (rowsOf Fs json) {}).2.Consistent json := by
  have hreadable : ∃ s, json.member? "status".toList = some (.string s) :=
    not_not.mp fun hno => hformat (.inl hno)
  obtain ⟨s, hs⟩ := hreadable
  by_cases hok : s = "ok".toList
  · subst hok
    obtain ⟨els, hels, hrows, hdecode⟩ := decode_ok {} hformat hs
    rw [hdecode, List.nil_append]
    refine ⟨hs, .inr ⟨rfl, els, hels, List.length_map _, fun row hrow => ?_⟩⟩
    obtain ⟨el, hel, rfl⟩ := List.mem_map.mp hrow
    exact readRow_filled_iff.mpr (hrows el hel)
  · rw [statusOf_eq_some.mpr hs, decode_of_ne_ok hok]
    exact ⟨hs, .inl ⟨hok, rfl⟩⟩

/-! ## Delivered responses -/

variable {τ : Type} {platform : Platform} {callToken : τ → GetStocksListResponse → TokenCall τ}

theorem readResponse_consistent {order : ℕ → Unsequenced.Order responseFields.length} {json : Json}
    {response : GetStocksListResponse} (h : readResponse order json = .ok response) :
    response.Consistent json := by
  have hformat := readResponse_ok_iff.mp ⟨response, h⟩
  have hdecode : ((fromJson order json).runOn {}).2
      = (decode (statusOf json) (rowsOf responseFields json) {}).2 := by
    rw [← outcome_fromJson order, outcome_snd]
  have hresponse : ((fromJson order json).runOn {}).2 = response := by
    rw [readResponse] at h
    split at h
    · next n response' hrun => exact (congrArg Prod.snd hrun).trans (Except.ok.inj h)
    · cases h
  rw [← hresponse, hdecode]
  exact decode_fresh_consistent hformat

/-- A body that is decoded is one document, and the response consistent with it. -/
theorem decodeBody_consistent {order : ℕ → Unsequenced.Order responseFields.length}
    {body : StdString} {response : GetStocksListResponse}
    (h : decodeBody platform order body = .ok response) :
    ∃ json, platform.parserRelease body = .ok json ∧ response.Consistent json := by
  rw [decodeBody, released] at h
  rcases hjson : platform.parserRelease body with ec | json
  · rw [hjson] at h
    cases h
  · rw [hjson] at h
    exact ⟨json, rfl, readResponse_consistent h⟩

/-- **The response was read by `e`**: it is consistent with the document that the read of `e` ended
with. -/
def ReadBy (platform : Platform) (e : Exchange) (response : GetStocksListResponse) : Prop :=
  ∃ answer ec json, Event.completed .read answer ec ∈ e.trace ∧
    platform.parserRelease answer.body = .ok json ∧ response.Consistent json

theorem ReadBy.printable {e : Exchange} {response : GetStocksListResponse}
    (h : ReadBy platform e response) : response.Printable := by
  obtain ⟨-, -, json, -, -, hconsistent⟩ := h
  exact hconsistent.printable

/-- What a finished exchange is decoded to was read by it. -/
theorem Dialogue.readBy {target : StdString} {e : Exchange} (he : Dialogue platform target none e)
    {order : ℕ → Unsequenced.Order responseFields.length} {response : GetStocksListResponse}
    (h : decodeBody platform order e.object.readResponse = .ok response) :
    ReadBy platform e response := by
  obtain ⟨answer, ec, hread, hbody⟩ := he.read_of_finished
  obtain ⟨json, hjson, hconsistent⟩ := decodeBody_consistent h
  exact ⟨answer, ec, json, hread, hbody ▸ hjson, hconsistent⟩

/-- **Every response a caller gets is consistent with the document of its own read, and can be
printed**: those the tokens of any process were called with, and those `get_stocks_list` returns. -/
theorem delivered_consistent {p : StocksProcess τ} (hp : StocksReachable platform callToken p) :
    (∀ r ∈ p.state.requests, ∀ response ∈ r.notes,
      ReadBy platform r.exchange response ∧ response.Printable) ∧
    ∀ (request : GetStocksListRequest) (apikey : StdString) (order : VisitOrder)
      (network : Network) (w w' : StocksWorld τ) (response : GetStocksListResponse),
      getStocksList platform request apikey order network w = (.ok response, w') →
      ∃ e, w'.blocking = w.blocking ++ [e] ∧ ReadBy platform e response ∧ response.Printable := by
  constructor
  · intro r hr response hmem
    rw [hp.sound.notes_eq hr] at hmem
    split at hmem
    · cases hmem
    · next hfinished =>
      have hdialogue := (hp.sound.requests r hr).dialogue
      rw [Option.not_isSome_iff_eq_none.mp hfinished] at hdialogue
      have hread := hdialogue.readBy (Lists.eq_ok_of_toOption (Option.mem_toList.mp hmem))
      exact ⟨hread, hread.printable⟩
  · intro request apikey order network w w' response h
    rw [getStocksList_eq] at h
    obtain ⟨hdecode, rfl⟩ := Prod.mk.inj h
    have hread := ((Dialogue.opened _).converse network).readBy hdecode
    exact ⟨_, rfl, hread, hread.printable⟩

/-- The orders of a call that reads the name before the symbol. -/
def nameFirst : VisitOrder := ⟨1, fun _ => swapFirst⟩

/-- A request with these orders. -/
def nameFirstRequest : StocksAct Unit :=
  .async (some StocksCall.sample.request) StocksCall.sample.apikey () nameFirst

/-- One stock, delivered to a token and by `get_stocks_list`. -/
theorem delivered_stockListing :
    (∃ p', RunAll Platform.sample (fun _ _ => {}) (fun _ => (0, { body := stockListing }))
        (useStocks Platform.sample nameFirstRequest Process.start) p' (.ok ()) ∧
      ∃ r ∈ p'.state.requests, ∃ response ∈ r.notes, response.data.length = 1 ∧
        ReadBy Platform.sample r.exchange response ∧ response.Printable) ∧
    ∃ (w' : StocksWorld Unit) (response : GetStocksListResponse),
      getStocksList Platform.sample StocksCall.sample.request StocksCall.sample.apikey nameFirst
        (fun _ => { body := stockListing }) {} = (.ok response, w') ∧ response.data.length = 1 ∧
      ∃ e, w'.blocking = [e] ∧ ReadBy Platform.sample e response ∧ response.Printable := by
  have hstart : StocksReachable Platform.sample (fun _ _ => {})
      (useStocks Platform.sample nameFirstRequest Process.start) :=
    StocksReachable.use Reachable.start _
  constructor
  · have hdrain : (((useStocks Platform.sample nameFirstRequest Process.start).drain
        (execStocks Platform.sample fun _ _ => {}) (fun _ => (0, { body := stockListing })) 6).map
          fun q => (q.2.isOk, q.1.state.requests.map fun r => r.notes.map fun response =>
            response.data.length)) = some (true, [[1]]) := by decide +kernel
    obtain ⟨⟨p', x | u⟩, hrun, hq⟩ := Option.map_eq_some_iff.mp hdrain
    · cases (Prod.mk.inj hq).1
    obtain ⟨r, hr, hnotes⟩ := List.mem_map.mp (show [1] ∈ p'.state.requests.map fun r =>
      r.notes.map fun response => response.data.length from (Prod.mk.inj hq).2 ▸ List.mem_cons_self)
    obtain ⟨response, hresponse, hlength⟩ := List.mem_map.mp (show 1 ∈ r.notes.map fun response =>
      response.data.length from hnotes ▸ List.mem_cons_self)
    have hreach := hstart.runAll ⟨6, hrun⟩
    exact ⟨p', ⟨6, hrun⟩, r, hr, response, hresponse, hlength,
      (delivered_consistent hreach).1 r hr response hresponse⟩
  · have hget : ((getStocksList Platform.sample StocksCall.sample.request StocksCall.sample.apikey
        nameFirst (fun _ => { body := stockListing }) ({} : StocksWorld Unit)).1.map fun response =>
          response.data.length).toOption = some 1 := by decide +kernel
    rcases hcall : getStocksList Platform.sample StocksCall.sample.request StocksCall.sample.apikey
      nameFirst (fun _ => { body := stockListing }) ({} : StocksWorld Unit) with ⟨x | response, w'⟩
    · rw [hcall] at hget
      cases hget
    · rw [hcall] at hget
      exact ⟨w', response, rfl, Option.some.inj hget,
        (delivered_consistent hstart).2 _ _ _ _ _ _ _ hcall⟩

end Twelvedata
