import MarketConnection.Rest.Agreement
import MarketConnection.Jni.Delivered

/-!
# Jni/Connect — what escapes into the JVM

`trading_MarketChannelImpl.cpp`: `connect` makes the same request twice, blocking and then
asynchronously, and prints the rows of both answers.  Nothing is caught on the way, and the
`io_context` outlives the call.  Between calls it is stopped or has no work (`Loaded.atRest`), so
an asynchronous request runs alone or not at all: **`connect` returns normally exactly when each
answer it waits for can be decoded** (`connect_returns_iff`).
-/

namespace Twelvedata

open Unsequenced EventLoop

/-! ## The entry point -/

/-- The orders in which the rows of a listing are printed. -/
abbrev PrintOrder := ℕ → Order responseFields.length

/-- What is left open about one of the two requests: how its stages end, the body the server
answers with, and the orders in which fields are visited, by the request and by the printing of its
rows. -/
structure Circumstances where
  ends : Network
  body : StdString
  order : VisitOrder
  print : PrintOrder

/-- The network ends the stages, and leaves the body. -/
def Circumstances.network (c : Circumstances) : Network := fun trace =>
  { c.ends trace with body := c.body }

/-- The process the JVM has loaded the library into.  The lambda of `async_request` captures
nothing; it is told apart by the orders its printing will use. -/
abbrev JniProcess := StocksProcess PrintOrder

abbrev JniWorld := StocksWorld PrintOrder

/-- Printing to the `std::cout` of the process. -/
def World.stream {S F ν : Type} (x : Print PUnit) (w : World S F ν) :
    Except Exception PUnit × World S F ν :=
  let (res, out) := x.runOn w.stdout
  (res, { w with stdout := out })

/-- What both requests print of a response, after a label of their own. -/
def printResponse (label : StdString) (print : PrintOrder)
    (response : GetStocksListResponse) : Print PUnit := do
  write label
  write response.status
  write " : ".toList
  write (toString response.data.length).toList
  endl
  printVector print 0 response.data
  endl

/-- `get<fields::Symbol>(req).value = "AAPL"`. -/
def appleRequest : GetStocksListRequest := GetStocksListRequest.ofSymbol "AAPL".toList

/-- `sync_request(apikey)`. -/
def syncRequest (platform : Platform) (c : Circumstances) (apikey : StdString) (w : JniWorld) :
    Except Exception PUnit × JniWorld :=
  match getStocksList platform appleRequest apikey c.order c.network w with
  | (.error x, w) => (.error x, w)
  | (.ok response, w) => w.stream (printResponse "sync: ".toList c.print response)

/-- The lambda `completion` of `async_request`. -/
def printCompletion (print : PrintOrder) (response : GetStocksListResponse) :
    TokenCall PrintOrder :=
  match (printResponse "async: ".toList print response).runOn [] with
  | (.ok _, text) => { stdout := text }
  | (.error x, text) => { stdout := text, thrown := some x }

/-- The request of `async_request`, submitted. -/
def submitApple (platform : Platform) (c : Circumstances) (apikey : StdString) (p : JniProcess) :
    JniProcess :=
  useStocks platform (.async (some appleRequest) apikey c.print c.order) p

/-- **`async_request(apikey)` returns**, normally or by an exception. -/
def AsyncRequest (platform : Platform) (c : Circumstances) (pick : JniProcess → ℕ)
    (apikey : StdString) (p p' : JniProcess) (res : Except Exception Unit) : Prop :=
  RunAll platform printCompletion (facing c.network p.state.requests.length pick)
    (submitApple platform c apikey p) p' res

def connectApikey : StdString := "9a64360d06384744b56e618f1fc58b03".toList

/-- The first line of a call. -/
def connectBanner : StdString := "Java_trading_MarketChannelImpl_connect\n".toList

/-- The line between the two requests. -/
def connectRule : StdString := "- - - - -\n".toList

/-- **`Java_trading_MarketChannelImpl_connect` returns**, normally or by an exception. -/
def Connect (platform : Platform) (sync async : Circumstances) (pick : JniProcess → ℕ)
    (p p' : JniProcess) (res : Except Exception Unit) : Prop :=
  match syncRequest platform sync connectApikey
      (p.state.print connectBanner) with
  | (.error x, w) => p' = { p with state := w } ∧ res = .error x
  | (.ok _, w) =>
    AsyncRequest platform async pick connectApikey
      { p with state := w.print connectRule } p' res

/-- **The process between calls**: `connect` was called any number of times, and each call
returned in some way. -/
inductive Loaded (platform : Platform) : JniProcess → Prop
  | start : Loaded platform Process.start
  | connect {p p' : JniProcess} {sync async : Circumstances} {pick : JniProcess → ℕ}
      {res : Except Exception Unit} (h : Loaded platform p)
      (hc : Connect platform sync async pick p p' res) : Loaded platform p'

variable {platform : Platform}

/-! ## What is printed -/

/-- A listing, as it is printed after its label. -/
def listingText (label : StdString) (print : PrintOrder)
    (response : GetStocksListResponse) : StdString :=
  label ++ response.status ++ " : ".toList ++ (toString response.data.length).toList ++ "\n".toList
    ++ tableText print 0 response.data ++ "\n".toList

/-- **A response whose rows are filled is printed**, after its label. -/
theorem writes_printResponse (label : StdString) (print : PrintOrder)
    {response : GetStocksListResponse} (h : ∀ row ∈ response.data, row.filled = true) :
    Writes (printResponse label print response) (listingText label print response) := by
  have hwrites := (writes_write label).seq ((writes_write response.status).seq
    ((writes_write " : ".toList).seq ((writes_write (toString response.data.length).toList).seq
      ((writes_write "\n".toList).seq ((printVector_filled print response.data 0 h).seq
        (writes_write "\n".toList))))))
  rw [listingText, List.append_assoc, List.append_assoc, List.append_assoc, List.append_assoc,
    List.append_assoc]
  exact hwrites

/-- The response to a body has rows that are filled. -/
theorem decodeBody_filled {order : ℕ → Order responseFields.length} {body : StdString}
    {response : GetStocksListResponse} (h : decodeBody platform order body = .ok response) :
    ∀ row ∈ response.data, row.filled = true := by
  obtain ⟨json, -, hconsistent⟩ := decodeBody_consistent h
  exact hconsistent.filled

/-- The token submits nothing, … -/
theorem printCompletion_submitless (print : PrintOrder)
    (response : GetStocksListResponse) : (printCompletion print response).Submitless := by
  intro use huse
  rw [printCompletion] at huse
  split at huse <;> cases huse

/-- …and does not throw on rows that are filled. -/
theorem printCompletion_thrown (print : PrintOrder)
    {response : GetStocksListResponse} (h : ∀ row ∈ response.data, row.filled = true) :
    (printCompletion print response).thrown = none := by
  rw [printCompletion, writes_printResponse "async: ".toList print h []]

/-! ## The two requests -/

/-- `get_stocks_list` makes what it can of the body the server answers with. -/
theorem getStocksList_fst (platform : Platform) (c : Circumstances) (apikey : StdString)
    (w : JniWorld) :
    (getStocksList platform appleRequest apikey c.order c.network w).1
      = decodeBody platform c.order.row c.body := by
  rw [getStocksList_eq]
  rfl

/-- **The blocking request returns exactly when its body is decoded.** -/
theorem syncRequest_ok_iff (platform : Platform) (c : Circumstances) (apikey : StdString)
    (w : JniWorld) :
    (syncRequest platform c apikey w).1 = .ok ⟨⟩ ↔ Acceptable platform c.body := by
  have hget := getStocksList_fst platform c apikey w
  rw [← decodeBody_ok_iff c.order.row, ← hget, syncRequest]
  rcases hrun : getStocksList platform appleRequest apikey c.order c.network w with
    ⟨x | response, w'⟩
  · exact iff_of_false nofun (fun ⟨_, h⟩ => nomatch h)
  · rw [hrun] at hget
    have hwrites := writes_printResponse "sync: ".toList c.print (decodeBody_filled hget.symm)
    exact iff_of_true (congrArg Prod.fst (hwrites w'.stdout)) ⟨response, rfl⟩

/-- A process with nothing to run: its context is stopped, or has no work. -/
structure AtRest (p : JniProcess) : Prop where
  counted : p.context.Counted
  rest : p.context.stopped = true ∨ p.context.outstandingWork = 0

/-- **The asynchronous request ends**, and leaves the context stopped; on a context not stopped
before it returns exactly when its body is decoded. -/
theorem exists_asyncRequest (platform : Platform) {p : JniProcess} (hp : AtRest p)
    (c : Circumstances) (pick : JniProcess → ℕ) (apikey : StdString) :
    ∃ p' res, AsyncRequest platform c pick apikey p p' res ∧ AtRest p' ∧
      (res = .ok () ↔ (p.context.stopped = false → Acceptable platform c.body)) := by
  by_cases hs : p.context.stopped = true
  · -- a stopped context runs nothing
    refine ⟨_, _, .of_stopped hs, ⟨hp.counted.initiate _, .inl hs⟩, iff_of_true rfl fun hlive => ?_⟩
    exact absurd (hs.symm.trans hlive) nofun
  have hlive : p.context.stopped = false := by simpa using hs
  obtain ⟨p', r, res, hrun, -, hcounted, hstopped, hexchange, hresult⟩ := exists_runAll_submitted
    platform hp.counted hlive (hp.rest.resolve_left hs) ⟨appleRequest, apikey, c.print, c.order⟩
    (printCompletion_submitless c.print) c.network pick
  refine ⟨p', res, hrun, ⟨hcounted, .inl hstopped⟩, ?_⟩
  have hbody : r.exchange.object.readResponse = c.body := by
    rw [hexchange]
    rfl
  rw [hbody] at hresult
  rw [← decodeBody_ok_iff c.order.row]
  rcases hdecoded : decodeBody platform c.order.row c.body with x | response
  · rw [hdecoded] at hresult
    obtain ⟨-, rfl⟩ := hresult
    exact iff_of_false nofun (fun h => nomatch h hlive)
  · rw [hdecoded] at hresult
    obtain ⟨-, hres⟩ := hresult
    rw [printCompletion_thrown c.print (decodeBody_filled hdecoded), leaving] at hres
    exact iff_of_true hres fun _ => ⟨response, rfl⟩

/-! ## The calls of the JVM -/

/-- A call is a function of what is left open about it. -/
theorem Connect.unique {p p₁ p₂ : JniProcess} {sync async : Circumstances}
    {pick : JniProcess → ℕ} {res₁ res₂ : Except Exception Unit}
    (h₁ : Connect platform sync async pick p p₁ res₁)
    (h₂ : Connect platform sync async pick p p₂ res₂) : p₁ = p₂ ∧ res₁ = res₂ := by
  revert h₁ h₂
  simp only [Connect]
  rcases syncRequest platform sync connectApikey
    (p.state.print connectBanner) with ⟨x | u, w⟩
  · rintro ⟨rfl, rfl⟩ ⟨rfl, rfl⟩
    exact ⟨rfl, rfl⟩
  · exact Loop.Drains.unique

/-- **A call on a process at rest ends**, and leaves it at rest. -/
theorem exists_connect (platform : Platform) {p : JniProcess} (hp : AtRest p)
    (sync async : Circumstances) (pick : JniProcess → ℕ) :
    ∃ p' res, Connect platform sync async pick p p' res ∧ AtRest p' ∧
      (res = .ok () ↔ Acceptable platform sync.body ∧
        (p.context.stopped = false → Acceptable platform async.body)) := by
  have hsync := syncRequest_ok_iff platform sync connectApikey
    (p.state.print connectBanner)
  simp only [Connect]
  rw [← hsync]
  rcases syncRequest platform sync connectApikey
    (p.state.print connectBanner) with ⟨x | u, w⟩
  · exact ⟨_, _, ⟨rfl, rfl⟩, ⟨hp.counted, hp.rest⟩, iff_of_false nofun fun h => nomatch h.1⟩
  · obtain ⟨p', res, hrun, hrest, hres⟩ := exists_asyncRequest platform
      (p := { p with state := w.print connectRule }) ⟨hp.counted, hp.rest⟩ async pick
      connectApikey
    exact ⟨p', res, hrun, hrest, hres.trans ⟨fun h => ⟨rfl, h⟩, And.right⟩⟩

/-- **Between calls the process is at rest.** -/
theorem Loaded.atRest {p : JniProcess} (h : Loaded platform p) : AtRest p := by
  induction h with
  | start => exact ⟨rfl, .inr rfl⟩
  | @connect p p' sync async pick res _ hc ih =>
    obtain ⟨q, res', hq, hrest, -⟩ := exists_connect platform ih sync async pick
    obtain ⟨rfl, -⟩ := hq.unique hc
    exact hrest

/-- **`connect` returns normally exactly when the blocking request is answered with a body that can
be decoded, and so is the asynchronous one** — which is not waited for when an earlier call has
stopped the context.  Since every call ends, an exception leaves it otherwise. -/
theorem connect_returns_iff {p : JniProcess} (h : Loaded platform p) (sync async : Circumstances)
    (pick : JniProcess → ℕ) :
    (∃ p', Connect platform sync async pick p p' (.ok ())) ↔
      Acceptable platform sync.body ∧
        (p.context.stopped = false → Acceptable platform async.body) := by
  obtain ⟨p', res, hc, -, hres⟩ := exists_connect platform h.atRest sync async pick
  rw [← hres]
  constructor
  · rintro ⟨q, hq⟩
    exact (hc.unique hq).2
  · rintro rfl
    exact ⟨p', hc⟩

/-- A healthy network, and a server that answers with `body`. -/
def Circumstances.answered (body : StdString) : Circumstances where
  ends := fun _ => {}
  body := body
  order := ⟨1, fun _ => 1⟩
  print := fun _ => 1

/-- The first call, when the server has a stock to list, and then none. -/
theorem connect_returns_healthy :
    ∃ p', Connect Platform.sample (.answered stockListing) (.answered emptyListing) (fun _ => 0)
      Process.start p' (.ok ()) :=
  (connect_returns_iff .start _ _ _).mpr ⟨acceptable_stockListing, fun _ => acceptable_emptyListing⟩

/-- An empty answer to the blocking request, and an exception leaves the first call. -/
theorem connect_throws_empty :
    ¬ ∀ (p : JniProcess) (sync async : Circumstances) (pick : JniProcess → ℕ),
      Loaded Platform.sample p →
      ∃ p', Connect Platform.sample sync async pick p p' (.ok ()) := by
  intro h
  obtain ⟨p', hc⟩ := h Process.start (.answered []) (.answered emptyListing) (fun _ => 0) .start
  have hthrown : (syncRequest Platform.sample (.answered []) connectApikey
      ((Process.start : JniProcess).state.print connectBanner)).1.isOk = false := by decide
  simp only [Connect] at hc
  split at hc
  · cases hc.2
  · next hrun =>
    rw [hrun] at hthrown
    cases hthrown

end Twelvedata
