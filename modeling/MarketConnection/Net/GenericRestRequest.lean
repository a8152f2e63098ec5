import MarketConnection.Rest.Types

/-!
# Net/GenericRestRequest — one HTTPS request, as straight-line code and as a chain of handlers

`generic_rest_request.{h,cpp}`.  An `Exchange` is a request object together with the trace of what
it did; `sendRequest` runs its five stages in a row, `asyncSendRequest` starts the first and leaves
the others to handlers that capture one another.  The lambdas are written as the data they capture
(`OnResolve` … `OnRead`) and a `call`.

What Asio, Beast, OpenSSL and the network do is a parameter: `Completion` is how an operation
ends, `Platform` is what the libraries are asked.
-/

namespace Twelvedata

/-! ## TLS -/

/-- The certificates a peer presents. -/
structure CertificateChain where
  certificates : List StdString
deriving DecidableEq

inductive VerifyMode
  | none
  | peer
deriving DecidableEq

inductive TrustStore
  | empty
  | default
deriving DecidableEq

/-- An `ssl::context`, as it is constructed unless the members say otherwise. -/
structure SslContext where
  verifyMode : VerifyMode := .none
  trustStore : TrustStore := .empty
deriving DecidableEq

/-- An `ssl_stream`: a verify mode of its own, and the peer of its session once a handshake went
through.  The trust store stays the context's. -/
structure SslStream where
  verifyMode : VerifyMode
  session : Option CertificateChain := none
deriving DecidableEq

/-- `SSL_new`: the stream copies the mode the context has now. -/
def SslStream.ofContext (ctx : SslContext) : SslStream := { verifyMode := ctx.verifyMode }

/-- `ctx.set_default_verify_paths(ec)`, which reports `ec`. -/
def SslContext.setDefaultVerifyPaths (ec : ErrorCode) (ctx : SslContext) : SslContext :=
  if ec.failed then ctx else { ctx with trustStore := .default }

/-- `ctx.set_verify_mode(mode, ec)`, which reports `ec`. -/
def SslContext.setVerifyMode (mode : VerifyMode) (ec : ErrorCode) (ctx : SslContext) : SslContext :=
  if ec.failed then ctx else { ctx with verifyMode := mode }

/-! ## What happens outside the repository -/

/-- `tcp::endpoint`. -/
structure Endpoint where
  address : StdString
  port : ℕ
deriving DecidableEq

/-- How an operation ends: the error code, and the data its stage takes from the network — the
endpoints of a resolve, the chain of a handshake, the message body a read leaves. -/
structure Completion where
  ec : ErrorCode := .success
  endpoints : List Endpoint := []
  chain : CertificateChain := ⟨[]⟩
  body : StdString := []
deriving DecidableEq

/-- What the calls in the constructor report; an SNI failure has only a number. -/
structure Setup where
  verifyPaths : ErrorCode := .success
  verifyMode : ErrorCode := .success
  sniError : Option ℕ := none

/-- What the libraries are asked. -/
structure Platform where
  /-- `BOOST_BEAST_VERSION_STRING`. -/
  userAgent : StdString
  /-- The chain verifies against the default trust store. -/
  trusted : CertificateChain → Bool
  /-- What `parser.write` reports on a text … -/
  parserWrite : StdString → ErrorCode
  /-- … and what `parser.release` then returns, or throws with. -/
  parserRelease : StdString → Except ErrorCode Json
  /-- The constructor's calls, for the `n`-th object constructed. -/
  setup : ℕ → Setup

namespace Platform

/-- A chain verifies against a store; against the empty one none does. -/
def verifies (platform : Platform) : TrustStore → CertificateChain → Bool
  | .empty, _ => false
  | .default, chain => platform.trusted chain

end Platform

/-- What OpenSSL reports when the peer's chain does not verify. -/
def certificateVerifyFailed : ErrorCode :=
  ⟨true, "certificate verify failed".toList, "asio.ssl".toList⟩

/-- A client handshake.  In mode `peer` a chain that does not verify fails it, in mode `none` the
chain is not looked at. -/
def SslStream.handshake (verifies : CertificateChain → Bool) (c : Completion)
    (stream : SslStream) : ErrorCode × SslStream :=
  let ec := if stream.verifyMode = .peer ∧ verifies c.chain = false then certificateVerifyFailed
    else c.ec
  (ec, { stream with session := if ec.failed then none else some c.chain })

/-! ## The object and its trace -/

/-- `http::request<string_body>`, without the body nothing sets. -/
structure HttpRequest where
  method : StdString := []
  target : StdString := []
  version : ℕ := 11
  fields : List (StdString × StdString) := []
deriving DecidableEq

/-- `set(field, value)`: the field has this value and no other. -/
def HttpRequest.set (name value : StdString) (request : HttpRequest) : HttpRequest :=
  { request with fields := request.fields.filter (·.1 ≠ name) ++ [(name, value)] }

/-- The members of the class that carry data. -/
structure GenericRestRequest where
  ctx : SslContext
  stream : SslStream
  httpRequest : HttpRequest := {}
  readResponse : StdString := []
deriving DecidableEq

inductive Stage
  | resolve
  | connect
  | handshake
  | write
  | read
deriving DecidableEq

/-- An operation and its arguments. -/
inductive Operation
  | resolve (domain port : StdString)
  | connect (endpoints : List Endpoint)
  | handshake
  | write (request : HttpRequest)
  | read
deriving DecidableEq

def Operation.stage : Operation → Stage
  | resolve _ _ => .resolve
  | connect _ => .connect
  | handshake => .handshake
  | write _ => .write
  | read => .read

inductive Event
  /-- An operation is started. -/
  | started (op : Operation)
  /-- A request goes out on a TLS session, whose peer presented `peer`. -/
  | sent (request : HttpRequest) (peer : CertificateChain)
  /-- A stage ends as the network `answer`s it, and reports `ec`. -/
  | completed (stage : Stage) (answer : Completion) (ec : ErrorCode)
  /-- A line on `std::cerr`. -/
  | cerr (line : StdString)
  /-- The lowest layer is closed. -/
  | closed
  /-- A text is handed to the JSON parser. -/
  | parsed (text : StdString)
deriving DecidableEq

/-- A request object, and what it did so far. -/
structure Exchange where
  object : GenericRestRequest
  trace : List Event := []
deriving DecidableEq

def Exchange.log (events : List Event) (e : Exchange) : Exchange :=
  { e with trace := e.trace ++ events }

/-- Code that runs on a request object. -/
abbrev RequestM := StateM Exchange

def modifyObject (f : GenericRestRequest → GenericRestRequest) : RequestM Unit :=
  modify fun e => { e with object := f e.object }

def emit (event : Event) : RequestM Unit := modify (Exchange.log [event])

/-- `handle_error(ec, msg)`. -/
def reportError (ec : ErrorCode) (msg : StdString) : RequestM Unit :=
  modify (Exchange.log ((handleError ec msg).map .cerr))

/-! ## Operations -/

/-- What a write puts on the wire: nothing without a session. -/
def GenericRestRequest.transmit (object : GenericRestRequest) : Operation → List Event
  | .write request => (object.stream.session.map (Event.sent request)).toList
  | _ => []

def start (op : Operation) : RequestM Unit :=
  modify fun e => e.log (.started op :: e.object.transmit op)

/-- What a stage's end does to the object, and the error code it reports. -/
def GenericRestRequest.answer (platform : Platform) (stage : Stage) (c : Completion)
    (object : GenericRestRequest) : ErrorCode × GenericRestRequest :=
  match stage with
  | .handshake =>
    let (ec, stream) := object.stream.handshake (platform.verifies object.ctx.trustStore) c
    (ec, { object with stream := stream })
  | .read => (c.ec, { object with readResponse := c.body })
  | .resolve | .connect | .write => (c.ec, object)

def complete (platform : Platform) (stage : Stage) (c : Completion) : RequestM ErrorCode := do
  let (ec, object) := (← get).object.answer platform stage c
  modify fun e => { object := object, trace := e.trace ++ [.completed stage c ec] }
  return ec

/-- How the network answers a request, from what happened in it so far. -/
abbrev Network := List Event → Completion

/-- A blocking call. -/
def perform (platform : Platform) (network : Network) (op : Operation) :
    RequestM (ErrorCode × Completion) := do
  start op
  let c := network (← get).trace
  let ec ← complete platform op.stage c
  return (ec, c)

/-- What `parser.release()` returns or throws, once the parser was given a text. -/
def released (platform : Platform) (text : StdString) : Except Exception Json :=
  (platform.parserRelease text).mapError .systemError

/-- `parser.release()`. -/
def release (platform : Platform) (text : StdString) : ExceptT Exception RequestM Json :=
  ExceptT.mk (pure (released platform text))

/-! ## The constructor -/

def endpointDomain : StdString := "api.twelvedata.com".toList

def endpointPort : StdString := "443".toList

/-- The constructor's body. -/
def GenericRestRequest.configure (platform : Platform) (setup : Setup) : RequestM Unit := do
  modifyObject fun o => { o with
    httpRequest := ({ method := "GET".toList, version := 11 } : HttpRequest)
      |>.set "Host".toList endpointDomain
      |>.set "User-Agent".toList platform.userAgent
      |>.set "Accept".toList "*/*".toList }
  modifyObject fun o => { o with ctx := o.ctx.setDefaultVerifyPaths setup.verifyPaths }
  reportError setup.verifyPaths "Unable to set default verify paths".toList
  modifyObject fun o => { o with ctx := o.ctx.setVerifyMode .peer setup.verifyMode }
  reportError setup.verifyMode "Unable to set verify mode".toList
  match setup.sniError with
  | none => pure ()
  | some err => emit (.cerr ("Unable to set SNI hostname, ".toList ++ (toString err).toList))

/-- `GenericRestRequest obj{}`: the members are initialised in the order of their declarations, so
the stream is made from a context nothing has configured yet. -/
def GenericRestRequest.construct (platform : Platform) (setup : Setup) : Exchange :=
  let ctx : SslContext := {}
  let members : GenericRestRequest := { ctx := ctx, stream := .ofContext ctx }
  ((configure platform setup).run { object := members }).2

/-! ## `send_request` -/

def sendRequest (platform : Platform) (network : Network) (target : StdString) :
    ExceptT Exception RequestM Json := do
  let (ec, resolved) ← perform platform network (.resolve endpointDomain endpointPort)
  reportError ec ("Unable to resolve '".toList ++ endpointDomain ++ "'".toList)
  let (ec, _) ← perform platform network (.connect resolved.endpoints)
  reportError ec "Unable to connect to socket".toList
  let (ec, _) ← perform platform network .handshake
  reportError ec "Unable to ssl handshake".toList
  modifyObject fun o => { o with httpRequest := { o.httpRequest with target := target } }
  let (ec, _) ← perform platform network (.write (← get).object.httpRequest)
  reportError ec "Unable to write to tcp stream".toList
  let (ec, _) ← perform platform network .read
  reportError ec "Unable to read from tcp stream".toList
  emit .closed
  let jsonMsg := (← get).object.readResponse
  emit (.parsed jsonMsg)
  reportError (platform.parserWrite jsonMsg) "Unable to parser json".toList
  release platform jsonMsg

/-! ## `async_send_request`

`F` is the type of the completion token; `self` is the shared object, named by its place among the
objects of the process. -/

structure OnRead (F : Type) where
  self : ℕ
  completionToken : F
deriving DecidableEq

structure OnWrite (F : Type) where
  self : ℕ
  onRead : OnRead F
deriving DecidableEq

structure OnHandshake (F : Type) where
  self : ℕ
  target : StdString
  onWrite : OnWrite F
deriving DecidableEq

structure OnConnect (F : Type) where
  self : ℕ
  onHandshake : OnHandshake F
deriving DecidableEq

structure OnResolve (F : Type) where
  self : ℕ
  onConnect : OnConnect F
deriving DecidableEq

/-- A handler an operation was started with. -/
inductive Handler (F : Type)
  | onResolve (h : OnResolve F)
  | onConnect (h : OnConnect F)
  | onHandshake (h : OnHandshake F)
  | onWrite (h : OnWrite F)
  | onRead (h : OnRead F)
deriving DecidableEq

namespace Handler

variable {F : Type}

/-- The object whose operation the handler belongs to. -/
def self : Handler F → ℕ
  | onResolve h => h.self
  | onConnect h => h.self
  | onHandshake h => h.self
  | onWrite h => h.self
  | onRead h => h.self

def stage : Handler F → Stage
  | onResolve _ => .resolve
  | onConnect _ => .connect
  | onHandshake _ => .handshake
  | onWrite _ => .write
  | onRead _ => .read

/-- The token the chain of captured lambdas ends with. -/
def completionToken : Handler F → F
  | onResolve h => h.onConnect.onHandshake.onWrite.onRead.completionToken
  | onConnect h => h.onHandshake.onWrite.onRead.completionToken
  | onHandshake h => h.onWrite.onRead.completionToken
  | onWrite h => h.onRead.completionToken
  | onRead h => h.completionToken

end Handler

section Async

variable {F : Type}

/-- The lambda `on_read`, up to the call of `completion_token`. -/
def OnRead.call (platform : Platform) (_h : OnRead F) (ec : ErrorCode) :
    ExceptT Exception RequestM Json := do
  reportError ec "Unable to read from tcp stream".toList
  emit .closed
  let jsonMsg := (← get).object.readResponse
  emit (.parsed jsonMsg)
  reportError (platform.parserWrite jsonMsg) "Unable to parser json".toList
  release platform jsonMsg

/-- The lambda `on_write`. -/
def OnWrite.call (h : OnWrite F) (ec : ErrorCode) : RequestM (Handler F) := do
  reportError ec "Unable to write to tcp stream".toList
  start .read
  return .onRead h.onRead

/-- The lambda `on_handshake`. -/
def OnHandshake.call (h : OnHandshake F) (ec : ErrorCode) : RequestM (Handler F) := do
  reportError ec "Unable to ssl handshake".toList
  modifyObject fun o => { o with httpRequest := { o.httpRequest with target := h.target } }
  start (.write (← get).object.httpRequest)
  return .onWrite h.onWrite

/-- The lambda `on_connect`. -/
def OnConnect.call (h : OnConnect F) (ec : ErrorCode) : RequestM (Handler F) := do
  reportError ec "Unable to connect to socket".toList
  start .handshake
  return .onHandshake h.onHandshake

/-- The lambda `on_resolve`. -/
def OnResolve.call (h : OnResolve F) (ec : ErrorCode) (endpoints : List Endpoint) :
    RequestM (Handler F) := do
  reportError ec ("Unable to resolve '".toList ++ endpointDomain ++ "'".toList)
  start (.connect endpoints)
  return .onConnect h.onConnect

/-- `async_send_request` on the object `self`: every lambda captures the one before it. -/
def asyncSendRequest (self : ℕ) (target : StdString) (completionToken : F) :
    RequestM (Handler F) := do
  let onRead : OnRead F := ⟨self, completionToken⟩
  let onWrite : OnWrite F := ⟨self, onRead⟩
  let onHandshake : OnHandshake F := ⟨self, target, onWrite⟩
  let onConnect : OnConnect F := ⟨self, onHandshake⟩
  let onResolve : OnResolve F := ⟨self, onConnect⟩
  start (.resolve endpointDomain endpointPort)
  return .onResolve onResolve

/-- What a handler leaves to be done outside its object: wait for the next operation, or pass the
parsed document to the token. -/
inductive Reaction (F : Type)
  | initiated (next : Handler F)
  | parsed (completionToken : F) (json : Except Exception Json)

/-- The operation a handler was started with ends, and the handler is called. -/
def Handler.call (platform : Platform) (c : Completion) : Handler F → RequestM (Reaction F)
  | .onResolve h => do return .initiated (← h.call (← complete platform .resolve c) c.endpoints)
  | .onConnect h => do return .initiated (← h.call (← complete platform .connect c))
  | .onHandshake h => do return .initiated (← h.call (← complete platform .handshake c))
  | .onWrite h => do return .initiated (← h.call (← complete platform .write c))
  | .onRead h => do
    let ec ← complete platform .read c
    return .parsed h.completionToken (← (h.call platform ec).run)

end Async

/-! ## A platform to run the model on -/

/-- What the parser reports on a text that ends too early. -/
def incompleteJson : ErrorCode := ⟨true, "incomplete JSON".toList, "boost.json".toList⟩

/-- The answer of a server that has no stocks to list. -/
def emptyListing : StdString := "\x7b\"status\":\"ok\",\"data\":[]\x7d".toList

def emptyListingJson : Json :=
  .object [("status".toList, .string "ok".toList), ("data".toList, .array [])]

/-- The answer of a server that lists one stock. -/
def stockListing : StdString :=
  "\x7b\"status\":\"ok\",\"data\":[".toList
    ++ "\x7b\"symbol\":\"X\",\"name\":\"X\",\"currency\":\"X\",\"exchange\":\"X\",".toList
    ++ "\"mic_code\":\"X\",\"country\":\"X\",\"type\":\"X\"\x7d".toList
    ++ "]\x7d".toList

def stockListingJson : Json :=
  .object [("status".toList, .string "ok".toList), ("data".toList, .array [completeElement])]

/-- What a parser makes of a text when it knows the two listings and nothing else. -/
def parseListing (text : StdString) : Except ErrorCode Json :=
  if text = emptyListing then .ok emptyListingJson
  else if text = stockListing then .ok stockListingJson
  else .error incompleteJson

/-- A platform with that parser, and a trust store that holds one root. -/
def Platform.sample : Platform where
  userAgent := "Boost.Beast".toList
  trusted chain := decide (chain.certificates.getLast? = some "Root CA".toList)
  parserWrite text := if (parseListing text).isOk then .success else incompleteJson
  parserRelease := parseListing
  setup _ := {}

end Twelvedata
