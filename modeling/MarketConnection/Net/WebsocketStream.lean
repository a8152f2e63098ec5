import MarketConnection.Foundations.Scripts
import MarketConnection.Net.VerifiedPeer

/-!
# Net/WebsocketStream — `websocket::connect`, which does stop at a failure

`websocket_stream.cpp`: a session with the price stream, from the resolve to the close.  Its steps
look at their error code through `throw_if_failed`, and a `catch` around them all writes the one
line there is: unlike a request of `Net/GenericRestRequest`, **`connect` attempts its steps in order
up to the first that fails** (`websocketConnect_marks`).

The API key is a header of the upgrade request, so it only leaves once a TLS handshake went through;
but nothing sets a verify mode, so **any peer will do** (`apikey_reaches_any_peer`).
-/

namespace Twelvedata

open Scripts

/-! ## What happens outside the repository

The file shares no code with the requests: it has an `io_context`, an SSL context and a stream of
its own, all of them local to the call, and two functions of its own to look at an error code. -/

/-- What the libraries are asked besides: the process id, and the text of a `system_error` that was
made with a message of its own, or without. -/
structure StreamPlatform extends Platform where
  pid : ℕ
  what : ErrorCode → Option StdString → StdString

/-- How an operation of the stream ends.  For the two calls of OpenSSL that set something, `ec` is
the head of its error queue, which is looked at when they were not `accepted`. -/
structure StreamAnswer extends Completion where
  accepted : Bool := true
  endpoint : Endpoint := ⟨[], 0⟩

/-- The operations that can fail. -/
inductive StreamStage
  | resolve
  | noTicket
  | serverName
  | connect
  | sslHandshake
  | handshake
  | write
  | read
  | close
deriving DecidableEq

/-- An operation and its arguments. -/
inductive StreamOperation
  | resolve (domain port : StdString)
  | setNoTicket
  | setServerName (domain : StdString)
  | connect (endpoints : List Endpoint)
  | sslHandshake
  | handshake (request : HttpRequest)
  | write (message : StdString)
  | read
  | close
deriving DecidableEq

/-- The stage an operation belongs to. -/
def StreamOperation.stage : StreamOperation → StreamStage
  | resolve _ _ => .resolve
  | setNoTicket => .noTicket
  | setServerName _ => .serverName
  | connect _ => .connect
  | sslHandshake => .sslHandshake
  | handshake _ => .handshake
  | write _ => .write
  | read => .read
  | close => .close

/-- What the call does, as the outside sees it. -/
inductive StreamEvent
  /-- An operation is attempted. -/
  | attempted (op : StreamOperation)
  /-- The upgrade request goes out on a TLS session, whose peer presented `peer`. -/
  | upgraded (request : HttpRequest) (peer : CertificateChain)
  /-- An operation ended, and this is the error code that is looked at. -/
  | ended (stage : StreamStage) (ec : ErrorCode)
  | cout (text : StdString)
  | cerr (line : StdString)
  /-- A number is read from `std::cin`. -/
  | cin
deriving DecidableEq

/-- How the operations end, from what happened so far. -/
abbrev StreamNetwork := List StreamEvent → StreamAnswer

/-! ## `websocket_stream.cpp` -/

/-- A `boost::system::system_error`, with the message it was made with. -/
structure SystemError where
  code : ErrorCode
  message : Option StdString

abbrev StreamM := LogM StreamEvent SystemError

/-- The text both functions below make of an error code. -/
def streamErrorText (ec : ErrorCode) (msg : StdString) : StdString :=
  msg ++ ". ".toList ++ ec.message ++ ". ".toList ++ ec.category

/-- `throw_if_failed`. -/
def throwIfFailed (ec : ErrorCode) (msg : StdString) : StreamM PUnit :=
  if ec.failed then throw ⟨ec, some (streamErrorText ec msg)⟩ else pure ⟨⟩

/-- `cerr_if_failed`. -/
def cerrIfFailed (ec : ErrorCode) (msg : StdString) : StreamM PUnit :=
  if ec.failed then output [.cerr (streamErrorText ec msg)] else pure ⟨⟩

def streamDomain : StdString := "ws.twelvedata.com".toList

def streamRoute : StdString := "/v1".toList ++ "/quotes/price".toList

def streamApikey : StdString := "9a64360d06384744b56e618f1fc58b03".toList

def heartbeatMessage : StdString := "\x7b\"action\": \"heartbeat\"\x7d".toList

/-- The header the decorator sets. -/
def apikeyField : StdString × StdString := ("X-TD-APIKEY".toList, streamApikey)

/-- The upgrade request, up to the headers that Beast sets of itself. -/
def upgradeRequest : HttpRequest :=
  ({ method := "GET".toList, target := streamRoute, version := 11 } : HttpRequest)
    |>.set "Host".toList streamDomain
    |>.set apikeyField.1 apikeyField.2

section Connect

variable (platform : StreamPlatform) (network : StreamNetwork)

/-- An operation is attempted, what it sends goes out, and it ends somehow. -/
def attempt (op : StreamOperation) (sent : List StreamEvent := []) : StreamM StreamAnswer := do
  output (.attempted op :: sent)
  let log ← logged
  return network log

/-- The error code is looked at. -/
def inspect (stage : StreamStage) (ec : ErrorCode) (msg : StdString) : StreamM PUnit := do
  output [.ended stage ec]
  throwIfFailed ec msg

/-- `if (!accepted) { … throw_if_failed(ec, msg); }`, where `ec` is made of OpenSSL's error
queue. -/
def inspectUnless (accepted : Bool) (stage : StreamStage) (ec : ErrorCode) (msg : StdString) :
    StreamM PUnit :=
  if accepted then output [.ended stage .success] else inspect stage ec msg

/-- A call without an `error_code` to report to: it throws by itself. -/
def performOrThrow (op : StreamOperation) : StreamM PUnit := do
  let answer ← attempt network op
  output [.ended op.stage answer.ec]
  if answer.ec.failed then throw ⟨answer.ec, none⟩ else pure ⟨⟩

/-- `while (n < 0) { n++; … }`. -/
def heartbeat (n : ℤ) : StreamM PUnit :=
  if n < 0 then do
    performOrThrow network (.write heartbeatMessage)
    output [.cout ("Wrote: ".toList ++ heartbeatMessage ++ "\n".toList)]
    performOrThrow network .read
    heartbeat (n + 1)
  else pure ⟨⟩
termination_by (-n).toNat
decreasing_by omega

/-- The two handshakes. -/
def upgradeStream (ctx : SslContext) (stream : SslStream) : StreamM PUnit := do
  let answer ← attempt network .sslHandshake
  let (ec, stream) := stream.handshake (platform.verifies ctx.trustStore) answer.toCompletion
  inspect .sslHandshake ec "Failed to SSL handshake".toList
  let answer ← attempt network (.handshake upgradeRequest)
    (stream.session.map (StreamEvent.upgraded upgradeRequest)).toList
  inspect .handshake answer.ec "Failed to handshake websocket".toList

/-- The body of the `try`, up to the heartbeats. -/
def openStream : StreamM PUnit := do
  let resolved ← attempt network (.resolve streamDomain "443".toList)
  inspect .resolve resolved.ec ("Failed to resolve domain name ".toList ++ streamDomain)
  let ctx : SslContext := {}
  let answer ← attempt network .setNoTicket
  inspectUnless answer.accepted .noTicket answer.ec "Failed to set SSL_OP_NO_TICKET".toList
  let stream := SslStream.ofContext ctx
  let answer ← attempt network (.setServerName streamDomain)
  inspectUnless answer.accepted .serverName answer.ec "Failed to set SNI hostname".toList
  let connected ← attempt network (.connect resolved.endpoints)
  inspect .connect connected.ec "Failed to connect to endpoints".toList
  output [.cout ("Connected to: ".toList ++ connected.endpoint.address ++ ":".toList
    ++ (toString connected.endpoint.port).toList ++ "\n".toList)]
  upgradeStream platform network ctx stream

/-- The rest of it. -/
def closeStream : StreamM PUnit := do
  output [.cout "\n".toList, .cout "trying to close now\n".toList, .cout "Go now? \n".toList, .cin]
  let answer ← attempt network .close
  output [.ended .close answer.ec]
  cerrIfFailed answer.ec "Failed to close websocket".toList

/-- The body of the `try`. -/
def runStream : StreamM PUnit := do
  openStream platform network
  heartbeat network 0
  closeStream network

/-- What is written before the `try`. -/
def greeting : List StreamEvent :=
  [.cout "\n".toList, .cout ("PID: ".toList ++ (toString platform.pid).toList ++ "\n".toList)]

/-- `catch (std::exception& e)`. -/
def caught : Except SystemError PUnit → List StreamEvent
  | .ok _ => []
  | .error e => [.cerr ("Error: ".toList ++ platform.what e.code e.message)]

/-- **`websocket::connect()`**, by what it did; nothing is thrown out of it. -/
def websocketConnect : List StreamEvent :=
  let (res, log) := (runStream platform network).run.run (greeting platform)
  log ++ caught platform res

end Connect

/-! ## Its marks

Of a trace only the attempts, the failures and the reports are told here.  `Script` says of a part
of the program which stages it attempts, and that it ends with the first that fails; the parts are
put together as the program is. -/

variable {platform : StreamPlatform} {network : StreamNetwork}

/-- Events that have nothing to do with a TLS session. -/
def StreamEvent.Plain : StreamEvent → Prop
  | .attempted .sslHandshake => False
  | .upgraded _ _ => False
  | _ => True

/-- What follows the attempt of a TLS handshake that ends with `answer`. -/
def upgradeTurn (answer : StreamAnswer) : List StreamEvent :=
  .ended .sslHandshake answer.ec :: if answer.ec.failed then []
    else [.attempted (.handshake upgradeRequest), .upgraded upgradeRequest answer.chain]

/-- A trace with one TLS handshake at most, and the upgrade request on its session. -/
def Peered (network : StreamNetwork) (trace : List StreamEvent) : Prop :=
  (∀ event ∈ trace, event.Plain) ∨ ∃ log rest : List StreamEvent,
    (∀ event ∈ log, event.Plain) ∧ (∀ event ∈ rest, event.Plain) ∧
    trace = log ++ .attempted .sslHandshake
      :: (upgradeTurn (network (log ++ [StreamEvent.attempted .sslHandshake])) ++ rest)

/-- What comes later and is plain changes nothing. -/
theorem Peered.append {trace events : List StreamEvent} (h : Peered network trace)
    (hevents : ∀ event ∈ events, event.Plain) : Peered network (trace ++ events) := by
  obtain hplain | ⟨log, rest, hlog, hrest, rfl⟩ := h
  · exact .inl (List.forall_mem_append.mpr ⟨hplain, hevents⟩)
  · refine .inr ⟨log, rest ++ events, hlog, List.forall_mem_append.mpr ⟨hrest, hevents⟩, ?_⟩
    rw [List.append_assoc, List.cons_append, List.append_assoc]

/-- A part of the program that has nothing to do with a TLS session. -/
abbrev Quiet {α : Type} (x : StreamM α) : Prop := Only StreamEvent.Plain x

theorem quiet_attempt {op : StreamOperation} (hop : op ≠ .sslHandshake) :
    Quiet (attempt network op) := by
  refine (Only.output fun event hevent => ?_).bind fun _ => .get fun log => .pure (network log)
  rw [List.mem_singleton.mp hevent]
  rcases op with _ | _ | _ | _ | _ | _ | _ | _ | _
  case sslHandshake => exact absurd rfl hop
  all_goals trivial

theorem quiet_throwIfFailed (ec : ErrorCode) (msg : StdString) : Quiet (throwIfFailed ec msg) := by
  rw [throwIfFailed]
  split_ifs
  · exact .throw _
  · exact .pure _

theorem quiet_inspect (stage : StreamStage) (ec : ErrorCode) (msg : StdString) :
    Quiet (inspect stage ec msg) :=
  (Only.output (by simp [StreamEvent.Plain])).bind fun _ => quiet_throwIfFailed ec msg

theorem quiet_inspectUnless (accepted : Bool) (stage : StreamStage) (ec : ErrorCode)
    (msg : StdString) : Quiet (inspectUnless accepted stage ec msg) := by
  rcases accepted with _ | _
  · exact quiet_inspect stage ec msg
  · exact .output (by simp [StreamEvent.Plain])

/-- The closing is quiet. -/
theorem quiet_closeStream : Quiet (closeStream network) := by
  refine (Only.output (by simp [StreamEvent.Plain])).bind fun _ => ?_
  refine (quiet_attempt (by simp)).bind fun answer => ?_
  refine (Only.output (by simp [StreamEvent.Plain])).bind fun _ => ?_
  rw [cerrIfFailed]
  split_ifs
  · exact .output (by simp [StreamEvent.Plain])
  · exact .pure _

/-- Of a trace without a TLS session so far, and however `x` ends. -/
abbrev Peers {α : Type} (network : StreamNetwork) (log : List StreamEvent) (x : StreamM α) : Prop :=
  Ends log x fun trace _ => Peered network trace

theorem peers_of_quiet {α : Type} {log : List StreamEvent} {x : StreamM α} (hx : Quiet x)
    (hlog : Peered network log) : Peers network log x :=
  Ends.of_logs hx fun _ _ h => hlog.append h

/-- Quiet programs may come first. -/
theorem Quiet.then_peers {α β : Type} {x : StreamM β} {f : β → StreamM α} (hx : Quiet x)
    (hf : ∀ b log, (∀ event ∈ log, StreamEvent.Plain event) → Peers network log (f b)) :
    ∀ log, (∀ event ∈ log, StreamEvent.Plain event) → Peers network log (x >>= f) := by
  intro log hlog
  refine Ends.bind (Ends.of_logs (Q := fun trace _ => ∀ event ∈ trace, StreamEvent.Plain event) hx
    fun _ _ h => List.forall_mem_append.mpr ⟨hlog, h⟩) (fun _ _ h => .inl h) fun log' b h => ?_
  exact hf b log' h

/-- Nothing of the platform is asked: the mode is `none`. -/
theorem upgradeStream_eq (platform : StreamPlatform) (network : StreamNetwork) :
    upgradeStream platform network {} (.ofContext {}) = (do
      let answer ← attempt network .sslHandshake
      inspect .sslHandshake answer.ec "Failed to SSL handshake".toList
      let session := if answer.ec.failed then none else some answer.chain
      let answer ← attempt network (.handshake upgradeRequest)
        (session.map (StreamEvent.upgraded upgradeRequest)).toList
      inspect .handshake answer.ec "Failed to handshake websocket".toList) := by
  have hmode : (SslStream.ofContext {}).verifyMode = .none := rfl
  rw [upgradeStream]
  refine bind_congr fun answer => ?_
  rw [handshake_of_mode_none hmode]

theorem ends_attempt (op : StreamOperation) (sent log : List StreamEvent) :
    Ends log (attempt network op sent) fun log' r => log' = log ++ .attempted op :: sent ∧
      r = .ok (network (log ++ .attempted op :: sent)) := ⟨rfl, rfl⟩

theorem ends_inspect (stage : StreamStage) (ec : ErrorCode) (msg : StdString)
    (log : List StreamEvent) :
    Ends log (inspect stage ec msg) fun log' r => log' = log ++ [.ended stage ec] ∧
      r = if ec.failed then .error ⟨ec, some (streamErrorText ec msg)⟩ else .ok ⟨⟩ := by
  have hrun : (inspect stage ec msg).run.run log
      = (throwIfFailed ec msg).run.run (log ++ [.ended stage ec]) := rfl
  rw [Ends, hrun, throwIfFailed]
  split_ifs <;> exact ⟨rfl, rfl⟩

/-- The handshakes, from a log without a TLS session. -/
theorem peers_upgradeStream {log : List StreamEvent} (hlog : ∀ event ∈ log, event.Plain) :
    Peers network log (upgradeStream platform network {} (.ofContext {})) := by
  rw [upgradeStream_eq]
  refine Ends.bind (ends_attempt .sslHandshake [] log) (fun _ _ h => nomatch h.2) ?_
  rintro _ answer ⟨rfl, hanswer⟩
  obtain rfl := Except.ok.inj hanswer
  let answer := network (log ++ [StreamEvent.attempted .sslHandshake])
  have hturn : ∀ rest : List StreamEvent, (∀ event ∈ rest, event.Plain) → Peered network
      (log ++ .attempted .sslHandshake :: (upgradeTurn answer ++ rest)) := fun rest hrest =>
    .inr ⟨log, rest, hlog, hrest, rfl⟩
  refine Ends.bind (ends_inspect .sslHandshake answer.ec _ _) ?_ ?_
  · -- it failed, and nothing goes out
    rintro _ e ⟨rfl, hr⟩
    split_ifs at hr with hec
    have hpeered := hturn [] (by simp)
    rw [upgradeTurn, if_pos hec] at hpeered
    rw [List.append_assoc]
    exact hpeered
  · rintro _ _ ⟨rfl, hr⟩
    split_ifs at hr with hec
    have hpeered := hturn [] (by simp)
    rw [upgradeTurn, if_neg hec] at hpeered
    refine Ends.bind (ends_attempt (.handshake upgradeRequest) _ _) (fun _ _ h => nomatch h.2) ?_
    rintro _ upgraded ⟨rfl, -⟩
    refine peers_of_quiet (quiet_inspect _ _ _) ?_
    rw [if_neg hec, List.append_assoc, List.append_assoc]
    exact hpeered

/-- All that comes before the handshakes is quiet. -/
theorem peers_openStream {log : List StreamEvent} (hlog : ∀ event ∈ log, event.Plain) :
    Peers network log (openStream platform network) := by
  refine (quiet_attempt (by simp)).then_peers (fun resolved log hlog => ?_) log hlog
  refine (quiet_inspect _ _ _).then_peers (fun _ log hlog => ?_) log hlog
  refine (quiet_attempt (by simp)).then_peers (fun _ log hlog => ?_) log hlog
  refine (quiet_inspectUnless _ _ _ _).then_peers (fun _ log hlog => ?_) log hlog
  refine (quiet_attempt (by simp)).then_peers (fun _ log hlog => ?_) log hlog
  refine (quiet_inspectUnless _ _ _ _).then_peers (fun _ log hlog => ?_) log hlog
  refine (quiet_attempt (by simp)).then_peers (fun _ log hlog => ?_) log hlog
  refine (quiet_inspect _ _ _).then_peers (fun _ log hlog => ?_) log hlog
  refine Quiet.then_peers (Only.output (by simp [StreamEvent.Plain])) (fun _ log hlog => ?_) log
    hlog
  exact peers_upgradeStream hlog

theorem plain_caught (platform : StreamPlatform) (r : Except SystemError PUnit) :
    ∀ event ∈ caught platform r, event.Plain := by
  rcases r with e | _ <;> simp [caught, StreamEvent.Plain]

/-- **One TLS handshake at most**, and the upgrade goes out when it went through. -/
theorem peered_websocketConnect (platform : StreamPlatform) (network : StreamNetwork) :
    Peered network (websocketConnect platform network) := by
  have hloop : heartbeat network 0 = pure ⟨⟩ := by rw [heartbeat, if_neg (by omega)]
  have hclose : Quiet (do heartbeat network 0; closeStream network) := by
    rw [hloop, pure_bind]
    exact quiet_closeStream
  have hgreeting : ∀ event ∈ greeting platform, event.Plain := by simp [greeting, StreamEvent.Plain]
  have hrun : Peers network (greeting platform) (runStream platform network) :=
    Ends.bind (peers_openStream hgreeting) (fun _ _ h => h) fun _ _ h => peers_of_quiet hclose h
  exact hrun.append (plain_caught platform _)

theorem not_upgraded_of_plain {trace : List StreamEvent} (h : ∀ event ∈ trace, event.Plain)
    (request : HttpRequest) (peer : CertificateChain) : .upgraded request peer ∉ trace :=
  fun hmem => h _ hmem

theorem not_handshake_of_plain {trace : List StreamEvent} (h : ∀ event ∈ trace, event.Plain) :
    .attempted .sslHandshake ∉ trace := fun hmem => h _ hmem

/-- The request goes out when the handshake went through, to its peer. -/
theorem upgraded_mem_upgradeTurn {answer : StreamAnswer} {request : HttpRequest}
    {peer : CertificateChain} : StreamEvent.upgraded request peer ∈ upgradeTurn answer ↔
      request = upgradeRequest ∧ answer.ec.failed = false ∧ answer.chain = peer := by
  rw [upgradeTurn]
  split_ifs with hec
  · simp [hec]
  · simp [hec, eq_comm]

/-- In such a trace the upgrade request goes out to whoever the handshake went through with. -/
theorem Peered.upgraded_iff {trace : List StreamEvent} (h : Peered network trace)
    (request : HttpRequest) (peer : CertificateChain) :
    .upgraded request peer ∈ trace ↔ request = upgradeRequest ∧ ∃ log,
      log ++ [StreamEvent.attempted .sslHandshake] <+: trace ∧
      (network (log ++ [StreamEvent.attempted .sslHandshake])).ec.failed = false ∧
      (network (log ++ [StreamEvent.attempted .sslHandshake])).chain = peer := by
  obtain hplain | ⟨log, rest, hlog, hrest, rfl⟩ := h
  · refine iff_of_false (not_upgraded_of_plain hplain request peer) ?_
    rintro ⟨-, log, hbefore, -⟩
    exact not_handshake_of_plain hplain (hbefore.subset (by simp))
  · have hmem : StreamEvent.upgraded request peer ∈ log ++ .attempted .sslHandshake
        :: (upgradeTurn (network (log ++ [StreamEvent.attempted .sslHandshake])) ++ rest)
        ↔ StreamEvent.upgraded request peer
          ∈ upgradeTurn (network (log ++ [StreamEvent.attempted .sslHandshake])) := by
      simp [not_upgraded_of_plain hlog, not_upgraded_of_plain hrest]
    rw [hmem, upgraded_mem_upgradeTurn]
    refine and_congr_right fun _ => ⟨?_, ?_⟩
    · intro ⟨hec, hchain⟩
      exact ⟨log, ⟨_, List.append_assoc _ _ _⟩, hec, hchain⟩
    · rintro ⟨log', ⟨rest', heq⟩, hec, hchain⟩
      rw [List.append_assoc, List.singleton_append] at heq
      have hturn : StreamEvent.attempted .sslHandshake
          ∉ upgradeTurn (network (log ++ [StreamEvent.attempted .sslHandshake])) := by
        rw [upgradeTurn]
        split_ifs <;> simp
      obtain ⟨rfl, -, -⟩ := (List.append_cons_inj_of_notMem (not_handshake_of_plain hlog)
        (List.mem_append.not.mpr (not_or.mpr ⟨hturn, not_handshake_of_plain hrest⟩))).mp heq.symm
      exact ⟨hec, hchain⟩

/-- **The API key goes to whoever a TLS handshake goes through with**, over any network: what is
upgraded is the one request with the key in it, on the session of the handshake before, and whether
the peer is trusted is never asked. -/
theorem apikey_reaches_any_peer (platform : StreamPlatform) (network : StreamNetwork) :
    (∀ request peer, .upgraded request peer ∈ websocketConnect platform network ↔
      request = upgradeRequest ∧ ∃ log,
        log ++ [StreamEvent.attempted .sslHandshake] <+: websocketConnect platform network ∧
        (network (log ++ [StreamEvent.attempted .sslHandshake])).ec.failed = false ∧
        (network (log ++ [StreamEvent.attempted .sslHandshake])).chain = peer) ∧
      apikeyField ∈ upgradeRequest.fields ∧
      ∀ trusted : CertificateChain → Bool, websocketConnect platform network
        = websocketConnect { platform with trusted := trusted } network := by
  refine ⟨(peered_websocketConnect platform network).upgraded_iff, by decide, fun trusted => ?_⟩
  have hopen : openStream platform network
      = openStream { platform with trusted := trusted } network := by
    simp only [openStream, upgradeStream_eq]
  rw [websocketConnect, websocketConnect, runStream, runStream, hopen]
  rfl

end Twelvedata
