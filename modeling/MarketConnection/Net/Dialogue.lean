import MarketConnection.Net.GenericRestRequest

/-!
# Net/Dialogue — what one request does, whichever way it is written

A request is a dialogue: five times the network ends a stage, and the request logs the error code
and goes on (`Exchange.advance`).  Both ways the code is written are this dialogue —
`run_sendRequest` for the straight-line code, `call_ofStage` for the handlers — so a fact about
requests is an induction over `Dialogue`.
-/

namespace Twelvedata

/-! ## Stages -/

namespace Stage

/-- The stages, in order. -/
def order : List Stage := [.resolve, .connect, .handshake, .write, .read]

def next : Stage → Option Stage
  | resolve => some connect
  | connect => some handshake
  | handshake => some write
  | write => some read
  | read => none

/-- The read is the last stage. -/
theorem next_eq_none_iff {stage : Stage} : stage.next = none ↔ stage = .read := by
  rcases stage <;> simp [next]

/-- The stages from a given one on. -/
def onward (stage : Stage) : List Stage := order.dropWhile (· ≠ stage)

theorem onward_eq (stage : Stage) : stage.onward = stage :: stage.next.elim [] onward := by
  rcases stage <;> rfl

/-- What a failure of the stage is reported with. -/
def complaint : Stage → StdString
  | resolve => "Unable to resolve '".toList ++ endpointDomain ++ "'".toList
  | connect => "Unable to connect to socket".toList
  | handshake => "Unable to ssl handshake".toList
  | write => "Unable to write to tcp stream".toList
  | read => "Unable to read from tcp stream".toList

end Stage

namespace GenericRestRequest

/-- The object once the request has reacted to the end of a stage: the write gets its target. -/
def prepare (target : StdString) (stage : Stage) (object : GenericRestRequest) :
    GenericRestRequest :=
  match stage with
  | .handshake => { object with httpRequest := { object.httpRequest with target := target } }
  | _ => object

/-- What follows the report on a stage: the next operation, or the parse. -/
def sequel (platform : Platform) (stage : Stage) (c : Completion) (object : GenericRestRequest) :
    List Event :=
  match stage with
  | .resolve => [.started (.connect c.endpoints)]
  | .connect => [.started .handshake]
  | .handshake => .started (.write object.httpRequest) :: object.transmit (.write object.httpRequest)
  | .write => [.started .read]
  | .read =>
    let lines := handleError (platform.parserWrite object.readResponse)
      "Unable to parser json".toList
    .closed :: .parsed object.readResponse :: lines.map .cerr

end GenericRestRequest

/-! ## Advancing -/

namespace Exchange

/-- The first operation is started. -/
def opened (e : Exchange) : Exchange := e.log [.started (.resolve endpointDomain endpointPort)]

/-- What the end of a stage adds to the trace. -/
def turn (platform : Platform) (target : StdString) (stage : Stage) (c : Completion)
    (e : Exchange) : List Event :=
  let (ec, object) := e.object.answer platform stage c
  .completed stage c ec :: ((handleError ec stage.complaint).map .cerr
    ++ (object.prepare target stage).sequel platform stage c)

/-- **A stage ends, and the request goes on** — also when it ended with an error. -/
def advance (platform : Platform) (target : StdString) (stage : Stage) (c : Completion)
    (e : Exchange) : Exchange where
  object := (e.object.answer platform stage c).2.prepare target stage
  trace := e.trace ++ e.turn platform target stage c

/-- The whole dialogue with a network, from the end of the first stage on. -/
def converse (platform : Platform) (network : Network) (target : StdString) (e : Exchange) :
    Exchange :=
  Stage.order.foldl (fun e stage => e.advance platform target stage (network e.trace)) e

end Exchange

/-- **The dialogue of an object with `target`**: what it may have done by the time the given stage
is in flight, or after the last. -/
inductive Dialogue (platform : Platform) (target : StdString) : Option Stage → Exchange → Prop
  | opened (n : ℕ) : Dialogue platform target (some .resolve)
      (GenericRestRequest.construct platform (platform.setup n)).opened
  | advance {stage : Stage} {e : Exchange} (c : Completion)
      (h : Dialogue platform target (some stage) e) :
      Dialogue platform target stage.next (e.advance platform target stage c)

/-! ## The two ways it is written -/

variable {platform : Platform} {target : StdString}

section Async

variable {F : Type}

/-- The handler that waits for a stage of the object `self`. -/
def Handler.ofStage (self : ℕ) (target : StdString) (completionToken : F) : Stage → Handler F :=
  let onRead : OnRead F := ⟨self, completionToken⟩
  let onWrite : OnWrite F := ⟨self, onRead⟩
  let onHandshake : OnHandshake F := ⟨self, target, onWrite⟩
  let onConnect : OnConnect F := ⟨self, onHandshake⟩
  fun
  | .resolve => .onResolve ⟨self, onConnect⟩
  | .connect => .onConnect onConnect
  | .handshake => .onHandshake onHandshake
  | .write => .onWrite onWrite
  | .read => .onRead onRead

@[simp] theorem Handler.self_ofStage (self : ℕ) (token : F) (stage : Stage) :
    (Handler.ofStage self target token stage).self = self := by
  rcases stage <;> rfl

@[simp] theorem Handler.stage_ofStage (self : ℕ) (token : F) (stage : Stage) :
    (Handler.ofStage self target token stage).stage = stage := by
  rcases stage <;> rfl

@[simp] theorem Handler.completionToken_ofStage (self : ℕ) (token : F) (stage : Stage) :
    (Handler.ofStage self target token stage).completionToken = token := by
  rcases stage <;> rfl

theorem run_asyncSendRequest (self : ℕ) (token : F) (e : Exchange) :
    (asyncSendRequest self target token).run e
      = (Handler.ofStage self target token .resolve, e.opened) := rfl

/-- **A handler is one turn of the dialogue**, and leaves the next one waiting. -/
theorem call_ofStage (self : ℕ) (token : F) (stage : Stage) (c : Completion) (e : Exchange) :
    ((Handler.ofStage self target token stage).call platform c).run e
      = (match stage.next with
          | some next => .initiated (Handler.ofStage self target token next)
          | none => .parsed token
              (released platform (e.advance platform target stage c).object.readResponse),
        e.advance platform target stage c) := by
  have hgoes : ∀ (object : GenericRestRequest) (a b d f : List Event),
      Exchange.mk object (((a ++ b) ++ d) ++ f) = ⟨object, a ++ (b ++ (d ++ f))⟩ := by simp
  have hends : ∀ (object : GenericRestRequest) (a b d f g h : List Event),
      Exchange.mk object (((((a ++ b) ++ d) ++ f) ++ g) ++ h)
        = ⟨object, a ++ (b ++ (d ++ (f ++ (g ++ h))))⟩ := by simp
  rcases stage with _ | _ | _ | _ | _
  case read => exact Prod.ext rfl (hends _ _ _ _ _ _ _)
  all_goals exact Prod.ext rfl (hgoes _ _ _ _ _)

end Async

/-- **The straight-line code is the dialogue**, then `release`: between two operations it does what
the handler of the first does. -/
theorem run_sendRequest (network : Network) (e : Exchange) :
    (sendRequest platform network target).run.run e
      = (released platform (e.opened.converse platform network target).object.readResponse,
          e.opened.converse platform network target) := by
  have hturn : ∀ stage (e : Exchange),
      (((Handler.ofStage 0 target () stage).call platform (network e.trace)).run e).2
        = e.advance platform target stage (network e.trace) := fun stage e => by
    rw [call_ofStage]
  have hconverse : (fun e : Exchange => Stage.order.foldl (fun e stage =>
      (((Handler.ofStage 0 target () stage).call platform (network e.trace)).run e).2) e)
      = fun e => e.converse platform network target := by
    simp only [hturn]
    rfl
  rw [← congrFun hconverse e.opened]
  rfl

/-! ## The stage in flight -/

/-- How an event changes which stage is in flight. -/
def Event.track : Option Stage → Event → Option Stage
  | _, .started op => some op.stage
  | _, .completed _ _ _ => none
  | stage, _ => stage

/-- The stage whose operation was started last, while it has not ended. -/
def Exchange.inFlight (e : Exchange) : Option Stage := e.trace.foldl Event.track none

/-- An event that leaves the stage in flight as it is. -/
def Event.isSilent : Event → Bool
  | .started _ => false
  | .completed _ _ _ => false
  | _ => true

theorem foldl_track_of_silent (stage : Option Stage) :
    ∀ {events : List Event}, (∀ event ∈ events, event.isSilent = true) →
      events.foldl Event.track stage = stage
  | [], _ => rfl
  | event :: events, h => by
      have hevent : Event.track stage event = stage := by
        rcases event with _ | _ | _ | _ | _ | _
        all_goals first | rfl | exact absurd (h _ List.mem_cons_self) Bool.false_ne_true
      rw [List.foldl_cons, hevent]
      exact foldl_track_of_silent stage fun e he => h e (List.mem_cons_of_mem _ he)

theorem isSilent_cerr {lines : List StdString} :
    ∀ event ∈ lines.map Event.cerr, event.isSilent = true :=
  List.forall_mem_map.mpr fun _ _ => rfl

theorem isSilent_transmit (object : GenericRestRequest) (op : Operation) :
    ∀ event ∈ object.transmit op, event.isSilent = true := by
  intro event hevent
  rcases op with _ | _ | _ | request | _
  case write =>
    obtain ⟨peer, -, rfl⟩ := Option.map_eq_some_iff.mp (Option.mem_toList.mp hevent)
    rfl
  all_goals cases hevent

theorem foldl_track_sequel (stage : Stage) (c : Completion) (object : GenericRestRequest) :
    (object.sequel platform stage c).foldl Event.track none = stage.next := by
  rcases stage with _ | _ | _ | _ | _
  case handshake => exact foldl_track_of_silent _ (isSilent_transmit object _)
  case read =>
    change ((handleError _ _).map Event.cerr).foldl Event.track none = none
    exact foldl_track_of_silent _ isSilent_cerr
  all_goals rfl

/-- **A turn leaves the next stage in flight.** -/
@[simp] theorem Exchange.inFlight_advance (stage : Stage) (c : Completion) (e : Exchange) :
    (e.advance platform target stage c).inFlight = stage.next := by
  rw [inFlight, advance, turn, List.foldl_append, List.foldl_cons, List.foldl_append,
    foldl_track_of_silent _ isSilent_cerr]
  exact foldl_track_sequel stage c _

/-- Nothing is in flight after a whole dialogue. -/
@[simp] theorem Exchange.inFlight_converse (network : Network) (e : Exchange) :
    (e.converse platform network target).inFlight = none := inFlight_advance _ _ _

/-- The constructor starts nothing: all it may leave is lines on `std::cerr`. -/
theorem trace_construct (platform : Platform) (setup : Setup) :
    ∃ lines : List StdString,
      (GenericRestRequest.construct platform setup).trace = lines.map Event.cerr := by
  obtain ⟨paths, mode, _ | err⟩ := setup
  · exact ⟨handleError paths _ ++ handleError mode _, List.map_append.symm⟩
  · exact ⟨handleError paths _ ++ handleError mode _ ++ [_],
      (List.map_append.trans (congrArg (· ++ [_]) List.map_append)).symm⟩

@[simp] theorem inFlight_opened (e : Exchange) : e.opened.inFlight = some .resolve := by
  rw [Exchange.inFlight, Exchange.opened, Exchange.log, List.foldl_append]
  rfl

/-- A dialogue with any network comes to its end. -/
theorem Dialogue.converse {e : Exchange} (h : Dialogue platform target (some .resolve) e)
    (network : Network) : Dialogue platform target none (e.converse platform network target) :=
  ((((h.advance _).advance _).advance _).advance _).advance _

/-! ## The rest of a dialogue -/

/-- The dialogue with a network from here on: the stage in flight, and those after it. -/
def Exchange.finish (platform : Platform) (network : Network) (target : StdString)
    (e : Exchange) : Exchange :=
  (e.inFlight.elim [] Stage.onward).foldl
    (fun e stage => e.advance platform target stage (network e.trace)) e

namespace Exchange

theorem finish_of_done (network : Network) {e : Exchange} (h : e.inFlight = none) :
    e.finish platform network target = e := by
  rw [finish, h]
  rfl

/-- A turn as the network has it leads to the same end. -/
theorem finish_advance (network : Network) {stage : Stage} {e : Exchange}
    (h : e.inFlight = some stage) :
    (e.advance platform target stage (network e.trace)).finish platform network target
      = e.finish platform network target := by
  rw [finish, finish, inFlight_advance, h, Option.elim_some, stage.onward_eq, List.foldl_cons]

theorem finish_of_read (network : Network) {e : Exchange} (h : e.inFlight = some .read) :
    e.finish platform network target
      = e.advance platform target .read (network e.trace) := by
  rw [← finish_advance network h, finish_of_done network (inFlight_advance _ _ _)]

end Exchange

/-! ## Properties of traces -/

/-- **What each part of a dialogue satisfies, the whole trace does**, for a property that survives
appending. -/
theorem Dialogue.trace_induction {P : List Event → Prop} (happend : ∀ a b, P a → P b → P (a ++ b))
    (hlines : ∀ lines : List StdString, P (lines.map .cerr))
    (hopen : P [.started (.resolve endpointDomain endpointPort)])
    (hturn : ∀ stage c e, Dialogue platform target (some stage) e →
      P (e.turn platform target stage c))
    {stage : Option Stage} {e : Exchange} (h : Dialogue platform target stage e) : P e.trace := by
  induction h with
  | opened n =>
    obtain ⟨lines, hconstruct⟩ := trace_construct platform (platform.setup n)
    refine happend _ _ ?_ hopen
    rw [hconstruct]
    exact hlines lines
  | advance c h ih => exact happend _ _ ih (hturn _ c _ h)

theorem not_mem_cerr {lines : List StdString} {event : Event} (h : ∀ line, event ≠ .cerr line) :
    event ∉ lines.map Event.cerr := fun hmem => by
  obtain ⟨line, -, rfl⟩ := List.mem_map.mp hmem
  exact h line rfl

/-- **Only the dialogue's own target is ever written.** -/
theorem Dialogue.target_of_write {stage : Option Stage} {e : Exchange}
    (h : Dialogue platform target stage e) :
    ∀ request, Event.started (.write request) ∈ e.trace → request.target = target := by
  refine h.trace_induction (P := fun trace => ∀ request,
    Event.started (.write request) ∈ trace → request.target = target) ?_ ?_ ?_ ?_
  · exact fun a b ha hb request hmem => (List.mem_append.mp hmem).elim (ha request) (hb request)
  · exact fun lines request hmem => absurd hmem (not_mem_cerr nofun)
  · exact fun request hmem => nomatch List.mem_singleton.mp hmem
  · intro stage c e _ request hmem
    rcases List.mem_cons.mp hmem with heq | hmem
    · cases heq
    rcases List.mem_append.mp hmem with hmem | hmem
    · exact absurd hmem (not_mem_cerr nofun)
    rcases stage with _ | _ | _ | _ | _
    case handshake =>
      rcases List.mem_cons.mp hmem with heq | hmem
      · obtain ⟨rfl⟩ := heq
        rfl
      · obtain ⟨peer, -, heq⟩ := Option.map_eq_some_iff.mp (Option.mem_toList.mp hmem)
        cases heq
    case read =>
      rcases List.mem_cons.mp hmem with heq | hmem
      · cases heq
      rcases List.mem_cons.mp hmem with heq | hmem
      · cases heq
      · exact absurd hmem (not_mem_cerr nofun)
    all_goals cases List.mem_singleton.mp hmem

/-- **A finished dialogue holds the body of its own read.** -/
theorem Dialogue.read_of_finished {e : Exchange} (h : Dialogue platform target none e) :
    ∃ answer ec, Event.completed .read answer ec ∈ e.trace ∧
      e.object.readResponse = answer.body := by
  generalize hstage : (none : Option Stage) = stage at h
  rcases h with n | @⟨stage, e, c, h⟩
  · cases hstage
  · obtain rfl := Stage.next_eq_none_iff.mp hstage.symm
    exact ⟨c, _, List.mem_append_right _ List.mem_cons_self, rfl⟩

end Twelvedata
