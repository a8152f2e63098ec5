import MarketConnection.Net.Process

/-!
# Net/FailStop — a request does not stop at a failure

A pipeline is fail-stop when nothing begins after a stage reported a failed error code.  Here every
stage looks at its error code only to log it, so whatever the code, something begins afterwards
(`Heedless`): **a request is fail-stop exactly when no stage of it fails** (`failStop_iff`).
-/

namespace Twelvedata

namespace Event

/-- A stage is started, or a body is handed to the parser. -/
def begins : Event → Bool
  | started _ => true
  | parsed _ => true
  | _ => false

/-- A stage reports a failed error code. -/
def failed : Event → Bool
  | completed _ _ ec => ec.failed
  | _ => false

end Event

/-- **Fail-stop**: nothing begins after a failure. -/
def FailStop (trace : List Event) : Prop :=
  trace.Pairwise fun earlier later => earlier.failed = true → later.begins = false

instance : DecidablePred FailStop := fun _ => by unfold FailStop; infer_instance

/-- After every failure something begins. -/
def Heedless : List Event → Prop
  | [] => True
  | event :: after => (event.failed = true → ∃ later ∈ after, later.begins = true) ∧ Heedless after

theorem Heedless.append {a b : List Event} (ha : Heedless a) (hb : Heedless b) :
    Heedless (a ++ b) := by
  induction a with
  | nil => exact hb
  | cons event after ih =>
    refine ⟨fun hf => ?_, ih ha.2⟩
    obtain ⟨later, hl, hbegins⟩ := ha.1 hf
    exact ⟨later, List.mem_append_left b hl, hbegins⟩

theorem heedless_of_forall {events : List Event} (h : ∀ event ∈ events, event.failed = false) :
    Heedless events := by
  induction events with
  | nil => trivial
  | cons event after ih =>
    obtain ⟨hevent, hafter⟩ := List.forall_mem_cons.mp h
    exact ⟨fun hf => absurd (hevent.symm.trans hf) Bool.false_ne_true, ih hafter⟩

/-- A heedless trace is fail-stop only if it has nothing to stop at. -/
theorem Heedless.failStop_iff_forall {trace : List Event} (h : Heedless trace) :
    FailStop trace ↔ ∀ event ∈ trace, event.failed = false := by
  induction trace with
  | nil => exact iff_of_true .nil nofun
  | cons event after ih =>
    rw [FailStop, List.pairwise_cons, List.forall_mem_cons]
    refine and_congr ⟨fun hstop => ?_, fun hok _ _ hf => ?_⟩ (ih h.2)
    · by_contra hf
      obtain ⟨later, hl, hbegins⟩ := h.1 (by simpa using hf)
      exact absurd ((hstop later hl (by simpa using hf)).symm.trans hbegins) Bool.false_ne_true
    · exact absurd (hok.symm.trans hf) Bool.false_ne_true

/-! ## Requests are heedless -/

variable {platform : Platform} {target : StdString}

theorem failed_of_mem_cerr {lines : List StdString} :
    ∀ event ∈ lines.map Event.cerr, event.failed = false :=
  List.forall_mem_map.mpr fun _ _ => rfl

theorem failed_of_mem_sequel {stage : Stage} {c : Completion} {object : GenericRestRequest} :
    ∀ event ∈ object.sequel platform stage c, event.failed = false := by
  rcases stage with _ | _ | _ | _ | _
  case handshake =>
    refine List.forall_mem_cons.mpr ⟨rfl, fun event he => ?_⟩
    obtain ⟨peer, -, rfl⟩ := Option.map_eq_some_iff.mp (Option.mem_toList.mp he)
    rfl
  case read =>
    exact List.forall_mem_cons.mpr ⟨rfl, List.forall_mem_cons.mpr ⟨rfl, failed_of_mem_cerr⟩⟩
  all_goals exact List.forall_mem_singleton.mpr rfl

/-- Whatever a stage reported, it is followed by the next, or by the parse. -/
theorem exists_begins_sequel (stage : Stage) (c : Completion) (object : GenericRestRequest) :
    ∃ event ∈ object.sequel platform stage c, event.begins = true := by
  rcases stage with _ | _ | _ | _ | _
  case read => exact ⟨_, List.mem_cons_of_mem _ List.mem_cons_self, rfl⟩
  all_goals exact ⟨_, List.mem_cons_self, rfl⟩

theorem heedless_turn (stage : Stage) (c : Completion) (e : Exchange) :
    Heedless (e.turn platform target stage c) := by
  refine ⟨fun _ => ?_, heedless_of_forall fun event he => ?_⟩
  · obtain ⟨event, he, hbegins⟩ := exists_begins_sequel stage c
      ((e.object.answer platform stage c).2.prepare target stage)
    exact ⟨event, List.mem_append_right _ he, hbegins⟩
  · exact (List.mem_append.mp he).elim (failed_of_mem_cerr event) (failed_of_mem_sequel event)

theorem Dialogue.heedless {stage : Option Stage} {e : Exchange}
    (h : Dialogue platform target stage e) : Heedless e.trace :=
  h.trace_induction (fun _ _ => Heedless.append)
    (fun _ => heedless_of_forall failed_of_mem_cerr)
    (heedless_of_forall (List.forall_mem_singleton.mpr rfl))
    fun stage c e _ => heedless_turn stage c e

/-- **A request is fail-stop exactly when no stage of it reports a failed error code**, in every
state of every run, for the requests of either function. -/
theorem failStop_iff {S F ν : Type} {invoke : F → Json → Invocation S F ν} {p : Process S F ν}
    (h : Reachable platform invoke (fun _ => True) p) :
    ∀ e ∈ p.state.exchanges, FailStop e.trace ↔
      ∀ stage answer ec, Event.completed stage answer ec ∈ e.trace → ec.failed = false := by
  intro e he
  obtain ⟨target, stage, hd⟩ := (h.sound fun _ _ _ _ => trivial).dialogue e he
  rw [hd.heedless.failStop_iff_forall]
  constructor
  · exact fun hall stage answer ec hmem => hall _ hmem
  · rintro hall (_ | _ | ⟨stage, answer, ec⟩ | _ | _ | _) hmem
    case completed => exact hall _ _ _ hmem
    all_goals rfl

/-- A request every stage of which goes through. -/
theorem failStop_online : ∃ e, (sentOne fun _ => {}).state.exchanges = [e] ∧ FailStop e.trace := by
  refine ⟨_, rfl, ((failStop_iff (reachable_sentOne fun _ => {})) _ List.mem_cons_self).mpr ?_⟩
  have hsucceeds : ∀ e ∈ (sentOne fun _ => {}).state.exchanges,
      ∀ event ∈ e.trace, event.failed = false := by decide
  exact fun _ _ _ hmem => hsucceeds _ List.mem_cons_self _ hmem

/-- What an operation reports when the machine is offline. -/
def networkUnreachable : ErrorCode := ⟨true, "Network is unreachable".toList, "system".toList⟩

/-- Offline, a request still goes through all its stages. -/
theorem not_failStop_offline :
    ¬ ∀ p : Process Unit Unit Unit, Reachable Platform.sample (fun _ _ => {}) (fun _ => True) p →
      ∀ e ∈ p.state.exchanges, FailStop e.trace := by
  intro h
  exact absurd (h _ (reachable_sentOne fun _ => { ec := networkUnreachable })) (by decide)

end Twelvedata
