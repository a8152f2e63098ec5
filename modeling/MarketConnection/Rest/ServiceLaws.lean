import MarketConnection.Rest.Service

/-!
# Rest/ServiceLaws — what every run of the process keeps to

The laws of the service (`Lawful`): tickets go to the calls in the order they come, each is answered
at most once and keeps its answer, the text on `std::cout` is that of the tokens in the order of the
answers, and once the service has stopped nothing is answered.  A law is proved of the service, by a
step lemma for each thing that is seen (`Lawful.submit`, `Lawful.answer`, `Lawful.idle`), and
**carried over to the process, stages, exceptions and all** (`process_lawful`).
-/

namespace Twelvedata

open EventLoop Refinement

variable {τ : Type} {platform : Platform} {callToken : τ → GetStocksListResponse → TokenCall τ}

/-! ## The laws -/

/-- The answers of a trace. -/
def answers (trace : List (Visible τ)) : List (ℕ × StdString) :=
  trace.filterMap fun
    | .answered place body => some (place, body)
    | _ => none

section Laws

variable (platform : Platform) (callToken : τ → GetStocksListResponse → TokenCall τ)

/-- The calls that come with what is seen, when the tickets are those of `calls`. -/
def brings (calls : List (StocksCall τ)) : Visible τ → List (StocksCall τ)
  | .submitted call => [call]
  | .answered place body =>
    calls[place]?.elim [] fun call => reactionCalls platform callToken call body
  | .idled => []

/-- The text that comes with an answer. -/
def textOf (calls : List (StocksCall τ)) (answer : ℕ × StdString) : StdString :=
  calls[answer.1]?.elim [] fun call => (reaction platform callToken call answer.2).stdout

/-- **The laws of the service**, for a trace and what it leaves behind. -/
structure Lawful (trace : List (Visible τ)) (s : Service τ) : Prop where
  /-- Tickets go to the calls in the order they come, from outside or from a token. -/
  calls : s.tickets.map Ticket.call
    = trace.flatMap (brings platform callToken (s.tickets.map Ticket.call))
  /-- A ticket is answered at most once, … -/
  once : ((answers trace).map Prod.fst).Nodup
  /-- … and holds what it was answered with. -/
  bodies : ∀ place body,
    (place, body) ∈ answers trace ↔ s.tickets[place]?.bind Ticket.body = some body
  /-- The text is that of the tokens, each uninterrupted, in the order of the answers. -/
  stdout : s.stdout
    = (answers trace).flatMap (textOf platform callToken (s.tickets.map Ticket.call))
  /-- Before it stops nothing was idle, and … -/
  live : s.stopped = false → Visible.idled ∉ trace
  /-- … after that nothing is answered: what came before was, and what came late waits. -/
  late : s.stopped = true → ∃ (before : List (Visible τ)) (late : List (StocksCall τ))
    (served : List (Ticket τ)), trace = before ++ late.map .submitted ∧
      s.tickets = served ++ (late.map fun call => { call := call }) ∧ Service.done served = true

end Laws

theorem answers_append (trace trace' : List (Visible τ)) :
    answers (trace ++ trace') = answers trace ++ answers trace' := List.filterMap_append

theorem mem_answers {trace : List (Visible τ)} {place : ℕ} {body : StdString} :
    (place, body) ∈ answers trace ↔ Visible.answered place body ∈ trace := by
  rw [answers, List.mem_filterMap]
  constructor
  · rintro ⟨call | ⟨place', body'⟩ | _, hmem, heq⟩
    · cases heq
    · obtain ⟨rfl, rfl⟩ := Prod.mk.inj (Option.some.inj heq)
      exact hmem
    · cases heq
  · exact fun h => ⟨_, h, rfl⟩

/-! ## What a step does to tickets -/

section Tickets

variable {tickets : List (Ticket τ)} {place : ℕ} {body : StdString} {call : StocksCall τ}

/-- New tickets are not answered. -/
theorem body_append_new (tickets : List (Ticket τ)) (calls : List (StocksCall τ)) (i : ℕ) :
    (tickets ++ calls.map fun call => ({ call := call } : Ticket τ))[i]?.bind Ticket.body
      = tickets[i]?.bind Ticket.body := by
  rcases lt_or_ge i tickets.length with hi | hi
  · rw [List.getElem?_append_left hi]
  · rw [List.getElem?_append_right hi, List.getElem?_map, List.getElem?_eq_none hi]
    rcases calls[i - tickets.length]? <;> rfl

theorem body_set (ht : tickets[place]? = some ⟨call, none⟩) (i : ℕ) :
    (tickets.set place ⟨call, some body⟩)[i]?.bind Ticket.body
      = if place = i then some body else tickets[i]?.bind Ticket.body := by
  obtain ⟨hlt, -⟩ := List.getElem?_eq_some_iff.mp ht
  by_cases hi : place = i
  · subst hi
    rw [List.getElem?_set_self hlt, if_pos rfl]
    rfl
  · rw [List.getElem?_set_ne hi, if_neg hi]

theorem map_call_set (ht : tickets[place]? = some ⟨call, none⟩) :
    (tickets.set place ⟨call, some body⟩).map Ticket.call = tickets.map Ticket.call := by
  ext1 i
  rw [List.getElem?_map, List.getElem?_map, List.getElem?_set]
  split_ifs with hi hlt
  · subst hi
    rw [ht]
    rfl
  · subst hi
    exact absurd (List.getElem?_eq_some_iff.mp ht).1 hlt
  · rfl

theorem map_call_new (calls : List (StocksCall τ)) :
    (calls.map fun call => ({ call := call } : Ticket τ)).map Ticket.call = calls := by
  rw [List.map_map]
  exact List.map_id calls

end Tickets

/-! ## What a step does to the laws -/

namespace Lawful

variable {trace : List (Visible τ)} {s : Service τ}

/-- What was answered has a ticket. -/
theorem lt_of_mem (h : Lawful platform callToken trace s) {place : ℕ} {body : StdString}
    (hmem : (place, body) ∈ answers trace) : place < (s.tickets.map Ticket.call).length := by
  obtain ⟨t, ht, -⟩ := Option.bind_eq_some_iff.mp ((h.bodies place body).mp hmem)
  rw [List.length_map]
  exact (List.getElem?_eq_some_iff.mp ht).1

/-- More tickets change nothing about what was seen so far. -/
theorem flatMap_brings (h : Lawful platform callToken trace s) (more : List (StocksCall τ)) :
    trace.flatMap (brings platform callToken (s.tickets.map Ticket.call ++ more))
      = s.tickets.map Ticket.call := by
  refine Eq.trans (List.flatMap_congr fun v hv => ?_) h.calls.symm
  rcases v with call | ⟨place, body⟩ | _
  · rfl
  · rw [brings, brings, List.getElem?_append_left (h.lt_of_mem (mem_answers.mpr hv))]
  · rfl

theorem flatMap_textOf (h : Lawful platform callToken trace s) (more : List (StocksCall τ)) :
    (answers trace).flatMap (textOf platform callToken (s.tickets.map Ticket.call ++ more))
      = s.stdout := by
  refine Eq.trans (List.flatMap_congr fun ⟨place, body⟩ hv => ?_) h.stdout.symm
  rw [textOf, textOf, List.getElem?_append_left (h.lt_of_mem hv)]

theorem start : Lawful platform callToken [] {} where
  calls := rfl
  once := .nil
  bodies _ _ := iff_of_false List.not_mem_nil nofun
  stdout := rfl
  live _ := List.not_mem_nil
  late := nofun

/-- A submission. -/
theorem submit (h : Lawful platform callToken trace s) (call : StocksCall τ) :
    Lawful platform callToken (trace ++ [.submitted call]) (s.submit call) := by
  have hanswers : answers (trace ++ [.submitted call]) = answers trace :=
    (answers_append _ _).trans (List.append_nil _)
  have hcalls : (s.submit call).tickets.map Ticket.call = s.tickets.map Ticket.call ++ [call] := by
    rw [Service.submit, List.map_append, List.map_singleton]
  refine ⟨?_, hanswers ▸ h.once, fun place body => ?_, ?_, fun hs hmem => ?_, fun hs => ?_⟩
  · rw [hcalls, List.flatMap_append, h.flatMap_brings]
    rfl
  · rw [hanswers, h.bodies]
    exact iff_of_eq (congrArg (· = some body) (body_append_new s.tickets [call] place).symm)
  · rw [hcalls, hanswers, h.flatMap_textOf]
    rfl
  · rcases List.mem_append.mp hmem with hmem | hmem
    · exact h.live hs hmem
    · cases List.mem_singleton.mp hmem
  · obtain ⟨before, late, served, rfl, htickets, hserved⟩ := h.late hs
    refine ⟨before, late ++ [call], served, ?_, ?_, hserved⟩
    · rw [List.map_append, List.append_assoc, List.map_singleton]
    · rw [Service.submit, htickets, List.map_append, List.append_assoc, List.map_singleton]

/-- An answer. -/
theorem answer (h : Lawful platform callToken trace s) (hlive : s.stopped = false) {place : ℕ}
    {body : StdString} {call : StocksCall τ} (ht : s.tickets[place]? = some ⟨call, none⟩) :
    Lawful platform callToken (trace ++ [.answered place body])
      (s.answer platform callToken place body call) := by
  have hanswers : answers (trace ++ [.answered place body]) = answers trace ++ [(place, body)] :=
    answers_append _ _
  have hcalls : (s.answer platform callToken place body call).tickets.map Ticket.call
      = s.tickets.map Ticket.call ++ reactionCalls platform callToken call body := by
    rw [Service.answer, List.map_append, map_call_set ht, map_call_new]
  have hget : (s.tickets.map Ticket.call ++ reactionCalls platform callToken call body)[place]?
      = some call := by
    obtain ⟨hlt, -⟩ := List.getElem?_eq_some_iff.mp ht
    rw [List.getElem?_append_left (by rwa [List.length_map]), List.getElem?_map, ht]
    rfl
  -- the ticket was waiting, so its place was not answered before
  have hnew : ∀ b, (place, b) ∉ answers trace := fun b hmem => by
    have hbody := (h.bodies place b).mp hmem
    rw [ht] at hbody
    cases hbody
  refine ⟨?_, ?_, fun i b => ?_, ?_, fun _ hmem => ?_, fun hs => ?_⟩
  · rw [hcalls, List.flatMap_append, h.flatMap_brings, List.flatMap_singleton, brings, hget]
    rfl
  · rw [hanswers, List.map_append, List.map_singleton]
    refine h.once.append (List.nodup_singleton _) (List.disjoint_singleton.mpr fun hmem => ?_)
    obtain ⟨⟨i, b⟩, hib, rfl⟩ := List.mem_map.mp hmem
    exact hnew b hib
  · rw [hanswers, List.mem_append, List.mem_singleton, h.bodies, Prod.mk.injEq]
    have hbody := (body_append_new (s.tickets.set place ⟨call, some body⟩)
      (reactionCalls platform callToken call body) i).trans (body_set ht i)
    rw [Service.answer, hbody]
    by_cases hi : place = i
    · subst hi
      rw [if_pos rfl, ht]
      simp [eq_comm]
    · rw [if_neg hi]
      simp [Ne.symm hi]
  · rw [hcalls, hanswers, List.flatMap_append, h.flatMap_textOf, List.flatMap_singleton, textOf,
      hget]
    rfl
  · rcases List.mem_append.mp hmem with hmem | hmem
    · exact h.live hlive hmem
    · cases List.mem_singleton.mp hmem
  · exact ⟨_, [], _, (List.append_nil _).symm, (List.append_nil _).symm, hs⟩

/-- A `run_one` without work. -/
theorem idle (h : Lawful platform callToken trace s) (hdone : Service.done s.tickets = true) :
    Lawful platform callToken (trace ++ [.idled]) { s with stopped := true } := by
  have hanswers : answers (trace ++ [Visible.idled]) = answers trace :=
    (answers_append _ _).trans (List.append_nil _)
  refine ⟨?_, hanswers ▸ h.once, hanswers ▸ h.bodies, hanswers ▸ h.stdout, nofun, fun _ => ?_⟩
  · rw [List.flatMap_append]
    exact h.calls.trans (List.append_nil _).symm
  · exact ⟨_, [], _, (List.append_nil _).symm, (List.append_nil _).symm, hdone⟩

theorem next (h : Lawful platform callToken trace s) {v : Visible τ} {s' : Service τ}
    (hnext : s.next platform callToken v = some s') :
    Lawful platform callToken (trace ++ [v]) s' := by
  rcases v with call | ⟨place, body⟩ | _
  · obtain rfl := Option.some.inj hnext
    exact h.submit call
  · obtain ⟨hlive, call, ht, rfl⟩ := Service.next_answered_inv hnext
    exact h.answer hlive ht
  · obtain ⟨-, hdone, rfl⟩ := Service.next_idled_inv hnext
    exact h.idle hdone

end Lawful

end Twelvedata
