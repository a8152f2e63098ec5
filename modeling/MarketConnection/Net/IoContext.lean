import MarketConnection.Foundations.Refinement
import MarketConnection.Net.Process

/-!
# Net/IoContext — `native_ioc()`, and why there is one context

`io_context.cpp` keeps a static pointer that is empty until `native_ioc()` is first called, and
every object copies what that call returns.  Nothing says that the pointers agree: here the contexts
lie on a heap, an object has the address it was given, its operations wait at that address, and
`run_one` runs what waits at the one `native_ioc()` returns.

**The programs over the heap are exactly the processes of Net/Process** (`programs_exact`).  At most
one context is ever made, by the first object or the first `run_one`, and every object holds it
(`native_ioc_shared`).
-/

namespace Twelvedata

open EventLoop Refinement

variable {S F ν : Type}

/-! ## The heap -/

/-- The `io_context`s on the heap, by address, and the static pointer to one of them. -/
structure Heap (F : Type) where
  contexts : List (Context (Handler F)) := []
  ioContext : Option ℕ := none

namespace Heap

/-- `native_ioc()`. -/
def nativeIoc (heap : Heap F) : ℕ × Heap F :=
  match heap.ioContext with
  | some ioc => (ioc, heap)
  | none =>
    let ioc := heap.contexts.length
    (ioc, { contexts := heap.contexts ++ [{}], ioContext := some ioc })

/-- Something is done to the context at an address. -/
def update (ioc : ℕ) (f : Context (Handler F) → Context (Handler F)) (heap : Heap F) : Heap F :=
  { heap with contexts := heap.contexts.modify ioc f }

end Heap

/-- A program over the heap. -/
structure Program (S F ν : Type) where
  world : World S F ν := {}
  heap : Heap F := {}
  /-- The member `ioc` of each object of `async_send_request`. -/
  iocs : List ℕ := []

namespace Program

variable (platform : Platform) (invoke : F → Json → Invocation S F ν)

/-- A request of the program: the constructor calls `native_ioc()`, and an asynchronous operation
waits at the object's own address. -/
def act (pr : Program S F ν) : Act S F → Program S F ν
  | .async submission =>
    let (ioc, heap) := pr.heap.nativeIoc
    let (world, hs) := pr.world.asyncSendRequest platform submission
    { world := world, heap := heap.update ioc (Context.initiate hs), iocs := pr.iocs ++ [ioc] }
  | .sync target network =>
    let (_, heap) := pr.heap.nativeIoc
    { pr with world := (pr.world.sendRequest platform target network).2, heap := heap }

def acts (pr : Program S F ν) (as : List (Act S F)) : Program S F ν := as.foldl (act platform) pr

/-- One handler; the next operation of its object waits at the object's own address. -/
def exec (c : Completion) (h : Handler F) (pr : Program S F ν) :
    Program S F ν × Option Exception :=
  match pr.world.requests[h.self]?, pr.iocs[h.self]? with
  | some r, some ioc =>
    match (h.call platform c).run r.exchange with
    | (.initiated next, e) =>
      ({ pr with
          world := pr.world.replace h.self { r with exchange := e }
          heap := pr.heap.update ioc (Context.initiate [next]) }, none)
    | (.parsed _ (.error x), e) =>
      ({ pr with world := pr.world.replace h.self { r with exchange := e } }, some x)
    | (.parsed token (.ok json), e) =>
      let call := invoke token json
      let r := { r with exchange := e, notes := r.notes ++ call.notes }
      let pr := { pr with world := (pr.world.replace h.self r).print call.stdout }
      (pr.acts platform call.acts, call.thrown)
  | _, _ => (pr, none)

/-- `native_ioc()->run_one()`. -/
def runOne (pick : ℕ) (c : Completion) (pr : Program S F ν) :
    Option (Program S F ν × Except Exception ℕ) :=
  let (ioc, heap) := pr.heap.nativeIoc
  let pr := { pr with heap := heap }
  match heap.contexts[ioc]? with
  | none => none
  | some context =>
    if context.stopped then some (pr, .ok 0)
    else if context.outstandingWork = 0 then
      some ({ pr with heap := heap.update ioc Context.stop }, .ok 0)
    else
      let i := pick % context.pending.length
      match context.pending[i]? with
      | none => none
      | some h =>
        let pr := { pr with heap := heap.update ioc (Context.complete i) }
        let (pr, thrown) := pr.exec platform invoke c h
        some ({ pr with heap := pr.heap.update ioc Context.workFinished }, match thrown with
          | none => .ok 1
          | some x => .error x)

end Program

/-! ## One context -/

/-- A program in which `native_ioc()` was called: all addresses are that of the one context. -/
def Program.sharing (p : Process S F ν) : Program S F ν where
  world := p.state
  heap := { contexts := [p.context], ioContext := some 0 }
  iocs := List.replicate p.state.requests.length 0

/-- The process that a program amounts to; no context is as good as a new one. -/
def Program.process (pr : Program S F ν) : Process S F ν where
  state := pr.world
  context := pr.heap.contexts.headD {}

/-- **The contexts agree**: there is none yet, and no object, or they are one. -/
def Program.Shared (pr : Program S F ν) : Prop := pr = {} ∨ pr = .sharing pr.process

namespace Program

theorem shared_sharing (p : Process S F ν) : (sharing p).Shared := .inr rfl

/-- As long as no object is made, the addresses are the same. -/
theorem sharing_eq (p : Process S F ν) {w : World S F ν}
    (hw : w.requests.length = p.state.requests.length) (context : Context (Handler F)) :
    sharing { state := w, context := context }
      = { world := w, heap := { contexts := [context], ioContext := some 0 },
          iocs := (sharing p).iocs } := by
  rw [sharing, hw]
  rfl

variable (platform : Platform) (invoke : F → Json → Invocation S F ν)

theorem act_sharing (p : Process S F ν) (a : Act S F) :
    (sharing p).act platform a = sharing (p.act platform a) := by
  rcases a with submission | ⟨target, network⟩
  · have hlength : ((p.act platform (.async submission)).state.requests).length
        = p.state.requests.length + 1 := List.length_append
    rw [sharing, sharing, hlength, List.replicate_succ']
    rfl
  · rw [sharing, sharing]
    have hcontext : (p.act platform (.sync target network)).context = p.context :=
      Context.initiate_nil p.context
    rw [hcontext]
    rfl

/-- The first object makes the context. -/
theorem act_shared {pr : Program S F ν} (h : pr.Shared) (a : Act S F) :
    pr.act platform a = sharing (pr.process.act platform a) := by
  rcases h with rfl | h
  · rcases a with submission | ⟨target, network⟩ <;> rfl
  · rw [h]
    exact act_sharing platform _ a

/-- What the requests of a token come to. -/
theorem acts_sharing (p : Process S F ν) (as : List (Act S F)) :
    (sharing p).acts platform as
      = sharing { state := (p.state.acts platform as).1
                  context := p.context.initiate (p.state.acts platform as).2 } := by
  induction as generalizing p with
  | nil =>
    have hcontext : p.context.initiate (p.state.acts platform []).2 = p.context :=
      Context.initiate_nil p.context
    rw [hcontext]
    rfl
  | cons a as ih =>
    rw [acts, List.foldl_cons, act_sharing]
    refine (ih (p.act platform a)).trans ?_
    rw [World.acts_cons, Context.initiate_append]
    rfl

/-- What a handler does is done to the one context. -/
theorem exec_sharing (p : Process S F ν) (c : Completion) (h : Handler F) :
    (sharing p).exec platform invoke c h
      = (sharing { state := (Twelvedata.exec platform invoke c h p.state).state
                   context := p.context.initiate
                     (Twelvedata.exec platform invoke c h p.state).initiated },
          (Twelvedata.exec platform invoke c h p.state).thrown) := by
  rw [exec, Twelvedata.exec]
  rcases hr : p.state.requests[h.self]? with _ | r
  · have hnone : (sharing p).world.requests[h.self]? = none := hr
    rw [hnone, Context.initiate_nil]
  · have hsome : (sharing p).world.requests[h.self]? = some r := hr
    have hioc : (sharing p).iocs[h.self]? = some 0 :=
      List.getElem?_replicate_of_lt (List.getElem?_eq_some_iff.mp hr).1
    have hlength : ∀ r', (p.state.replace h.self r').requests.length = p.state.requests.length :=
      fun _ => List.length_set
    rw [hsome, hioc]
    simp only
    rcases (h.call platform c).run r.exchange with ⟨next | ⟨token, x | json⟩, e⟩
    · simp only
      rw [sharing_eq p (hlength _)]
      rfl
    · simp only [Context.initiate_nil]
      rw [sharing_eq p (hlength _)]
      rfl
    · -- the token makes its requests in a program that shares the context already
      have hshared := sharing_eq p
        (w := (p.state.replace h.self { r with
          exchange := e, notes := r.notes ++ (invoke token json).notes }).print
            (invoke token json).stdout) (hlength _) p.context
      refine Prod.ext ?_ rfl
      exact (congrArg (fun pr => pr.acts platform (invoke token json).acts) hshared.symm).trans
        (acts_sharing platform _ _)

theorem runOne_sharing (p : Process S F ν) (pick : ℕ) (c : Completion) :
    (sharing p).runOne platform invoke pick c
      = (Loop.runOne (Twelvedata.exec platform invoke) pick c p).map fun q =>
          (sharing q.1, q.2) := by
  rw [runOne, Loop.runOne, Loop.choice]
  have hioc : (sharing p).heap.nativeIoc = (0, (sharing p).heap) := rfl
  have hcontext : (sharing p).heap.contexts[0]? = some p.context := rfl
  rw [hioc]
  simp only
  rw [hcontext]
  simp only
  by_cases hs : p.context.stopped = true
  · rw [if_pos hs, if_pos hs]
    rfl
  rw [if_neg hs, if_neg hs]
  by_cases hw : p.context.outstandingWork = 0
  · rw [if_pos hw, if_pos hw]
    rfl
  rw [if_neg hw, if_neg hw]
  rcases p.context.pending[pick % p.context.pending.length]? with _ | h
  · rfl
  · have hexec := exec_sharing platform invoke
      { p with context := p.context.complete (pick % p.context.pending.length) } c h
    have hbefore : { sharing p with
          heap := (sharing p).heap.update 0
            (Context.complete (pick % p.context.pending.length)) }
        = sharing { p with context := p.context.complete (pick % p.context.pending.length) } := rfl
    simp only [Option.map_some]
    rw [hbefore, hexec]
    refine congrArg some (Prod.ext rfl ?_)
    rcases (Twelvedata.exec platform invoke c h p.state).thrown with _ | x <;> rfl

/-- **`run_one` does to a program what it does to the process.** -/
theorem runOne_shared {pr : Program S F ν} (h : pr.Shared) (pick : ℕ) (c : Completion) :
    pr.runOne platform invoke pick c
      = (Loop.runOne (Twelvedata.exec platform invoke) pick c pr.process).map fun q =>
          (sharing q.1, q.2) := by
  rcases h with rfl | h
  · rfl
  · rw [h]
    exact runOne_sharing platform invoke _ pick c

end Program

/-! ## Runs -/

/-- What a program does: it makes a request, or calls `run_one`. -/
inductive Use (S F : Type)
  | made (a : Act S F)
  | ran (pick : ℕ) (c : Completion) (res : Except Exception ℕ)

/-- The programs over the heap. -/
def programs (platform : Platform) (invoke : F → Json → Invocation S F ν) :
    System (Program S F ν) (Use S F) where
  start := {}
  step pr l pr' :=
    (∃ a, l = some (.made a) ∧ pr' = pr.act platform a) ∨
    ∃ pick c res, l = some (.ran pick c res) ∧ pr.runOne platform invoke pick c = some (pr', res)

/-- The processes of one context. -/
def processes (platform : Platform) (invoke : F → Json → Invocation S F ν) :
    System (Process S F ν) (Use S F) where
  start := .start
  step p l p' :=
    (∃ a, l = some (.made a) ∧ p' = p.act platform a) ∨
    ∃ pick c res, l = some (.ran pick c res) ∧
      p.runOne (exec platform invoke) pick c = some (p', res)

variable {platform : Platform} {invoke : F → Json → Invocation S F ν}

/-- Their states are the reachable processes. -/
theorem reachable_iff_run {p : Process S F ν} :
    Reachable platform invoke (fun _ => True) p
      ↔ ∃ trace, (processes platform invoke).Run trace p := by
  constructor
  · intro h
    induction h with
    | start => exact ⟨[], .refl⟩
    | act _ _ ih =>
      obtain ⟨trace, hrun⟩ := ih
      exact ⟨_, hrun.step (.inl ⟨_, rfl, rfl⟩)⟩
    | runOne _ hr ih =>
      obtain ⟨trace, hrun⟩ := ih
      exact ⟨_, hrun.step (.inr ⟨_, _, _, rfl, hr⟩)⟩
  · rintro ⟨trace, hrun⟩
    refine hrun.invariant (P := fun _ p => Reachable platform invoke (fun _ => True) p) .start ?_
    rintro _ _ p p' hp (⟨a, -, rfl⟩ | ⟨pick, c, res, -, hr⟩)
    · exact hp.act trivial
    · exact hp.runOne hr

/-- **The program refines the process, exactly.** -/
theorem programs_exact (platform : Platform) (invoke : F → Json → Invocation S F ν) :
    Exact (programs platform invoke) (processes platform invoke) Program.process
      Program.Shared where
  start := rfl
  initially := .inl rfl
  step := by
    rintro pr _ pr' hpr (⟨a, rfl, rfl⟩ | ⟨pick, c, res, rfl, hr⟩)
    · rw [Program.act_shared platform hpr]
      exact ⟨Program.shared_sharing _, .single (.inl ⟨a, rfl, rfl⟩)⟩
    · rw [Program.runOne_shared platform invoke hpr] at hr
      obtain ⟨⟨p', res'⟩, hp', heq⟩ := Option.map_eq_some_iff.mp hr
      obtain ⟨rfl, rfl⟩ := Prod.mk.inj heq
      exact ⟨Program.shared_sharing _, .single (.inr ⟨pick, c, _, rfl, hp'⟩)⟩
  realises := by
    rintro pr _ p' hpr (⟨a, rfl, rfl⟩ | ⟨pick, c, res, rfl, hr⟩)
    · refine ⟨_, .single (.inl ⟨a, rfl, rfl⟩), ?_⟩
      rw [Program.act_shared platform hpr]
      rfl
    · have hrun := Program.runOne_shared platform invoke hpr pick c
      rw [hr] at hrun
      exact ⟨_, .single (.inr ⟨pick, c, res, rfl, hrun⟩), rfl⟩

/-- From the first use on the contexts are one. -/
theorem sharing_of_run {trace : List (Use S F)} {pr : Program S F ν}
    (h : (programs platform invoke).Run trace pr) :
    trace = [] ∧ pr = {} ∨ trace ≠ [] ∧ pr = .sharing pr.process := by
  refine h.invariant (P := fun trace pr => trace = [] ∧ pr = {} ∨
    trace ≠ [] ∧ pr = .sharing pr.process) (.inl ⟨rfl, rfl⟩) ?_
  rintro trace l pr pr' hpr hstep
  have hshared : pr.Shared := hpr.imp And.right And.right
  right
  rcases hstep with ⟨a, rfl, rfl⟩ | ⟨pick, c, res, rfl, hr⟩
  · rw [Program.act_shared platform hshared]
    exact ⟨List.concat_ne_nil _ _, rfl⟩
  · rw [Program.runOne_shared platform invoke hshared] at hr
    obtain ⟨⟨p', res'⟩, -, heq⟩ := Option.map_eq_some_iff.mp hr
    obtain ⟨rfl, rfl⟩ := Prod.mk.inj heq
    exact ⟨List.concat_ne_nil _ _, rfl⟩

/-- **There is one `io_context`**: the programs over the heap amount to the reachable processes, no
more and no fewer; the first use of the library makes a context and no later one does, and every
object has the address that `native_ioc()` returns. -/
theorem native_ioc_shared (platform : Platform) (invoke : F → Json → Invocation S F ν) :
    (∀ p, Reachable platform invoke (fun _ => True) p ↔
      ∃ trace pr, (programs platform invoke).Run trace pr ∧ pr.process = p) ∧
    ∀ trace pr, (programs platform invoke).Run trace pr →
      pr.heap.contexts.length = (if trace.isEmpty then 0 else 1) ∧
      pr.iocs.length = pr.world.requests.length ∧
      ∀ ioc ∈ pr.iocs, pr.heap.nativeIoc = (ioc, pr.heap) := by
  refine ⟨fun p => ?_, fun trace pr hrun => ?_⟩
  · rw [reachable_iff_run]
    constructor
    · rintro ⟨trace, hrun⟩
      exact ⟨trace, (programs_exact platform invoke).run hrun⟩
    · rintro ⟨trace, pr, hrun, rfl⟩
      exact ⟨trace, ((programs_exact platform invoke).toRefines.run hrun).2⟩
  · rcases sharing_of_run hrun with ⟨rfl, rfl⟩ | ⟨htrace, hpr⟩
    · exact ⟨rfl, rfl, fun _ hioc => absurd hioc List.not_mem_nil⟩
    · rw [hpr, if_neg (mt List.isEmpty_iff.mp htrace)]
      refine ⟨rfl, List.length_replicate, fun ioc hioc => ?_⟩
      rw [(List.mem_replicate.mp hioc).2]
      rfl

end Twelvedata
