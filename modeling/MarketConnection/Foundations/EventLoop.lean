import Mathlib.Data.List.Perm.Basic
import Mathlib.Data.Nat.Basic
import Mathlib.Logic.Hydra
import Mathlib.Order.WellFounded
import Mathlib.Tactic.Abel

/-!
# Foundations/EventLoop — a work-counting event loop and the runs of its drain

A context holds the operations in flight, a count of outstanding work and a *stopped* flag that
only a restart would clear.  `Loop.runOne` lets one pending operation complete and runs its handler;
`Loop.drain` repeats that until nothing was run.  Nothing is assumed of the handlers: they are a
function `exec` from an input and a handler to an `Effect` on the program's state, the operations it
initiated and the exception it threw.

Five rules serve every client:

* `runOne_cases` — what one call can do, said once;
* `Drains.invariant` — what every handler preserves, a drain preserves;
* `exists_drains`, `exists_drains_of_smaller` — a drain ends when some measure drops with every
  handler, or when every handler only initiates operations smaller than its own;
* `exists_env_forever` — some environment never lets it end when a handler can always run, return
  and leave as much behind;
* `Drains.exists_ran` — when no handler throws, a drain runs what is pending until nothing is.
-/

namespace EventLoop

variable {σ H E X : Type*}

/-! ## The context -/

/-- The operations in flight, the work they count for, and the flag that outlives a drain. -/
structure Context (H : Type*) where
  stopped : Bool := false
  outstandingWork : ℕ := 0
  pending : List H := []
deriving DecidableEq

namespace Context

/-- Operations are initiated: each joins the pending ones and counts as work. -/
def initiate (hs : List H) (c : Context H) : Context H :=
  { c with outstandingWork := c.outstandingWork + hs.length, pending := c.pending ++ hs }

/-- The `i`-th operation completes: it is no longer pending, but its work still counts. -/
def complete (i : ℕ) (c : Context H) : Context H := { c with pending := c.pending.eraseIdx i }

def stop (c : Context H) : Context H := { c with stopped := true }

/-- One unit of work is released; the context stops with the last one. -/
def workFinished (c : Context H) : Context H :=
  { c with
    outstandingWork := c.outstandingWork - 1
    stopped := c.stopped || c.outstandingWork - 1 == 0 }

@[simp] theorem pending_initiate (hs : List H) (c : Context H) :
    (c.initiate hs).pending = c.pending ++ hs := rfl

@[simp] theorem outstandingWork_initiate (hs : List H) (c : Context H) :
    (c.initiate hs).outstandingWork = c.outstandingWork + hs.length := rfl

/-- To initiate nothing changes nothing, … -/
@[simp] theorem initiate_nil (c : Context H) : c.initiate [] = c := by simp [initiate]

/-- … and to initiate some operations and then others is to initiate them at once. -/
theorem initiate_append (c : Context H) (hs hs' : List H) :
    c.initiate (hs ++ hs') = (c.initiate hs).initiate hs' := by
  simp [initiate, Nat.add_assoc]

/-- **The work is counted**: one unit for each pending operation. -/
def Counted (c : Context H) : Prop := c.outstandingWork = c.pending.length

theorem Counted.initiate {c : Context H} (hc : c.Counted) (hs : List H) :
    (c.initiate hs).Counted := by
  simp only [Counted, pending_initiate, outstandingWork_initiate, List.length_append]
  exact congrArg (· + hs.length) hc

theorem Counted.stop {c : Context H} (hc : c.Counted) : c.stop.Counted := hc

end Context

/-! ## One handler -/

/-- What running a handler does: the program's new state, the operations it initiated, and the
exception that left it, if any. -/
structure Effect (σ H X : Type*) where
  state : σ
  initiated : List H := []
  thrown : Option X := none

/-- The program's state beside the context it runs on. -/
structure Loop (σ H : Type*) where
  state : σ
  context : Context H

namespace Loop

/-- The operation that completes next, when the environment answers `pick`: any of the pending
ones, counted round the list. -/
def choice (pick : ℕ) (l : Loop σ H) : ℕ := pick % l.context.pending.length

theorem choice_lt (pick : ℕ) {l : Loop σ H} (h : l.context.pending ≠ []) :
    l.choice pick < l.context.pending.length :=
  Nat.mod_lt _ (List.length_pos_of_ne_nil h)

/-- Initiating operations from outside a handler. -/
def initiate (hs : List H) (l : Loop σ H) : Loop σ H :=
  { l with context := l.context.initiate hs }

/-- The loop after the `i`-th operation has completed and its handler has had its effect: what the
handler initiated is counted before the handler's own work is released. -/
def settle (i : ℕ) (eff : Effect σ H X) (l : Loop σ H) : Loop σ H where
  state := eff.state
  context := ((l.context.complete i).initiate eff.initiated).workFinished

@[simp] theorem state_settle (i : ℕ) (eff : Effect σ H X) (l : Loop σ H) :
    (l.settle i eff).state = eff.state := rfl

@[simp] theorem pending_settle (i : ℕ) (eff : Effect σ H X) (l : Loop σ H) :
    (l.settle i eff).context.pending = l.context.pending.eraseIdx i ++ eff.initiated := rfl

variable (exec : E → H → σ → Effect σ H X)

/-- `run_one`: nothing on a stopped context, nothing but stopping on one without work; otherwise
the chosen operation completes, its handler runs, and an exception leaves the call.  `none` is a
call that waits for ever: work is counted, but no operation is pending. -/
def runOne (pick : ℕ) (e : E) (l : Loop σ H) : Option (Loop σ H × Except X ℕ) :=
  if l.context.stopped then some (l, .ok 0)
  else if l.context.outstandingWork = 0 then some ({ l with context := l.context.stop }, .ok 0)
  else
    match l.context.pending[l.choice pick]? with
    | none => none
    | some h =>
      let eff := exec e h l.state
      some (l.settle (l.choice pick) eff, match eff.thrown with
        | none => .ok 1
        | some x => .error x)

/-- `while (run_one() != 0) {}`, for at most `fuel` calls; the environment answers each call from
what it can see. -/
def drain (env : Loop σ H → ℕ × E) : ℕ → Loop σ H → Option (Loop σ H × Except X Unit)
  | 0, _ => none
  | fuel + 1, l =>
    match l.runOne exec (env l).1 (env l).2 with
    | none => none
    | some (l', .error x) => some (l', .error x)
    | some (l', .ok 0) => some (l', .ok ())
    | some (l', .ok (_ + 1)) => drain env fuel l'

/-- **The drain returns**: after finitely many calls it leaves `l'`, normally or by an exception. -/
def Drains (env : Loop σ H → ℕ × E) (l l' : Loop σ H) (r : Except X Unit) : Prop :=
  ∃ fuel, l.drain exec env fuel = some (l', r)

variable {exec}

/-! ## What one call can do -/

theorem settle_counted {l : Loop σ H} (hc : l.context.Counted) {i : ℕ}
    (hi : i < l.context.pending.length) (eff : Effect σ H X) :
    (l.settle i eff).context.Counted := by
  have hlen : (l.context.pending.eraseIdx i).length + 1 = l.context.pending.length := by
    rw [List.length_eraseIdx_of_lt hi]; omega
  simp only [Context.Counted] at hc
  simp only [Context.Counted, settle, Context.workFinished, Context.initiate, Context.complete,
    List.length_append]
  omega

/-- On a counted context the flag rises exactly when the last operation is gone. -/
theorem stopped_settle {l : Loop σ H} (hc : l.context.Counted) (hs : l.context.stopped = false)
    {i : ℕ} (hi : i < l.context.pending.length) (eff : Effect σ H X) :
    (l.settle i eff).context.stopped = true ↔ (l.settle i eff).context.pending = [] := by
  have hcount := settle_counted hc hi eff
  have hflag : (l.settle i eff).context.stopped = true
      ↔ (l.settle i eff).context.outstandingWork = 0 := by
    simp [settle, Context.workFinished, Context.initiate, Context.complete, hs]
  rw [hflag, hcount, List.length_eq_zero_iff]

/-- A handler that runs: the context is live and the operation is a pending one. -/
structure Runs (l : Loop σ H) (i : ℕ) (h : H) : Prop where
  live : l.context.stopped = false
  get : l.context.pending[i]? = some h

theorem Runs.lt {l : Loop σ H} {i : ℕ} {h : H} (hr : l.Runs i h) :
    i < l.context.pending.length := (List.getElem?_eq_some_iff.mp hr.get).1

/-- The operation that completes is one of the pending ones; the others stay. -/
theorem Runs.perm {l : Loop σ H} {i : ℕ} {h : H} (hr : l.Runs i h) :
    l.context.pending.Perm (h :: l.context.pending.eraseIdx i) := by
  obtain ⟨hlt, rfl⟩ := List.getElem?_eq_some_iff.mp hr.get
  exact (List.getElem_cons_eraseIdx_perm hlt).symm

theorem Runs.mem {l : Loop σ H} {i : ℕ} {h : H} (hr : l.Runs i h) : h ∈ l.context.pending :=
  List.mem_of_getElem? hr.get

/-- **What a call of `run_one` can do**: nothing, stop the idle context, or run one handler. -/
theorem runOne_cases {pick : ℕ} {e : E} {l l' : Loop σ H} {r : Except X ℕ}
    (h : l.runOne exec pick e = some (l', r)) :
    (l.context.stopped = true ∧ l' = l ∧ r = .ok 0) ∨
    (l.context.stopped = false ∧ l.context.outstandingWork = 0 ∧
      l' = { l with context := l.context.stop } ∧ r = .ok 0) ∨
    (∃ f, l.Runs (l.choice pick) f ∧ l' = l.settle (l.choice pick) (exec e f l.state) ∧
      ((exec e f l.state).thrown = none ∧ r = .ok 1 ∨
        ∃ x, (exec e f l.state).thrown = some x ∧ r = .error x)) := by
  unfold runOne at h
  by_cases hs : l.context.stopped = true
  · rw [if_pos hs] at h
    cases h
    exact .inl ⟨hs, rfl, rfl⟩
  have hlive : l.context.stopped = false := by simpa using hs
  rw [if_neg hs] at h
  by_cases hw : l.context.outstandingWork = 0
  · rw [if_pos hw] at h
    cases h
    exact .inr (.inl ⟨hlive, hw, rfl, rfl⟩)
  rw [if_neg hw] at h
  cases hf : l.context.pending[l.choice pick]? with
  | none => simp [hf] at h
  | some f =>
    simp only [hf, Option.some.injEq, Prod.mk.injEq] at h
    obtain ⟨rfl, rfl⟩ := h
    refine .inr (.inr ⟨f, ⟨hlive, hf⟩, rfl, ?_⟩)
    cases ht : (exec e f l.state).thrown with
    | none => exact .inl ⟨rfl, rfl⟩
    | some x => exact .inr ⟨x, rfl, rfl⟩

/-- A call that does not return zero, nor throws, has run a handler that returned. -/
theorem runs_of_succ {pick : ℕ} {e : E} {l l' : Loop σ H} {n : ℕ}
    (h : l.runOne exec pick e = some (l', (.ok (n + 1) : Except X ℕ))) :
    ∃ f, l.Runs (l.choice pick) f ∧ l' = l.settle (l.choice pick) (exec e f l.state) ∧
      (exec e f l.state).thrown = none := by
  rcases runOne_cases h with ⟨-, -, hres⟩ | ⟨-, -, -, hres⟩ |
    ⟨f, hr, hl', ⟨ht, -⟩ | ⟨x, -, hres⟩⟩
  · cases hres
  · cases hres
  · exact ⟨f, hr, hl', ht⟩
  · cases hres

theorem runOne_stopped {pick : ℕ} {e : E} {l : Loop σ H} (hs : l.context.stopped = true) :
    l.runOne exec pick e = some (l, .ok 0) := if_pos hs

theorem runOne_idle {pick : ℕ} {e : E} {l : Loop σ H} (hs : l.context.stopped = false)
    (hw : l.context.outstandingWork = 0) :
    l.runOne exec pick e = some ({ l with context := l.context.stop }, .ok 0) := by
  simp [runOne, hs, hw]

theorem runOne_runs {pick : ℕ} {e : E} {l : Loop σ H} {f : H} (hc : l.context.Counted)
    (hr : l.Runs (l.choice pick) f) :
    l.runOne exec pick e = some (l.settle (l.choice pick) (exec e f l.state),
      match (exec e f l.state).thrown with
      | none => .ok 1
      | some x => .error x) := by
  have hw : l.context.outstandingWork ≠ 0 := by
    have := hr.lt
    rw [hc]
    omega
  simp [runOne, hr.live, hw, hr.get]

/-- The call whose handler returns. -/
theorem runOne_of_returns {pick : ℕ} {e : E} {l : Loop σ H} {f : H} {eff : Effect σ H X}
    (hc : l.context.Counted) (hr : l.Runs (l.choice pick) f) (he : exec e f l.state = eff)
    (ht : eff.thrown = none) :
    l.runOne exec pick e = some (l.settle (l.choice pick) eff, .ok 1) := by
  rw [runOne_runs hc hr, he, ht]

/-- The call whose handler throws. -/
theorem runOne_of_throws {pick : ℕ} {e : E} {l : Loop σ H} {f : H} {eff : Effect σ H X} {x : X}
    (hc : l.context.Counted) (hr : l.Runs (l.choice pick) f) (he : exec e f l.state = eff)
    (ht : eff.thrown = some x) :
    l.runOne exec pick e = some (l.settle (l.choice pick) eff, .error x) := by
  rw [runOne_runs hc hr, he, ht]

/-- A live context with work has a handler to run. -/
theorem exists_runs {l : Loop σ H} (hs : l.context.stopped = false)
    (hp : l.context.pending ≠ []) (pick : ℕ) : ∃ f, l.Runs (l.choice pick) f :=
  ⟨_, hs, List.getElem?_eq_getElem (choice_lt pick hp)⟩

/-! ## Runs of the drain -/

variable {env : Loop σ H → ℕ × E}

namespace Drains

theorem succ_inv {l l' : Loop σ H} {r : Except X Unit} (h : Drains exec env l l' r) :
    (∃ x, l.runOne exec (env l).1 (env l).2 = some (l', .error x) ∧ r = .error x) ∨
    (l.runOne exec (env l).1 (env l).2 = some (l', .ok 0) ∧ r = .ok ()) ∨
    (∃ l₁ n, l.runOne exec (env l).1 (env l).2 = some (l₁, .ok (n + 1)) ∧
      Drains exec env l₁ l' r) := by
  obtain ⟨_ | fuel, hd⟩ := h
  · cases hd
  rw [drain] at hd
  cases hone : l.runOne exec (env l).1 (env l).2 with
  | none => simp [hone] at hd
  | some p =>
    obtain ⟨l₁, x | _ | n⟩ := p
    · simp only [hone, Option.some.injEq, Prod.mk.injEq] at hd
      obtain ⟨rfl, rfl⟩ := hd
      exact .inl ⟨x, rfl, rfl⟩
    · simp only [hone, Option.some.injEq, Prod.mk.injEq] at hd
      obtain ⟨rfl, rfl⟩ := hd
      exact .inr (.inl ⟨rfl, rfl⟩)
    · simp only [hone] at hd
      exact .inr (.inr ⟨l₁, n, rfl, fuel, hd⟩)

theorem of_zero {l l' : Loop σ H} (h : l.runOne exec (env l).1 (env l).2 = some (l', .ok 0)) :
    Drains exec env l l' (.ok ()) := ⟨1, by simp [drain, h]⟩

theorem of_error {l l' : Loop σ H} {x : X}
    (h : l.runOne exec (env l).1 (env l).2 = some (l', .error x)) :
    Drains exec env l l' (.error x) := ⟨1, by simp [drain, h]⟩

theorem of_succ {l l₁ l' : Loop σ H} {n : ℕ} {r : Except X Unit}
    (h : l.runOne exec (env l).1 (env l).2 = some (l₁, .ok (n + 1)))
    (hd : Drains exec env l₁ l' r) : Drains exec env l l' r := by
  obtain ⟨fuel, hd⟩ := hd
  exact ⟨fuel + 1, by simp [drain, h, hd]⟩

/-- A stopped context is left as it is. -/
theorem of_stopped {l : Loop σ H} (hs : l.context.stopped = true) :
    Drains exec env l l (.ok ()) := of_zero (runOne_stopped hs)

/-- An idle context is stopped, and that is all. -/
theorem of_idle {l : Loop σ H} (hs : l.context.stopped = false)
    (hw : l.context.outstandingWork = 0) :
    Drains exec env l { l with context := l.context.stop } (.ok ()) := of_zero (runOne_idle hs hw)

/-- One handler that returns, then the rest. -/
theorem of_runs {l l' : Loop σ H} {f : H} {eff : Effect σ H X} {r : Except X Unit}
    (hc : l.context.Counted) (hr : l.Runs (l.choice (env l).1) f)
    (he : exec (env l).2 f l.state = eff) (ht : eff.thrown = none)
    (hd : Drains exec env (l.settle (l.choice (env l).1) eff) l' r) : Drains exec env l l' r :=
  of_succ (n := 0) (runOne_of_returns hc hr he ht) hd

/-- One handler that throws, and the drain is over. -/
theorem of_throws {l : Loop σ H} {f : H} {eff : Effect σ H X} {x : X} (hc : l.context.Counted)
    (hr : l.Runs (l.choice (env l).1) f) (he : exec (env l).2 f l.state = eff)
    (ht : eff.thrown = some x) :
    Drains exec env l (l.settle (l.choice (env l).1) eff) (.error x) :=
  of_error (runOne_of_throws hc hr he ht)

/-- **A drain is a function of its environment.** -/
theorem unique {l l₁ l₂ : Loop σ H} {r₁ r₂ : Except X Unit} (h₁ : Drains exec env l l₁ r₁)
    (h₂ : Drains exec env l l₂ r₂) : l₁ = l₂ ∧ r₁ = r₂ := by
  obtain ⟨fuel, h₁⟩ := h₁
  induction fuel generalizing l with
  | zero => cases h₁
  | succ fuel ih =>
    rw [drain] at h₁
    rcases h₂.succ_inv with ⟨x, hone, rfl⟩ | ⟨hone, rfl⟩ | ⟨m, n, hone, hrest⟩
    · simp only [hone, Option.some.injEq, Prod.mk.injEq] at h₁
      exact ⟨h₁.1.symm, h₁.2.symm⟩
    · simp only [hone, Option.some.injEq, Prod.mk.injEq] at h₁
      exact ⟨h₁.1.symm, h₁.2.symm⟩
    · simp only [hone] at h₁
      exact ih hrest h₁

/-- **What every handler preserves, a drain preserves.**  `I` is about states in which the next
handler may run; an exception leaves the state its handler made of such a state. -/
theorem invariant {I : Loop σ H → Prop}
    (hstop : ∀ l, I l → l.context.stopped = false → l.context.outstandingWork = 0 →
      I { l with context := l.context.stop })
    (hstep : ∀ l f, I l → l.Runs (l.choice (env l).1) f →
      (exec (env l).2 f l.state).thrown = none →
      I (l.settle (l.choice (env l).1) (exec (env l).2 f l.state)))
    {l l' : Loop σ H} {r : Except X Unit} (h : Drains exec env l l' r) (hI : I l) :
    (r = .ok () ∧ I l') ∨
      ∃ l₁ f x, r = .error x ∧ I l₁ ∧ l₁.Runs (l₁.choice (env l₁).1) f ∧
        (exec (env l₁).2 f l₁.state).thrown = some x ∧
        l' = l₁.settle (l₁.choice (env l₁).1) (exec (env l₁).2 f l₁.state) := by
  obtain ⟨fuel, h⟩ := h
  induction fuel generalizing l with
  | zero => cases h
  | succ fuel ih =>
    rw [drain] at h
    cases hone : l.runOne exec (env l).1 (env l).2 with
    | none => simp [hone] at h
    | some p =>
      obtain ⟨l₁, res⟩ := p
      rcases runOne_cases hone with ⟨-, rfl, rfl⟩ | ⟨hs, hw, rfl, rfl⟩ | ⟨f, hr, rfl, hres⟩
      · simp only [hone, Option.some.injEq, Prod.mk.injEq] at h
        obtain ⟨rfl, rfl⟩ := h
        exact .inl ⟨rfl, hI⟩
      · simp only [hone, Option.some.injEq, Prod.mk.injEq] at h
        obtain ⟨rfl, rfl⟩ := h
        exact .inl ⟨rfl, hstop l hI hs hw⟩
      · rcases hres with ⟨hnone, rfl⟩ | ⟨x, hsome, rfl⟩
        · simp only [hone] at h
          exact ih (hstep l f hI hr hnone) h
        · simp only [hone, Option.some.injEq, Prod.mk.injEq] at h
          obtain ⟨rfl, rfl⟩ := h
          exact .inr ⟨l, f, x, rfl, hI, hr, hsome, rfl⟩

theorem counted {l l' : Loop σ H} {r : Except X Unit} (h : Drains exec env l l' r)
    (hc : l.context.Counted) : l'.context.Counted := by
  rcases h.invariant (I := fun l => l.context.Counted) (fun _ hc _ _ => hc)
    (fun l f hc hr _ => settle_counted hc hr.lt _) hc with
    ⟨-, h⟩ | ⟨l₁, f, x, -, hc₁, hr, -, rfl⟩
  · exact h
  · exact settle_counted hc₁ hr.lt _

/-- **A drain that returns leaves the context stopped**, and without a pending operation unless it
found it stopped already. -/
theorem stopped_of_ok {l l' : Loop σ H} (h : Drains exec env l l' (.ok ()))
    (hc : l.context.Counted) :
    l'.context.stopped = true ∧ (l.context.stopped = false → l'.context.pending = []) := by
  obtain ⟨fuel, h⟩ := h
  induction fuel generalizing l with
  | zero => cases h
  | succ fuel ih =>
    rw [drain] at h
    cases hone : l.runOne exec (env l).1 (env l).2 with
    | none => simp [hone] at h
    | some p =>
      obtain ⟨l₁, res⟩ := p
      rcases runOne_cases hone with ⟨hs, rfl, rfl⟩ | ⟨-, hw, rfl, rfl⟩ | ⟨f, hr, rfl, hres⟩
      · simp only [hone, Option.some.injEq, Prod.mk.injEq, and_true] at h
        subst h
        exact ⟨hs, fun hlive => by simp [hlive] at hs⟩
      · simp only [hone, Option.some.injEq, Prod.mk.injEq, and_true] at h
        subst h
        exact ⟨rfl, fun _ => List.length_eq_zero_iff.mp (hc.symm.trans hw)⟩
      · rcases hres with ⟨-, rfl⟩ | ⟨x, -, rfl⟩
        · simp only [hone] at h
          have hnext := ih (settle_counted hc hr.lt _) h
          refine ⟨hnext.1, fun hlive => ?_⟩
          by_cases hst : (l.settle (l.choice (env l).1)
              (exec (env l).2 f l.state)).context.stopped = true
          · -- the handler just run was the last one: the drain leaves what it finds
            have hstay : Drains exec env _ _ _ := of_stopped hst
            have hsame := unique ⟨fuel, h⟩ hstay
            rw [hsame.1]
            exact (stopped_settle hc hlive hr.lt _).mp hst
          · exact hnext.2 (by simpa using hst)
        · simp [hone] at h

end Drains

/-! ## Termination -/

/-- **A drain ends when every handler that returns goes down in a relation without infinite
descents**, from a state it is accessible at. -/
theorem exists_drains_of_acc {I : Loop σ H → Prop} {R : Loop σ H → Loop σ H → Prop}
    (hcount : ∀ l, I l → l.context.Counted)
    (hstep : ∀ l f, I l → l.Runs (l.choice (env l).1) f →
      (exec (env l).2 f l.state).thrown = none →
      I (l.settle (l.choice (env l).1) (exec (env l).2 f l.state)) ∧
        R (l.settle (l.choice (env l).1) (exec (env l).2 f l.state)) l)
    {l : Loop σ H} (hI : I l) (hacc : Acc R l) : ∃ l' r, Drains exec env l l' r := by
  induction hacc with
  | intro l _ ih =>
    cases hs : l.context.stopped with
    | true => exact ⟨l, _, .of_stopped hs⟩
    | false =>
      by_cases hp : l.context.pending = []
      · exact ⟨_, _, .of_idle hs ((hcount l hI).trans (by rw [hp]; rfl))⟩
      · obtain ⟨f, hr⟩ := exists_runs hs hp (env l).1
        cases ht : (exec (env l).2 f l.state).thrown with
        | some x => exact ⟨_, _, .of_throws (hcount l hI) hr rfl ht⟩
        | none =>
          obtain ⟨hI', hR⟩ := hstep l f hI hr ht
          obtain ⟨l', r, hd⟩ := ih _ hR hI'
          exact ⟨l', r, .of_runs (hcount l hI) hr rfl ht hd⟩

/-- **A drain ends when a measure drops with every handler.** -/
theorem exists_drains {I : Loop σ H → Prop} {m : Loop σ H → ℕ}
    (hcount : ∀ l, I l → l.context.Counted)
    (hstep : ∀ l f, I l → l.Runs (l.choice (env l).1) f →
      (exec (env l).2 f l.state).thrown = none →
      I (l.settle (l.choice (env l).1) (exec (env l).2 f l.state)) ∧
        m (l.settle (l.choice (env l).1) (exec (env l).2 f l.state)) < m l)
    {l : Loop σ H} (hI : I l) : ∃ l' r, Drains exec env l l' r :=
  exists_drains_of_acc hcount hstep hI ((measure m).wf.apply l)

/-- **What can always be kept up, some environment keeps up for ever**: when in every state of `J` a
handler can run, return and leave a state of `J`, it never lets a drain end that starts there. -/
theorem exists_env_forever {J : Loop σ H → Prop} (hcount : ∀ l, J l → l.context.Counted)
    (hstep : ∀ l, J l → ∃ pick e f, l.Runs (l.choice pick) f ∧
      (exec e f l.state).thrown = none ∧ J (l.settle (l.choice pick) (exec e f l.state)))
    {l : Loop σ H} (hl : J l) : ∃ env : Loop σ H → ℕ × E, ∀ l' r, ¬ Drains exec env l l' r := by
  classical
  obtain ⟨_, e₀, -⟩ := hstep l hl
  let env : Loop σ H → ℕ × E := fun l =>
    if hJ : J l then ((hstep l hJ).choose, (hstep l hJ).choose_spec.choose) else (0, e₀)
  have henv : ∀ l, J l → ∃ f, l.Runs (l.choice (env l).1) f ∧
      (exec (env l).2 f l.state).thrown = none ∧
        J (l.settle (l.choice (env l).1) (exec (env l).2 f l.state)) := fun l hJ => by
    simp only [env, dif_pos hJ]
    exact (hstep l hJ).choose_spec.choose_spec
  refine ⟨env, fun l' r hd => ?_⟩
  obtain ⟨fuel, hd⟩ := hd
  induction fuel generalizing l with
  | zero => cases hd
  | succ fuel ih =>
    obtain ⟨f, hr, ht, hJ⟩ := henv l hl
    rw [drain, runOne_of_returns (hcount l hl) hr rfl ht] at hd
    exact ih hJ hd

section Forks

variable {α : Type*} {r : α → α → Prop} (rank : H → α)

/-- The ranks of the pending operations. -/
def ranks (l : Loop σ H) : Multiset α := (l.context.pending.map rank : List α)

/-- A handler takes its own rank out, and puts in those of the operations it initiated. -/
theorem ranks_settle {l : Loop σ H} {i : ℕ} {f : H} (hr : l.Runs i f) (eff : Effect σ H X) :
    ranks rank (l.settle i eff) + {rank f} = ranks rank l + (eff.initiated.map rank : List α) := by
  have hranks : ranks rank l = ((rank f :: (l.context.pending.eraseIdx i).map rank : List α)) :=
    Multiset.coe_eq_coe.mpr (hr.perm.map rank)
  rw [hranks, ranks, pending_settle, List.map_append, ← Multiset.coe_add, ← Multiset.cons_coe,
    ← Multiset.singleton_add]
  abel

/-- The relation below elements that are accessible; no such element is below itself. -/
def Below (r : α → α → Prop) (a b : α) : Prop := r a b ∧ Acc r b

instance : Std.Irrefl (Below r) where
  irrefl a h := by
    obtain ⟨haa, hacc⟩ := h
    induction hacc with
    | intro a _ ih => exact ih a haa haa

theorem acc_below {a : α} (h : Acc r a) : Acc (Below r) a :=
  Subrelation.accessible (fun hab => hab.1) h

/-- **A drain ends when every handler only initiates operations of smaller rank** — however many of
them, and although nothing counts down.  The ranks of the pending operations are a multiset, of
which a step replaces one member by finitely many smaller ones. -/
theorem exists_drains_of_smaller {I : Loop σ H → Prop}
    (hcount : ∀ l, I l → l.context.Counted)
    (hstep : ∀ l f, I l → l.Runs (l.choice (env l).1) f →
      (exec (env l).2 f l.state).thrown = none →
      I (l.settle (l.choice (env l).1) (exec (env l).2 f l.state)) ∧
        ∀ h ∈ (exec (env l).2 f l.state).initiated, r (rank h) (rank f))
    {l : Loop σ H} (hI : I l) (hacc : ∀ h ∈ l.context.pending, Acc r (rank h)) :
    ∃ l' res, Drains exec env l l' res := by
  refine exists_drains_of_acc
    (I := fun l => I l ∧ ∀ h ∈ l.context.pending, Acc r (rank h))
    (R := InvImage (Relation.CutExpand (Below r)) (ranks rank))
    (fun l h => hcount l h.1) (fun l f h hr ht => ?_) ⟨hI, hacc⟩ (InvImage.accessible _ ?_)
  · obtain ⟨hI', hsmaller⟩ := hstep l f h.1 hr ht
    have hf := h.2 f hr.mem
    refine ⟨⟨hI', fun g hg => ?_⟩, _, rank f, fun a ha => ?_, ranks_settle rank hr _⟩
    · rw [pending_settle] at hg
      rcases List.mem_append.mp hg with hg | hg
      · exact h.2 g (List.mem_of_mem_eraseIdx hg)
      · exact hf.inv (hsmaller g hg)
    · obtain ⟨g, hg, rfl⟩ := List.mem_map.mp (Multiset.mem_coe.mp ha)
      exact ⟨hsmaller g hg, hf⟩
  · refine Relation.acc_of_singleton fun a ha => Acc.cutExpand ?_
    obtain ⟨h, hh, rfl⟩ := List.mem_map.mp (Multiset.mem_coe.mp ha)
    exact acc_below (hacc h hh)

end Forks

/-! ## The handlers a drain runs -/

variable (exec env) in
/-- **The drain comes to `l'`** by running the handlers `hs`, one after the other, all of which
return. -/
inductive Ran (l : Loop σ H) : List H → Loop σ H → Prop
  | refl : Ran l [] l
  | step {hs : List H} {l₁ : Loop σ H} {f : H} (h : Ran l hs l₁)
      (hr : l₁.Runs (l₁.choice (env l₁).1) f)
      (ht : (exec (env l₁).2 f l₁.state).thrown = none) :
      Ran l (hs ++ [f]) (l₁.settle (l₁.choice (env l₁).1) (exec (env l₁).2 f l₁.state))

variable (exec env) in
/-- No handler the drain comes to throws. -/
def NeverThrows (l : Loop σ H) : Prop :=
  ∀ hs l₁ f, Ran exec env l hs l₁ → l₁.Runs (l₁.choice (env l₁).1) f →
    (exec (env l₁).2 f l₁.state).thrown = none

/-- **A drain whose handlers do not throw returns**, once it ran them all and none is pending. -/
theorem Drains.exists_ran {l l' : Loop σ H} {r : Except X Unit} (h : Drains exec env l l' r)
    (hthrow : NeverThrows exec env l) (hc : l.context.Counted) (hlive : l.context.stopped = false) :
    r = .ok () ∧ ∃ hs l₁, Ran exec env l hs l₁ ∧ l₁.context.pending = [] ∧
      l' = { l₁ with context := l₁.context.stop } := by
  have hran := h.invariant
    (I := fun l₂ => ∃ hs l₁, Ran exec env l hs l₁ ∧
      (l₂ = l₁ ∨ l₂ = { l₁ with context := l₁.context.stop }))
    (fun l₂ hI hs _ => ?_) (fun l₂ f hI hr ht => ?_) ⟨[], l, .refl, .inl rfl⟩
  · rcases hran with ⟨rfl, hs, l₁, hran, heq⟩ | ⟨l₂, f, x, -, ⟨hs, l₁, hran, rfl | rfl⟩, hr, ht, -⟩
    · obtain ⟨hstopped, hpending⟩ := h.stopped_of_ok hc
      refine ⟨rfl, hs, l₁, hran, ?_, ?_⟩
      · rcases heq with rfl | rfl
        · exact hpending hlive
        · exact hpending hlive
      · rcases heq with rfl | rfl
        · obtain ⟨state, ⟨stopped, work, pending⟩⟩ := l'
          exact congrArg (Loop.mk state ⟨·, work, pending⟩) hstopped
        · rfl
    · exact absurd (ht.symm.trans (hthrow hs _ f hran hr)) nofun
    · exact absurd hr.live nofun
  · obtain ⟨hs', l₁, hran, rfl | rfl⟩ := hI
    · exact ⟨hs', _, hran, .inr rfl⟩
    · cases hs
  · obtain ⟨hs', l₁, hran, rfl | rfl⟩ := hI
    · exact ⟨hs' ++ [f], _, hran.step hr ht, .inl rfl⟩
    · exact absurd hr.live nofun

end Loop

end EventLoop
