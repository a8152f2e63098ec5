import Mathlib.Data.List.Basic

/-!
# Foundations/Scripts — programs that log, and give up at the first failure

A `LogM` program appends to a log it may read, and may throw.  `Logs x Q` says of `x`, whatever was
logged before, that it appends some events and is left in some way, and that `Q` holds of both; its
rules follow the program (`Logs.pure`, `Logs.bind`, `Logs.get`, …).

A script is a program of which only the `Mark`s in its log are told: the steps it attempts, the one
that fails, and what is noted about it.  **`Script ks x`: `x` attempts the steps `ks` in order and
returns, or stops at the first that fails and throws for it** — and scripts compose (`Script.seq`),
so a program is fail-stop because its parts are.
-/

namespace Scripts

variable {ω ε α β κ γ ν : Type}

/-! ## Programs that log -/

abbrev LogM (ω ε α : Type) := ExceptT ε (StateM (List ω)) α

/-- `events` are appended to the log. -/
def output (events : List ω) : LogM ω ε PUnit := fun log => (.ok ⟨⟩, log ++ events)

/-- The log so far. -/
def logged : LogM ω ε (List ω) := fun log => (.ok log, log)

/-- **`x` appends some events and is left in some way**, and `Q` holds of these. -/
def Logs (x : LogM ω ε α) (Q : List ω → Except ε α → Prop) : Prop :=
  ∀ log, ∃ events r, x.run.run log = (r, log ++ events) ∧ Q events r

namespace Logs

variable {Q : List ω → Except ε α → Prop}

theorem mono {P : List ω → Except ε α → Prop} {x : LogM ω ε α} (h : Logs x P)
    (hPQ : ∀ events r, P events r → Q events r) : Logs x Q := by
  intro log
  obtain ⟨events, r, hrun, hP⟩ := h log
  exact ⟨events, r, hrun, hPQ events r hP⟩

theorem pure {a : α} (h : Q [] (.ok a)) : Logs (Pure.pure a) Q :=
  fun log => ⟨[], .ok a, by rw [List.append_nil]; rfl, h⟩

theorem throw {e : ε} (h : Q [] (.error e)) : Logs (MonadExcept.throw e) Q :=
  fun log => ⟨[], .error e, by rw [List.append_nil]; rfl, h⟩

theorem output {Q : List ω → Except ε PUnit → Prop} {events : List ω} (h : Q events (.ok ⟨⟩)) :
    Logs (Scripts.output events) Q := fun _ => ⟨events, .ok ⟨⟩, rfl, h⟩

/-- **One program after another**, when the first is not left by an exception. -/
theorem bind {P : List ω → Except ε β → Prop} {x : LogM ω ε β} {f : β → LogM ω ε α}
    (hx : Logs x P) (hthrow : ∀ events e, P events (.error e) → Q events (.error e))
    (hf : ∀ events b, P events (.ok b) → Logs (f b) fun events' r => Q (events ++ events') r) :
    Logs (x >>= f) Q := by
  intro log
  obtain ⟨events, r, hrun, hP⟩ := hx log
  rcases r with e | b
  · refine ⟨events, .error e, ?_, hthrow events e hP⟩
    change (x.run >>= ExceptT.bindCont f) log = _
    exact congrArg (fun p : Except ε β × List ω => ExceptT.bindCont f p.1 p.2) hrun
  · obtain ⟨events', r, hrun', hQ⟩ := hf events b hP (log ++ events)
    refine ⟨events ++ events', r, ?_, hQ⟩
    rw [← List.append_assoc, ← hrun']
    exact congrArg (fun p : Except ε β × List ω => ExceptT.bindCont f p.1 p.2) hrun

/-- A program that reads the log first. -/
theorem get {f : List ω → LogM ω ε α} (h : ∀ log, Logs (f log) Q) : Logs (logged >>= f) Q :=
  fun log => h log log

end Logs

/-! ## From a log on -/

/-- `x` appends no events but such. -/
def Only (p : ω → Prop) (x : LogM ω ε α) : Prop := Logs x fun events _ => ∀ event ∈ events, p event

namespace Only

variable {p : ω → Prop}

theorem output {events : List ω} (h : ∀ event ∈ events, p event) :
    Only p (Scripts.output events : LogM ω ε PUnit) := Logs.output h

theorem pure (a : α) : Only p (Pure.pure a : LogM ω ε α) := Logs.pure (by simp)

theorem throw (e : ε) : Only p (MonadExcept.throw e : LogM ω ε α) := Logs.throw (by simp)

theorem get {f : List ω → LogM ω ε α} (h : ∀ log, Only p (f log)) : Only p (logged >>= f) :=
  Logs.get h

theorem bind {x : LogM ω ε β} {f : β → LogM ω ε α} (hx : Only p x) (hf : ∀ b, Only p (f b)) :
    Only p (x >>= f) :=
  Logs.bind hx (fun _ _ h => h) fun _ b h => (hf b).mono fun _ _ h' event hmem =>
    (List.mem_append.mp hmem).elim (h event) (h' event)

end Only

/-- **From `log`, `x` ends** with a log and in some way, and `Q` holds of both. -/
def Ends (log : List ω) (x : LogM ω ε α) (Q : List ω → Except ε α → Prop) : Prop :=
  Q (x.run.run log).2 (x.run.run log).1

namespace Ends

variable {Q : List ω → Except ε α → Prop} {log : List ω}

theorem of_logs {P : List ω → Except ε α → Prop} {x : LogM ω ε α} (h : Logs x P)
    (hPQ : ∀ events r, P events r → Q (log ++ events) r) : Ends log x Q := by
  obtain ⟨events, r, hrun, hP⟩ := h log
  rw [Ends, hrun]
  exact hPQ events r hP

theorem bind {P : List ω → Except ε β → Prop} {x : LogM ω ε β} {f : β → LogM ω ε α}
    (hx : Ends log x P) (hthrow : ∀ log' e, P log' (.error e) → Q log' (.error e))
    (hf : ∀ log' b, P log' (.ok b) → Ends log' (f b) Q) : Ends log (x >>= f) Q := by
  have hrun : (x >>= f).run.run log = (ExceptT.bindCont f (x.run.run log).1) (x.run.run log).2 :=
    rfl
  rw [Ends, hrun]
  rw [Ends] at hx
  rcases hr : (x.run.run log).1 with e | b <;> rw [hr] at hx
  · exact hthrow _ e hx
  · exact hf _ b hx

end Ends

/-! ## Scripts -/

/-- What is told of a log: a step is attempted, it failed with `c`, or something is noted. -/
inductive Mark (κ γ ν : Type)
  | attempt (step : κ)
  | failure (step : κ) (c : γ)
  | note (v : ν)
deriving DecidableEq

/-- The marks of a script that stops at a failure of the `n`-th of the steps `ks`. -/
def stopped (ks : List κ) (n : ℕ) (k : κ) (c : γ) : List (Mark κ γ ν) :=
  (ks.take (n + 1)).map .attempt ++ [.failure k c]

/-- **`x` attempts the steps `ks` in order, up to the first that fails**, for which it throws. -/
def Script (view : ω → Option (Mark κ γ ν)) (thrown : κ → γ → ε) (ks : List κ)
    (x : LogM ω ε α) : Prop :=
  Logs x fun events r =>
    (∃ a, r = .ok a ∧ events.filterMap view = ks.map .attempt) ∨
    ∃ n k c, ks[n]? = some k ∧ r = .error (thrown k c) ∧ events.filterMap view = stopped ks n k c

namespace Script

variable {view : ω → Option (Mark κ γ ν)} {thrown : κ → γ → ε} {ks ks' : List κ}

theorem pure (a : α) : Script view thrown [] (Pure.pure a : LogM ω ε α) :=
  Logs.pure (.inl ⟨a, rfl, rfl⟩)

/-- Nothing is told of these events. -/
theorem output {events : List ω} (h : events.filterMap view = []) :
    Script view thrown [] (Scripts.output events) := Logs.output (.inl ⟨⟨⟩, rfl, h⟩)

/-- A step is attempted. -/
theorem attempt {events : List ω} {k : κ} (h : events.filterMap view = [.attempt k]) :
    Script view thrown [k] (Scripts.output events) := Logs.output (.inl ⟨⟨⟩, rfl, h⟩)

theorem get {f : List ω → LogM ω ε α} (h : ∀ log, Script view thrown ks (f log)) :
    Script view thrown ks (logged >>= f) := Logs.get h

/-- A failure later on is one after all of these steps. -/
theorem stopped_append (ks : List κ) {n : ℕ} {k : κ} (c : γ) :
    (ks.map .attempt ++ stopped ks' n k c : List (Mark κ γ ν))
      = stopped (ks ++ ks') (ks.length + n) k c := by
  rw [stopped, stopped, Nat.add_assoc, List.take_length_add_append, List.map_append,
    List.append_assoc]

/-- **Scripts compose.** -/
theorem seq {x : LogM ω ε β} {f : β → LogM ω ε α} (hx : Script view thrown ks x)
    (hf : ∀ b, Script view thrown ks' (f b)) : Script view thrown (ks ++ ks') (x >>= f) := by
  refine Logs.bind hx ?_ ?_
  · rintro events e (⟨a, h, -⟩ | ⟨n, k, c, hk, he, hevents⟩)
    · cases h
    · have hlt := (List.getElem?_eq_some_iff.mp hk).1
      refine .inr ⟨n, k, c, ?_, congrArg _ (Except.error.inj he), ?_⟩
      · rw [List.getElem?_append_left hlt, hk]
      · rw [hevents, stopped, stopped, List.take_append_of_le_length hlt]
  · rintro events b (⟨_, -, hevents⟩ | ⟨n, k, c, -, he, -⟩)
    · refine (hf b).mono ?_
      rintro events' r (⟨a, rfl, hevents'⟩ | ⟨n, k, c, hk, rfl, hevents'⟩)
      · exact .inl ⟨a, rfl, by rw [List.filterMap_append, hevents, hevents', List.map_append]⟩
      · refine .inr ⟨ks.length + n, k, c, ?_, rfl, ?_⟩
        · rw [List.getElem?_append_right (Nat.le_add_right _ _), Nat.add_sub_cancel_left, hk]
        · rw [List.filterMap_append, hevents, hevents', stopped_append]
    · cases he

/-- How the end of a step is looked at: nothing is told, or its failure, which is thrown. -/
def Checks (view : ω → Option (Mark κ γ ν)) (thrown : κ → γ → ε) (k : κ) (x : LogM ω ε α) : Prop :=
  Logs x fun events r => (∃ a, r = .ok a ∧ events.filterMap view = []) ∨
    ∃ c, r = .error (thrown k c) ∧ events.filterMap view = [.failure k c]

/-- A step, and the look at how it ended. -/
theorem check {k : κ} {x : LogM ω ε β} {f : β → LogM ω ε α} (hx : Script view thrown [k] x)
    (hf : ∀ b, Checks view thrown k (f b)) : Script view thrown [k] (x >>= f) := by
  refine Logs.bind hx ?_ ?_
  · rintro events e (⟨a, h, -⟩ | hstopped)
    · cases h
    · obtain ⟨n, k', c, hk, he, hevents⟩ := hstopped
      exact .inr ⟨n, k', c, hk, congrArg _ (Except.error.inj he), hevents⟩
  · rintro events b (⟨_, -, hevents⟩ | ⟨n, k', c, -, he, -⟩)
    · refine (hf b).mono ?_
      rintro events' r (⟨a, rfl, hevents'⟩ | ⟨c, rfl, hevents'⟩)
      · exact .inl ⟨a, rfl, by rw [List.filterMap_append, hevents, hevents', List.append_nil]⟩
      · exact .inr ⟨0, k, c, rfl, rfl, by rw [List.filterMap_append, hevents, hevents']; rfl⟩
    · cases he

/-- …before others. -/
theorem step {k : κ} {δ : Type} {x : LogM ω ε β} {c : β → LogM ω ε δ} {f : β → LogM ω ε α}
    (hx : Script view thrown [k] x) (hc : ∀ b, Checks view thrown k (c b))
    (hf : ∀ b, Script view thrown ks (f b)) :
    Script view thrown (k :: ks) (x >>= fun b => c b >>= fun _ => f b) := by
  have hkept : ∀ b, Checks view thrown k (c b >>= fun _ => Pure.pure b) := fun b => by
    refine Logs.bind (hc b) ?_ ?_
    · rintro events e (⟨a, h, -⟩ | ⟨c', he, hevents⟩)
      · cases h
      · exact .inr ⟨c', congrArg _ (Except.error.inj he), hevents⟩
    · rintro events _ (⟨_, -, hevents⟩ | ⟨_, he, -⟩)
      · exact Logs.pure (.inl ⟨b, rfl, by rw [List.append_nil, hevents]⟩)
      · cases he
  have hseq := (hx.check hkept).seq hf
  simpa only [bind_assoc, pure_bind, List.singleton_append] using hseq

end Script

end Scripts
