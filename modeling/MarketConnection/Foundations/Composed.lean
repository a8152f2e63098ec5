import MarketConnection.Foundations.EventLoop

/-!
# Foundations/Composed — a drain whose operations are composed of smaller ones

An operation may be composed: before its own handler runs, handlers of the library run inside it,
each of which initiates a further piece of the work before its own is released.  The program does
not see them and the context counts as much work as before, but each of them takes a call of
`run_one`.

A drain is then told by its turns, one for each call: an operation ends, or goes on.  **Operations
that go on change the number of calls and nothing else**: the drain comes to what it comes to in
some environment without them (`exists_drains_of_drainBy`), there may be any number of them
(`exists_drainBy`), and the others are as many as the handlers that run (`length_turns`).
-/

namespace EventLoop

variable {σ H E X : Type*}

/-- What a call of `run_one` meets. -/
inductive Turn (E : Type*)
  /-- The operation that `pick` chooses ends with `e`. -/
  | ends (pick : ℕ) (e : E)
  /-- A handler runs inside an operation, which goes on. -/
  | goesOn

namespace Turn

def isGoesOn : Turn E → Bool
  | ends _ _ => false
  | goesOn => true

@[simp] theorem isGoesOn_ends (pick : ℕ) (e : E) : (ends pick e).isGoesOn = false := rfl

@[simp] theorem isGoesOn_goesOn : (goesOn : Turn E).isGoesOn = true := rfl

/-- What the environment answers to the call. -/
def answer? : Turn E → Option (ℕ × E)
  | ends pick e => some (pick, e)
  | goesOn => none

end Turn

namespace Loop

variable (exec : E → H → σ → Effect σ H X)

/-- `run_one` on a turn.  An operation can only go on while one is pending, on a live context. -/
def runTurn : Turn E → Loop σ H → Option (Loop σ H × Except X ℕ)
  | .ends pick e, l => l.runOne exec pick e
  | .goesOn, l => if l.context.stopped || l.context.pending.isEmpty then none else some (l, .ok 1)

/-- `while (run_one() != 0) {}`, when its calls meet these turns: `none`, unless they are as many as
the calls. -/
def drainBy : List (Turn E) → Loop σ H → Option (Loop σ H × Except X Unit)
  | [], _ => none
  | turn :: turns, l =>
    match l.runTurn exec turn with
    | none => none
    | some (l', .error x) => if turns.isEmpty then some (l', .error x) else none
    | some (l', .ok 0) => if turns.isEmpty then some (l', .ok ()) else none
    | some (l', .ok (_ + 1)) => drainBy turns l'

variable {exec} {l l' : Loop σ H} {r : Except X Unit} {turn : Turn E} {turns : List (Turn E)}

/-- **What the first turn can be**: an operation goes on, the drain ends, or a handler returns. -/
theorem drainBy_cons (h : l.drainBy exec (turn :: turns) = some (l', r)) :
    (turn = .goesOn ∧ l.drainBy exec turns = some (l', r)) ∨
    ∃ pick e, turn = .ends pick e ∧
      ((∃ x, l.runOne exec pick e = some (l', .error x) ∧ r = .error x ∧ turns = []) ∨
        (l.runOne exec pick e = some (l', .ok 0) ∧ r = .ok () ∧ turns = []) ∨
        ∃ l₁ n, l.runOne exec pick e = some (l₁, .ok (n + 1)) ∧
          l₁.drainBy exec turns = some (l', r)) := by
  rcases turn with ⟨pick, e⟩ | _
  · refine .inr ⟨pick, e, rfl, ?_⟩
    rw [drainBy, runTurn] at h
    rcases hone : l.runOne exec pick e with _ | ⟨l₁, x | _ | n⟩
    · simp [hone] at h
    · simp only [hone, Option.ite_none_right_eq_some, List.isEmpty_iff, Option.some.injEq,
        Prod.mk.injEq] at h
      obtain ⟨hlast, rfl, rfl⟩ := h
      exact .inl ⟨x, rfl, rfl, hlast⟩
    · simp only [hone, Option.ite_none_right_eq_some, List.isEmpty_iff, Option.some.injEq,
        Prod.mk.injEq] at h
      obtain ⟨hlast, rfl, rfl⟩ := h
      exact .inr (.inl ⟨rfl, rfl, hlast⟩)
    · simp only [hone] at h
      exact .inr (.inr ⟨l₁, n, rfl, h⟩)
  · refine .inl ⟨rfl, ?_⟩
    rw [drainBy, runTurn] at h
    by_cases hidle : (l.context.stopped || l.context.pending.isEmpty) = true
    · rw [if_pos hidle] at h
      cases h
    · simpa only [if_neg hidle] using h

/-- Operations in flight may go on, any number of times. -/
theorem drainBy_replicate_goesOn (hs : l.context.stopped = false) (hp : l.context.pending ≠ [])
    (m : ℕ) (turns : List (Turn E)) :
    l.drainBy exec (List.replicate m .goesOn ++ turns) = l.drainBy exec turns := by
  induction m with
  | zero => rfl
  | succ m ih =>
    rw [List.replicate_succ, List.cons_append, drainBy, runTurn, hs, Bool.false_or,
      if_neg (by simpa using hp)]
    exact ih

/-! ## Turns and handlers -/

/-- `done` counts the handlers that have run, in the states of `I`. -/
structure Counts (exec : E → H → σ → Effect σ H X) (I : Loop σ H → Prop) (done : Loop σ H → ℕ) :
    Prop where
  stop : ∀ l, done { l with context := l.context.stop } = done l
  settle : ∀ l i f e, I l → l.Runs i f →
    I (l.settle i (exec e f l.state)) ∧ done (l.settle i (exec e f l.state)) = done l + 1

variable {I : Loop σ H → Prop} {done : Loop σ H → ℕ}

/-- A call that runs a handler is counted, and no other. -/
theorem Counts.runOne (hcounts : Counts exec I done) {pick : ℕ} {e : E} {res : Except X ℕ}
    (hI : I l) (h : l.runOne exec pick e = some (l', res)) :
    (res = .ok 0 ∧ done l' = done l) ∨ (res ≠ .ok 0 ∧ I l' ∧ done l' = done l + 1) := by
  rcases runOne_cases h with ⟨-, rfl, rfl⟩ | ⟨-, -, rfl, rfl⟩ | ⟨f, hr, rfl, hres⟩
  · exact .inl ⟨rfl, rfl⟩
  · exact .inl ⟨rfl, hcounts.stop l⟩
  · refine .inr ⟨?_, hcounts.settle l _ f e hI hr⟩
    rcases hres with ⟨-, rfl⟩ | ⟨x, -, rfl⟩
    · simp
    · simp

/-- **How many calls there are**: one for each handler that runs, one for each operation that goes
on, and one more when the drain returns. -/
theorem length_turns (hcounts : Counts exec I done) (hI : I l)
    (h : l.drainBy exec turns = some (l', r)) :
    turns.length + done l = done l' + turns.countP Turn.isGoesOn + r.isOk.toNat := by
  induction turns generalizing l with
  | nil => cases h
  | cons turn turns ih =>
    rw [List.length_cons, List.countP_cons]
    rcases drainBy_cons h with ⟨rfl, hrest⟩ | ⟨pick, e, rfl, ⟨x, hone, rfl, rfl⟩ |
      ⟨hone, rfl, rfl⟩ | ⟨l₁, n, hone, hrest⟩⟩
    · have hturns := ih hI hrest
      rw [Turn.isGoesOn_goesOn, if_pos rfl]
      omega
    all_goals
      rw [Turn.isGoesOn_ends, if_neg Bool.false_ne_true]
      rcases hcounts.runOne hI hone with ⟨hzero, hdone⟩ | ⟨hzero, hI', hdone⟩
    · cases hzero
    · rw [hdone]
      exact Nat.add_comm _ _
    · rw [hdone]
      exact Nat.add_comm _ _
    · exact absurd rfl hzero
    · cases hzero
    · have hturns := ih hI' hrest
      omega

/-! ## Turns and environments -/

/-- **Operations that go on do not matter**: without them the drain comes to the same, in an
environment that looks up in the list of answers the one for the handler that is due. -/
theorem exists_drains_of_drainBy [Inhabited E] (hcounts : Counts exec I done) (hI : I l)
    (h : l.drainBy exec turns = some (l', r)) : ∃ env, Drains exec env l l' r := by
  let answers : ℕ → ℕ × E := fun k => ((turns.filterMap Turn.answer?)[k]?).getD default
  suffices hdrains : ∀ (turns : List (Turn E)) (l : Loop σ H) (k : ℕ), I l →
      (∀ i answer, (turns.filterMap Turn.answer?)[i]? = some answer → answers (k + i) = answer) →
      l.drainBy exec turns = some (l', r) → ∀ first, first + k = done l →
      Drains exec (fun q => answers (done q - first)) l l' r by
    refine ⟨_, hdrains turns l 0 hI (fun i answer hi => ?_) h (done l) rfl⟩
    simp only [answers, Nat.zero_add, hi, Option.getD_some]
  intro turns
  induction turns with
  | nil => exact fun l k _ _ h => by cases h
  | cons turn turns ih =>
    intro l k hI hanswers h first hfirst
    rcases drainBy_cons h with ⟨rfl, hrest⟩ | ⟨pick, e, rfl, hcases⟩
    · exact ih l k hI hanswers hrest first hfirst
    have henv : answers (done l - first) = (pick, e) := by
      rw [← hfirst, Nat.add_sub_cancel_left]
      exact hanswers 0 _ rfl
    rcases hcases with ⟨x, hone, rfl, -⟩ | ⟨hone, rfl, -⟩ | ⟨l₁, n, hone, hrest⟩
    · exact .of_error (by rw [henv]; exact hone)
    · exact .of_zero (by rw [henv]; exact hone)
    · rcases hcounts.runOne hI hone with ⟨hzero, -⟩ | ⟨-, hI', hdone⟩
      · cases hzero
      · refine .of_succ (n := n) (by rw [henv]; exact hone)
          (ih l₁ (k + 1) hI' (fun i answer hi => ?_) hrest first (by omega))
        rw [Nat.add_right_comm]
        exact hanswers (i + 1) answer hi

/-- A drain, told by its turns. -/
theorem exists_drainBy_ends {env : Loop σ H → ℕ × E} (h : Drains exec env l l' r) :
    ∃ turns, l.drainBy exec turns = some (l', r) ∧ turns.countP Turn.isGoesOn = 0 := by
  obtain ⟨fuel, h⟩ := h
  induction fuel generalizing l with
  | zero => cases h
  | succ fuel ih =>
    rw [drain] at h
    rcases hone : l.runOne exec (env l).1 (env l).2 with _ | ⟨l₁, x | _ | n⟩
    · simp [hone] at h
    · simp only [hone] at h
      exact ⟨[.ends (env l).1 (env l).2], by rw [drainBy, runTurn, hone]; exact h, rfl⟩
    · simp only [hone] at h
      exact ⟨[.ends (env l).1 (env l).2], by rw [drainBy, runTurn, hone]; exact h, rfl⟩
    · simp only [hone] at h
      obtain ⟨turns, hturns, hends⟩ := ih h
      exact ⟨.ends (env l).1 (env l).2 :: turns, by rw [drainBy, runTurn, hone]; exact hturns,
        (List.countP_cons_of_neg Bool.false_ne_true).trans hends⟩

/-- **There may be any number of operations that go on**, when any is in flight. -/
theorem exists_drainBy {env : Loop σ H → ℕ × E} (h : Drains exec env l l' r) {m : ℕ}
    (hm : m = 0 ∨ l.context.stopped = false ∧ l.context.pending ≠ []) :
    ∃ turns, l.drainBy exec turns = some (l', r) ∧ turns.countP Turn.isGoesOn = m := by
  obtain ⟨turns, hturns, hends⟩ := exists_drainBy_ends h
  rcases hm with rfl | ⟨hs, hp⟩
  · exact ⟨turns, hturns, hends⟩
  · refine ⟨List.replicate m .goesOn ++ turns, ?_, ?_⟩
    · rw [drainBy_replicate_goesOn hs hp, hturns]
    · rw [List.countP_append, List.countP_replicate, hends]
      rfl

end Loop

end EventLoop
