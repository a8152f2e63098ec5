import Mathlib.Data.List.FinRange
import Mathlib.Data.Fintype.Perm
import Mathlib.Logic.Equiv.Basic

/-!
# Foundations/Unsequenced — effects evaluated in an order the language leaves open

The arguments of a call are evaluated one after the other, but in any order.  An `Order` is that
order, step ↦ argument, and `forEach` runs an effect at every argument along it.  Two kinds of
effect cover what programs do there:

* appending to a shared text — the segments come out permuted (`forEach_append`);
* each argument assigning its own cell — the order cannot be seen (`forEach_assign`), except by
  which of several failures is thrown (`exists_forEach_assign_error_iff`).
-/

namespace Unsequenced

variable {n : ℕ}

/-- An evaluation order of `n` arguments: the argument evaluated at each step. -/
abbrev Order (n : ℕ) := Equiv.Perm (Fin n)

/-- The arguments, as they are evaluated. -/
def visits (σ : Order n) : List (Fin n) := (List.finRange n).map σ

theorem visits_perm (σ : Order n) : (visits σ).Perm (List.finRange n) :=
  σ.map_finRange_perm

@[simp] theorem mem_visits (σ : Order n) (i : Fin n) : i ∈ visits σ :=
  (visits_perm σ).mem_iff.mpr (List.mem_finRange i)

/-- The arguments as they are written. -/
theorem visits_one : visits (1 : Order n) = List.finRange n := List.map_id _

/-- Any argument may be the first. -/
theorem exists_visits_eq_cons (i : Fin n) : ∃ (σ : Order n) (l : List (Fin n)),
    visits σ = i :: l := by
  rcases n with _ | n
  · exact i.elim0
  · refine ⟨Equiv.swap 0 i, (List.finRange n).map fun j => Equiv.swap 0 i j.succ, ?_⟩
    rw [visits, List.finRange_succ, List.map_cons, Equiv.swap_apply_left, List.map_map]
    rfl

/-- **Run `f` at every argument, in the order `σ`.** -/
def forEach {m : Type → Type*} [Monad m] (σ : Order n) (f : Fin n → m PUnit) : m PUnit :=
  (visits σ).forM f

/-! ## Appending to a shared text -/

section Append

variable {α : Type}

/-- The effect that appends each argument's text. -/
def append (text : Fin n → List α) (i : Fin n) : StateM (List α) PUnit := modify (· ++ text i)

theorem forM_append (text : Fin n → List α) :
    ∀ (l : List (Fin n)) (s : List α), (l.forM (append text)).run s = ((), s ++ l.flatMap text)
  | [], s => by rw [List.flatMap_nil, List.append_nil]; rfl
  | i :: l, s => by
      have ih := forM_append text l (s ++ text i)
      rw [List.flatMap_cons, ← List.append_assoc, ← ih]
      rfl

/-- **The segments are appended in the order of the visits.** -/
theorem forEach_append (σ : Order n) (text : Fin n → List α) (s : List α) :
    (forEach σ (append text)).run s = ((), s ++ (visits σ).flatMap text) :=
  forM_append text (visits σ) s

end Append

/-! ## Every argument assigning its own cell -/

section Assign

variable {ε : Type} {β : Fin n → Type}

/-- The effect that reads a value for each argument and stores it in that argument's cell. -/
def assign (read : (i : Fin n) → Except ε (β i)) (i : Fin n) :
    StateT ((i : Fin n) → Option (β i)) (Except ε) PUnit := do
  let v ← read i
  modify fun cells => Function.update cells i (some v)

theorem forM_assign_cons_ok {read : (i : Fin n) → Except ε (β i)} {i : Fin n} {v : β i}
    (h : read i = .ok v) (l : List (Fin n)) (s : (i : Fin n) → Option (β i)) :
    ((i :: l).forM (assign read)).run s
      = (l.forM (assign read)).run (Function.update s i (some v)) := by
  simp only [assign, List.forM_eq_forM, List.forM_cons, StateT.run_bind, h]
  rfl

theorem forM_assign_cons_error {read : (i : Fin n) → Except ε (β i)} {i : Fin n} {e : ε}
    (h : read i = .error e) (l : List (Fin n)) (s : (i : Fin n) → Option (β i)) :
    ((i :: l).forM (assign read)).run s = .error e := by
  simp only [assign, List.forM_eq_forM, List.forM_cons, StateT.run_bind, h]
  rfl

/-- The cells after the arguments of `l` have stored `v`. -/
theorem forM_assign_ok {read : (i : Fin n) → Except ε (β i)} {v : (i : Fin n) → β i}
    (h : ∀ i, read i = .ok (v i)) :
    ∀ (l : List (Fin n)) (s : (i : Fin n) → Option (β i)),
      (l.forM (assign read)).run s = .ok ((), fun i => if i ∈ l then some (v i) else s i)
  | [], s => by simp only [List.not_mem_nil, if_false]; rfl
  | i :: l, s => by
      have ih := forM_assign_ok h l (Function.update s i (some (v i)))
      rw [forM_assign_cons_ok (h i), ih]
      refine congrArg (fun c => Except.ok ((), c)) (funext fun j => ?_)
      by_cases hl : j ∈ l
      · simp [hl]
      · by_cases hj : j = i
        · subst hj; simp [hl]
        · simp [hl, hj]

/-- A visit that fails throws, and the first to fail is one of the arguments visited. -/
theorem forM_assign_error {read : (i : Fin n) → Except ε (β i)} :
    ∀ (l : List (Fin n)) (s : (i : Fin n) → Option (β i)), (∃ i ∈ l, ∃ e, read i = .error e) →
      ∃ i ∈ l, ∃ e, read i = .error e ∧ (l.forM (assign read)).run s = .error e
  | [], _, h => by simp at h
  | i :: l, s, h => by
      cases hi : read i with
      | error e => exact ⟨i, List.mem_cons_self, e, hi, forM_assign_cons_error hi l s⟩
      | ok v =>
        have hl : ∃ j ∈ l, ∃ e, read j = .error e := by
          obtain ⟨j, hj, e, he⟩ := h
          rcases List.mem_cons.mp hj with rfl | hj
          · exact absurd (hi.symm.trans he) (by simp)
          · exact ⟨j, hj, e, he⟩
        obtain ⟨j, hj, e, he, hrun⟩ := forM_assign_error l (Function.update s i (some v)) hl
        exact ⟨j, List.mem_cons_of_mem _ hj, e, he, (forM_assign_cons_ok hi l s).trans hrun⟩

/-- **When every read succeeds, the order cannot be seen.** -/
theorem forEach_assign {read : (i : Fin n) → Except ε (β i)} {v : (i : Fin n) → β i}
    (h : ∀ i, read i = .ok (v i)) (σ : Order n) (s : (i : Fin n) → Option (β i)) :
    (forEach σ (assign read)).run s = .ok ((), fun i => some (v i)) := by
  rw [forEach, forM_assign_ok h]
  simp

/-- **When some read fails, every order throws** — though not the same exception. -/
theorem forEach_assign_error {read : (i : Fin n) → Except ε (β i)} (σ : Order n)
    (s : (i : Fin n) → Option (β i)) (h : ∃ i e, read i = .error e) :
    ∃ i e, read i = .error e ∧ (forEach σ (assign read)).run s = .error e := by
  obtain ⟨i, e, he⟩ := h
  obtain ⟨j, -, e', he', hrun⟩ := forM_assign_error (visits σ) s ⟨i, mem_visits σ i, e, he⟩
  exact ⟨j, e', he', hrun⟩

/-- **Every read that fails is the first to fail in some order**, and no other exception is
thrown. -/
theorem exists_forEach_assign_error_iff {read : (i : Fin n) → Except ε (β i)}
    {s : (i : Fin n) → Option (β i)} {e : ε} :
    (∃ σ : Order n, (forEach σ (assign read)).run s = .error e) ↔ ∃ i, read i = .error e := by
  constructor
  · rintro ⟨σ, hrun⟩
    by_cases hfails : ∃ i e', read i = .error e'
    · obtain ⟨i, e', hi, hrun'⟩ := forEach_assign_error σ s hfails
      obtain rfl := Except.error.inj (hrun'.symm.trans hrun)
      exact ⟨i, hi⟩
    · have hok : ∀ i, ∃ v, read i = .ok v := fun i => by
        rcases hi : read i with e' | v
        · exact absurd ⟨i, e', hi⟩ hfails
        · exact ⟨v, rfl⟩
      choose v hv using hok
      cases (forEach_assign hv σ s).symm.trans hrun
  · rintro ⟨i, hi⟩
    obtain ⟨σ, l, hvisits⟩ := exists_visits_eq_cons i
    exact ⟨σ, by rw [forEach, hvisits]; exact forM_assign_cons_error hi l s⟩

end Assign

end Unsequenced
