import MarketConnection.Foundations.EventLoop

/-!
# Foundations/Resumption — calling a drain again after an exception

An exception leaves a drain with the rest of its work pending, and the drain may be called again,
in another environment.  If each state *owes* exceptions — a handler that returns keeps what is
owed, one that throws takes its own exception out of it, and an idle state owes nothing — then a
drain that throws pays one of them, and a drain only returns when nothing is owed.

So **the exceptions that repeated calls throw are exactly those owed at the start**, in some order,
and the call after the last of them returns (`Redrains.pays`); when every drain ends, the calls can
be made (`exists_redrains`).
-/

namespace EventLoop

variable {σ H E X : Type*}

/-! ## Contexts that stop late -/

/-- The context has not stopped on pending work. -/
def Context.Tidy (c : Context H) : Prop := c.stopped = true → c.pending = []

theorem Context.Tidy.of_live {c : Context H} (hlive : c.stopped = false) : c.Tidy := fun hs =>
  absurd (hlive.symm.trans hs) Bool.false_ne_true

namespace Loop

variable {exec : E → H → σ → Effect σ H X}

/-- On a counted context the flag rises with the last operation, so a handler leaves it tidy. -/
theorem tidy_settle {l : Loop σ H} {i : ℕ} {h : H} (hc : l.context.Counted) (hr : l.Runs i h)
    (eff : Effect σ H X) : (l.settle i eff).context.Tidy :=
  (stopped_settle hc hr.live hr.lt eff).mp

/-! ## Repeated calls -/

variable (exec) in
/-- **The drain is called again and again**, each time in an environment that is `Allowed`, however
the call before was left; `rs` says how each was. -/
inductive Redrains (Allowed : (Loop σ H → ℕ × E) → Prop) :
    Loop σ H → List (Except X Unit) → Loop σ H → Prop
  | refl {l : Loop σ H} : Redrains Allowed l [] l
  | cons {env : Loop σ H → ℕ × E} {l l₁ l' : Loop σ H} {r : Except X Unit}
      {rs : List (Except X Unit)} (henv : Allowed env) (h : Drains exec env l l₁ r)
      (t : Redrains Allowed l₁ rs l') : Redrains Allowed l (r :: rs) l'

/-- **What a state owes**: `owed` is paid by the handlers that throw, and by no other. -/
structure Owes (exec : E → H → σ → Effect σ H X) (Allowed : (Loop σ H → ℕ × E) → Prop)
    (I : Loop σ H → Prop) (owed : Loop σ H → List X) : Prop where
  counted : ∀ l, I l → l.context.Counted
  stop : ∀ l, I l → I { l with context := l.context.stop }
  idle : ∀ l, I l → l.context.pending = [] → owed l = []
  settle : ∀ env, Allowed env → ∀ l f, I l → l.Runs (l.choice (env l).1) f →
    I (l.settle (l.choice (env l).1) (exec (env l).2 f l.state)) ∧
      (owed l).Perm ((exec (env l).2 f l.state).thrown.toList
        ++ owed (l.settle (l.choice (env l).1) (exec (env l).2 f l.state)))

variable {Allowed : (Loop σ H → ℕ × E) → Prop} {I : Loop σ H → Prop} {owed : Loop σ H → List X}
  {env : Loop σ H → ℕ × E} {l l' : Loop σ H}

namespace Owes

/-- A state without pending operations owes nothing, stopped or not. -/
theorem stop_eq (ho : Owes exec Allowed I owed) (hI : I l) (hp : l.context.pending = []) :
    owed { l with context := l.context.stop } = owed l := by
  rw [ho.idle _ hI hp, ho.idle _ (ho.stop l hI) hp]

/-- **One call**: it returns and nothing was owed, or it pays one exception of those owed. -/
theorem drains (ho : Owes exec Allowed I owed) (henv : Allowed env) {r : Except X Unit}
    (h : Drains exec env l l' r) (hI : I l) (htidy : l.context.Tidy) :
    I l' ∧ l'.context.Tidy ∧ (r = .ok () ∧ owed l = [] ∧ l'.context.pending = [] ∨
      ∃ x, r = .error x ∧ (owed l).Perm (x :: owed l')) := by
  have hinv := h.invariant (I := fun q => I q ∧ q.context.Tidy ∧ (owed l).Perm (owed q))
    (fun q hq _ hw => ?_) (fun q f hq hr ht => ?_) ⟨hI, htidy, .refl _⟩
  · rcases hinv with ⟨rfl, hI', htidy', hperm⟩ | ⟨q, f, x, rfl, ⟨hq, -, hperm⟩, hr, ht, rfl⟩
    · have hpending : l'.context.pending = [] := htidy' (h.stopped_of_ok (ho.counted l hI)).1
      rw [ho.idle l' hI' hpending] at hperm
      exact ⟨hI', htidy', .inl ⟨rfl, hperm.eq_nil, hpending⟩⟩
    · obtain ⟨hI', hpaid⟩ := ho.settle env henv q f hq hr
      rw [ht] at hpaid
      exact ⟨hI', tidy_settle (ho.counted q hq) hr _, .inr ⟨x, rfl, hperm.trans hpaid⟩⟩
  · -- the idle context stops: nothing is pending in it
    obtain ⟨hIq, -, hperm⟩ := hq
    have hpending : q.context.pending = [] :=
      List.length_eq_zero_iff.mp ((ho.counted q hIq).symm.trans hw)
    exact ⟨ho.stop q hIq, fun _ => hpending, hperm.trans (.of_eq (ho.stop_eq hIq hpending).symm)⟩
  · obtain ⟨hIq, -, hperm⟩ := hq
    obtain ⟨hI', hpaid⟩ := ho.settle env henv q f hIq hr
    rw [ht] at hpaid
    exact ⟨hI', tidy_settle (ho.counted q hIq) hr _, hperm.trans hpaid⟩

end Owes

/-- **Repeated calls throw exactly what is owed**, each exception once and in some order; the call
after the last of them returns, and leaves nothing pending. -/
theorem Redrains.pays (ho : Owes exec Allowed I owed) {rs : List (Except X Unit)}
    (h : Redrains exec Allowed l rs l') (hI : I l) (htidy : l.context.Tidy)
    (hlength : rs.length = (owed l).length + 1) :
    I l' ∧ l'.context.pending = [] ∧
      ∃ xs : List X, xs.Perm (owed l) ∧ rs = xs.map .error ++ [.ok ()] := by
  induction h with
  | refl => cases hlength
  | @cons env l l₁ l' r rs henv hd t ih =>
    obtain ⟨hI₁, htidy₁, ⟨rfl, howed, hpending⟩ | ⟨x, rfl, hpaid⟩⟩ := ho.drains henv hd hI htidy
    · rw [howed] at hlength
      obtain rfl := List.length_eq_zero_iff.mp (Nat.succ.inj hlength)
      cases t
      exact ⟨hI₁, hpending, [], howed ▸ .refl _, rfl⟩
    · have hlen := hpaid.length_eq
      rw [List.length_cons] at hlength hlen
      obtain ⟨hI', hpending, xs, hxs, rfl⟩ := ih hI₁ htidy₁ (by omega)
      exact ⟨hI', hpending, x :: xs, (hxs.cons x).trans hpaid.symm, rfl⟩

/-- **The calls can be made**, when every drain ends. -/
theorem exists_redrains (ho : Owes exec Allowed I owed) (henv : Allowed env)
    (hends : ∀ l, I l → ∃ l' r, Drains exec env l l' r) (hI : I l) (htidy : l.context.Tidy)
    (n : ℕ) : ∃ rs l', rs.length = n ∧ Redrains exec Allowed l rs l' := by
  induction n generalizing l with
  | zero => exact ⟨[], l, rfl, .refl⟩
  | succ n ih =>
    obtain ⟨l₁, r, hd⟩ := hends l hI
    obtain ⟨hI₁, htidy₁, -⟩ := ho.drains henv hd hI htidy
    obtain ⟨rs, l', rfl, hrs⟩ := ih hI₁ htidy₁
    exact ⟨r :: rs, l', rfl, .cons henv hd hrs⟩

end Loop

end EventLoop
