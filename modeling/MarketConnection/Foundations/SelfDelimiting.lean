import Mathlib.Data.List.Basic

/-!
# Foundations/SelfDelimiting — texts that tell what was written

A way to write is a relation `R`: `R a w` when the text `w` may be written for `a`.  It `Tells` when
a text in front of any other determines what it was written for and where it ends.  Some ways do so
only in front of certain texts, hence the parameter `F`: an optional part must not be mistaken for
what follows it.

Ways that tell are composed: fixed texts around (`Tells.framed`), a string up to a mark
(`tells_ended`), one text after another (`Tells.both`), a part that may be missing
(`Tells.perhaps`), a list of known length (`Tells.each_of_length`), another description of the same
thing (`Tells.via`).  A whole text that was written in this way for a list then tells the list
(`Tells.each`).
-/

namespace SelfDelimiting

variable {χ α β γ : Type*} {F G : List χ → Prop} {R : α → List χ → Prop}

/-- **A text tells what it was written for, and where it ends**, when `F` holds of what follows. -/
def Tells (F : List χ → Prop) (R : α → List χ → Prop) : Prop :=
  ∀ ⦃a a' w w' t t'⦄, R a w → R a' w' → F t → F t' → w ++ t = w' ++ t' → a = a' ∧ t = t'

/-! ## Ways to write -/

/-- As `R`, between the texts `front` and `back`. -/
def Framed (front back : List χ) (R : α → List χ → Prop) (a : α) (w : List χ) : Prop :=
  ∃ v, R a v ∧ w = front ++ v ++ back

/-- A string without the mark `c`, the mark, and the text `back`. -/
def Ended (c : χ) (back s w : List χ) : Prop := c ∉ s ∧ w = s ++ c :: back

/-- The first as `R`, and then the second in a way that depends on the first. -/
def Both (R : α → List χ → Prop) (S : α → β → List χ → Prop) (q : α × β) (w : List χ) : Prop :=
  ∃ u v, R q.1 u ∧ S q.1 q.2 v ∧ w = u ++ v

/-- What there is, as `R`. -/
def Perhaps (R : α → List χ → Prop) : Option α → List χ → Prop
  | none, w => w = []
  | some a, w => R a w

/-- The members of a list, one after the other. -/
def Each (R : α → List χ → Prop) : List α → List χ → Prop
  | [], w => w = []
  | a :: as, w => ∃ u v, R a u ∧ Each R as v ∧ w = u ++ v

/-- As one of those that `Q` relates it to. -/
def Via (Q : γ → α → Prop) (R : α → List χ → Prop) (c : γ) (w : List χ) : Prop :=
  ∃ a, Q c a ∧ R a w

/-! ## How telling composes -/

theorem Tells.framed (front back : List χ) (h : Tells F R) (hfollow : ∀ t, G t → F (back ++ t)) :
    Tells G (Framed front back R) := by
  rintro a a' _ _ t t' ⟨v, hv, rfl⟩ ⟨v', hv', rfl⟩ ht ht' heq
  simp only [List.append_assoc] at heq
  obtain ⟨hsame, hrest⟩ := h hv hv' (hfollow t ht) (hfollow t' ht') (List.append_cancel_left heq)
  exact ⟨hsame, List.append_cancel_left hrest⟩

/-- What stands before the first mark, and after it. -/
theorem append_mark_inj {c : χ} {s s' t t' : List χ} (hs : c ∉ s) (hs' : c ∉ s')
    (heq : s ++ c :: t = s' ++ c :: t') : s = s' ∧ t = t' := by
  rcases List.append_eq_append_iff.mp heq with ⟨u, rfl, hu⟩ | ⟨u, rfl, hu⟩
  · rcases List.cons_eq_append_iff.mp hu with ⟨rfl, hrest⟩ | ⟨v, rfl, -⟩
    · exact ⟨(List.append_nil s).symm, (List.cons.inj hrest).2.symm⟩
    · exact absurd (List.mem_append_right s (List.mem_cons_self)) hs'
  · rcases List.cons_eq_append_iff.mp hu with ⟨rfl, hrest⟩ | ⟨v, rfl, -⟩
    · exact ⟨List.append_nil s', (List.cons.inj hrest).2⟩
    · exact absurd (List.mem_append_right s' (List.mem_cons_self)) hs

theorem tells_ended (c : χ) (back : List χ) : Tells F (Ended c back) := by
  rintro s s' _ _ t t' ⟨hs, rfl⟩ ⟨hs', rfl⟩ - - heq
  rw [List.append_assoc, List.append_assoc, List.cons_append, List.cons_append] at heq
  obtain ⟨rfl, hrest⟩ := append_mark_inj hs hs' heq
  exact ⟨rfl, List.append_cancel_left hrest⟩

theorem Tells.both {S : α → β → List χ → Prop} (hR : Tells F R) (hS : ∀ a, Tells G (S a))
    (hfollow : ∀ a b v t, S a b v → G t → F (v ++ t)) : Tells G (Both R S) := by
  rintro ⟨a, b⟩ ⟨a', b'⟩ _ _ t t' ⟨u, v, hu, hv, rfl⟩ ⟨u', v', hu', hv', rfl⟩ ht ht' heq
  rw [List.append_assoc, List.append_assoc] at heq
  obtain ⟨hfirst, hrest⟩ := hR hu hu' (hfollow _ _ _ _ hv ht) (hfollow _ _ _ _ hv' ht') heq
  obtain rfl : a = a' := hfirst
  obtain ⟨hsecond, hend⟩ := hS a hv hv' ht ht' hrest
  exact ⟨Prod.ext rfl hsecond, hend⟩

/-- A part that may be missing tells when its texts do not begin what may follow. -/
theorem Tells.perhaps (h : Tells F R) (hfollow : ∀ a w t, R a w → ¬ F (w ++ t)) :
    Tells F (Perhaps R) := by
  rintro (_ | a) (_ | a') w w' t t' hw hw' ht ht' heq
  · obtain rfl : w = [] := hw
    obtain rfl : w' = [] := hw'
    exact ⟨rfl, heq⟩
  · obtain rfl : w = [] := hw
    exact absurd (heq ▸ ht : F (w' ++ t')) (hfollow a' w' t' hw')
  · obtain rfl : w' = [] := hw'
    exact absurd (heq ▸ ht' : F (w ++ t)) (hfollow a w t hw)
  · obtain ⟨rfl, hend⟩ := h hw hw' ht ht' heq
    exact ⟨rfl, hend⟩

theorem Tells.via {Q : γ → α → Prop} (h : Tells F R) (hQ : ∀ c c' a, Q c a → Q c' a → c = c') :
    Tells F (Via Q R) := by
  rintro c c' w w' t t' ⟨a, ha, hw⟩ ⟨a', ha', hw'⟩ ht ht' heq
  obtain ⟨rfl, hend⟩ := h hw hw' ht ht' heq
  exact ⟨hQ c c' a ha ha', hend⟩

/-- Lists of the same length, whatever follows. -/
theorem Tells.each_eq (h : Tells (fun _ => True) R) {as as' : List α} {w w' t t' : List χ}
    (hlength : as.length = as'.length) (hw : Each R as w) (hw' : Each R as' w')
    (heq : w ++ t = w' ++ t') : as = as' ∧ t = t' := by
  induction as generalizing as' w w' with
  | nil =>
    obtain rfl := List.length_eq_zero_iff.mp hlength.symm
    obtain rfl : w = [] := hw
    obtain rfl : w' = [] := hw'
    exact ⟨rfl, heq⟩
  | cons a as ih =>
    obtain ⟨a', as', rfl⟩ := List.exists_cons_of_length_eq_add_one hlength.symm
    obtain ⟨u, v, hu, hv, rfl⟩ := hw
    obtain ⟨u', v', hu', hv', rfl⟩ := hw'
    rw [List.append_assoc, List.append_assoc] at heq
    obtain ⟨rfl, hrest⟩ := h hu hu' trivial trivial heq
    obtain ⟨rfl, hend⟩ := ih (Nat.succ.inj hlength) hv hv' hrest
    exact ⟨rfl, hend⟩

/-- **Lists of a known length tell.** -/
theorem Tells.each_of_length (h : Tells (fun _ => True) R) {P : ℕ → Prop}
    (hP : ∀ m n, P m → P n → m = n) : Tells F fun as w => P as.length ∧ Each R as w :=
  fun _ _ _ _ _ _ hw hw' _ _ heq => h.each_eq (hP _ _ hw.1 hw'.1) hw.2 hw'.2 heq

/-- Texts written one after the other, for what `g` makes of the members of a list. -/
theorem each_flatMap {f : β → List χ} {g : β → α} {bs : List β} (h : ∀ b ∈ bs, R (g b) (f b)) :
    Each R (bs.map g) (bs.flatMap f) := by
  induction bs with
  | nil => rfl
  | cons b bs ih =>
    exact ⟨f b, bs.flatMap f, h b (.head _), ih fun b' hb' => h b' (.tail _ hb'), rfl⟩

/-- What was written for a list may follow. -/
theorem each_follows (hnil : F []) (hfollow : ∀ a w t, R a w → F (w ++ t)) {as : List α}
    {w : List χ} (hw : Each R as w) : F w := by
  rcases as with _ | ⟨a, as⟩
  · obtain rfl : w = [] := hw
    exact hnil
  · obtain ⟨u, v, hu, -, rfl⟩ := hw
    exact hfollow a u v hu

/-- **A whole text tells the list it was written for.** -/
theorem Tells.each (h : Tells F R) (hnil : F []) (hfollow : ∀ a w t, R a w → F (w ++ t))
    (hne : ∀ a, ¬ R a []) {as as' : List α} {w : List χ} (hw : Each R as w) (hw' : Each R as' w) :
    as = as' := by
  induction as generalizing as' w with
  | nil =>
    obtain rfl : w = [] := hw
    rcases as' with _ | ⟨a', as'⟩
    · rfl
    · obtain ⟨u, v, hu, -, heq⟩ := hw'
      obtain ⟨rfl, -⟩ := List.append_eq_nil_iff.mp heq.symm
      exact absurd hu (hne a')
  | cons a as ih =>
    obtain ⟨u, v, hu, hv, rfl⟩ := hw
    rcases as' with _ | ⟨a', as'⟩
    · obtain ⟨rfl, -⟩ := List.append_eq_nil_iff.mp hw'
      exact absurd hu (hne a)
    · obtain ⟨u', v', hu', hv', heq⟩ := hw'
      obtain ⟨rfl, rfl⟩ := h hu hu' (each_follows hnil hfollow hv) (each_follows hnil hfollow hv')
        heq
      rw [ih hv hv']

end SelfDelimiting
