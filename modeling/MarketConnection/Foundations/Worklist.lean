import Mathlib.Data.Multiset.AddSub
import Mathlib.Data.Multiset.ZeroCons

/-!
# Foundations/Worklist — the order in which a worklist is worked off

A worklist is a multiset of items, and to work one of them off puts its `kids` in its place.
`WorkedOff kids W as` says that the list `as` is an order in which `W` and all that comes of it can
be worked off.

Items do not interfere: an item that waits may as well be taken first (`WorkedOff.first`).  So **two
orders in which a worklist is worked off have the same items** (`WorkedOff.perm`), and whoever takes
any item that waits, again and again, comes to the end if anyone does.
-/

namespace Worklist

variable {α : Type*} {kids : α → Multiset α}

/-- **A worklist is worked off**, item by item. -/
inductive WorkedOff (kids : α → Multiset α) : Multiset α → List α → Prop
  | nil : WorkedOff kids 0 []
  | cons {a : α} {W : Multiset α} {as : List α} (h : WorkedOff kids (kids a + W) as) :
      WorkedOff kids (a ::ₘ W) (a :: as)

/-- An item that waits may be taken first. -/
theorem WorkedOff.first {a : α} {W : Multiset α} {as : List α}
    (h : WorkedOff kids (a ::ₘ W) as) :
    ∃ as', as.Perm (a :: as') ∧ WorkedOff kids (kids a + W) as' := by
  generalize hV : a ::ₘ W = V at h
  induction h generalizing W with
  | nil => exact absurd hV (Multiset.cons_ne_zero)
  | @cons b U bs h ih =>
    rcases Multiset.cons_eq_cons.mp hV with ⟨rfl, rfl⟩ | ⟨-, V', rfl, rfl⟩
    · exact ⟨bs, .refl _, h⟩
    · -- the item waits while `b` is worked off
      obtain ⟨bs', hperm, hrest⟩ := ih (W := kids b + V') (Multiset.add_cons _ _ _).symm
      refine ⟨b :: bs', (hperm.cons b).trans (.swap a b bs'), ?_⟩
      rw [Multiset.add_cons]
      refine .cons ?_
      rwa [← Multiset.add_assoc, Multiset.add_comm (kids b), Multiset.add_assoc]

/-- **Two orders have the same items.** -/
theorem WorkedOff.perm {W : Multiset α} {as as' : List α} (h : WorkedOff kids W as)
    (h' : WorkedOff kids W as') : as.Perm as' := by
  induction h generalizing as' with
  | nil =>
    generalize hV : (0 : Multiset α) = V at h'
    rcases h' with _ | h'
    · exact .refl _
    · exact absurd hV.symm Multiset.cons_ne_zero
  | cons _ ih =>
    obtain ⟨as₁, hperm, hrest⟩ := h'.first
    exact ((ih hrest).cons _).trans hperm.symm

end Worklist
