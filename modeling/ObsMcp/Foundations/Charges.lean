import Mathlib.Algebra.BigOperators.Group.List.Basic
import Mathlib.Tactic.Ring

/-!
# Charges of the entries of a list

A budget that is shared by the entries of a list is accounted for by the sum of their charges. The
lemmas below say how the sum changes when one entry is replaced or removed.
-/

namespace ObsMcp.Foundations

open List

variable {α : Type*} (charge : α → ℕ) {entries : List α} {i : ℕ} {old : α}

theorem sum_eraseIdx (hold : entries[i]? = some old) :
    (entries.map charge).sum = ((entries.eraseIdx i).map charge).sum + charge old := by
  obtain ⟨hi, rfl⟩ := List.getElem?_eq_some_iff.mp hold
  rw [← ((getElem_cons_eraseIdx_perm hi).map charge).sum_eq, map_cons, sum_cons, Nat.add_comm]

theorem sum_set (entry : α) (hold : entries[i]? = some old) :
    ((entries.set i entry).map charge).sum + charge old =
      (entries.map charge).sum + charge entry := by
  have hnew : (entries.set i entry)[i]? = some entry :=
    getElem?_set_self (List.getElem?_eq_some_iff.mp hold).1
  rw [sum_eraseIdx charge hnew, eraseIdx_set_eq, sum_eraseIdx charge hold, Nat.add_right_comm]

/-- An entry that keeps its charge keeps the sum. -/
theorem sum_set_of_eq {entry : α} (hold : entries[i]? = some old)
    (hcharge : charge entry = charge old) :
    ((entries.set i entry).map charge).sum = (entries.map charge).sum := by
  have := sum_set charge entry hold
  omega

end ObsMcp.Foundations
