import Mathlib.Data.List.Basic

/-!
# Entries and their places

What is found at a place of a list after one entry was changed, or one was added at the end.
-/

namespace ObsMcp.Foundations

open List

variable {α : Type} {entries : List α} {entry other : α} {m n : ℕ}

/-- After a change, a place holds the changed entry or what it held. -/
theorem getElem?_set_cases (hfound : (entries.set n entry)[m]? = some other) :
    (n = m ∧ entry = other) ∨ (n ≠ m ∧ entries[m]? = some other) := by
  by_cases hplace : n = m
  · subst hplace
    have hlt := (List.getElem?_eq_some_iff.mp hfound).1
    rw [length_set] at hlt
    rw [List.getElem?_set_self hlt] at hfound
    exact .inl ⟨rfl, Option.some.inj hfound⟩
  · rw [getElem?_set_ne hplace] at hfound
    exact .inr ⟨hplace, hfound⟩

/-- A place that held an entry holds the changed one. -/
theorem getElem?_set_of_some (hfound : entries[n]? = some other) :
    (entries.set n entry)[n]? = some entry :=
  List.getElem?_set_self (List.getElem?_eq_some_iff.mp hfound).1

/-- The entry at one place is changed by a function, and the others stay. -/
theorem getElem?_set_map {f : α → α} (hfound : entries[n]? = some other) (m : ℕ) :
    (entries.set n (f other))[m]? = if m = n then entries[m]?.map f else entries[m]? := by
  split_ifs with hsame
  · subst hsame
    rw [getElem?_set_of_some hfound, hfound, Option.map_some]
  · rw [getElem?_set_ne (Ne.symm hsame)]

/-- A change of one entry does not show in what is read of the entries, when it is read of both
alike. -/
theorem map_set_of_eq {β : Type} {f : α → β} (hfound : entries[n]? = some other)
    (hsame : f entry = f other) : (entries.set n entry).map f = entries.map f := by
  have hread : (entries.map f)[n]? = some (f entry) := by
    rw [List.getElem?_map, hfound, Option.map_some, hsame]
  obtain ⟨hlt, heq⟩ := List.getElem?_eq_some_iff.mp hread
  rw [List.map_set, ← heq, List.set_getElem_self]

/-- A longer list holds what it held. -/
theorem getElem?_append_of_some {more : List α} (hfound : entries[n]? = some entry) :
    (entries ++ more)[n]? = some entry := by
  rw [List.getElem?_append_left (List.getElem?_eq_some_iff.mp hfound).1, hfound]

/-- A longer list holds what it held, and the new entry at the end. -/
theorem getElem?_concat_cases (hfound : (entries ++ [entry])[n]? = some other) :
    entries[n]? = some other ∨ (n = entries.length ∧ other = entry) := by
  by_cases hlt : n < entries.length
  · exact .inl (List.getElem?_append_left hlt ▸ hfound)
  · rw [List.getElem?_append_right (Nat.le_of_not_lt hlt)] at hfound
    have hlast := (List.getElem?_eq_some_iff.mp hfound).1
    rw [List.length_singleton] at hlast
    exact .inr ⟨by omega, mem_singleton.mp (mem_of_getElem? hfound)⟩

end ObsMcp.Foundations
