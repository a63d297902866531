import Mathlib.Data.List.Basic

/-!
# A list cut after every stop

`pieces` cuts a list after every value that is a stop; a nonempty rest without one is the last
piece. What was read of the first piece already is an argument, so that a reader that takes the list
in chunks, in whatever way, has the same pieces in front of it before and after a chunk
(`pieces_of_findIdx?_eq_none`, `pieces_of_findIdx?_eq_some`).
-/

namespace ObsMcp.Foundations

open List

variable {α : Type} {stop : α → Bool} {begun rest : List α}

/-- The pieces of a list, the first of which has begun. -/
def pieces (stop : α → Bool) : List α → List α → List (List α)
  | begun, [] => if begun.isEmpty then [] else [begun]
  | begun, value :: rest =>
    if stop value then (begun ++ [value]) :: pieces stop [] rest
    else pieces stop (begun ++ [value]) rest

/-- The pieces are the list. -/
theorem flatten_pieces : (pieces stop begun rest).flatten = begun ++ rest := by
  induction rest generalizing begun with
  | nil =>
    cases begun with
    | nil => rfl
    | cons value begun => simp [pieces]
  | cons value rest ih =>
    unfold pieces
    split_ifs
    · rw [flatten_cons, ih, append_assoc]
      rfl
    · rw [ih, append_assoc, singleton_append]

theorem pieces_append {first : List α} (hfirst : ∀ value ∈ first, stop value = false) :
    pieces stop begun (first ++ rest) = pieces stop (begun ++ first) rest := by
  induction first generalizing begun with
  | nil => rw [append_nil, nil_append]
  | cons value first ih =>
    obtain ⟨hvalue, hfirst⟩ := forall_mem_cons.mp hfirst
    rw [cons_append, pieces, hvalue, if_neg Bool.false_ne_true, ih hfirst, append_assoc,
      singleton_append]

variable {chunk : List α} {lines : List (List α)}

/-- A chunk without a stop goes on with the piece. -/
theorem pieces_of_findIdx?_eq_none (hnone : chunk.findIdx? stop = none) :
    pieces stop begun (chunk ++ rest) = pieces stop (begun ++ chunk) rest :=
  pieces_append fun value hvalue ↦ findIdx?_eq_none_iff.mp hnone value hvalue

/-- The first stop of a chunk ends the piece. -/
theorem pieces_of_findIdx?_eq_some {index : ℕ} (hindex : chunk.findIdx? stop = some index) :
    pieces stop begun (chunk ++ rest) =
      (begun ++ chunk.take (index + 1)) :: pieces stop [] (chunk.drop (index + 1) ++ rest) := by
  obtain ⟨hlength, hstop, hbefore⟩ := findIdx?_eq_some_iff_getElem.mp hindex
  have hfirst : ∀ value ∈ chunk.take index, stop value = false := by
    intro value hvalue
    obtain ⟨place, hplace, rfl⟩ := getElem_of_mem hvalue
    rw [getElem_take]
    simpa using hbefore place (by rw [length_take] at hplace; omega)
  have hsplit : chunk ++ rest =
      chunk.take index ++ chunk[index] :: (chunk.drop (index + 1) ++ rest) := by
    rw [← cons_append, getElem_cons_drop, ← append_assoc, take_append_drop]
  rw [hsplit, pieces_append hfirst, pieces, if_pos hstop, append_assoc,
    take_append_getElem hlength]

/-- A piece that has begun is the first one. -/
theorem pieces_of_ne_nil (hbegun : begun ≠ []) :
    ∃ more others, pieces stop begun rest = (begun ++ more) :: others := by
  induction rest generalizing begun with
  | nil => exact ⟨[], [], by simp [pieces, hbegun]⟩
  | cons value rest ih =>
    unfold pieces
    split_ifs
    · exact ⟨_, _, rfl⟩
    · have hlonger : begun ++ [value] ≠ [] := by simp
      obtain ⟨more, others, hpieces⟩ := ih hlonger
      exact ⟨value :: more, others, by rw [hpieces, append_assoc]; rfl⟩

/-- Lines that stop at their ends and nowhere else are the pieces of their text, and a rest without
a stop is one more. -/
theorem pieces_flatten
    (hlines : ∀ line ∈ lines, ∃ first last, line = first ++ [last] ∧ stop last = true ∧
      ∀ value ∈ first, stop value = false) (hrest : ∀ value ∈ rest, stop value = false) :
    pieces stop [] (lines.flatten ++ rest) = lines ++ if rest = [] then [] else [rest] := by
  induction lines with
  | nil =>
    have hone := @pieces_append α stop [] [] rest hrest
    simpa [pieces] using hone
  | cons line lines ih =>
    obtain ⟨⟨first, last, rfl, hlast, hfirst⟩, hothers⟩ := forall_mem_cons.mp hlines
    rw [flatten_cons, append_assoc, append_assoc, pieces_append hfirst,
      singleton_append, pieces, if_pos hlast, ih hothers]
    rfl

/-- A prefix of lines is some whole ones and a part of the next one. -/
theorem exists_of_prefix_flatten {text : List α} (htext : text <+: lines.flatten) :
    ∃ count rest, count ≤ lines.length ∧
      text = (lines.take count).flatten ++ rest ∧ rest <+: (lines[count]?.getD []).dropLast := by
  induction lines generalizing text with
  | nil => exact ⟨0, [], Nat.le_refl 0, by simpa using htext, nil_prefix⟩
  | cons line lines ih =>
    rw [flatten_cons] at htext
    rcases prefix_or_prefix_of_prefix (prefix_append line lines.flatten) htext with
      ⟨more, rfl⟩ | ⟨tail, htail⟩
    · obtain ⟨count, rest, hcount, rfl, hrest⟩ := ih ((prefix_append_right_inj line).mp htext)
      exact ⟨count + 1, rest, Nat.succ_le_succ hcount, by simp, by simpa using hrest⟩
    · by_cases hwhole : tail = []
      · subst hwhole
        exact ⟨1, [], by simp, by simpa using htail, nil_prefix⟩
      · refine ⟨0, text, Nat.zero_le _, rfl, ?_⟩
        rw [getElem?_cons_zero, Option.getD_some, ← htail,
          dropLast_append_of_ne_nil hwhole]
        exact prefix_append _ _

end ObsMcp.Foundations
