import Mathlib.Data.List.Basic

/-!
# Lists read from the first index that meets a test

A validator that reads a sequence of steps often looks for the first step that meets a test and then
asks something of the steps before it, of that step and of the steps after it. The lemmas below
replace the index by statements about pairs of elements: `all_drop_findIdx` and
`all_zipIdx_drop_findIdx` for the suffix that starts at the index, and `any_findIdx?` for the three
parts around it.
-/

namespace ObsMcp.Foundations

open List

variable {α : Type*} {test property : α → Bool}

/-- Everything before the first element that meets a test fails it. -/
theorem all_take_findIdx (test : α → Bool) (list : List α) :
    (list.take (list.findIdx test)).all (fun a ↦ !test a) = true := by
  induction list with
  | nil => rfl
  | cons head tail ih =>
    rw [findIdx_cons]
    by_cases hhead : test head = true
    · simp [hhead]
    · simpa [hhead] using ih

/-- From the first element that meets a test on, every element has a property: each element that
meets the test has it, and so has every element after one that meets the test. -/
theorem all_drop_findIdx (list : List α) :
    (list.drop (list.findIdx test)).all property = true ↔
      (∀ a ∈ list, test a = true → property a = true) ∧
        list.Pairwise fun a b ↦ test a = true → property b = true := by
  induction list with
  | nil => simp
  | cons head tail ih =>
    rw [findIdx_cons, pairwise_cons]
    by_cases hhead : test head = true
    · simp only [hhead, cond_true, drop_zero, all_eq_true, mem_cons,
        forall_eq_or_imp, true_implies]
      constructor
      · rintro ⟨hproperty, htail⟩
        refine ⟨⟨hproperty, fun a ha _ ↦ htail a ha⟩, htail, ?_⟩
        exact pairwise_of_forall_mem_list fun _ _ b hb _ ↦ htail b hb
      · rintro ⟨⟨hproperty, -⟩, htail, -⟩
        exact ⟨hproperty, htail⟩
    · simp only [hhead, cond_false, drop_succ_cons, ih, mem_cons, forall_eq_or_imp,
        Bool.false_eq_true, false_implies, implies_true, true_and]

/-- As `all_drop_findIdx`, where the first element that meets the test may be an exception. -/
theorem all_zipIdx_drop_findIdx (test property exception : α → Bool) (list : List α) :
    ((list.drop (list.findIdx test)).zipIdx.all fun (a, index) ↦
        property a || (index == 0 && exception a)) = true ↔
      (∀ a ∈ list, test a = true → property a = true ∨ exception a = true) ∧
        list.Pairwise fun a b ↦ test a = true → property b = true := by
  induction list with
  | nil => simp
  | cons head tail ih =>
    rw [findIdx_cons, pairwise_cons]
    by_cases hhead : test head = true
    · have htail : (∀ entry ∈ tail.zipIdx 1, (property entry.1 ||
          (entry.2 == 0 && exception entry.1)) = true) ↔ ∀ a ∈ tail, property a = true := by
        constructor
        · intro hall a ha
          obtain ⟨index, hindex, rfl⟩ := getElem_of_mem ha
          have hentry : (tail[index], 1 + index) ∈ tail.zipIdx 1 := by
            rw [mk_add_mem_zipIdx_iff_getElem?]
            simp [hindex]
          simpa [Nat.add_eq_zero_iff] using hall _ hentry
        · intro hall entry hentry
          have hmem : entry.1 ∈ tail := fst_mem_of_mem_zipIdx hentry
          simp [hall _ hmem]
      simp only [hhead, cond_true, drop_zero, zipIdx_cons, all_cons, beq_self_eq_true,
        Bool.true_and, Bool.and_eq_true, Bool.or_eq_true, all_eq_true, mem_cons,
        forall_eq_or_imp, true_implies, Nat.zero_add]
      constructor
      · rintro ⟨hproperty, hall⟩
        have hrest := htail.mp (by simpa using hall)
        refine ⟨⟨hproperty, fun a ha _ ↦ Or.inl (hrest a ha)⟩, hrest, ?_⟩
        exact pairwise_of_forall_mem_list fun _ _ b hb _ ↦ hrest b hb
      · rintro ⟨⟨hproperty, -⟩, hrest, -⟩
        exact ⟨hproperty, by simpa using htail.mpr hrest⟩
    · simp only [hhead, cond_false, drop_succ_cons, ih, mem_cons, forall_eq_or_imp,
        Bool.false_eq_true, false_implies, implies_true, true_and]

/-- The index of the first element that meets a test splits the list around that element. -/
theorem any_findIdx? (list : List α) (before here after : α → Bool) :
    ((list.findIdx? test).any fun index ↦ (list.take index).all before
        && list[index]?.any here && (list.drop (index + 1)).all after) = true ↔
      ∃ first middle last, list = first ++ middle :: last ∧ test middle = true ∧
        (∀ a ∈ first, test a = false ∧ before a = true) ∧ here middle = true ∧
          ∀ a ∈ last, after a = true := by
  induction list with
  | nil => simp
  | cons head tail ih =>
    rw [findIdx?_cons]
    by_cases hhead : test head = true
    · simp only [hhead, if_true, Option.any_some, take_zero, all_nil, Bool.true_and,
        getElem?_cons_zero, drop_succ_cons, drop_zero, Bool.and_eq_true,
        all_eq_true]
      constructor
      · rintro ⟨hhere, hafter⟩
        exact ⟨[], head, tail, rfl, hhead, by simp, hhere, hafter⟩
      · rintro ⟨first, middle, last, hlist, hmiddle, hfirst, hhere, hafter⟩
        cases first with
        | nil =>
          cases hlist
          exact ⟨hhere, hafter⟩
        | cons other rest =>
          obtain ⟨rfl, -⟩ := List.cons.inj hlist
          simp [hhead] at hfirst
    · have hstep : ((Option.map (fun index ↦ index + 1) (tail.findIdx? test)).any fun index ↦
          ((head :: tail).take index).all before && (head :: tail)[index]?.any here
            && ((head :: tail).drop (index + 1)).all after) =
          (before head && (tail.findIdx? test).any fun index ↦ (tail.take index).all before
            && tail[index]?.any here && (tail.drop (index + 1)).all after) := by
        cases tail.findIdx? test with
        | none => simp
        | some index => simp [Bool.and_assoc]
      simp only [hhead, Bool.false_eq_true, if_false, hstep, Bool.and_eq_true, ih]
      constructor
      · rintro ⟨hbefore, first, middle, last, rfl, hmiddle, hfirst, hhere, hafter⟩
        refine ⟨head :: first, middle, last, rfl, hmiddle, ?_, hhere, hafter⟩
        intro a ha
        rcases mem_cons.mp ha with rfl | ha
        · exact ⟨by simpa using hhead, hbefore⟩
        · exact hfirst a ha
      · rintro ⟨first, middle, last, hlist, hmiddle, hfirst, hhere, hafter⟩
        cases first with
        | nil =>
          cases hlist
          exact absurd hmiddle hhead
        | cons other rest =>
          cases hlist
          refine ⟨(hfirst head (by simp)).2, rest, middle, last, rfl, hmiddle, ?_, hhere, hafter⟩
          exact fun a ha ↦ hfirst a (by simp [ha])

end ObsMcp.Foundations
