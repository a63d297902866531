import ObsMcp.Foundations.Reorder

/-!
# Moving several values in turn to one index

A move to the index of a value puts the moved value in its place, and the other one goes to the side
the moved value came from (`moveTo_of_mem_left`, `moveTo_of_mem_right`). So when several values are
moved in turn to the same index, each of them ends on the side of which the next one is taken
(`foldl_moveTo_same`): the ones left behind come in their order, and the ones pushed on come in the
opposite order.

With a name for each value, `suffix_foldl_moveTo_iff` says when the list ends with the names of the
moved values all the same.
-/

namespace ObsMcp.Foundations

open List

section Gather

variable {α : Type} [DecidableEq α] {left right rest : List α} {value next : α}

variable {values : List α} {β : Type}

theorem filter_not_mem_cons (values : List α) : values.filter (· ∉ next :: rest) =
    (values.filter (· ≠ next)).filter (· ∉ rest) := by
  rw [filter_filter]
  refine filter_congr fun other _ ↦ ?_
  rw [← Bool.decide_and]
  exact decide_eq_decide.mpr (by rw [mem_cons, not_or, and_comm])

/-- A move splits the other values at its index. -/
theorem moveTo_eq_append (hdistinct : values.Nodup) (hmem : value ∈ values) (index : ℕ)
    (hindex : index < values.length) : ∃ left right,
      moveTo values value index = left ++ value :: right ∧ left.length = index ∧
        right = (values.filter (· ≠ value)).drop index := by
  refine ⟨(values.filter (· ≠ value)).take index, _, if_pos hmem, ?_, rfl⟩
  have hlength := length_filter_ne_of_mem hdistinct hmem
  rw [length_take]
  omega

/-- A value from the left pushes the one at the index to the left. -/
theorem moveTo_of_mem_left (hdistinct : (left ++ value :: right).Nodup) (hnext : next ∈ left) :
    moveTo (left ++ value :: right) next left.length =
      left.filter (· ≠ next) ++ [value] ++ next :: right := by
  obtain ⟨hleft, -, hapart⟩ := nodup_append.mp hdistinct
  have hafter : next ∉ value :: right := fun hmem ↦ hapart next hnext next hmem rfl
  have hfilter : (left ++ value :: right).filter (· ≠ next) =
      (left.filter (· ≠ next) ++ [value]) ++ right := by
    rw [filter_append, filter_ne_of_not_mem hafter, append_assoc, singleton_append]
  have hlength : left.length = (left.filter (· ≠ next) ++ [value]).length := by
    rw [length_append, length_singleton, length_filter_ne_of_mem hleft hnext]
  unfold moveTo
  rw [if_pos (mem_append_left _ hnext), hfilter, hlength, take_left, drop_left]

/-- A value from the right pushes the one at the index to the right. -/
theorem moveTo_of_mem_right (hdistinct : (left ++ value :: right).Nodup) (hnext : next ∈ right) :
    moveTo (left ++ value :: right) next left.length =
      left ++ next :: value :: right.filter (· ≠ next) := by
  obtain ⟨-, hright, hapart⟩ := nodup_append.mp hdistinct
  have hleft : next ∉ left := fun hmem ↦
    hapart next hmem next (mem_cons_of_mem value hnext) rfl
  have hvalue : value ≠ next := by
    rintro rfl
    exact (nodup_cons.mp hright).1 hnext
  have hfilter : (value :: right).filter (· ≠ next) = value :: right.filter (· ≠ next) :=
    filter_cons_of_pos (decide_eq_true hvalue)
  rw [moveTo_append hleft (mem_cons_of_mem value hnext), hfilter]

/-- Each moved value with the one that is moved after it. -/
def handovers (value : α) (rest : List α) : List (α × α) :=
  (value :: rest).zip rest

/-- Moving values in turn to the index of a value. Each of them ends on the side of which the next
one is taken. Assumes: distinct values. -/
theorem foldl_moveTo_same (hdistinct : (left ++ value :: right).Nodup)
    (hrest : (value :: rest).Nodup)
    (hmem : ∀ next ∈ rest, next ∈ left ++ right) :
    rest.foldl (fun values next ↦ moveTo values next left.length) (left ++ value :: right) =
      left.filter (· ∉ rest) ++ ((handovers value rest).filter (·.2 ∉ right)).map Prod.fst ++
        (value :: rest).getLast (cons_ne_nil _ _) ::
          ((((handovers value rest).filter (·.2 ∈ right)).map Prod.fst).reverse ++
            right.filter (· ∉ rest)) := by
  induction rest generalizing left value right with
  | nil => simp [handovers]
  | cons next rest ih =>
    obtain ⟨hvalue, hrest⟩ := nodup_cons.mp hrest
    have hvalues : value ∉ rest := fun hmem ↦ hvalue (mem_cons_of_mem next hmem)
    have hothers : ∀ other ∈ rest, other ≠ next := by
      rintro other hother rfl
      exact (nodup_cons.mp hrest).1 hother
    have hhandovers : handovers value (next :: rest) = (value, next) :: handovers next rest := rfl
    have hperm := (moveTo_perm hdistinct next left.length).nodup_iff.mpr hdistinct
    rw [foldl_cons, hhandovers, getLast_cons_cons, filter_not_mem_cons,
      filter_not_mem_cons]
    by_cases hleft : next ∈ left
    · have hright : next ∉ right := fun hmem ↦ (nodup_append.mp hdistinct).2.2 next hleft next
        (mem_cons_of_mem value hmem) rfl
      have hlength : left.length = (left.filter (· ≠ next) ++ [value]).length := by
        rw [length_append, length_singleton,
          length_filter_ne_of_mem (nodup_append.mp hdistinct).1 hleft]
      have hstays : (left.filter (· ≠ next) ++ [value]).filter (· ∉ rest) =
          (left.filter (· ≠ next)).filter (· ∉ rest) ++ [value] := by
        rw [filter_append, filter_singleton, decide_eq_true hvalues, cond_true]
      rw [moveTo_of_mem_left hdistinct hleft] at hperm ⊢
      rw [hlength, ih hperm hrest, hstays, filter_cons_of_pos (by simpa using hright),
        filter_cons_of_neg (by simpa using hright), filter_ne_of_not_mem hright]
      · simp only [map_cons, append_assoc, cons_append, nil_append]
      · intro other hother
        have hmoved := hmem other (mem_cons_of_mem next hother)
        simp only [mem_append, mem_filter, decide_eq_true_eq] at hmoved ⊢
        exact hmoved.imp (fun hmem ↦ .inl ⟨hmem, hothers other hother⟩) id
    · have hright : next ∈ right :=
        (mem_append.mp (hmem next mem_cons_self)).resolve_left hleft
      have hpushed : (value :: right.filter (· ≠ next)).filter (· ∉ rest) =
          value :: (right.filter (· ≠ next)).filter (· ∉ rest) :=
        filter_cons_of_pos (decide_eq_true hvalues)
      have hside : ∀ pair ∈ handovers next rest,
          pair.2 ∈ value :: right.filter (· ≠ next) ↔ pair.2 ∈ right := by
        intro pair hpair
        have hother : pair.2 ∈ rest := (of_mem_zip hpair).2
        simp [hothers _ hother, ne_of_mem_of_not_mem hother hvalues]
      have hsame : (handovers next rest).filter (·.2 ∈ value :: right.filter (· ≠ next)) =
          (handovers next rest).filter (·.2 ∈ right) :=
        filter_congr fun pair hpair ↦ decide_eq_decide.mpr (hside pair hpair)
      have hothersame : (handovers next rest).filter (·.2 ∉ value :: right.filter (· ≠ next)) =
          (handovers next rest).filter (·.2 ∉ right) :=
        filter_congr fun pair hpair ↦ decide_eq_decide.mpr (not_congr (hside pair hpair))
      rw [moveTo_of_mem_right hdistinct hright] at hperm ⊢
      rw [ih hperm hrest, hpushed, hsame, hothersame, filter_ne_of_not_mem hleft,
        filter_cons_of_neg (by simpa using hright),
        filter_cons_of_pos (by simpa using hright)]
      · simp only [map_cons, reverse_cons, append_assoc, cons_append,
          nil_append]
      · intro other hother
        have hmoved := hmem other (mem_cons_of_mem next hother)
        simp only [mem_append, mem_cons, mem_filter, decide_eq_true_eq] at hmoved ⊢
        exact hmoved.imp id fun hmem ↦ .inr ⟨hmem, hothers other hother⟩

/-! ### The names at the end -/

/-- A suffix that is not one of the back part goes on with the value before it. -/
theorem suffix_append_cases {names front back : List β} {name : β}
    (hnames : names <:+ front ++ name :: back) :
    names <:+ back ∨ ∃ before, before <:+ front ∧ names = before ++ name :: back := by
  rcases suffix_or_suffix_of_suffix hnames (suffix_append front _) with
    hshort | ⟨before, hbefore⟩
  · rcases suffix_cons_iff.mp hshort with rfl | hback
    · exact .inr ⟨[], nil_suffix, rfl⟩
    · exact .inl hback
  · refine .inr ⟨before, ?_, hbefore.symm⟩
    obtain ⟨more, hmore⟩ := hnames
    rw [← hbefore, ← append_assoc] at hmore
    exact ⟨more, append_cancel_right hmore⟩

/-- Two values of a list without repetitions do not come in both orders. -/
theorem not_sublist_swap {front back : List β} {first second : β}
    (hdistinct : (front ++ second :: first :: back).Nodup) :
    ¬ [first, second].Sublist (front ++ second :: first :: back) := by
  intro hsublist
  have hpair := (pairwise_iff_forall_sublist.mp hdistinct) hsublist
  classical
  have hfilter := hsublist.filter fun other ↦ other = first ∨ other = second
  have hnone : ∀ values : List β, (∀ other ∈ values, other ≠ first ∧ other ≠ second) →
      values.filter (fun other ↦ other = first ∨ other = second) = [] := by
    intro values hvalues
    rw [filter_eq_nil_iff]
    intro other hother
    simpa using hvalues other hother
  obtain ⟨-, hback, hapart⟩ := nodup_append.mp hdistinct
  rw [nodup_cons, nodup_cons, mem_cons, not_or] at hback
  have hswapped : (front ++ second :: first :: back).filter
      (fun other ↦ other = first ∨ other = second) = [second, first] := by
    rw [filter_append, filter_cons_of_pos (by simp), filter_cons_of_pos (by simp),
      hnone front fun other hother ↦ ⟨hapart other hother first (by simp),
        hapart other hother second (by simp)⟩,
      hnone back fun other hother ↦ ⟨ne_of_mem_of_not_mem hother hback.2.1,
        ne_of_mem_of_not_mem hother hback.1.2⟩, nil_append]
  rw [hswapped, filter_cons_of_pos (by simp), filter_cons_of_pos (by simp),
    filter_nil] at hfilter
  have hboth := hfilter.eq_of_length rfl
  exact hpair (cons.inj hboth).1

omit [DecidableEq α] in
theorem map_fst_handovers : (handovers value rest).map Prod.fst = (value :: rest).dropLast := by
  induction rest generalizing value with
  | nil => rfl
  | cons next rest ih => exact congrArg (value :: ·) ih

omit [DecidableEq α] in
theorem map_snd_handovers : (handovers value rest).map Prod.snd = rest :=
  map_snd_zip (by simp)

/-- The values that are pushed on come before the last one. -/
theorem sublist_pushed : (((handovers value rest).filter (·.2 ∈ right)).map Prod.fst ++
    [(value :: rest).getLast (cons_ne_nil _ _)]).Sublist (value :: rest) := by
  have hsublist := (filter_sublist (p := (·.2 ∈ right)) (l := handovers value rest)).map Prod.fst
  rw [map_fst_handovers] at hsublist
  have hboth := hsublist.append_right [(value :: rest).getLast (cons_ne_nil _ _)]
  rwa [dropLast_append_getLast] at hboth

/-- Pushed values that leave out the first one keep the names from the end. Assumes: the values at
the end are those behind, when no value is pushed on. -/
theorem suffix_pushed_iff {f : α → β} {front back : List α}
    (hnames : ((value :: rest).map f).Nodup)
    (hback : back ≠ [] ∨ ∃ pair ∈ handovers value rest, pair.2 ∈ right)
    (hfirst : ∀ next, (value, next) ∈ handovers value rest → next ∉ right) :
    (value :: rest).map f <:+ (front ++ (value :: rest).getLast (cons_ne_nil _ _) ::
        ((((handovers value rest).filter (·.2 ∈ right)).map Prod.fst).reverse ++ back)).map f ↔
      (value :: rest).map f <:+ back.map f := by
  have hsublist : List.Sublist (((((handovers value rest).filter (·.2 ∈ right)).map Prod.fst) ++
      [(value :: rest).getLast (cons_ne_nil _ _)]).map f) ((value :: rest).map f) :=
    sublist_pushed.map f
  have hpushed : ∀ pushed ∈ ((handovers value rest).filter (·.2 ∈ right)).map Prod.fst,
      pushed ∈ value :: rest ∧ pushed ≠ value := by
    intro pushed hpushed
    obtain ⟨pair, hpair, rfl⟩ := mem_map.mp hpushed
    obtain ⟨hpair, hside⟩ := mem_filter.mp hpair
    refine ⟨(of_mem_zip hpair).1, fun hsame ↦ ?_⟩
    exact hfirst pair.2 (hsame ▸ hpair) (of_decide_eq_true hside)
  constructor
  · intro hsuffix
    cases hlist : ((handovers value rest).filter (·.2 ∈ right)).map Prod.fst with
    | nil =>
      have hnone : ∀ pair ∈ handovers value rest, pair.2 ∉ right := by
        simpa [filter_eq_nil_iff] using hlist
      have hsplit : (front ++ (value :: rest).getLast (cons_ne_nil _ _) ::
          (([] : List α).reverse ++ back)).map f =
            front.map f ++ f ((value :: rest).getLast (cons_ne_nil _ _)) :: back.map f := by
        simp
      rw [hlist, hsplit] at hsuffix
      refine (suffix_append_cases hsuffix).resolve_right ?_
      rintro ⟨before, -, hwhole⟩
      obtain ⟨unmoved, behind, rfl⟩ : ∃ unmoved behind, back = unmoved ++ [behind] := by
        refine (eq_nil_or_concat' back).resolve_left (hback.resolve_right ?_)
        rintro ⟨pair, hpair, hside⟩
        exact hnone pair hpair hside
      have hend := congrArg List.getLast? hwhole
      have hlast : (before ++ f ((value :: rest).getLast (cons_ne_nil _ _)) ::
          (unmoved ++ [behind]).map f).getLast? = some (f behind) := by
        rw [map_append, map_singleton, ← cons_append, ← append_assoc,
          getLast?_concat]
      rw [hlast, getLast?_map, getLast?_eq_some_getLast (cons_ne_nil _ _),
        Option.map_some, Option.some_inj] at hend
      rw [hwhole, hend] at hnames
      exact (nodup_cons.mp (nodup_append.mp hnames).2.1).1 (by simp)
    | cons pushed others =>
      obtain ⟨hmem, hne⟩ := hpushed pushed (hlist ▸ mem_cons_self)
      cases hend : others ++ [(value :: rest).getLast (cons_ne_nil _ _)] with
      | nil => simp at hend
      | cons next more =>
        have hturned : (value :: rest).getLast (cons_ne_nil _ _) :: others.reverse =
            more.reverse ++ [next] := by
          rw [← reverse_cons, ← hend, reverse_append]
          rfl
        have hsplit : (front ++ (value :: rest).getLast (cons_ne_nil _ _) ::
            ((pushed :: others).reverse ++ back)).map f =
              ((front ++ more.reverse).map f ++ [f next]) ++ f pushed :: back.map f := by
          rw [reverse_cons, append_assoc, ← cons_append, hturned]
          simp
        rw [hlist, hsplit] at hsuffix
        refine (suffix_append_cases hsuffix).resolve_right ?_
        rintro ⟨before, hbefore, hwhole⟩
        rw [hlist, cons_append, hend] at hsublist
        rw [suffix_concat_iff] at hbefore
        rcases hbefore with rfl | ⟨before, rfl, -⟩
        · have hsame : f value = f pushed := (cons.inj hwhole).1
          exact hne (inj_on_of_nodup_map hnames hmem mem_cons_self hsame.symm)
        · rw [hwhole, append_assoc, singleton_append] at hnames hsublist
          refine not_sublist_swap hnames (List.Sublist.trans ?_ hsublist)
          simp
  · intro hsuffix
    refine hsuffix.trans ?_
    rw [← map_reverse]
    exact ((suffix_append _ _).trans ((suffix_cons _ _).trans
      (suffix_append _ _))).map f

/-- A list in which values were moved in turn to the last index ends with them. Assumes: distinct
values. -/
theorem suffix_foldl_moveTo_last (hdistinct : (left ++ [value]).Nodup)
    (hrest : (value :: rest).Nodup)
    (hmem : ∀ next ∈ rest, next ∈ left) :
    value :: rest <:+ rest.foldl (fun values next ↦ moveTo values next left.length)
      (left ++ [value]) := by
  have hpushed : (handovers value rest).filter (·.2 ∈ ([] : List α)) = [] := by simp
  have hleft : (handovers value rest).filter (·.2 ∉ ([] : List α)) = handovers value rest := by simp
  rw [foldl_moveTo_same hdistinct hrest (by simpa using hmem), hpushed, hleft, map_fst_handovers,
    map_nil, reverse_nil, filter_nil, append_nil, append_assoc,
    dropLast_append_getLast]
  exact suffix_append _ _

/-- When a list in which values were moved in turn to one index ends with their names. Assumes:
distinct values, distinct names of the moved ones, and a value behind them. -/
theorem suffix_foldl_moveTo_iff {f : α → β} (hdistinct : (left ++ value :: right).Nodup)
    (hnames : ((value :: rest).map f).Nodup) (hmem : ∀ next ∈ rest, next ∈ left ++ right)
    (hright : right ≠ []) :
    (value :: rest).map f <:+ (rest.foldl (fun values next ↦ moveTo values next left.length)
        (left ++ value :: right)).map f ↔
      (value :: rest).map f <:+ (if rest.head?.any (· ∈ right) then [f value] else []) ++
        (right.filter (· ∉ rest)).map f := by
  have hmoved := List.Nodup.of_map f hnames
  rw [foldl_moveTo_same hdistinct hmoved hmem]
  cases rest with
  | nil =>
    refine (suffix_pushed_iff hnames (.inl ?_) fun next hnext ↦ ?_).trans ?_
    · simpa using hright
    · simp [handovers] at hnext
    · rfl
  | cons next rest =>
    have hhandovers : handovers value (next :: rest) = (value, next) :: handovers next rest := rfl
    by_cases hnext : next ∈ right
    · have hhead : (next :: rest).head?.any (· ∈ right) = true := by simpa using hnext
      have hsplit : (left.filter (· ∉ next :: rest) ++
          ((handovers value (next :: rest)).filter (·.2 ∉ right)).map Prod.fst ++
            (value :: next :: rest).getLast (cons_ne_nil _ _) ::
              ((((handovers value (next :: rest)).filter (·.2 ∈ right)).map Prod.fst).reverse ++
                right.filter (· ∉ next :: rest))).map f =
          (left.filter (· ∉ next :: rest) ++
            ((handovers value (next :: rest)).filter (·.2 ∉ right)).map Prod.fst ++
              (value :: next :: rest).getLast (cons_ne_nil _ _) ::
                (((handovers next rest).filter (·.2 ∈ right)).map Prod.fst).reverse).map f ++
            f value :: (right.filter (· ∉ next :: rest)).map f := by
        have hpushed : (handovers value (next :: rest)).filter (·.2 ∈ right) =
            (value, next) :: (handovers next rest).filter (·.2 ∈ right) := by
          rw [hhandovers, filter_cons_of_pos (by simpa using hnext)]
        rw [hpushed]
        simp
      rw [hsplit, if_pos hhead, singleton_append]
      constructor
      · intro hsuffix
        rcases suffix_append_cases hsuffix with hback | ⟨before, -, hwhole⟩
        · exact hback.trans (suffix_cons _ _)
        · cases before with
          | nil => exact hwhole ▸ suffix_refl _
          | cons name before =>
            rw [hwhole, ← (cons.inj hwhole).1] at hnames
            exact absurd hnames (by simp)
      · exact fun hsuffix ↦ hsuffix.trans (suffix_append _ _)
    · have hhead : (next :: rest).head?.any (· ∈ right) = false := by simpa using hnext
      rw [hhead, if_neg Bool.false_ne_true, nil_append]
      refine suffix_pushed_iff hnames ?_ fun other hother ↦ ?_
      · by_contra hnone
        rw [not_or, not_ne_iff] at hnone
        obtain ⟨hback, hpairs⟩ := hnone
        refine hright ?_
        rw [← hback, eq_comm, filter_eq_self]
        intro behind hbehind
        refine decide_eq_true fun hother ↦ ?_
        rw [← @map_snd_handovers α (next :: rest) value] at hother
        obtain ⟨pair, hpair, rfl⟩ := mem_map.mp hother
        exact hpairs ⟨pair, hpair, hbehind⟩
      · rw [hhandovers, mem_cons, Prod.mk.injEq] at hother
        rcases hother with ⟨-, rfl⟩ | hother
        · exact hnext
        · exact absurd (of_mem_zip hother).1 (nodup_cons.mp hmoved).1

end Gather

end ObsMcp.Foundations
