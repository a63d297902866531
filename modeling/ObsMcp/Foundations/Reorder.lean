import ObsMcp.Foundations.LastWins
import Mathlib.Data.List.Perm.Subperm

/-!
# Reordering a list by moves

`moveTo` takes one value of a list without repetitions out and puts it back at an index. Moving the
values of a rearrangement to their indices, in turn, gives the rearrangement (`foldl_moveTo`).

`fill` rearranges some of the values of a list in the places they have: the places of the chosen
values are filled in turn from another list. The other values stay where they are
(`getElem?_fill`), and the chosen ones come in the order of the fills (`filter_fill`). Filling twice
is filling once (`fill_fill`), and filling with the chosen values in another order is a
rearrangement (`fill_perm`).

The fills may name a chosen value more than once. The moves to the places of a filled list then
leave the chosen values in the order of their first occurrences exactly when no value is repeated
among the fills that are used (`filter_moves_iff`).
-/

namespace ObsMcp.Foundations

open List

section Moves

variable {α : Type} [DecidableEq α]

/-- A value taken out of a list and put back at an index. -/
def moveTo (values : List α) (value : α) (index : ℕ) : List α :=
  if value ∈ values then
    (values.filter (· ≠ value)).take index ++ value :: (values.filter (· ≠ value)).drop index
  else values

variable {value : α} {values : List α}

theorem filter_ne_cons_perm (hdistinct : values.Nodup) (hvalue : value ∈ values) :
    (value :: values.filter (· ≠ value)).Perm values := by
  have herase : values.filter (fun other ↦ other ≠ value) = values.erase value := by
    rw [hdistinct.erase_eq_filter]
    exact filter_congr fun other _ ↦ by by_cases h : other = value <;> simp [h]
  rw [herase]
  exact (perm_cons_erase hvalue).symm

theorem length_filter_ne_of_mem (hdistinct : values.Nodup) (hmem : value ∈ values) :
    (values.filter (· ≠ value)).length + 1 = values.length := by
  rw [← (filter_ne_cons_perm hdistinct hmem).length_eq, length_cons]

theorem filter_ne_of_not_mem (hnot : value ∉ values) : values.filter (· ≠ value) = values :=
  filter_eq_self.mpr fun _ hother ↦ decide_eq_true fun hsame ↦ hnot (hsame ▸ hother)

/-- A move behind a list of other values. -/
theorem moveTo_append {settled rest : List α} (hsettled : value ∉ settled) (hrest : value ∈ rest) :
    moveTo (settled ++ rest) value settled.length =
      settled ++ value :: rest.filter (· ≠ value) := by
  have hfilter : (settled ++ rest).filter (· ≠ value) = settled ++ rest.filter (· ≠ value) := by
    rw [filter_append, filter_ne_of_not_mem hsettled]
  unfold moveTo
  rw [if_pos (mem_append_right _ hrest), hfilter, take_left, drop_left]

theorem foldl_moveTo_append {settled rest target : List α} (hdistinct : (settled ++ rest).Nodup)
    (htarget : target.Perm rest) :
    (target.zipIdx settled.length).foldl (fun values pair ↦ moveTo values pair.1 pair.2)
      (settled ++ rest) = settled ++ target := by
  induction target generalizing settled rest with
  | nil =>
    rw [← htarget.nil_eq]
    rfl
  | cons value target ih =>
    have hvalue : value ∈ rest := htarget.subset mem_cons_self
    have hsettled : value ∉ settled := fun hmem ↦
      (nodup_append.mp hdistinct).2.2 value hmem value hvalue rfl
    have hrest := filter_ne_cons_perm (nodup_append.mp hdistinct).2.1 hvalue
    rw [zipIdx_cons, foldl_cons, moveTo_append hsettled hvalue, ← singleton_append,
      ← append_assoc]
    have hlength : settled.length + 1 = (settled ++ [value]).length := by simp
    rw [hlength, ih, append_assoc, singleton_append]
    · rw [append_assoc, singleton_append]
      exact ((hrest.append_left settled).nodup_iff).mpr hdistinct
    · exact List.Perm.cons_inv (htarget.trans hrest.symm)

/-- Moving the values of a rearrangement to their indices in turn gives the rearrangement. -/
theorem foldl_moveTo {target : List α} (hdistinct : values.Nodup) (htarget : target.Perm values) :
    target.zipIdx.foldl (fun values pair ↦ moveTo values pair.1 pair.2) values = target :=
  @foldl_moveTo_append α _ [] values target hdistinct htarget

theorem moveTo_perm (hdistinct : values.Nodup) (value : α) (index : ℕ) :
    (moveTo values value index).Perm values := by
  unfold moveTo
  split_ifs with hvalue
  · refine perm_middle.trans ?_
    rw [take_append_drop]
    exact filter_ne_cons_perm hdistinct hvalue
  · exact .refl _

/-- A move within the front of a list leaves what is behind. -/
theorem moveTo_append_left {front back : List α} {index : ℕ} (hdistinct : (front ++ back).Nodup)
    (hvalue : value ∈ front) (hindex : index < front.length) :
    moveTo (front ++ back) value index = moveTo front value index ++ back := by
  obtain ⟨hfront, -, hapart⟩ := nodup_append.mp hdistinct
  have hback : value ∉ back := fun hmem ↦ hapart value hvalue value hmem rfl
  have hlength := length_filter_ne_of_mem hfront hvalue
  have hle : index ≤ (front.filter (· ≠ value)).length := by omega
  unfold moveTo
  rw [if_pos (mem_append_left _ hvalue), if_pos hvalue, filter_append,
    filter_ne_of_not_mem hback, take_append_of_le_length hle,
    drop_append_of_le_length hle, append_assoc, cons_append]

theorem foldl_moveTo_perm (hdistinct : values.Nodup) (moves : List (α × ℕ)) :
    (moves.foldl (fun values move ↦ moveTo values move.1 move.2) values).Perm values := by
  induction moves generalizing values with
  | nil => exact .refl _
  | cons move moves ih =>
    have hperm := moveTo_perm hdistinct move.1 move.2
    exact (ih (hperm.nodup_iff.mpr hdistinct)).trans hperm

theorem foldl_moveTo_left {front back : List α} {moves : List (α × ℕ)}
    (hdistinct : (front ++ back).Nodup)
    (hmoves : ∀ move ∈ moves, move.1 ∈ front ∧ move.2 < front.length) :
    moves.foldl (fun values move ↦ moveTo values move.1 move.2) (front ++ back) =
      moves.foldl (fun values move ↦ moveTo values move.1 move.2) front ++ back := by
  induction moves generalizing front with
  | nil => rfl
  | cons move moves ih =>
    obtain ⟨⟨hvalue, hindex⟩, hothers⟩ := forall_mem_cons.mp hmoves
    have hperm := moveTo_perm (nodup_append.mp hdistinct).1 move.1 move.2
    rw [foldl_cons, foldl_cons, moveTo_append_left hdistinct hvalue hindex]
    refine ih ((hperm.append_right back).nodup_iff.mpr hdistinct) fun other hother ↦ ?_
    rw [hperm.mem_iff, hperm.length_eq]
    exact hothers other hother

end Moves

section Fill

variable {α : Type} (chosen : α → Bool)

/-- The places of the chosen values filled in turn from a list. -/
def fill : List α → List α → List α
  | _, [] => []
  | [], value :: rest => value :: fill [] rest
  | next :: fills, value :: rest =>
    if chosen value then next :: fill fills rest else value :: fill (next :: fills) rest

theorem fill_nil (values : List α) : fill chosen [] values = values := by
  induction values with
  | nil => rfl
  | cons value values ih => rw [fill, ih]

theorem length_fill (fills values : List α) :
    (fill chosen fills values).length = values.length := by
  induction values generalizing fills with
  | nil => cases fills <;> rfl
  | cons value values ih =>
    cases fills with
    | nil => rw [fill_nil]
    | cons next fills =>
      rw [fill]
      split_ifs
      · rw [length_cons, length_cons, ih]
      · rw [length_cons, length_cons, ih]

variable {fills values : List α}

/-- Filling twice is filling once. Assumes: the fills are chosen values. -/
theorem fill_fill (hfills : ∀ value ∈ fills, chosen value = true) (values : List α) :
    fill chosen fills (fill chosen fills values) = fill chosen fills values := by
  induction values generalizing fills with
  | nil => cases fills <;> rfl
  | cons value values ih =>
    cases fills with
    | nil => rw [fill_nil, fill_nil]
    | cons next fills =>
      by_cases hvalue : chosen value = true
      · rw [fill, if_pos hvalue, fill, if_pos (hfills next (by simp)),
          ih fun other hother ↦ hfills other (by simp [hother])]
      · rw [fill, if_neg hvalue, fill, if_neg hvalue, ih hfills]

/-- A value that is not chosen stays where it is. -/
theorem getElem?_fill {place : ℕ} {value : α} (hvalue : values[place]? = some value)
    (hchosen : chosen value = false) : (fill chosen fills values)[place]? = some value := by
  induction values generalizing fills place with
  | nil => simp at hvalue
  | cons first values ih =>
    cases fills with
    | nil => rwa [fill_nil]
    | cons next fills =>
      cases place with
      | zero =>
        obtain rfl : first = value := by simpa using hvalue
        simp [fill, hchosen]
      | succ place =>
        rw [fill]
        split_ifs
        · exact ih hvalue
        · exact ih hvalue

/-- The chosen values among the filled ones are the fills. Assumes: as many fills as places, all of
them chosen values. -/
theorem filter_fill (hfills : ∀ value ∈ fills, chosen value = true)
    (hlength : fills.length = values.countP chosen) :
    (fill chosen fills values).filter chosen = fills := by
  induction values generalizing fills with
  | nil =>
    obtain rfl := length_eq_zero_iff.mp hlength
    rfl
  | cons value values ih =>
    by_cases hvalue : chosen value = true
    · rw [countP_cons_of_pos hvalue] at hlength
      cases fills with
      | nil => simp at hlength
      | cons next fills =>
        rw [fill, if_pos hvalue, filter_cons_of_pos (hfills next mem_cons_self),
          ih (fun other hother ↦ hfills other (mem_cons_of_mem next hother))
            (Nat.succ.inj hlength)]
    · rw [countP_cons_of_neg hvalue] at hlength
      cases fills with
      | nil =>
        rw [fill_nil, filter_cons_of_neg hvalue]
        exact filter_eq_nil_iff.mpr (countP_eq_zero.mp hlength.symm)
      | cons next fills =>
        rw [fill, if_neg hvalue, filter_cons_of_neg hvalue, ih hfills hlength]

theorem fill_filter (values : List α) : fill chosen (values.filter chosen) values = values := by
  induction values with
  | nil => rfl
  | cons value values ih =>
    by_cases hvalue : chosen value = true
    · rw [filter_cons_of_pos hvalue, fill, if_pos hvalue, ih]
    · rw [filter_cons_of_neg hvalue]
      cases hfills : values.filter chosen with
      | nil => rw [fill_nil]
      | cons next fills => rw [fill, if_neg hvalue, ← hfills, ih]

/-- The values behind a list are filled with what it leaves of the fills. -/
theorem fill_append (fills values others : List α) : fill chosen fills (values ++ others) =
    fill chosen fills values ++ fill chosen (fills.drop (values.countP chosen)) others := by
  induction values generalizing fills with
  | nil => cases fills <;> rfl
  | cons value values ih =>
    cases fills with
    | nil => rw [drop_nil, fill_nil, fill_nil, fill_nil]
    | cons next fills =>
      by_cases hvalue : chosen value = true
      · rw [cons_append, fill, if_pos hvalue, fill, if_pos hvalue, ih,
          countP_cons_of_pos hvalue, drop_succ_cons, cons_append]
      · rw [cons_append, fill, if_neg hvalue, fill, if_neg hvalue, ih,
          countP_cons_of_neg hvalue, cons_append]

/-- No more fills are used than there are chosen values. -/
theorem fill_take (fills values : List α) :
    fill chosen (fills.take (values.countP chosen)) values = fill chosen fills values := by
  induction values generalizing fills with
  | nil => cases fills <;> rfl
  | cons value values ih =>
    cases fills with
    | nil => rw [take_nil]
    | cons next fills =>
      by_cases hvalue : chosen value = true
      · rw [countP_cons_of_pos hvalue, take_succ_cons, fill, if_pos hvalue, fill,
          if_pos hvalue, ih]
      · have hrest := ih (next :: fills)
        rw [countP_cons_of_neg hvalue]
        cases hcount : values.countP chosen with
        | zero =>
          rw [hcount, take_zero, fill_nil] at hrest
          rw [take_zero, fill_nil, fill, if_neg hvalue, ← hrest]
        | succ count =>
          rw [hcount, take_succ_cons] at hrest
          rw [take_succ_cons, fill, if_neg hvalue, fill, if_neg hvalue, hrest]

theorem mem_fill {value : α} (hvalue : value ∈ fill chosen fills values) :
    value ∈ fills ∨ value ∈ values := by
  induction values generalizing fills with
  | nil => cases fills <;> exact .inr hvalue
  | cons first values ih =>
    cases fills with
    | nil => exact .inr (fill_nil chosen (first :: values) ▸ hvalue)
    | cons next fills =>
      rw [fill] at hvalue
      split_ifs at hvalue
      · rcases mem_cons.mp hvalue with rfl | hvalue
        · exact .inl mem_cons_self
        · exact (ih hvalue).imp (mem_cons_of_mem next) (mem_cons_of_mem first)
      · rcases mem_cons.mp hvalue with rfl | hvalue
        · exact .inr mem_cons_self
        · exact (ih hvalue).imp_right (mem_cons_of_mem first)

/-- Filling changes nothing exactly when the chosen values are in the order of the fills. -/
theorem fill_eq_self_iff (hfills : ∀ value ∈ fills, chosen value = true)
    (hlength : fills.length = values.countP chosen) :
    fill chosen fills values = values ↔ values.filter chosen = fills := by
  constructor
  · intro hsame
    have hchosen := filter_fill chosen hfills hlength
    rwa [hsame] at hchosen
  · rintro rfl
    exact fill_filter chosen values

/-- Filling with the chosen values in another order is a rearrangement. -/
theorem fill_perm (hfills : fills.Perm (values.filter chosen)) :
    (fill chosen fills values).Perm values := by
  have hsplit : ∀ fills values : List α, fills.length = (values.filter chosen).length →
      (fill chosen fills values).Perm (fills ++ values.filter fun value ↦ !chosen value) := by
    intro fills values
    induction values generalizing fills with
    | nil =>
      intro hlength
      rw [length_eq_zero_iff.mp hlength]
      rfl
    | cons value values ih =>
      intro hlength
      by_cases hvalue : chosen value = true
      · rw [filter_cons_of_pos hvalue, length_cons] at hlength
        cases fills with
        | nil => simp at hlength
        | cons next fills =>
          rw [fill, if_pos hvalue, filter_cons_of_neg (by simp [hvalue]), cons_append]
          exact (ih fills (by simpa using hlength)).cons next
      · rw [filter_cons_of_neg hvalue] at hlength
        rw [filter_cons_of_pos (by simp [hvalue])]
        cases fills with
        | nil =>
          rw [fill]
          exact (ih [] hlength).cons value
        | cons next fills =>
          rw [fill, if_neg hvalue]
          exact ((ih (next :: fills) hlength).cons value).trans perm_middle.symm
  refine (hsplit fills values hfills.length_eq).trans ?_
  exact (hfills.append_right _).trans (filter_append_perm chosen values)

end Fill

/-! ### Repeated fills -/

section Repeated

variable {α : Type} [DecidableEq α] (chosen : α → Bool) {fills values : List α}

/-- The last chosen value after the moves to the places of a filled list is the last fill that was
used. -/
theorem filter_moves_concat {used unused : List α} {latest : α} (hvalues : values.Nodup)
    (hfills : ∀ value ∈ used ++ latest :: unused, value ∈ values ∧ chosen value = true)
    (hused : used.length + 1 = values.countP chosen) :
    ∃ earlier, ((fill chosen (used ++ latest :: unused) values).zipIdx.foldl
      (fun values move ↦ moveTo values move.1 move.2) values).filter chosen =
        earlier ++ [latest] := by
  induction values using List.reverseRecOn with
  | nil => simp at hused
  | append_singleton values value ih =>
    obtain ⟨hlatest, hchosen⟩ := hfills latest (by simp)
    rw [countP_append] at hused
    rw [fill_append, zipIdx_append, foldl_append, Nat.zero_add, length_fill]
    by_cases hvalue : chosen value = true
    · have hcount : values.countP chosen = used.length := by
        rw [countP_singleton, if_pos hvalue] at hused
        omega
      have hperm := foldl_moveTo_perm hvalues
        (fill chosen (used ++ latest :: unused) values).zipIdx
      rw [hcount, drop_left, fill, if_pos hvalue]
      generalize (fill chosen (used ++ latest :: unused) values).zipIdx.foldl
        (fun values move ↦ moveTo values move.1 move.2) (values ++ [value]) = moved at hperm
      have hmem : latest ∈ moved := hperm.mem_iff.mpr hlatest
      have hlength := length_filter_ne_of_mem (hperm.nodup_iff.mpr hvalues) hmem
      rw [hperm.length_eq, length_append, length_singleton] at hlength
      have hall : (moved.filter (· ≠ latest)).length = values.length := Nat.succ.inj hlength
      have hlast : moveTo moved latest values.length = moved.filter (· ≠ latest) ++ [latest] := by
        rw [moveTo, if_pos hmem, ← hall, take_length, drop_length]
      refine ⟨(moved.filter (· ≠ latest)).filter chosen, ?_⟩
      cases unused <;>
      · show (moveTo moved latest values.length).filter chosen = _
        rw [hlast, filter_append, filter_cons_of_pos hchosen, filter_nil]
    · rw [countP_singleton, if_neg hvalue, Nat.add_zero] at hused
      have hfront : ∀ other ∈ used ++ latest :: unused, other ∈ values ∧ chosen other = true := by
        intro other hother
        obtain ⟨hmem, hother⟩ := hfills other hother
        refine ⟨(mem_append.mp hmem).resolve_right fun hself ↦ ?_, hother⟩
        exact hvalue (mem_singleton.mp hself ▸ hother)
      obtain ⟨earlier, hearlier⟩ := ih (nodup_append.mp hvalues).1 hfront hused
      have hmoves : ∀ move ∈ (fill chosen (used ++ latest :: unused) values).zipIdx,
          move.1 ∈ values ∧ move.2 < values.length := by
        intro move hmove
        have hget := mem_zipIdx_iff_getElem?.mp hmove
        obtain ⟨hindex, -⟩ := List.getElem?_eq_some_iff.mp hget
        refine ⟨?_, by rwa [length_fill] at hindex⟩
        rcases mem_fill chosen (mem_of_getElem? hget) with hfill | hmem
        · exact (hfront _ hfill).1
        · exact hmem
      have hperm := foldl_moveTo_perm (nodup_append.mp hvalues).1
        (fill chosen (used ++ latest :: unused) values).zipIdx
      have hself (rest : List α) : fill chosen rest [value] = [value] := by
        cases rest with
        | nil => rfl
        | cons next rest => rw [fill, if_neg hvalue, fill]
      rw [foldl_moveTo_left hvalues hmoves, hself]
      generalize (fill chosen (used ++ latest :: unused) values).zipIdx.foldl
        (fun values move ↦ moveTo values move.1 move.2) values = moved at hperm hearlier
      refine ⟨earlier, ?_⟩
      have hstays : moveTo (moved ++ [value]) value values.length = moved ++ [value] := by
        rw [← hperm.length_eq, moveTo_append ?_ mem_cons_self]
        · simp
        · rw [hperm.mem_iff]
          exact fun hmem ↦ (nodup_append.mp hvalues).2.2 value hmem value (by simp) rfl
      show (moveTo (moved ++ [value]) value values.length).filter chosen = _
      rw [hstays, filter_append, hearlier, filter_cons_of_neg hvalue, filter_nil,
        append_nil]

theorem eraseDups_perm (hvalues : values.Nodup)
    (hfills : ∀ value, value ∈ fills ↔ value ∈ values ∧ chosen value = true) :
    fills.eraseDups.Perm (values.filter chosen) :=
  (perm_ext_iff_of_nodup (LastWins.nodup_eraseDups fills) (hvalues.filter _)).mpr
    fun value ↦ by rw [mem_eraseDups, hfills, mem_filter]

theorem length_take_fills (hvalues : values.Nodup)
    (hfills : ∀ value, value ∈ fills ↔ value ∈ values ∧ chosen value = true) :
    (fills.take (values.countP chosen)).length = values.countP chosen := by
  have hcount := (eraseDups_perm chosen hvalues hfills).length_eq
  have hle := (subperm_of_subset (LastWins.nodup_eraseDups fills) fun value hvalue ↦
    mem_eraseDups.mp hvalue).length_le
  rw [length_take, countP_eq_length_filter, ← hcount, Nat.min_eq_left hle]

/-- Fills that are used without a repetition are the chosen values, and come before all others. -/
theorem used_of_nodup (hvalues : values.Nodup)
    (hfills : ∀ value, value ∈ fills ↔ value ∈ values ∧ chosen value = true)
    (hdistinct : (fills.take (values.countP chosen)).Nodup) :
    (fills.take (values.countP chosen)).Perm (values.filter chosen) ∧
      fills.eraseDups = fills.take (values.countP chosen) := by
  have hused : (fills.take (values.countP chosen)).Perm (values.filter chosen) := by
    refine (subperm_of_subset hdistinct fun value hvalue ↦ ?_).perm_of_length_le ?_
    · exact mem_filter.mpr ((hfills value).mp (mem_of_mem_take hvalue))
    · rw [length_take_fills chosen hvalues hfills, countP_eq_length_filter]
  have hnone : (fills.drop (values.countP chosen)).removeAll
      (fills.take (values.countP chosen)) = [] := by
    refine filter_eq_nil_iff.mpr fun value hvalue ↦ ?_
    have hmem := hused.mem_iff.mpr
      (mem_filter.mpr ((hfills value).mp (mem_of_mem_drop hvalue)))
    simpa using hmem
  refine ⟨hused, ?_⟩
  conv_lhs => rw [← take_append_drop (values.countP chosen) fills]
  rw [eraseDups_append, hnone, eraseDups_nil, append_nil,
    LastWins.eraseDups_eq_self hdistinct]

/-- After the moves to the places of a filled list the chosen values are in the order of their first
occurrences among the fills exactly when no fill that was used is a repetition. Assumes: the fills
are the chosen values, each at least once. -/
theorem filter_moves_iff (hvalues : values.Nodup)
    (hfills : ∀ value, value ∈ fills ↔ value ∈ values ∧ chosen value = true) :
    ((fill chosen fills values).zipIdx.foldl
        (fun values move ↦ moveTo values move.1 move.2) values).filter chosen = fills.eraseDups ↔
      (fills.take (values.countP chosen)).Nodup := by
  have hlength := length_take_fills chosen hvalues hfills
  constructor
  · intro hfirst
    cases hused : values.countP chosen with
    | zero => exact nodup_nil
    | succ used =>
      have hlt : used < fills.length := by
        rw [length_take] at hlength
        omega
      have htake : fills.take (used + 1) = fills.take used ++ [fills[used]] :=
        (take_append_getElem hlt).symm
      have hsplit : fills = fills.take used ++ fills[used] :: fills.drop (used + 1) := by
        rw [← singleton_append, ← append_assoc, ← htake, take_append_drop]
      have herased : fills.eraseDups = (fills.take (used + 1)).eraseDups ++
          ((fills.drop (used + 1)).removeAll (fills.take (used + 1))).eraseDups := by
        rw [← eraseDups_append, take_append_drop]
      obtain ⟨earlier, hearlier⟩ := @filter_moves_concat _ _ chosen values (fills.take used)
        (fills.drop (used + 1)) fills[used] hvalues
        (fun value hvalue ↦ (hfills value).mp (hsplit ▸ hvalue))
        (by rw [length_take, Nat.min_eq_left hlt.le, hused])
      rw [← hsplit, hfirst, herased] at hearlier
      rcases eq_nil_or_concat' ((fills.drop (used + 1)).removeAll
        (fills.take (used + 1))).eraseDups with hnone | ⟨more, latest, hmore⟩
      · have hcount := (eraseDups_perm chosen hvalues hfills).length_eq
        rw [herased, hnone, append_nil, ← countP_eq_length_filter] at hcount
        have hsub := subperm_of_subset (LastWins.nodup_eraseDups (fills.take (used + 1)))
          fun value hvalue ↦ mem_eraseDups.mp hvalue
        have hsame := hsub.perm_of_length_le (by rw [hcount, ← hused, hlength])
        exact hsame.nodup_iff.mp (LastWins.nodup_eraseDups _)
      · rw [hmore, ← append_assoc] at hearlier
        obtain ⟨-, hlatest⟩ := append_inj' hearlier rfl
        have hmem : latest ∈ (fills.drop (used + 1)).removeAll (fills.take (used + 1)) := by
          rw [← mem_eraseDups, hmore]
          simp
        have hfresh := (mem_filter.mp hmem).2
        have hlast : fills[used] ∈ fills.take (used + 1) := by
          rw [htake]
          exact mem_append_right _ mem_cons_self
        rw [(List.cons.inj hlatest).1] at hfresh
        simp [hlast] at hfresh
  · intro hdistinct
    obtain ⟨hused, herased⟩ := used_of_nodup chosen hvalues hfills hdistinct
    rw [← fill_take, foldl_moveTo hvalues (fill_perm _ hused), filter_fill _ ?_ hlength, herased]
    exact fun value hvalue ↦ ((hfills value).mp (mem_of_mem_take hvalue)).2

end Repeated

end ObsMcp.Foundations
