import Mathlib.Data.List.Induction
import Mathlib.Data.List.Sort

/-!
# Entries where the last one of a key wins

`collect` turns a row of entries into a row with distinct keys: the keys stand in the order of their
first occurrence (`keys_collect`), and each has the value of its last one (`last_collect`). `last`
is the map that the row of entries means, and it does not see a rearrangement of distinct keys
(`last_perm`).

`arrange` sorts the entries whose keys have a rank by their ranks and puts them before the others,
which keep their order (`arrange_eq_append`). Both operations leave their own results alone
(`collect_eq_self`, `arrange_eq_self`) and commute with a change of the values.
-/

namespace ObsMcp.Foundations.LastWins

open List

variable {κ α β : Type} [DecidableEq κ] {entries : List (κ × α)} {key : κ} {value : α}

/-! ### The value of the last entry -/

/-- The value of the last entry of a key. -/
def last : List (κ × α) → κ → Option α
  | [], _ => none
  | (other, value) :: entries, key =>
    (last entries key).or (if other = key then some value else none)

theorem last_append (first second : List (κ × α)) (key : κ) :
    last (first ++ second) key = (last second key).or (last first key) := by
  induction first with
  | nil => simp [last]
  | cons entry first ih => rw [cons_append, last, last, ih, Option.or_assoc]

theorem last_eq_none_iff : last entries key = none ↔ key ∉ entries.map Prod.fst := by
  induction entries with
  | nil => simp [last]
  | cons entry entries ih =>
    rw [last, Option.or_eq_none_iff, ih, map_cons, mem_cons, not_or]
    by_cases hkey : entry.1 = key
    · simp [hkey]
    · simp [hkey, Ne.symm hkey]

theorem mem_of_last (hlast : last entries key = some value) : (key, value) ∈ entries := by
  induction entries with
  | nil => cases hlast
  | cons entry entries ih =>
    obtain ⟨other, found⟩ := entry
    rw [last, Option.or_eq_some_iff] at hlast
    rcases hlast with hrest | ⟨-, hhead⟩
    · exact mem_cons_of_mem _ (ih hrest)
    · split_ifs at hhead with hkey
      cases hhead
      rw [hkey]
      exact mem_cons_self

/-- Assumes: distinct keys. Each entry is the last one of its key. -/
theorem last_of_mem (hdistinct : (entries.map Prod.fst).Nodup) (hmem : (key, value) ∈ entries) :
    last entries key = some value := by
  induction entries with
  | nil => cases hmem
  | cons entry entries ih =>
    rw [map_cons, nodup_cons] at hdistinct
    rcases mem_cons.mp hmem with rfl | hmem
    · rw [last, last_eq_none_iff.mpr hdistinct.1]
      simp
    · rw [last, ih hdistinct.2 hmem, Option.some_or]

/-- Assumes: distinct keys. A rearrangement of the entries means the same. -/
theorem last_perm {other : List (κ × α)} (hdistinct : (entries.map Prod.fst).Nodup)
    (hperm : other.Perm entries) (key : κ) : last other key = last entries key := by
  have hother : (other.map Prod.fst).Nodup := (hperm.map Prod.fst).nodup_iff.mpr hdistinct
  cases hlast : last entries key with
  | none =>
    rw [last_eq_none_iff] at hlast ⊢
    rwa [(hperm.map Prod.fst).mem_iff]
  | some value => exact last_of_mem hother (hperm.mem_iff.mpr (mem_of_last hlast))

theorem last_map (f : α → β) (entries : List (κ × α)) (key : κ) :
    last (entries.map (Prod.map id f)) key = (last entries key).map f := by
  induction entries with
  | nil => rfl
  | cons entry entries ih =>
    rw [map_cons, last, last, ih]
    by_cases hkey : entry.1 = key <;> cases last entries key <;> simp [hkey]

/-! ### Collecting the entries -/

/-- The entries with the value of a key replaced where the key stands, or added at the end. -/
def upsert (entries : List (κ × α)) (entry : κ × α) : List (κ × α) :=
  if entry.1 ∈ entries.map Prod.fst then
    entries.map fun other ↦ if other.1 = entry.1 then (other.1, entry.2) else other
  else entries ++ [entry]

def collect (entries : List (κ × α)) : List (κ × α) :=
  entries.foldl upsert []

section

variable (entries : List (κ × α))

theorem keys_upsert (entry : κ × α) :
    (upsert entries entry).map Prod.fst =
      if entry.1 ∈ entries.map Prod.fst then entries.map Prod.fst
      else entries.map Prod.fst ++ [entry.1] := by
  unfold upsert
  by_cases hmem : entry.1 ∈ entries.map Prod.fst
  · rw [if_pos hmem, if_pos hmem, map_map]
    refine map_congr_left fun other _ ↦ ?_
    by_cases hkey : other.1 = entry.1 <;> simp [hkey]
  · rw [if_neg hmem, if_neg hmem, map_append]
    rfl

theorem last_replace (entry : κ × α) (key : κ) :
    last (entries.map fun other ↦ if other.1 = entry.1 then (other.1, entry.2) else other) key =
      if entry.1 = key then (last entries key).map fun _ ↦ entry.2 else last entries key := by
  induction entries with
  | nil => simp [last]
  | cons other entries ih =>
    rw [map_cons, last, last, ih]
    by_cases hentry : entry.1 = key <;> by_cases hother : other.1 = key
    · subst hentry
      cases last entries entry.1 <;> simp [hother]
    · subst hentry
      cases last entries entry.1 <;> simp [hother]
    · have hne : other.1 ≠ entry.1 := fun hsame ↦ hentry (hsame.symm.trans hother)
      rw [if_neg hentry, if_neg hne, if_neg hentry]
    · by_cases hsame : other.1 = entry.1 <;> simp [hentry, hother, hsame]

theorem last_upsert (entry : κ × α) (key : κ) :
    last (upsert entries entry) key =
      if entry.1 = key then some entry.2 else last entries key := by
  unfold upsert
  by_cases hmem : entry.1 ∈ entries.map Prod.fst
  · rw [if_pos hmem, last_replace]
    by_cases hkey : entry.1 = key
    · subst hkey
      obtain ⟨value, hvalue⟩ := Option.ne_none_iff_exists'.mp
        (mt last_eq_none_iff.mp (not_not_intro hmem))
      rw [if_pos rfl, if_pos rfl, hvalue, Option.map_some]
    · rw [if_neg hkey, if_neg hkey]
  · rw [if_neg hmem, last_append]
    by_cases hkey : entry.1 = key <;> simp [last, hkey]

theorem collect_append_singleton (entry : κ × α) :
    collect (entries ++ [entry]) = upsert (collect entries) entry := by
  rw [collect, foldl_append]
  rfl

/-- The keys stand in the order of their first occurrence. -/
theorem keys_collect [BEq κ] [LawfulBEq κ] :
    (collect entries).map Prod.fst = (entries.map Prod.fst).eraseDups := by
  induction entries using List.reverseRecOn with
  | nil => rfl
  | append_singleton entries entry ih =>
    rw [collect_append_singleton, keys_upsert, ih, map_append, eraseDups_append]
    by_cases hmem : entry.1 ∈ entries.map Prod.fst
    · rw [if_pos (mem_eraseDups.mpr hmem)]
      simp [List.removeAll, hmem]
    · rw [if_neg (mt mem_eraseDups.mp hmem)]
      simp [List.removeAll, hmem, eraseDups_cons]

/-- Each key has the value of its last entry. -/
theorem last_collect (key : κ) : last (collect entries) key = last entries key := by
  induction entries using List.reverseRecOn with
  | nil => rfl
  | append_singleton entries entry ih =>
    rw [collect_append_singleton, last_upsert, ih, last_append]
    by_cases hkey : entry.1 = key <;> simp [last, hkey]

end

theorem nodup_eraseDups (keys : List κ) : keys.eraseDups.Nodup := by
  induction hlength : keys.length using Nat.strong_induction_on generalizing keys with
  | _ n ih =>
    cases keys with
    | nil => exact nodup_nil
    | cons key keys =>
      rw [eraseDups_cons, nodup_cons]
      have hshort : (keys.filter fun other ↦ !other == key).length ≤ keys.length :=
        length_filter_le _ _
      rw [length_cons] at hlength
      refine ⟨fun hmem ↦ ?_, ih _ (by omega) _ rfl⟩
      have hfiltered := mem_eraseDups.mp hmem
      simp at hfiltered

theorem eraseDups_eq_self {keys : List κ} (hdistinct : keys.Nodup) : keys.eraseDups = keys := by
  induction keys with
  | nil => rfl
  | cons key keys ih =>
    obtain ⟨hkey, hdistinct⟩ := nodup_cons.mp hdistinct
    have hothers : (keys.filter fun other ↦ !other == key) = keys :=
      filter_eq_self.mpr fun other hother ↦ by
        simp only [Bool.not_eq_true', beq_eq_false_iff_ne]
        exact ne_of_mem_of_not_mem hother hkey
    rw [eraseDups_cons, hothers, ih hdistinct]

theorem nodup_keys_collect (entries : List (κ × α)) : ((collect entries).map Prod.fst).Nodup := by
  rw [keys_collect]
  exact nodup_eraseDups _

/-- Assumes: distinct keys. Such entries are collected already. -/
theorem collect_eq_self (hdistinct : (entries.map Prod.fst).Nodup) : collect entries = entries := by
  induction entries using List.reverseRecOn with
  | nil => rfl
  | append_singleton entries entry ih =>
    rw [map_append, nodup_append] at hdistinct
    have hfresh : entry.1 ∉ entries.map Prod.fst := fun hmem ↦
      hdistinct.2.2 _ hmem _ mem_cons_self rfl
    rw [collect_append_singleton, ih hdistinct.1, upsert, if_neg hfresh]

/-- What is collected are entries of the row. -/
theorem mem_of_mem_collect {entry : κ × α} (hmem : entry ∈ collect entries) : entry ∈ entries := by
  have hlast := last_of_mem (nodup_keys_collect entries) hmem
  rw [last_collect] at hlast
  exact mem_of_last hlast

theorem upsert_map (f : α → β) (entries : List (κ × α)) (entry : κ × α) :
    upsert (entries.map (Prod.map id f)) (Prod.map id f entry) =
      (upsert entries entry).map (Prod.map id f) := by
  have hkeys : (entries.map (Prod.map id f)).map Prod.fst = entries.map Prod.fst := by
    rw [map_map]
    rfl
  unfold upsert
  rw [hkeys]
  by_cases hmem : entry.1 ∈ entries.map Prod.fst
  · have hmem' : (Prod.map id f entry).1 ∈ entries.map Prod.fst := hmem
    rw [if_pos hmem, if_pos hmem', map_map, map_map]
    refine map_congr_left fun other _ ↦ ?_
    by_cases hkey : other.1 = entry.1 <;> simp [hkey, Prod.map]
  · have hmem' : (Prod.map id f entry).1 ∉ entries.map Prod.fst := hmem
    rw [if_neg hmem, if_neg hmem', map_append]
    rfl

theorem collect_map (f : α → β) (entries : List (κ × α)) :
    collect (entries.map (Prod.map id f)) = (collect entries).map (Prod.map id f) := by
  induction entries using List.reverseRecOn with
  | nil => rfl
  | append_singleton entries entry ih =>
    rw [map_append, map_singleton, collect_append_singleton, collect_append_singleton, ih,
      upsert_map]

/-! ### Arranging the entries -/

/-- The order of two ranks: a key without a rank stands after every key with one. -/
def rankLe : Option ℕ → Option ℕ → Bool
  | some m, some n => m ≤ n
  | some _, none => true
  | none, some _ => false
  | none, none => true

/-- The entries sorted by the ranks of their keys; the sort is stable. -/
def arrange (rank : κ → Option ℕ) (entries : List (κ × α)) : List (κ × α) :=
  entries.mergeSort fun first second ↦ rankLe (rank first.1) (rank second.1)

section Arrange

variable (rank : κ → Option ℕ)

theorem rankLe_trans (a b c : Option ℕ) (hab : rankLe a b = true) (hbc : rankLe b c = true) :
    rankLe a c = true := by
  cases a <;> cases b <;> cases c <;> simp_all [rankLe]
  omega

theorem rankLe_total (a b : Option ℕ) : (rankLe a b || rankLe b a) = true := by
  cases a <;> cases b <;> simp [rankLe]
  omega

omit [DecidableEq κ] in
theorem arrange_perm (entries : List (κ × α)) : (arrange rank entries).Perm entries :=
  mergeSort_perm _ _

omit [DecidableEq κ] in
theorem arrange_pairwise (entries : List (κ × α)) :
    (arrange rank entries).Pairwise fun first second ↦
      rankLe (rank first.1) (rank second.1) = true :=
  pairwise_mergeSort (fun a b c ↦ rankLe_trans (rank a.1) (rank b.1) (rank c.1))
    (fun a b ↦ rankLe_total (rank a.1) (rank b.1)) entries

omit [DecidableEq κ] in
/-- Assumes: entries in the order of their ranks. Such entries are arranged already. -/
theorem arrange_eq_self (hsorted : entries.Pairwise fun first second ↦
    rankLe (rank first.1) (rank second.1) = true) : arrange rank entries = entries :=
  mergeSort_of_pairwise hsorted

omit [DecidableEq κ] in
theorem arrange_map (f : α → β) (entries : List (κ × α)) :
    arrange rank (entries.map (Prod.map id f)) = (arrange rank entries).map (Prod.map id f) := by
  have hmap := @map_mergeSort (κ × α) (κ × β)
    (fun first second ↦ rankLe (rank first.1) (rank second.1))
    (fun first second ↦ rankLe (rank first.1) (rank second.1)) (Prod.map id f) entries
    (fun _ _ _ _ ↦ rfl)
  exact hmap.symm

omit [DecidableEq κ] in
/-- Entries in the order of their ranks are the ranked ones and then the others. -/
theorem eq_filter_append_filter (hsorted : entries.Pairwise fun first second ↦
    rankLe (rank first.1) (rank second.1) = true) :
    entries = entries.filter (fun entry ↦ (rank entry.1).isSome) ++
      entries.filter (fun entry ↦ (rank entry.1).isNone) := by
  induction entries with
  | nil => rfl
  | cons entry entries ih =>
    rw [pairwise_cons] at hsorted
    cases hrank : rank entry.1 with
    | some n => simpa [hrank] using ih hsorted.2
    | none =>
      have hrest : ∀ other ∈ entries, rank other.1 = none := by
        intro other hother
        have hle := hsorted.1 other hother
        rw [hrank] at hle
        cases hother : rank other.1 with
        | none => rfl
        | some n => simp [hother, rankLe] at hle
      have hsome : entries.filter (fun entry ↦ (rank entry.1).isSome) = [] := by
        simpa [filter_eq_nil_iff] using hrest
      have hnone : entries.filter (fun entry ↦ (rank entry.1).isNone) = entries := by
        simpa [filter_eq_self] using hrest
      simp [hrank, hsome, hnone]

omit [DecidableEq κ] in
/-- The arranged entries are those with a rank, in the order of the ranks, and then the others as
they stood. -/
theorem arrange_eq_append (entries : List (κ × α)) :
    arrange rank entries = (arrange rank entries).filter (fun entry ↦ (rank entry.1).isSome) ++
      entries.filter (fun entry ↦ (rank entry.1).isNone) := by
  have hsplit := eq_filter_append_filter rank (arrange_pairwise rank entries)
  have hpairwise : (entries.filter (fun entry ↦ (rank entry.1).isNone)).Pairwise
      fun first second ↦ rankLe (rank first.1) (rank second.1) = true := by
    refine pairwise_of_forall_mem_list fun first hfirst second hsecond ↦ ?_
    have hfirst' := (mem_filter.mp hfirst).2
    have hsecond' := (mem_filter.mp hsecond).2
    rw [Option.isNone_iff_eq_none] at hfirst' hsecond'
    rw [hfirst', hsecond']
    rfl
  have hsublist : (entries.filter (fun entry ↦ (rank entry.1).isNone)).Sublist
      (arrange rank entries) :=
    sublist_mergeSort (fun a b c ↦ rankLe_trans (rank a.1) (rank b.1) (rank c.1))
      (fun a b ↦ rankLe_total (rank a.1) (rank b.1)) hpairwise filter_sublist
  have hfiltered := hsublist.filter (fun entry ↦ (rank entry.1).isNone)
  rw [filter_filter] at hfiltered
  simp only [Bool.and_self] at hfiltered
  have hlength := ((arrange_perm rank entries).filter
    (fun entry ↦ (rank entry.1).isNone)).length_eq
  have hsame := hfiltered.eq_of_length hlength.symm
  rw [← hsame] at hsplit
  exact hsplit

end Arrange

end ObsMcp.Foundations.LastWins
