import Mathlib.Data.List.Nodup
import Mathlib.Tactic.Ring

/-!
# Maps with distinct keys

A `KeyMap` is the content of a hash map: its entries in some order, with a proof that no key occurs
twice. `insert` replaces the entry of its key and `erase` drops it. The sum of a charge over the
entries follows an erasure (`sum_erase`).
-/

namespace ObsMcp.Foundations

open List

/-- The entries of a map, no two with the same key. -/
@[ext]
structure KeyMap (κ α : Type*) where
  entries : List (κ × α)
  distinct : (entries.map Prod.fst).Nodup

namespace KeyMap

variable {κ α : Type*} [DecidableEq κ] {map : KeyMap κ α} {key other : κ} {value found : α}

def empty : KeyMap κ α := ⟨[], nodup_nil⟩

omit [DecidableEq κ] in
@[simp] theorem entries_empty : (empty : KeyMap κ α).entries = [] := rfl

/-- The value of a key. -/
def get (map : KeyMap κ α) (key : κ) : Option α :=
  (map.entries.find? (fun entry ↦ entry.1 = key)).map Prod.snd

/-- The map with only the keys that meet a condition. -/
def filter (map : KeyMap κ α) (keep : κ → Bool) : KeyMap κ α where
  entries := map.entries.filter (fun entry ↦ keep entry.1)
  distinct := map.distinct.sublist (filter_sublist.map _)

/-- The map without a key. -/
def erase (map : KeyMap κ α) (key : κ) : KeyMap κ α :=
  map.filter (fun other ↦ other ≠ key)

/-- The map with the value of one key replaced, or added at the end. -/
def insert (map : KeyMap κ α) (key : κ) (value : α) : KeyMap κ α where
  entries := (map.erase key).entries ++ [(key, value)]
  distinct := by
    rw [map_append, nodup_append]
    refine ⟨(map.erase key).distinct, nodup_singleton _, ?_⟩
    simp [erase, filter]

/-- The map with a function applied to the value of one key. -/
def modify (map : KeyMap κ α) (key : κ) (f : α → α) : KeyMap κ α where
  entries := map.entries.map (fun entry ↦ if entry.1 = key then (entry.1, f entry.2) else entry)
  distinct := by
    have hkeys : (map.entries.map (fun entry ↦
        if entry.1 = key then (entry.1, f entry.2) else entry)).map Prod.fst =
          map.entries.map Prod.fst := by
      rw [map_map]
      refine map_congr_left fun entry _ ↦ ?_
      by_cases hentry : entry.1 = key <;> simp [hentry]
    rw [hkeys]
    exact map.distinct

/-- The map with only the entries that meet a condition. -/
def retain (map : KeyMap κ α) (keep : κ → α → Bool) : KeyMap κ α where
  entries := map.entries.filter (fun entry ↦ keep entry.1 entry.2)
  distinct := map.distinct.sublist (filter_sublist.map _)

/-- The map with a function applied to every value. -/
def mapValues (map : KeyMap κ α) (f : α → α) : KeyMap κ α where
  entries := map.entries.map (fun entry ↦ (entry.1, f entry.2))
  distinct := by
    rw [map_map]
    exact map.distinct

/-! ### Membership -/

omit [DecidableEq κ] in
theorem eq_of_mem_of_mem (hvalue : (key, value) ∈ map.entries)
    (hfound : (key, found) ∈ map.entries) : value = found := by
  have hinj := inj_on_of_nodup_map map.distinct hvalue hfound rfl
  exact congrArg Prod.snd hinj

theorem get_eq_some_iff : map.get key = some value ↔ (key, value) ∈ map.entries := by
  constructor
  · intro hget
    obtain ⟨entry, hentry, rfl⟩ := Option.map_eq_some_iff.mp hget
    have hkey : entry.1 = key := by simpa using find?_some hentry
    rw [← hkey]
    exact mem_of_find?_eq_some hentry
  · intro hmem
    obtain ⟨entry, hentry⟩ :
        ∃ entry, map.entries.find? (fun entry ↦ entry.1 = key) = some entry := by
      rw [← Option.isSome_iff_exists, find?_isSome]
      exact ⟨_, hmem, by simp⟩
    have hkey : entry.1 = key := by simpa using find?_some hentry
    have hmem' : (key, entry.2) ∈ map.entries := by
      rw [← hkey]
      exact mem_of_find?_eq_some hentry
    simp [get, hentry, eq_of_mem_of_mem hmem hmem']

theorem get_eq_none_iff : map.get key = none ↔ ∀ entry ∈ map.entries, entry.1 ≠ key := by
  simp [get, find?_eq_none]

omit [DecidableEq κ] in
@[simp] theorem mem_filter {keep : κ → Bool} {entry : κ × α} :
    entry ∈ (map.filter keep).entries ↔ entry ∈ map.entries ∧ keep entry.1 = true := by
  simp [filter]

omit [DecidableEq κ] in
theorem filter_entries_sublist {keep : κ → Bool} : (map.filter keep).entries.Sublist map.entries :=
  filter_sublist

/-- Erasing an absent key changes nothing. -/
theorem erase_entries_of_get_none (hget : map.get key = none) :
    (map.erase key).entries = map.entries := by
  rw [get_eq_none_iff] at hget
  simpa [erase, filter] using hget

theorem insert_entries_of_get_none (hget : map.get key = none) (value : α) :
    (map.insert key value).entries = map.entries ++ [(key, value)] := by
  show (map.erase key).entries ++ [(key, value)] = _
  rw [erase_entries_of_get_none hget]

/-! ### Lookup -/

theorem get_insert (map : KeyMap κ α) (key : κ) (value : α) (other : κ) :
    (map.insert key value).get other = if other = key then some value else map.get other := by
  by_cases hother : other = key
  · subst hother
    rw [if_pos rfl, get_eq_some_iff]
    exact mem_append_right _ (mem_singleton_self _)
  · rw [if_neg hother]
    ext found
    rw [get_eq_some_iff, get_eq_some_iff]
    show (other, found) ∈ (map.erase key).entries ++ [(key, value)] ↔ _
    simp [erase, hother]

theorem get_modify (map : KeyMap κ α) (key : κ) (f : α → α) (other : κ) :
    (map.modify key f).get other = if other = key then (map.get key).map f else map.get other := by
  have hmem : ∀ found, (other, found) ∈ (map.modify key f).entries ↔
      ∃ value, (other, value) ∈ map.entries ∧ found = if other = key then f value else value := by
    intro found
    simp only [modify, mem_map]
    constructor
    · rintro ⟨⟨k, value⟩, hentry, heq⟩
      by_cases hk : k = key
      · simp only [hk, if_true, Prod.mk.injEq] at heq hentry
        obtain ⟨rfl, rfl⟩ := heq
        exact ⟨value, hentry, by rw [if_pos rfl]⟩
      · simp only [hk, if_false, Prod.mk.injEq] at heq
        obtain ⟨rfl, rfl⟩ := heq
        exact ⟨value, hentry, by rw [if_neg hk]⟩
    · rintro ⟨value, hentry, rfl⟩
      refine ⟨(other, value), hentry, ?_⟩
      by_cases hother : other = key <;> simp [hother]
  ext found
  rw [get_eq_some_iff, hmem]
  by_cases hother : other = key
  · subst hother
    simp only [if_true, Option.map_eq_some_iff, get_eq_some_iff]
    exact ⟨fun ⟨value, hvalue, heq⟩ ↦ ⟨value, hvalue, heq.symm⟩,
      fun ⟨value, hvalue, heq⟩ ↦ ⟨value, hvalue, heq.symm⟩⟩
  · simp only [hother, if_false, get_eq_some_iff]
    exact ⟨fun ⟨value, hvalue, heq⟩ ↦ heq ▸ hvalue, fun hvalue ↦ ⟨found, hvalue, rfl⟩⟩

theorem get_erase (map : KeyMap κ α) (key other : κ) :
    (map.erase key).get other = if other = key then none else map.get other := by
  ext found
  rw [get_eq_some_iff]
  by_cases hother : other = key
  · simp [erase, hother]
  · simp [erase, hother, get_eq_some_iff]

theorem get_retain (map : KeyMap κ α) (keep : κ → α → Bool) (other : κ) :
    (map.retain keep).get other = (map.get other).filter (keep other) := by
  ext found
  rw [get_eq_some_iff, Option.filter_eq_some_iff, get_eq_some_iff]
  simp [retain]

/-! ### Charges -/

/-- Erasing a present key takes its charge off the sum. -/
theorem sum_erase (charge : α → ℕ) (hget : map.get key = some value) :
    (map.entries.map (fun entry ↦ charge entry.2)).sum =
      ((map.erase key).entries.map (fun entry ↦ charge entry.2)).sum + charge value := by
  have hmem := get_eq_some_iff.mp hget
  obtain ⟨before, after, hsplit⟩ := append_of_mem hmem
  have hdistinct := map.distinct
  rw [hsplit, map_append, map_cons, nodup_append] at hdistinct
  obtain ⟨-, hafter, hbefore⟩ := hdistinct
  have herase : (map.erase key).entries = before ++ after := by
    show map.entries.filter (fun entry ↦ entry.1 ≠ key) = before ++ after
    rw [hsplit, filter_append, filter_cons]
    simp only [ne_eq, not_true_eq_false, decide_false, Bool.false_eq_true, if_false]
    congr 1
    · refine filter_eq_self.mpr fun entry hentry ↦ ?_
      have := hbefore entry.1 (mem_map_of_mem hentry) key (by simp)
      simpa using this
    · refine filter_eq_self.mpr fun entry hentry ↦ ?_
      have := (nodup_cons.mp hafter).1
      simp only [mem_map, not_exists, not_and] at this
      simpa using this entry hentry
  rw [herase, hsplit]
  simp only [map_append, map_cons, sum_append, sum_cons]
  omega

/-! ### Counts -/

section Counts

variable (p : α → Bool)

theorem countP_insert (hget : map.get key = none) :
    (map.insert key value).entries.countP (fun entry ↦ p entry.2) =
      map.entries.countP (fun entry ↦ p entry.2) + if p value then 1 else 0 := by
  rw [insert_entries_of_get_none hget, countP_append, countP_singleton]

theorem countP_erase_le :
    (map.erase key).entries.countP (fun entry ↦ p entry.2) ≤
      map.entries.countP (fun entry ↦ p entry.2) :=
  filter_entries_sublist.countP_le

/-- No key is counted twice. -/
theorem countP_key_le_one (map : KeyMap κ α) (key : κ) :
    map.entries.countP (fun entry ↦ entry.1 = key) ≤ 1 := by
  have hcount := nodup_iff_count_le_one.mp map.distinct key
  rw [count_eq_countP, countP_map] at hcount
  refine Nat.le_trans (countP_mono_left fun entry _ hentry ↦ ?_) hcount
  simpa using hentry

end Counts

end KeyMap

end ObsMcp.Foundations
