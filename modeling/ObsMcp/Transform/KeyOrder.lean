import Mathlib.Algebra.Order.BigOperators.Group.List
import ObsMcp.Transform.Canonical

/-!
# The order of the keys

The keys of an object stand as JavaScript enumerates them. `index_eq_some_iff` says which keys are
array indices: the decimal numerals of the numbers up to `2 ^ 32 - 2`. `KeyOrder` is the order that
is wanted, in terms of the keys as they are written: the indices ascending, and then the other keys
in the order of their first occurrence. `keyOrder_arranged` says that `arranged` puts the keys so,
`last_arranged` that no value changes, and `arranged_eq_self` that keys which stand so stay where
they are.
-/

namespace ObsMcp.Transform

open Foundations List LastWins

/-! ### Array indices -/

theorem readDigits_toDigits (n : ℕ) : Text.readDigits (Nat.toDigits 10 n) = some n := by
  have hdigits : ((Nat.toDigits 10 n).all Char.isDigit) = true :=
    all_eq_true.mpr fun c hc ↦ Nat.isDigit_of_mem_toDigits (by decide) (by decide) hc
  have hvalue := @Nat.ofDigitChars_ten_toDigits n
  rw [Nat.ofDigitChars_eq_foldl] at hvalue
  rw [Text.readDigits, if_pos ⟨Nat.toDigits_ne_nil, hdigits⟩, hvalue]

variable {n : ℕ}

theorem readU64_toDigits (hn : n < 2 ^ 64) : Text.readU64 (Nat.toDigits 10 n) = some n := by
  have hread : (Text.readDigits (Nat.toDigits 10 n)).filter (· < 2 ^ 64) = some n := by
    rw [readDigits_toDigits, Option.filter_some, if_pos (by simpa using hn)]
  unfold Text.readU64
  split
  · rename_i digits hplus
    have hdigit : '+'.isDigit = true :=
      Nat.isDigit_of_mem_toDigits (b := 10) (n := n) (by decide) (by decide)
        (hplus ▸ mem_cons_self)
    exact absurd hdigit (by decide)
  · exact hread

/-- The array indices are the decimal numerals of the numbers up to `2 ^ 32 - 2`. -/
theorem index_eq_some_iff {key : List Char} :
    index key = some n ↔ key = (toString n).toList ∧ n ≤ 2 ^ 32 - 2 := by
  unfold index
  rw [Option.filter_eq_some_iff]
  simp only [Bool.and_eq_true, decide_eq_true_eq, beq_iff_eq]
  constructor
  · rintro ⟨-, ⟨hsmall, hmax⟩, hkey⟩
    exact ⟨hkey.symm, by omega⟩
  · rintro ⟨rfl, hn⟩
    have htext : (toString n).toList = Nat.toDigits 10 n := Nat.toList_repr
    rw [htext]
    exact ⟨readU64_toDigits (by omega), ⟨by omega, by omega⟩, rfl⟩

/-- Two keys with one index are the same. -/
theorem index_inj {first second : List Char} (hfirst : index first = some n)
    (hsecond : index second = some n) : first = second :=
  (index_eq_some_iff.mp hfirst).1.trans (index_eq_some_iff.mp hsecond).1.symm

/-! ### The order -/

/-- The keys of a row of members stand in the order of JavaScript: the array indices among them
ascending, and then the others in the order of their first occurrence. -/
def KeyOrder (written keys : List (List Char)) : Prop :=
  ∃ indices, keys = indices ++ (written.filter fun key ↦ (index key).isNone).eraseDups ∧
    (∀ key, key ∈ indices ↔ key ∈ written ∧ (index key).isSome = true) ∧
    indices.Pairwise fun first second ↦
      ∃ m n, index first = some m ∧ index second = some n ∧ m < n

section Arranged

variable {α : Type}

theorem filter_eraseDups {κ : Type} [BEq κ] [LawfulBEq κ] (inside : κ → Bool) (keys : List κ) :
    keys.eraseDups.filter inside = (keys.filter inside).eraseDups := by
  induction keys using List.reverseRecOn with
  | nil => rfl
  | append_singleton keys key ih =>
    rw [eraseDups_append, filter_append, filter_append, eraseDups_append, ih]
    congr 1
    by_cases hinside : inside key = true
    · by_cases hmem : key ∈ keys
      · simp [List.removeAll, hmem, hinside]
      · simp [List.removeAll, hmem, hinside, eraseDups_cons]
    · by_cases hmem : key ∈ keys
      · simp [List.removeAll, hmem, hinside]
      · simp [List.removeAll, hmem, hinside, eraseDups_cons]

variable {entries : List (List Char × α)}

theorem mem_keys_arranged {key : List Char} :
    key ∈ (arranged entries).map Prod.fst ↔ key ∈ entries.map Prod.fst := by
  have hperm := (arrange_perm index (collect entries)).map Prod.fst
  rw [arranged, hperm.mem_iff, keys_collect, mem_eraseDups]

theorem nodup_keys_arranged (entries : List (List Char × α)) :
    ((arranged entries).map Prod.fst).Nodup :=
  ((arrange_perm index _).map Prod.fst).nodup_iff.mpr (nodup_keys_collect entries)

/-- No value changes: each key has that of its last entry. -/
theorem last_arranged (entries : List (List Char × α)) (key : List Char) :
    last (arranged entries) key = last entries key := by
  rw [arranged, last_perm (nodup_keys_collect entries)
    (arrange_perm index _), last_collect]

/-- The keys are put in the order of JavaScript. -/
theorem keyOrder_arranged (entries : List (List Char × α)) :
    KeyOrder (entries.map Prod.fst) ((arranged entries).map Prod.fst) := by
  have hsplit := arrange_eq_append index (collect entries)
  refine ⟨((arranged entries).filter fun entry ↦ (index entry.1).isSome).map Prod.fst, ?_, ?_, ?_⟩
  · have hothers : ((collect entries).filter fun entry ↦ (index entry.1).isNone).map
        Prod.fst = ((entries.map Prod.fst).filter fun key ↦ (index key).isNone).eraseDups := by
      rw [← filter_eraseDups, ← keys_collect, filter_map]
      rfl
    rw [← hothers, ← map_append]
    exact congrArg (List.map Prod.fst) hsplit
  · intro key
    have hmem := @mem_keys_arranged α entries key
    rw [← hmem]
    constructor
    · intro hkey
      obtain ⟨entry, hentry, rfl⟩ := mem_map.mp hkey
      obtain ⟨hmem, hindex⟩ := mem_filter.mp hentry
      exact ⟨mem_map_of_mem hmem, hindex⟩
    · rintro ⟨hkey, hindex⟩
      obtain ⟨entry, hentry, rfl⟩ := mem_map.mp hkey
      exact mem_map_of_mem (mem_filter.mpr ⟨hentry, hindex⟩)
  · rw [pairwise_map]
    have hsorted := (arrange_pairwise index (collect entries)).filter
      fun entry ↦ (index entry.1).isSome
    have hdistinct : (arranged entries).Pairwise fun first second ↦ first.1 ≠ second.1 :=
      pairwise_map.mp (nodup_keys_arranged entries)
    refine ((hsorted.and (hdistinct.filter _)).imp_of_mem ?_)
    rintro first second hfirst hsecond ⟨hle, hne⟩
    obtain ⟨m, hm⟩ := Option.isSome_iff_exists.mp (mem_filter.mp hfirst).2
    obtain ⟨n, hn⟩ := Option.isSome_iff_exists.mp (mem_filter.mp hsecond).2
    refine ⟨m, n, hm, hn, ?_⟩
    rw [hm, hn] at hle
    have hdifferent : m ≠ n := fun hsame ↦ hne (index_inj hm (hsame ▸ hn))
    have hless : m ≤ n := by simpa [rankLe] using hle
    omega

/-- Entries with the keys of arranged ones are arranged. -/
theorem arranged_eq_self {β : Type} {others : List (List Char × β)}
    (hkeys : others.map Prod.fst = (arranged entries).map Prod.fst) : arranged others = others := by
  have hdistinct : (others.map Prod.fst).Nodup := by
    rw [hkeys]
    exact nodup_keys_arranged entries
  have hsorted : (others.map Prod.fst).Pairwise fun first second ↦
      rankLe (index first) (index second) = true := by
    rw [hkeys, pairwise_map]
    exact arrange_pairwise index _
  rw [arranged, collect_eq_self hdistinct]
  exact arrange_eq_self index (pairwise_map.mp hsorted)

/-- Arranging adds nothing. -/
theorem sum_arranged_le (size : α → ℕ) (entries : List (List Char × α)) :
    ((arranged entries).map fun entry ↦ size entry.2).sum ≤
      (entries.map fun entry ↦ size entry.2).sum := by
  have hsubset : arranged entries ⊆ entries := fun _ hmem ↦ mem_of_mem_arranged hmem
  have hnodup : (arranged entries).Nodup := (nodup_keys_arranged entries).of_map
  obtain ⟨part, hperm, hsublist⟩ := subperm_of_subset hnodup hsubset
  rw [← (hperm.map fun entry ↦ size entry.2).sum_nat]
  exact (hsublist.map fun entry ↦ size entry.2).sum_le_sum fun _ _ ↦ Nat.zero_le _

end Arranged

end ObsMcp.Transform
