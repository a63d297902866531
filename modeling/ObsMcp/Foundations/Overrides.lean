import ObsMcp.Foundations.LastWins

/-!
# Overrides of keyed cells

A change sets the cells of some keys to one value. A cell that is set twice holds the second value,
so a history of changes leaves a cell as the last value of its key does (`foldl_apply`). Hence the
history may be dropped for its last value of each key: the retained values, applied one key after
another, leave the cell as the history does (`foldl_retained`).
-/

namespace ObsMcp.Foundations.Overrides

open List

open LastWins (last)

/-- A change of the cells of some keys to a value. -/
structure Change (κ β : Type) where
  keys : List κ
  value : β

variable {σ κ β : Type} [DecidableEq κ] {set : β → σ → σ} {key : κ}

namespace Change

/-- The cell of a key after a change. -/
def apply (set : β → σ → σ) (key : κ) (cell : σ) (change : Change κ β) : σ :=
  if key ∈ change.keys then set change.value cell else cell

def entries (change : Change κ β) : List (κ × β) :=
  change.keys.map fun key ↦ (key, change.value)

theorem last_entries (change : Change κ β) (key : κ) :
    last change.entries key = if key ∈ change.keys then some change.value else none := by
  obtain ⟨keys, value⟩ := change
  unfold entries
  induction keys with
  | nil => rfl
  | cons other keys ih =>
    simp only [map_cons, last] at ih ⊢
    rw [ih]
    by_cases hkeys : key ∈ keys
    · simp [hkeys]
    · by_cases hother : other = key
      · simp [hkeys, hother]
      · simp [hkeys, hother, Ne.symm hother]

end Change

/-- The entries that a history writes, one for each key of each change. -/
def entries (history : List (Change κ β)) : List (κ × β) :=
  history.flatMap Change.entries

omit [DecidableEq κ] in
theorem entries_append (first second : List (Change κ β)) :
    entries (first ++ second) = entries first ++ entries second :=
  flatMap_append

/-- A change hides the earlier values of its keys. -/
theorem last_concat (history : List (Change κ β)) (change : Change κ β) (key : κ) :
    last (entries (history ++ [change])) key =
      if key ∈ change.keys then some change.value else last (entries history) key := by
  have hone : entries [change] = change.entries := append_nil _
  rw [entries_append, LastWins.last_append, hone, Change.last_entries]
  split_ifs <;> simp

/-- Assumes: a cell that is set twice holds the second value. A history leaves a cell as the last
value of its key does. -/
theorem foldl_apply (hset : ∀ value earlier cell, set value (set earlier cell) = set value cell)
    (history : List (Change κ β)) (cell : σ) :
    history.foldl (Change.apply set key) cell =
      (last (entries history) key).elim cell (fun value ↦ set value cell) := by
  induction history using List.reverseRecOn with
  | nil => rfl
  | append_singleton history change ih =>
    rw [foldl_append, ih, last_concat, foldl_cons, foldl_nil, Change.apply]
    by_cases hkey : key ∈ change.keys
    · rw [if_pos hkey, if_pos hkey]
      cases last (entries history) key with
      | none => rfl
      | some earlier => exact hset _ _ _
    · rw [if_neg hkey, if_neg hkey]

/-! ### The retained values -/

/-- The changes of single keys to the values that a table retains for them. -/
def retained (keys : List κ) (table : κ → Option β) : List (Change κ β) :=
  keys.filterMap fun key ↦ (table key).map fun value ↦ ⟨[key], value⟩

theorem last_retained (keys : List κ) (table : κ → Option β) (key : κ) :
    last (entries (retained keys table)) key = if key ∈ keys then table key else none := by
  induction keys using List.reverseRecOn with
  | nil => rfl
  | append_singleton keys other ih =>
    have hsplit : retained (keys ++ [other]) table =
        retained keys table ++ retained [other] table := filterMap_append
    cases htable : table other with
    | none =>
      have hnone : retained [other] table = [] := by simp [retained, htable]
      rw [hsplit, hnone, append_nil, ih]
      by_cases hother : key = other
      · subst hother
        simp [htable]
      · simp [hother]
    | some value =>
      have hsome : retained [other] table = [⟨[other], value⟩] := by simp [retained, htable]
      rw [hsplit, hsome, last_concat, ih]
      by_cases hother : key = other
      · subst hother
        simp [htable]
      · simp [hother]

/-- Assumes: a cell that is set twice holds the second value, and a key among the retained ones. The
last values of a history, applied one key after another, leave the cell as the history does. -/
theorem foldl_retained (hset : ∀ value earlier cell, set value (set earlier cell) = set value cell)
    {keys : List κ} (hkey : key ∈ keys) (history : List (Change κ β)) (cell : σ) :
    (retained keys (last (entries history))).foldl (Change.apply set key) cell =
      history.foldl (Change.apply set key) cell := by
  rw [foldl_apply hset, foldl_apply hset, last_retained, if_pos hkey]

end ObsMcp.Foundations.Overrides
