import ObsMcp.Foundations.Charges

/-!
# Counting semaphores and owned permits

A family of semaphores is given by the permits each of them has available. `tryAcquire` takes
permits from one semaphore or answers nothing, and `release` gives an owned permit back. An owner
holds a list of permits, in the order in which it releases them; `charge` is what the list takes
from a semaphore. Acquiring and releasing move permits between a semaphore and a list:
`add_charge_of_tryAcquire` and `release_apply`.
-/

namespace ObsMcp.Foundations

/-- A number of permits of one semaphore. -/
structure Permit (κ : Type*) where
  pool : κ
  count : ℕ
  deriving DecidableEq

variable {κ : Type*} [DecidableEq κ]

/-- The permits of a semaphore among those of a list. -/
def charge (permits : List (Permit κ)) (pool : κ) : ℕ :=
  (permits.map (fun permit ↦ if permit.pool = pool then permit.count else 0)).sum

@[simp] theorem charge_nil (pool : κ) : charge [] pool = 0 := rfl

@[simp] theorem charge_cons (permit : Permit κ) (permits : List (Permit κ)) (pool : κ) :
    charge (permit :: permits) pool =
      (if permit.pool = pool then permit.count else 0) + charge permits pool := by
  simp [charge]

/-- What is left of a list charges at most what the list charged. -/
theorem charge_le_of_suffix {permits whole : List (Permit κ)} (hsuffix : permits <:+ whole)
    (pool : κ) : charge permits pool ≤ charge whole pool := by
  obtain ⟨released, rfl⟩ := hsuffix
  simp [charge]

variable {pool : κ} {available taken : κ → ℕ} {count : ℕ}

/-- A list without permits of a semaphore charges it nothing. -/
theorem charge_eq_zero {permits : List (Permit κ)}
    (hpool : ∀ permit ∈ permits, permit.pool ≠ pool) :
    charge permits pool = 0 := by
  induction permits with
  | nil => rfl
  | cons permit permits ih =>
    rw [charge_cons, if_neg (hpool permit List.mem_cons_self),
      ih fun other hother ↦ hpool other (List.mem_cons_of_mem _ hother)]

/-- Permits of a semaphore, when it has enough of them. -/
def tryAcquire (available : κ → ℕ) (pool : κ) (count : ℕ) : Option (κ → ℕ) :=
  if count ≤ available pool then
    some (Function.update available pool (available pool - count))
  else none

def release (available : κ → ℕ) (permit : Permit κ) : κ → ℕ :=
  Function.update available permit.pool (available permit.pool + permit.count)

theorem release_of_ne {available : κ → ℕ} {permit : Permit κ} {pool : κ}
    (hpool : pool ≠ permit.pool) :
    release available permit pool = available pool :=
  Function.update_of_ne hpool _ _

theorem release_apply (available : κ → ℕ) (permit : Permit κ) (pool : κ) :
    release available permit pool = available pool + charge [permit] pool := by
  by_cases hpool : pool = permit.pool
  · subst hpool
    simp [release]
  · rw [release_of_ne hpool, charge_cons, if_neg (Ne.symm hpool)]
    simp

section

variable (htaken : tryAcquire available pool count = some taken)
include htaken

theorem le_of_tryAcquire : count ≤ available pool := by
  unfold tryAcquire at htaken
  split_ifs at htaken with hle
  exact hle

/-- What was acquired and what is left make up what was available. -/
theorem add_charge_of_tryAcquire (other : κ) :
    taken other + charge [⟨pool, count⟩] other = available other := by
  unfold tryAcquire at htaken
  split_ifs at htaken with hle
  cases htaken
  by_cases hother : other = pool
  · subst hother
    simp only [Function.update_self, charge_cons, if_true, charge_nil]
    omega
  · rw [Function.update_of_ne hother, charge_cons, if_neg (Ne.symm hother)]
    simp

/-- Giving back what was acquired restores the semaphores. -/
theorem release_of_tryAcquire : release taken ⟨pool, count⟩ = available := by
  funext other
  rw [release_apply, add_charge_of_tryAcquire htaken]

end

/-- Nothing is acquired only when too little is available. -/
theorem tryAcquire_eq_none : tryAcquire available pool count = none ↔ available pool < count := by
  unfold tryAcquire
  split_ifs with hle <;> simp <;> omega

end ObsMcp.Foundations
