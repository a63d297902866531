import Mathlib.Tactic.Ring

/-!
# Checked unsigned arithmetic

Sums, differences and products of 64-bit unsigned integers that answer nothing when they leave the
range, on the natural numbers.
-/

namespace ObsMcp.Foundations

/-- The sum, when it fits 64 bits. -/
def checkedAdd (a b : ℕ) : Option ℕ :=
  if a + b < 2 ^ 64 then some (a + b) else none

/-- The product, when it fits 64 bits. -/
def checkedMul (a b : ℕ) : Option ℕ :=
  if a * b < 2 ^ 64 then some (a * b) else none

/-- The difference, when it is not negative. -/
def checkedSub (a b : ℕ) : Option ℕ :=
  if b ≤ a then some (a - b) else none

theorem eq_of_checkedAdd {a b sum : ℕ} (hsum : checkedAdd a b = some sum) : sum = a + b := by
  unfold checkedAdd at hsum
  split_ifs at hsum
  exact (Option.some.inj hsum).symm

theorem eq_of_checkedMul {a b product : ℕ} (hproduct : checkedMul a b = some product) :
    product = a * b := by
  unfold checkedMul at hproduct
  split_ifs at hproduct
  exact (Option.some.inj hproduct).symm

theorem checkedSub_of_le {a b : ℕ} (hle : b ≤ a) : checkedSub a b = some (a - b) :=
  if_pos hle

end ObsMcp.Foundations
