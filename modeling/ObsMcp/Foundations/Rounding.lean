import Mathlib.Data.Int.ConditionallyCompleteOrder
import Mathlib.Data.Int.Log
import Mathlib.Data.Rat.Floor
import Mathlib.Tactic.FieldSimp
import Mathlib.Tactic.Linarith

/-!
# Rounded arithmetic

A program that computes with floats rounds the exact result of every operation. `Rounding` is what a
proof needs of that: it keeps the order and zero, leaves the whole numbers up to 2^53 alone, and is
close. `Rounding.exact` rounds nothing, and `Rounding.binary64` is rounding to the nearest number of
53 binary digits, the one with an even last digit of two, with the least exponent of binary64.

A number is rounded on the grid of its own binade. `nearest_mono` goes from one binade to the next
over the power of two between them, which is on both grids.
-/

namespace ObsMcp.Foundations

/-! ### Whole numbers -/

/-- The nearest whole number, and the even one of two. -/
def halfEven (n : ℚ) : ℤ :=
  if n - ⌊n⌋ < 1 / 2 then ⌊n⌋
  else if 1 / 2 < n - ⌊n⌋ then ⌊n⌋ + 1
  else if 2 ∣ ⌊n⌋ then ⌊n⌋
  else ⌊n⌋ + 1

theorem halfEven_intCast (k : ℤ) : halfEven k = k := by
  simp [halfEven]

theorem halfEven_near (n : ℚ) : |halfEven n - n| ≤ 1 / 2 := by
  have hfloor := Int.floor_le n
  have hlt := Int.lt_floor_add_one n
  unfold halfEven
  rw [abs_le]
  split_ifs <;> push_cast <;> constructor <;> linarith

theorem halfEven_mono : Monotone halfEven := by
  intro a b hab
  have hbounds (n : ℚ) : ⌊n⌋ ≤ halfEven n ∧ halfEven n ≤ ⌊n⌋ + 1 := by
    unfold halfEven
    split_ifs <;> omega
  rcases (Int.floor_le_floor hab).lt_or_eq with hlt | heq
  · exact ((hbounds a).2.trans hlt).trans (hbounds b).1
  · unfold halfEven
    rw [heq]
    split_ifs <;> first | omega | (exfalso; linarith)

/-! ### A grid -/

/-- The nearest number on a grid. -/
def onGrid (spacing n : ℚ) : ℚ :=
  halfEven (n / spacing) * spacing

section Grid

variable {spacing n : ℚ}

theorem onGrid_near (hspacing : 0 < spacing) (n : ℚ) : |onGrid spacing n - n| ≤ spacing / 2 := by
  have hnear := halfEven_near (n / spacing)
  have hsplit : onGrid spacing n - n = (halfEven (n / spacing) - n / spacing) * spacing := by
    unfold onGrid
    field_simp
  rw [hsplit, abs_mul, abs_of_pos hspacing]
  linarith [mul_le_mul_of_nonneg_right hnear hspacing.le]

theorem onGrid_mono (hspacing : 0 < spacing) : Monotone (onGrid spacing) := by
  intro a b hab
  have hhalf := halfEven_mono (div_le_div_of_nonneg_right hab hspacing.le)
  exact mul_le_mul_of_nonneg_right (Int.cast_le.mpr hhalf) hspacing.le

theorem onGrid_mul (hspacing : 0 < spacing) (k : ℤ) :
    onGrid spacing (k * spacing) = k * spacing := by
  unfold onGrid
  rw [mul_div_cancel_right₀ _ hspacing.ne', halfEven_intCast]

end Grid

/-! ### Binary digits -/

section Binary

variable (digits : ℕ) (least : ℤ)

/-- The exponent of the grid of a number. -/
def gridExponent (n : ℚ) : ℤ :=
  max (Int.log 2 |n| + 1 - digits) least

/-- The nearest number of binary digits, with a least exponent. -/
def nearest (n : ℚ) : ℚ :=
  onGrid (2 ^ gridExponent digits least n) n

variable {digits least} {n : ℚ}

theorem nearest_zero : nearest digits least 0 = 0 := by
  have hgrid := onGrid_mul (zpow_pos (two_pos) (gridExponent digits least 0)) 0
  simpa [nearest] using hgrid

/-- A multiple of a power of two that is not below the grid is on it. -/
theorem onGrid_zpow {grid exponent : ℤ} (hle : grid ≤ exponent) (k : ℤ) :
    onGrid (2 ^ grid) (k * 2 ^ exponent) = k * 2 ^ exponent := by
  obtain ⟨more, rfl⟩ := Int.le.dest hle
  have hmultiple : (k * 2 ^ (grid + more) : ℚ) = ((k * 2 ^ more : ℤ) : ℚ) * 2 ^ grid := by
    rw [zpow_add₀ two_ne_zero, zpow_natCast]
    push_cast
    ring
  rw [hmultiple, onGrid_mul (zpow_pos two_pos grid)]

theorem nearest_near (hleast : least < 1 - digits) (n : ℚ) :
    |nearest digits least n - n| ≤ max 1 |n| / 2 ^ digits := by
  by_cases hn : n = 0
  · rw [hn, nearest_zero, sub_zero, abs_zero]
    positivity
  · refine (onGrid_near (zpow_pos two_pos _) n).trans ?_
    have hhalf : (2 : ℚ) ^ gridExponent digits least n / 2 =
      2 ^ (gridExponent digits least n - 1) := by
      rw [zpow_sub_one₀ two_ne_zero, div_eq_mul_inv]
    rw [hhalf, le_div_iff₀ (by positivity), ← zpow_natCast, ← zpow_add₀ two_ne_zero]
    rcases max_choice (Int.log 2 |n| + 1 - digits) least with hmax | hmax
    · have hexponent : gridExponent digits least n - 1 + digits = Int.log 2 |n| := by
        rw [gridExponent, hmax]
        omega
      have hlog : (2 : ℚ) ^ Int.log 2 |n| ≤ |n| :=
        Int.zpow_log_le_self Nat.one_lt_two (abs_pos.mpr hn)
      rw [hexponent]
      exact hlog.trans (le_max_right _ _)
    · have hexponent : gridExponent digits least n - 1 + digits ≤ 0 := by
        rw [gridExponent, hmax]
        omega
      exact (zpow_le_one_of_nonpos₀ one_le_two hexponent).trans (le_max_left _ _)

/-- A whole number of so many digits is not rounded. -/
theorem nearest_intCast (hleast : least ≤ 0) {k : ℤ} (hk : |k| < 2 ^ digits) :
    nearest digits least k = k := by
  have hlog : Int.log 2 |(k : ℚ)| < digits ∨ k = 0 := by
    by_cases hzero : k = 0
    · exact .inr hzero
    · refine .inl ((Int.lt_zpow_iff_log_lt Nat.one_lt_two ?_).mp ?_)
      · exact abs_pos.mpr (Int.cast_ne_zero.mpr hzero)
      · rw [← Int.cast_abs, zpow_natCast]
        exact_mod_cast hk
  rcases hlog with hlog | rfl
  · have hgrid : gridExponent digits least k ≤ 0 := max_le (by omega) hleast
    have hwhole := onGrid_zpow hgrid k
    rwa [zpow_zero, mul_one] at hwhole
  · rw [Int.cast_zero, nearest_zero]

/-- A number on a coarser grid lies beyond the power of two of its binade, which is on both. -/
theorem exists_between (hdigits : 0 < digits) {m : ℚ} (hn : n ≠ 0)
    (hlt : gridExponent digits least m < gridExponent digits least n) :
    |m| < 2 ^ Int.log 2 |n| ∧ 2 ^ Int.log 2 |n| ≤ |n| ∧
      gridExponent digits least m ≤ Int.log 2 |n| ∧
        gridExponent digits least n ≤ Int.log 2 |n| := by
  unfold gridExponent at hlt ⊢
  refine ⟨?_, Int.zpow_log_le_self Nat.one_lt_two (abs_pos.mpr hn), by omega, by omega⟩
  have hstep := Int.lt_zpow_succ_log_self Nat.one_lt_two |m|
  exact hstep.trans_le (zpow_le_zpow_right₀ one_le_two (by omega))

theorem gridExponent_mono {m : ℚ} (hm : 0 < |m|) (hle : |m| ≤ |n|) :
    gridExponent digits least m ≤ gridExponent digits least n := by
  have hlog := Int.log_mono_right (b := 2) hm hle
  exact max_le_max_right least (by omega)

theorem nearest_mono (hdigits : 0 < digits) : Monotone (nearest digits least) := by
  intro a b hab
  have hgrid (n : ℚ) : Monotone (onGrid (2 ^ gridExponent digits least n)) :=
    onGrid_mono (zpow_pos two_pos _)
  have hover {m : ℚ} (ham : a ≤ m) (hmb : m ≤ b)
      (ha : onGrid (2 ^ gridExponent digits least a) m = m)
      (hb : onGrid (2 ^ gridExponent digits least b) m = m) :
      nearest digits least a ≤ nearest digits least b :=
    ((hgrid a ham).trans_eq (ha.trans hb.symm)).trans (hgrid b hmb)
  have hzero (n : ℚ) : onGrid (2 ^ gridExponent digits least n) 0 = 0 := by
    simpa using onGrid_mul (zpow_pos two_pos (gridExponent digits least n)) 0
  rcases lt_or_ge 0 a with ha | ha
  · have habs : |a| ≤ |b| := by rwa [abs_of_pos ha, abs_of_pos (ha.trans_le hab)]
    rcases (gridExponent_mono (abs_pos.mpr ha.ne') habs).eq_or_lt with hsame | hlt
    · rw [nearest, hsame]
      exact hgrid b hab
    · obtain ⟨hbefore, hbehind, hfine, hcoarse⟩ := exists_between hdigits (ha.trans_le hab).ne' hlt
      refine hover ((le_abs_self a).trans hbefore.le) ?_ ?_ ?_
      · exact hbehind.trans_eq (abs_of_pos (ha.trans_le hab))
      · simpa using onGrid_zpow hfine 1
      · simpa using onGrid_zpow hcoarse 1
  · rcases le_or_gt 0 b with hb | hb
    · exact hover ha hb (hzero a) (hzero b)
    · have habs : |b| ≤ |a| := by
        rw [abs_of_neg hb, abs_of_nonpos ha]
        exact neg_le_neg hab
      rcases (gridExponent_mono (abs_pos.mpr hb.ne) habs).eq_or_lt with hsame | hlt
      · rw [nearest, ← hsame]
        exact hgrid b hab
      · obtain ⟨hbefore, hbehind, hfine, hcoarse⟩ :=
          exists_between hdigits (hab.trans_lt hb).ne hlt
        refine hover (m := -2 ^ Int.log 2 |a|) ?_ ?_ ?_ ?_
        · exact le_neg_of_le_neg (hbehind.trans_eq (abs_of_nonpos ha))
        · exact (neg_le_neg hbefore.le).trans (neg_abs_le b)
        · simpa using onGrid_zpow hcoarse (-1)
        · simpa using onGrid_zpow hfine (-1)

end Binary

/-! ### Rounded operations -/

/-- What an operation gives for its exact result. -/
structure Rounding where
  nearest : ℚ → ℚ
  mono : Monotone nearest
  zero : nearest 0 = 0
  whole : ∀ k : ℤ, |k| < 2 ^ 53 → nearest k = k
  near : ∀ n, |nearest n - n| ≤ max 1 |n| / 2 ^ 52

namespace Rounding

def exact : Rounding where
  nearest := id
  mono := monotone_id
  zero := rfl
  whole _ _ := rfl
  near n := by
    rw [id, sub_self, abs_zero]
    positivity

/-- The results that binary64 has a finite number for. -/
def binary64 : Rounding where
  nearest := Foundations.nearest 53 (-1074)
  mono := nearest_mono (by decide)
  zero := nearest_zero
  whole _ hk := nearest_intCast (by decide) hk
  near n := (nearest_near (by decide) n).trans
    (div_le_div_of_nonneg_left (by positivity) (by norm_num) (by norm_num))

variable (rounding : Rounding) {n bound : ℚ}

theorem near_of_le (hbound : 1 ≤ bound) (hn : |n| ≤ bound) :
    |rounding.nearest n - n| ≤ bound / 2 ^ 52 :=
  (rounding.near n).trans (div_le_div_of_nonneg_right (max_le hbound hn) (by positivity))

/-- A number is hardly larger than what it is rounded to. -/
theorem abs_le_two_mul (n : ℚ) : |n| ≤ 2 * max 1 |rounding.nearest n| := by
  have hnear := rounding.near n
  have hsplit : |n| ≤ |rounding.nearest n| + |rounding.nearest n - n| := by
    rw [abs_sub_comm]
    simpa using abs_add_le (rounding.nearest n) (n - rounding.nearest n)
  have hone := le_max_left 1 |rounding.nearest n|
  have hnearest := le_max_right 1 |rounding.nearest n|
  rcases le_total 1 |n| with hlarge | hsmall
  · rw [max_eq_right hlarge] at hnear
    linarith
  · linarith

end Rounding

/-- The double nearest to a tenth. -/
example : Rounding.binary64.nearest (1 / 10) = 3602879701896397 / 2 ^ 55 := by decide +kernel

end ObsMcp.Foundations
