import Mathlib.Data.List.Basic
import Mathlib.Tactic.Ring

/-!
# Decimal digits of a fixed width

`digits` are the decimal digits of a number in a fixed width. `digits_lt_digits` says that the
lexicographic order of two numbers written in one width is their order, and `append_lt_append_iff`
compares two rows of fields field by field. `padded` is the text that a format directive pads with
zeros, and `padded_eq` says that it is the digits of the width when the number fits.
-/

namespace ObsMcp.Foundations.Digits

open List

/-! ### The digits -/

/-- The digits of a number in a width, most significant first. -/
def digits : ℕ → ℕ → List ℕ
  | 0, _ => []
  | width + 1, n => digits width (n / 10) ++ [n % 10]

@[simp] theorem length_digits (width n : ℕ) : (digits width n).length = width := by
  induction width generalizing n with
  | zero => rfl
  | succ width ih => simp [digits, ih]

variable {n width : ℕ}

theorem lt_ten_of_mem_digits {d : ℕ} (hmem : d ∈ digits width n) : d < 10 := by
  induction width generalizing n with
  | zero => cases hmem
  | succ width ih =>
    obtain hmem | hmem := mem_append.mp hmem
    · exact ih hmem
    · rw [mem_singleton.mp hmem]
      exact Nat.mod_lt n (by decide)

/-! ### The lexicographic order -/

/-- Two different rows part at an entry, or one of them goes on where the other ends. -/
theorem exists_common_start {α : Type} [DecidableEq α] {xs ys : List α} (hne : xs ≠ ys) :
    ∃ common, (∃ x us y vs, x ≠ y ∧ xs = common ++ x :: us ∧ ys = common ++ y :: vs) ∨
      (∃ rest, rest ≠ [] ∧ xs = common ++ rest ∧ ys = common) ∨
      ∃ rest, rest ≠ [] ∧ ys = common ++ rest ∧ xs = common := by
  induction xs generalizing ys with
  | nil => exact ⟨[], .inr (.inr ⟨ys, hne.symm, rfl, rfl⟩)⟩
  | cons x xs ih =>
    cases ys with
    | nil => exact ⟨[], .inr (.inl ⟨x :: xs, hne, rfl, rfl⟩)⟩
    | cons y ys =>
      by_cases hxy : x = y
      · subst hxy
        have htails : xs ≠ ys := fun hsame ↦ hne (congrArg (x :: ·) hsame)
        obtain ⟨common, ⟨a, us, b, vs, hab, rfl, rfl⟩ | ⟨rest, hrest, rfl, rfl⟩ |
          ⟨rest, hrest, rfl, rfl⟩⟩ := ih htails
        · exact ⟨x :: common, .inl ⟨a, us, b, vs, hab, rfl, rfl⟩⟩
        · exact ⟨x :: ys, .inr (.inl ⟨rest, hrest, rfl, rfl⟩)⟩
        · exact ⟨x :: xs, .inr (.inr ⟨rest, hrest, rfl, rfl⟩)⟩
      · exact ⟨[], .inl ⟨x, xs, y, ys, hxy, rfl, rfl⟩⟩

section Order

variable {α : Type} [LT α]

/-- Two rows that start with fields of one length are compared by these fields first. -/
theorem append_lt_append_iff {xs ys us vs : List α} (hlength : xs.length = ys.length) :
    xs ++ us < ys ++ vs ↔ xs < ys ∨ xs = ys ∧ us < vs := by
  induction xs generalizing ys with
  | nil =>
    obtain rfl : ys = [] := length_eq_zero_iff.mp hlength.symm
    simp
  | cons x xs ih =>
    cases ys with
    | nil => cases hlength
    | cons y ys =>
      have htail := ih (Nat.succ.inj hlength)
      simp only [cons_append, cons_lt_cons_iff, htail, List.cons.injEq]
      constructor
      · rintro (hless | ⟨rfl, hless | ⟨rfl, hless⟩⟩)
        · exact .inl (.inl hless)
        · exact .inl (.inr ⟨rfl, hless⟩)
        · exact .inr ⟨⟨rfl, rfl⟩, hless⟩
      · rintro ((hless | ⟨rfl, hless⟩) | ⟨⟨rfl, rfl⟩, hless⟩)
        · exact .inl hless
        · exact .inr ⟨rfl, .inl hless⟩
        · exact .inr ⟨rfl, .inr ⟨rfl, hless⟩⟩

/-- A map that keeps the order of the entries keeps the lexicographic order. -/
theorem map_lt_map {β : Type} [LT β] {f : α → β} {xs ys : List α}
    (hf : ∀ x ∈ xs, ∀ y ∈ ys, x < y → f x < f y) (hless : xs < ys) : xs.map f < ys.map f := by
  induction xs generalizing ys with
  | nil =>
    cases ys with
    | nil => exact absurd hless (not_lt_nil _)
    | cons y ys => exact nil_lt_cons _ _
  | cons x xs ih =>
    cases ys with
    | nil => exact absurd hless (not_lt_nil _)
    | cons y ys =>
      obtain hxy | ⟨rfl, htail⟩ := cons_lt_cons_iff.mp hless
      · exact cons_lt_cons_iff.mpr
          (.inl (hf x mem_cons_self y mem_cons_self hxy))
      · refine cons_lt_cons_iff.mpr (.inr ⟨rfl, ih (fun x hx y hy ↦ ?_) htail⟩)
        exact hf x (mem_cons_of_mem _ hx) y (mem_cons_of_mem _ hy)

end Order

/-- Numbers that fit a width are ordered as their digits. -/
theorem digits_lt_digits {m : ℕ} (hn : n < 10 ^ width) (hless : m < n) :
    digits width m < digits width n := by
  induction width generalizing m n with
  | zero => omega
  | succ width ih =>
    have hquotient : n / 10 < 10 ^ width := by
      rw [Nat.pow_succ] at hn
      omega
    rw [digits, digits, append_lt_append_iff (by simp)]
    obtain hstart | hstart := Nat.lt_or_ge (m / 10) (n / 10)
    · exact .inl (ih hquotient hstart)
    · have hsame : m / 10 = n / 10 := by omega
      refine .inr ⟨by rw [hsame], cons_lt_cons_iff.mpr (.inl ?_)⟩
      omega

/-! ### Padded texts -/

/-- A number as a format directive writes it, padded with zeros to a width. -/
def padded (width n : ℕ) : List Char :=
  List.replicate (width - (Nat.toDigits 10 n).length) '0' ++ Nat.toDigits 10 n

/-- A number that fits the width is written with the digits of the width. -/
theorem padded_eq (hn : n < 10 ^ (width + 1)) :
    padded (width + 1) n = (digits (width + 1) n).map Nat.digitChar := by
  induction width generalizing n with
  | zero =>
    have hten : n < 10 := by simpa using hn
    simp [padded, digits, Nat.toDigits_of_lt_base hten, Nat.mod_eq_of_lt hten]
  | succ width ih =>
    have hquotient : n / 10 < 10 ^ (width + 1) := by
      rw [Nat.pow_succ] at hn
      omega
    have hdigits : digits (width + 1 + 1) n = digits (width + 1) (n / 10) ++ [n % 10] := rfl
    rw [hdigits, map_append, ← ih hquotient]
    by_cases hten : n < 10
    · have hzero : n / 10 = 0 := by omega
      simp only [padded, Nat.toDigits_of_lt_base hten, hzero, Nat.toDigits_zero,
        length_singleton, Nat.mod_eq_of_lt hten, map_cons, map_nil,
        Nat.add_sub_cancel]
      rw [← replicate_succ']
    · have hlong : Nat.toDigits 10 n = Nat.toDigits 10 (n / 10) ++ [Nat.digitChar (n % 10)] :=
        Nat.toDigits_of_base_le (by decide) (by omega)
      simp only [padded, hlong, length_append, length_singleton, map_cons,
        map_nil, Nat.add_sub_add_right, append_assoc]

end ObsMcp.Foundations.Digits
