import Mathlib.Data.List.Induction
import Mathlib.Data.Nat.ModEq
import Mathlib.Tactic.Ring

/-!
# Big-endian numbers

`toBytes` writes a number into a given number of bytes, the most significant one first, and
`ofBytes` reads bytes as a number. A number that fits is read back (`ofBytes_toBytes`), bytes are
written back (`toBytes_ofBytes`), and a number that was read fits (`ofBytes_lt`).
-/

namespace ObsMcp.Foundations.BigEndian

open List

/-- The last bytes of a number, the most significant one first. -/
def toBytes : ℕ → ℕ → List UInt8
  | 0, _ => []
  | count + 1, n => toBytes count (n / 256) ++ [UInt8.ofNat n]

/-- The number that bytes are. -/
def ofBytes (bytes : List UInt8) : ℕ :=
  bytes.foldl (fun n byte ↦ n * 256 + byte.toNat) 0

theorem length_toBytes (count n : ℕ) : (toBytes count n).length = count := by
  induction count generalizing n with
  | zero => rfl
  | succ count ih => rw [toBytes, length_append, ih, length_singleton]

theorem ofBytes_append_singleton (bytes : List UInt8) (byte : UInt8) :
    ofBytes (bytes ++ [byte]) = ofBytes bytes * 256 + byte.toNat := by
  rw [ofBytes, foldl_append]
  rfl

/-- What was written is read back, as far as it fits. -/
theorem ofBytes_toBytes (count n : ℕ) : ofBytes (toBytes count n) = n % 256 ^ count := by
  induction count generalizing n with
  | zero => rw [Nat.pow_zero, Nat.mod_one]; rfl
  | succ count ih =>
    have hbyte : (UInt8.ofNat n).toNat = n % 256 := UInt8.toNat_ofNat'
    rw [toBytes, ofBytes_append_singleton, ih, hbyte, Nat.pow_succ', Nat.mod_mul]
    ring

theorem ofBytes_toBytes_of_lt {count n : ℕ} (hfits : n < 256 ^ count) :
    ofBytes (toBytes count n) = n := by
  rw [ofBytes_toBytes, Nat.mod_eq_of_lt hfits]

/-- A number that was read fits. -/
theorem ofBytes_lt (bytes : List UInt8) : ofBytes bytes < 256 ^ bytes.length := by
  induction bytes using List.reverseRecOn with
  | nil => exact Nat.one_pos
  | append_singleton bytes byte ih =>
    have hbyte := byte.toNat_lt
    rw [ofBytes_append_singleton, length_append, length_singleton, Nat.pow_succ]
    omega

/-- What was read is written back. -/
theorem toBytes_ofBytes (bytes : List UInt8) : toBytes bytes.length (ofBytes bytes) = bytes := by
  induction bytes using List.reverseRecOn with
  | nil => rfl
  | append_singleton bytes byte ih =>
    have hbyte := byte.toNat_lt
    have hhigh : (ofBytes bytes * 256 + byte.toNat) / 256 = ofBytes bytes := by omega
    have hlow : UInt8.ofNat (ofBytes bytes * 256 + byte.toNat) = byte := by
      refine UInt8.toNat_inj.mp ?_
      have hof : (UInt8.ofNat (ofBytes bytes * 256 + byte.toNat)).toNat =
          (ofBytes bytes * 256 + byte.toNat) % 256 := UInt8.toNat_ofNat'
      omega
    rw [ofBytes_append_singleton, length_append, length_singleton, toBytes, hhigh, hlow,
      ih]

end ObsMcp.Foundations.BigEndian
