import Mathlib.Tactic.Common

/-!
# Percent encoding

`encode` writes the plain bytes of a row as their characters and each other byte as a percent sign
with two hexadecimal digits. When the plain bytes are ASCII and the percent sign is not one of them,
the first byte can be found in an encoding (`cons_injective`), and different rows of bytes have
different encodings (`encode_injective`).
-/

namespace ObsMcp.Foundations.Percent

open List

/-- A digit of base sixteen, in capital letters. -/
def digit (n : ℕ) : Char :=
  if n < 10 then Char.ofNat (n + '0'.toNat) else Char.ofNat (n - 10 + 'A'.toNat)

def encodeByte (plain : UInt8 → Bool) (byte : UInt8) : List Char :=
  if plain byte then [Char.ofNat byte.toNat]
  else ['%', digit (byte.toNat / 16), digit (byte.toNat % 16)]

def encode (plain : UInt8 → Bool) (bytes : List UInt8) : List Char :=
  bytes.flatMap (encodeByte plain)

variable {plain : UInt8 → Bool}

theorem digit_injective {m n : ℕ} (hm : m < 16) (hn : n < 16) (hsame : digit m = digit n) :
    m = n := by
  have hall : ∀ m < 16, ∀ n < 16, digit m = digit n → m = n := by decide
  exact hall m hm n hn hsame

theorem toNat_ofNat {n : ℕ} (hn : n < 128) : (Char.ofNat n).toNat = n := by
  have hvalid : n.isValidChar := Or.inl (by omega)
  unfold Char.ofNat
  rw [dif_pos hvalid]
  rfl

theorem eq_of_ofNat {a b : UInt8} (ha : a.toNat < 128) (hb : b.toNat < 128)
    (hsame : Char.ofNat a.toNat = Char.ofNat b.toNat) : a = b := by
  have hval := congrArg Char.toNat hsame
  rw [toNat_ofNat ha, toNat_ofNat hb] at hval
  exact UInt8.toNat_inj.mp hval

/-- Assumes: plain bytes are ASCII and are no percent sign. The first byte and the rest are found in
the encoding. -/
theorem cons_injective (hplain : ∀ byte, plain byte = true →
    byte.toNat < 128 ∧ byte.toNat ≠ '%'.toNat) {a b : UInt8} {xs ys : List Char}
    (hsame : encodeByte plain a ++ xs = encodeByte plain b ++ ys) : a = b ∧ xs = ys := by
  have hnot : ∀ byte, plain byte = true → Char.ofNat byte.toNat ≠ '%' := by
    intro byte hbyte heq
    have hval := congrArg Char.toNat heq
    rw [toNat_ofNat (hplain byte hbyte).1] at hval
    exact (hplain byte hbyte).2 hval
  unfold encodeByte at hsame
  by_cases ha : plain a = true <;> by_cases hb : plain b = true
  · rw [if_pos ha, if_pos hb] at hsame
    obtain ⟨hhead, hrest⟩ := cons.inj hsame
    exact ⟨eq_of_ofNat (hplain a ha).1 (hplain b hb).1 hhead, hrest⟩
  · rw [if_pos ha, if_neg hb] at hsame
    exact absurd (cons.inj hsame).1 (hnot a ha)
  · rw [if_neg ha, if_pos hb] at hsame
    exact absurd (cons.inj hsame).1.symm (hnot b hb)
  · rw [if_neg ha, if_neg hb] at hsame
    obtain ⟨hhigh, hrest⟩ := cons.inj (cons.inj hsame).2
    obtain ⟨hlow, hrest⟩ := cons.inj hrest
    have hltA := a.toNat_lt
    have hltB := b.toNat_lt
    have hdiv := digit_injective (by omega) (by omega) hhigh
    have hmod := digit_injective (by omega) (by omega) hlow
    exact ⟨UInt8.toNat_inj.mp (by omega), hrest⟩

theorem encodeByte_ne_nil (byte : UInt8) : encodeByte plain byte ≠ [] := by
  unfold encodeByte
  split_ifs <;> exact cons_ne_nil _ _

/-- Assumes: plain bytes are ASCII and are no percent sign. Different rows of bytes have different
encodings. -/
theorem encode_injective (hplain : ∀ byte, plain byte = true →
    byte.toNat < 128 ∧ byte.toNat ≠ '%'.toNat) {first second : List UInt8}
    (hsame : encode plain first = encode plain second) : first = second := by
  induction first generalizing second with
  | nil =>
    cases second with
    | nil => rfl
    | cons b second =>
      have hnil := append_eq_nil_iff.mp hsame.symm
      exact absurd hnil.1 (encodeByte_ne_nil b)
  | cons a first ih =>
    cases second with
    | nil =>
      have hnil := append_eq_nil_iff.mp hsame
      exact absurd hnil.1 (encodeByte_ne_nil a)
    | cons b second =>
      obtain ⟨rfl, hrest⟩ := cons_injective hplain hsame
      rw [ih hrest]

end ObsMcp.Foundations.Percent
