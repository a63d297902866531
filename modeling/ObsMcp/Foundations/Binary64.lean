import Mathlib.Data.List.Basic
import Mathlib.Tactic.Ring

/-!
# Binary64 arithmetic

Lean's `Float` is the logical IEEE model: an operation unpacks its arguments, works on the unpacked
numbers, and packs the rounded result. The facts below are the ones a comparison of measured values
needs: a finite number compares equal to itself and differs from itself by less than any positive
tolerance (`Float.close_self`), a comparison is symmetric, an integer converts to a finite number,
and the operations used to snap a coordinate to a grid give a number whenever they start from one.

Rounding down and narrowing to binary32 have no logical model in the library; `floor` and
`narrow` define them on the unpacked numbers.
-/

namespace ObsMcp.Foundations.Binary64

open Float.Model (Format UnpackedFloat)
open Float.Model.UnpackedFloat (Sign Accuracy ExtendedMantissa pack packComponents packedInfinity
  packedZero unpack unpackExponent unpackMantissa roundWithAccuracy shiftToTargetExponent)

/-! ### Packing -/

section Packing

variable (spec : Format)

theorem zero_ne_full : (0#_ : BitVec spec.exponentBits) ≠ -1#_ := by
  have hpos := Nat.one_lt_two_pow (Nat.pos_iff_ne_zero.1 spec.he)
  simp only [BitVec.neg_one_eq_allOnes, ne_eq, ← BitVec.toNat_inj, BitVec.toNat_ofNat,
    BitVec.toNat_allOnes, Nat.zero_mod]
  omega

theorem biased_ne_full {n : ℕ} (hn : n + 1 < 2 ^ spec.exponentBits) :
    BitVec.ofNat spec.exponentBits n ≠ -1#_ := by
  simp only [BitVec.neg_one_eq_allOnes, ne_eq, ← BitVec.toNat_inj, BitVec.toNat_ofNat,
    BitVec.toNat_allOnes]
  rw [Nat.mod_eq_of_lt (by omega)]
  omega

/-- Bits are not a number when the exponent is full and the mantissa is not zero, and a finite one
when the exponent is not full. -/
theorem class_unpack (bits : BitVec spec.numBits) :
    (unpack spec bits).isNaN = (decide (unpackExponent bits = -1#_) &&
      decide (unpackMantissa bits ≠ 0#_)) ∧
    (unpack spec bits).isFinite =
      decide (unpackExponent bits ≠ -1#_) := by
  unfold unpack
  dsimp only
  by_cases hfull : unpackExponent bits = -1#_
  · rw [if_pos hfull, decide_eq_true hfull, decide_eq_false (not_not_intro hfull)]
    by_cases hzero : unpackMantissa bits = 0#_
    · rw [if_pos hzero, decide_eq_false (not_not_intro hzero)]
      exact ⟨rfl, rfl⟩
    · rw [if_neg hzero, decide_eq_true hzero]
      exact ⟨rfl, rfl⟩
  · rw [if_neg hfull, decide_eq_false hfull, decide_eq_true hfull]
    by_cases hlow : unpackExponent bits = 0#_
    · rw [if_pos hlow]
      by_cases hzero : unpackMantissa bits = 0#_
      · rw [dif_pos hzero]
        exact ⟨rfl, rfl⟩
      · rw [dif_neg hzero]
        exact ⟨rfl, rfl⟩
    · rw [if_neg hlow]
      exact ⟨rfl, rfl⟩

section

variable (sign : Sign) (e : BitVec spec.exponentBits) (m : BitVec spec.mantissaBitsWithoutImplicit)

/-- Components unpack to not-a-number exactly when the exponent is full and the mantissa is not
zero. -/
theorem isNaN_packComponents :
    (unpack spec (packComponents spec sign e m)).isNaN =
      (decide (e = -1#_) && decide (m ≠ 0#_)) := by
  rw [(class_unpack spec _).1, UnpackedFloat.unpackMantissa_packComponents,
    UnpackedFloat.unpackExponent_packComponents]

/-- Components unpack to a finite number exactly when the exponent is not full. -/
theorem isFinite_packComponents :
    (unpack spec (packComponents spec sign e m)).isFinite = decide (e ≠ -1#_) := by
  rw [(class_unpack spec _).2, UnpackedFloat.unpackExponent_packComponents]

end

/-- A number stays a number when packed, though it may become infinite. -/
theorem isNaN_unpack_pack {f : UnpackedFloat} (hf : f.isNaN = false) :
    (unpack spec (pack spec f)).isNaN = false := by
  fun_cases pack spec f with
  | case1 => exact absurd hf Bool.false_ne_true.symm
  | case2 sign =>
    rw [packedInfinity, isNaN_packComponents]
    simp
  | case3 sign =>
    rw [packedZero, isNaN_packComponents]
    simp
  | case4 sign m e hm biasedExponent h =>
    rw [packedInfinity, isNaN_packComponents]
    simp
  | case5 sign m e hm actualMantissaBits biasedExponent h₁ h₂ =>
    rw [isNaN_packComponents, decide_eq_false (biased_ne_full spec (Nat.lt_of_not_le h₁))]
    rfl
  | case6 sign m e hm actualMantissaBits biasedExponent h₁ h₂ =>
    rw [isNaN_packComponents, decide_eq_false (zero_ne_full spec)]
    rfl

/-- A finite number stays finite when packed. Assumes: its exponent is below the largest one. -/
theorem isFinite_unpack_pack {f : UnpackedFloat} (hf : f.isFinite = true)
    (hexponent : ∀ sign m e hm, f = .finite sign m e hm →
      (e + spec.exponentBias + spec.mantissaBitsWithoutImplicit).toNat + 1 <
        2 ^ spec.exponentBits) :
    (unpack spec (pack spec f)).isFinite = true := by
  fun_cases pack spec f with
  | case1 => exact absurd hf Bool.false_ne_true
  | case2 sign => exact absurd hf Bool.false_ne_true
  | case3 sign =>
    rw [packedZero, isFinite_packComponents]
    exact decide_eq_true (zero_ne_full spec)
  | case4 sign m e hm biasedExponent h => exact absurd h (Nat.not_le_of_lt (hexponent _ _ _ _ rfl))
  | case5 sign m e hm actualMantissaBits biasedExponent h₁ h₂ =>
    rw [isFinite_packComponents]
    exact decide_eq_true (biased_ne_full spec (Nat.lt_of_not_le h₁))
  | case6 sign m e hm actualMantissaBits biasedExponent h₁ h₂ =>
    rw [isFinite_packComponents]
    exact decide_eq_true (zero_ne_full spec)

end Packing

/-! ### Comparison -/

/-- The sign, the mantissa and the exponent of a number; the two zeros have the same. -/
def parts : UnpackedFloat → Option (Int × ℕ × Int)
  | .notANumber => none
  | .infinity .negative => some (-2, 0, 0)
  | .infinity .positive => some (2, 0, 0)
  | .zero _ => some (0, 0, 0)
  | .finite .negative mantissa exponent _ => some (-1, mantissa, exponent)
  | .finite .positive mantissa exponent _ => some (1, mantissa, exponent)

/-- The order of the parts. -/
def compareParts (p q : Int × ℕ × Int) : Ordering :=
  let magnitude := (compare p.2.2 q.2.2).then (compare p.2.1 q.2.1)
  (compare p.1 q.1).then (if p.1 < 0 then magnitude.swap else magnitude)

theorem compareParts_eq_iff {p q : Int × ℕ × Int} : compareParts p q = .eq ↔ p = q := by
  unfold compareParts
  dsimp only
  rw [Ordering.then_eq_eq, Std.compare_eq_iff_eq, Prod.ext_iff, Prod.ext_iff, and_comm (a := _ = _)
    (b := p.2.2 = q.2.2)]
  refine and_congr_right fun _ ↦ ?_
  split_ifs
  · rw [Ordering.swap_eq_eq, Ordering.then_eq_eq, Std.compare_eq_iff_eq, Std.compare_eq_iff_eq]
  · rw [Ordering.then_eq_eq, Std.compare_eq_iff_eq, Std.compare_eq_iff_eq]

/-- Numbers compare as their parts do. -/
theorem compare_eq (a b : UnpackedFloat) : a.compare b =
    (parts a).bind fun p ↦ (parts b).map (compareParts p) := by
  cases a with
  | notANumber => rfl
  | zero s => cases b with
    | infinity t | finite t _ _ _ => cases t <;> rfl
    | _ => rfl
  | infinity s | finite s _ _ _ => cases b with
    | infinity t | finite t _ _ _ => cases s <;> cases t <;> rfl
    | _ => cases s <;> rfl

/-- Two numbers compare equal exactly when they have the same parts. -/
theorem compare_eq_iff (a b : UnpackedFloat) :
    a.compare b = some .eq ↔ ∃ found, parts a = some found ∧ parts b = some found := by
  rw [compare_eq, Option.bind_eq_some_iff]
  refine exists_congr fun p ↦ and_congr_right fun _ ↦ ?_
  rw [Option.map_eq_some_iff]
  simp [compareParts_eq_iff]

/-- Two numbers compare equal whichever is named first. -/
theorem compare_eq_comm (a b : UnpackedFloat) :
    a.compare b = some .eq ↔ b.compare a = some .eq := by
  rw [compare_eq_iff, compare_eq_iff]
  exact exists_congr fun _ ↦ and_comm

theorem exists_parts {a : Float} (ha : a.isFinite = true) :
    ∃ found, parts a.toModel.unpack = some found := by
  have hfinite : a.toModel.unpack.isFinite = true := ha
  cases hunpack : a.toModel.unpack with
  | notANumber | infinity s =>
    rw [hunpack] at hfinite
    cases hfinite
  | zero s => exact ⟨_, rfl⟩
  | finite s m e hm => cases s <;> exact ⟨_, rfl⟩

/-- A number compares equal to itself. -/
theorem compare_self {a : UnpackedFloat} (ha : a.isNaN = false) : a.compare a = some .eq := by
  cases a with
  | notANumber => exact absurd ha Bool.false_ne_true.symm
  | infinity s => cases s <;> rfl
  | zero s => rfl
  | finite s m e hm => exact (compare_eq_iff _ _).mpr (by cases s <;> exact ⟨_, rfl, rfl⟩)

theorem beq_comm (a b : Float) : (a == b) = (b == a) := by
  have hcomm := compare_eq_comm a.toModel.unpack b.toModel.unpack
  show ((a.toModel.unpack.compare b.toModel.unpack) == some .eq) =
    ((b.toModel.unpack.compare a.toModel.unpack) == some .eq)
  rw [Bool.eq_iff_iff, beq_iff_eq, beq_iff_eq]
  exact hcomm

/-- Two floats are equal exactly when they have the same parts. -/
theorem beq_iff (a b : Float) : (a == b) = true ↔
    ∃ found, parts a.toModel.unpack = some found ∧ parts b.toModel.unpack = some found := by
  rw [← compare_eq_iff, ← beq_iff_eq (a := a.toModel.unpack.compare b.toModel.unpack)]
  exact Iff.rfl

theorem beq_self {a : Float} (ha : a.isNaN = false) : (a == a) = true := by
  show ((a.toModel.unpack.compare a.toModel.unpack) == some .eq) = true
  rw [compare_self ha]
  rfl

/-! ### Difference -/

/-- The difference of a finite number and itself is positive zero. -/
theorem sub_self (spec : Format) {a : UnpackedFloat} (ha : a.isFinite = true) :
    UnpackedFloat.sub spec a a = .zero .positive := by
  cases a with
  | notANumber | infinity s => exact absurd ha Bool.false_ne_true
  | zero s => cases s <;> rfl
  | finite s m e hm =>
    show UnpackedFloat.normalize spec (_ - _) _ _ = _
    rw [Int.sub_self]
    rfl

/-- A finite number is at distance zero from itself. -/
theorem abs_sub_self {a : Float} (ha : a.isFinite = true) : (a - a).abs = 0.0 := by
  have hsub : a - a = 0.0 := by
    show Float.ofModel (Float.Model.pack
      (UnpackedFloat.sub Format.binary64 a.toModel.unpack a.toModel.unpack)) = 0.0
    rw [sub_self _ ha]
    decide
  rw [hsub]
  decide

/-- A finite number is within every positive tolerance of itself. -/
theorem close_self {a tolerance : Float} (ha : a.isFinite = true)
    (htolerance : (0.0 : Float).lt tolerance = true) : ((a - a).abs < tolerance) := by
  rw [abs_sub_self ha]
  exact htolerance

/-! ### Rounding -/

theorem isNaN_roundWithAccuracy (spec : Format) (sign : Sign) (m : ℕ) (e : Int)
    (accuracy : Accuracy) :
    (roundWithAccuracy spec sign m e accuracy).isNaN = false := by
  exact (apply_dite UnpackedFloat.isNaN _ _ _).trans (dite_eq_ite.trans (ite_self _))

theorem isNaN_normalize (spec : Format) (m e : Int) (sign : Sign) :
    (UnpackedFloat.normalize spec m e sign).isNaN = false := by
  unfold UnpackedFloat.normalize
  split
  · exact isNaN_roundWithAccuracy ..
  · rfl
  · exact isNaN_roundWithAccuracy ..

/-- Sums, products and quotients of a number with a finite number other than zero are numbers. -/
theorem isNaN_operations (spec : Format) {a b : UnpackedFloat} {sign : Sign} {m : ℕ} {e : Int}
    {hm : 0 < m} (ha : a.isNaN = false) (hb : b = .finite sign m e hm) :
    (UnpackedFloat.add spec a b).isNaN = false ∧ (UnpackedFloat.mul spec a b).isNaN = false ∧
      (UnpackedFloat.div spec a b).isNaN = false := by
  subst hb
  cases a with
  | notANumber => exact absurd ha Bool.false_ne_true.symm
  | infinity s => exact ⟨rfl, rfl, rfl⟩
  | zero s => exact ⟨rfl, rfl, rfl⟩
  | finite s n f hn =>
    refine ⟨?_, ?_, ?_⟩
    · exact isNaN_normalize ..
    · exact isNaN_roundWithAccuracy ..
    · exact isNaN_roundWithAccuracy ..

section Numbers

variable {a b : Float}

/-- A float other than zero and the special values. -/
def IsOrdinary (b : Float) : Prop :=
  ∃ sign m e hm, b.toModel.unpack = .finite sign m e hm

section

variable (ha : a.isNaN = false) (hb : IsOrdinary b)
include ha hb

theorem isNaN_add : (a + b).isNaN = false := by
  obtain ⟨sign, m, e, hm, hb⟩ := hb
  exact isNaN_unpack_pack _ (isNaN_operations _ ha hb).1

theorem isNaN_mul : (a * b).isNaN = false := by
  obtain ⟨sign, m, e, hm, hb⟩ := hb
  exact isNaN_unpack_pack _ (isNaN_operations _ ha hb).2.1

theorem isNaN_div : (a / b).isNaN = false := by
  obtain ⟨sign, m, e, hm, hb⟩ := hb
  exact isNaN_unpack_pack _ (isNaN_operations _ ha hb).2.2

end

theorem isNaN_of_isFinite (ha : a.isFinite = true) : a.isNaN = false := by
  show a.toModel.unpack.isNaN = false
  have hfinite : a.toModel.unpack.isFinite = true := ha
  cases hunpack : a.toModel.unpack with
  | notANumber =>
    rw [hunpack] at hfinite
    cases hfinite
  | _ => rfl

end Numbers

/-- The largest integral float that is not above the argument, as `f64::floor`. -/
def floor (x : Float) : Float :=
  match x.toModel.unpack with
  | .finite sign m e _ =>
    if 0 ≤ e then x else .ofModel (.ofInt (sign.apply m / 2 ^ (-e).toNat))
  | _ => x

theorem isNaN_floor {x : Float} (hx : x.isNaN = false) : (floor x).isNaN = false := by
  unfold floor
  split
  · split_ifs
    · exact hx
    · exact isNaN_unpack_pack _ (isNaN_normalize ..)
  · exact hx

/-- Narrowing to binary32, rounded to nearest, as `f64 as f32`. -/
def narrow (x : Float) : Float32 :=
  match x.toModel.unpack with
  | .finite sign m e _ => .ofModel (.pack (UnpackedFloat.round Format.binary32 sign m e))
  | other => .ofModel (.pack other)

/-! ### Conversion of integers -/

theorem repeat_shiftRightOne_le (em : ExtendedMantissa) (n : ℕ) :
    (n.repeat ExtendedMantissa.shiftRightOne em).mantissa ≤ em.mantissa := by
  induction n with
  | zero => exact Nat.le_refl _
  | succ n ih => exact Nat.le_trans (Nat.div_le_self _ 2) ih

theorem roundedMantissa_le (em : ExtendedMantissa) :
    em.roundedMantissa ≤ em.mantissa + 1 := by
  obtain ⟨m, roundBit, stickyBit⟩ := em
  cases roundBit <;> cases stickyBit <;>
    simp only [ExtendedMantissa.roundedMantissa,
      ExtendedMantissa.accuracy, Accuracy.roundToNearestEven] <;>
    omega

/-- The shift to the target exponent grows neither a mantissa below `2 ^ k` nor an exponent beyond
what the mantissa needs. -/
theorem shiftToTargetExponent_le {m k : ℕ} {e b : Int} (hm : m < 2 ^ k) (he : e ≤ b)
    (accuracy : Accuracy) (hb : (k : Int) + 1 + e - 53 ≤ b) (hmin : -1074 ≤ b) :
    (shiftToTargetExponent Format.binary64 m e accuracy).1.mantissa ≤ m ∧
      (shiftToTargetExponent Format.binary64 m e accuracy).2 ≤ b := by
  have hlog : m.log2 ≤ k := by
    by_cases hzero : m = 0
    · simp [hzero]
    · exact Nat.le_of_lt ((Nat.log2_lt hzero).mpr hm)
  constructor
  · refine Nat.le_trans (repeat_shiftRightOne_le _ _) (Nat.le_of_eq ?_)
    unfold ExtendedMantissa.ofMantissaAndAccuracy
    split <;> rfl
  · show e + ((max ((m.log2 : Int) + 1 + e - 53) (-1074) - e).toNat : Int) ≤ b
    omega

/-- Rounding a mantissa of at most 117 bits with no positive exponent gives a small exponent. -/
theorem exponent_roundWithAccuracy {sign s : Sign} {m n : ℕ} {e f : Int} {hn : 0 < n}
    {accuracy : Accuracy} (hm : m < 2 ^ 117) (he : e ≤ 0)
    (hround : roundWithAccuracy Format.binary64 sign m e accuracy =
      .finite s n f hn) : f ≤ 131 := by
  obtain ⟨hfirst, hexponent⟩ :=
    shiftToTargetExponent_le (e := e) (b := 65) hm (by omega) accuracy (by omega) (by omega)
  have hrounded := roundedMantissa_le
    (shiftToTargetExponent Format.binary64 m e accuracy).1
  have hsecond := shiftToTargetExponent_le (k := 118) (b := 131)
    (e := (shiftToTargetExponent Format.binary64 m e accuracy).2)
    (Nat.lt_of_le_of_lt hrounded (by omega)) (by omega) .exact (by omega) (by omega)
  unfold roundWithAccuracy at hround
  dsimp only at hround
  obtain ⟨_, hround⟩ | ⟨_, hround⟩ := dite_eq_iff.mp hround
  · cases hround
  · injection hround with _ _ hexp
    rw [← hexp]
    exact hsecond.2

/-- An integer of at most 64 bits converts to a finite number. -/
theorem isFinite_ofInt {n : Int} (hn : n.natAbs ≤ 2 ^ 64) :
    (Float.ofModel (.ofInt n)).isFinite = true := by
  have hwide : ∀ m : ℕ, m ≤ 2 ^ 64 →
      m <<< (0 - max ((m.log2 : Int) + 1 + 0 - 53) (-1074)).toNat < 2 ^ 117 := by
    intro m hm
    rw [Nat.shiftLeft_eq]
    have hshift : (0 - max ((m.log2 : Int) + 1 + 0 - 53) (-1074)).toNat ≤ 52 := by omega
    calc m * 2 ^ (0 - max ((m.log2 : Int) + 1 + 0 - 53) (-1074)).toNat
        ≤ m * 2 ^ 52 := Nat.mul_le_mul_left m (Nat.pow_le_pow_right (by omega) hshift)
      _ ≤ 2 ^ 64 * 2 ^ 52 := Nat.mul_le_mul_right _ hm
      _ < 2 ^ 117 := by decide
  have hexponent : ∀ (sign s : Sign) (m k : ℕ) (e : Int) (hk : 0 < k), m ≤ 2 ^ 64 →
      UnpackedFloat.round Format.binary64 sign m 0 = .finite s k e hk → e ≤ 131 := by
    intro sign s m k e hk hm hround
    exact exponent_roundWithAccuracy (hwide m hm) (by omega) hround
  have hfinite : (UnpackedFloat.ofInt Format.binary64 n).isFinite = true := by
    unfold UnpackedFloat.ofInt UnpackedFloat.normalize
    have hround : ∀ sign m e, (roundWithAccuracy
        Format.binary64 sign m e .exact).isFinite = true := fun sign m e ↦
      (apply_dite UnpackedFloat.isFinite _ _ _).trans (dite_eq_ite.trans (ite_self _))
    split
    · exact hround ..
    · rfl
    · exact hround ..
  refine isFinite_unpack_pack _ hfinite fun s m e hm heq ↦ ?_
  have hsmall : e ≤ 131 := by
    generalize hfound : UnpackedFloat.finite s m e hm = found at heq
    unfold UnpackedFloat.ofInt UnpackedFloat.normalize at heq
    split at heq
    · exact hexponent _ _ _ _ _ _ (by omega) (heq.trans hfound.symm)
    · cases heq.trans hfound.symm
    · exact hexponent _ _ _ _ _ _ (by omega) (heq.trans hfound.symm)
  show (e + 1023 + 52).toNat + 1 < 2 ^ 11
  omega

theorem isFinite_toFloat (n : UInt64) : n.toFloat.isFinite = true :=
  isFinite_ofInt (by have := n.toNat_lt; omega)

end ObsMcp.Foundations.Binary64
