import ObsMcp.Transform.KeyOrder

/-!
# The order of the keys of a signature

`write_signature` of `observation.rs` sorts the keys of an object: array indices first, ascending,
and then the other keys as a locale collates them, which is defined for ASCII letters, digits and
the underscore. `collation` folds the case of letters, puts the underscore before the digits, and
breaks ties by the first difference of case.

The order of the keys is that of three ranks one after the other (`keyOrder_eq`), so it is an order
whichever keys are compared, and two keys with the same ranks are the same key
(`keyOrder_eq_eq_iff`).
-/

namespace ObsMcp.Observation

open List

/-- A character of a key whose collation is known. -/
def isKeyChar (c : Char) : Bool :=
  c.isAlphanum || c == '_'

def IsKey (key : List Char) : Prop :=
  ∀ c ∈ key, isKeyChar c = true

def compareNat (a b : ℕ) : Ordering :=
  @compare ℕ instOrdNat a b

/-- Lower case comes before upper case. -/
def compareCase (a b : Char) : Ordering :=
  compareNat a.isUpper.toNat b.isUpper.toNat

/-- A byte of a key with its case folded, and the underscore in front of all. -/
def foldedByte (c : Char) : ℕ :=
  if c.toLower = '_' then 0 else c.toLower.toNat

/-- The first difference of two keys, which is one of case. -/
def caseTie (a b : List Char) : Ordering :=
  (((a.zip b).find? fun pair ↦ pair.1 ≠ pair.2).map fun pair ↦ compareCase pair.1 pair.2).getD .eq

def collation (a b : List Char) : Ordering :=
  (List.compareLex compareNat (a.map foldedByte) (b.map foldedByte)).then (caseTie a b)

def arrayIndex (key : List Char) : Option ℕ :=
  Transform.index key

/-- The order in which the keys of an object are written. -/
def keyOrder (a b : List Char) : Ordering :=
  match arrayIndex a, arrayIndex b with
  | some a, some b => compareNat a b
  | some _, none => .lt
  | none, some _ => .gt
  | none, none => collation a b

/-! ### Ranks -/

/-- The index of a key, and a number behind all indices for the other keys. -/
def indexRank (key : List Char) : ℕ :=
  (arrayIndex key).getD (2 ^ 32)

def caseRank (key : List Char) : List ℕ :=
  key.map fun c ↦ c.isUpper.toNat

/-- The order by the three ranks of a key. -/
def rankOrder : List Char → List Char → Ordering :=
  compareLex (fun a b ↦ compareNat (indexRank a) (indexRank b))
    (compareLex (fun a b ↦ List.compareLex compareNat (a.map foldedByte) (b.map foldedByte))
      fun a b ↦ List.compareLex compareNat (caseRank a) (caseRank b))

instance : Std.TransCmp compareNat :=
  inferInstanceAs (Std.TransCmp (@compare ℕ instOrdNat))

instance : Std.LawfulEqCmp compareNat :=
  inferInstanceAs (Std.LawfulEqCmp (@compare ℕ instOrdNat))

theorem transCmp_on {α β : Type} {cmp : β → β → Ordering} [Std.TransCmp cmp] (f : α → β) :
    Std.TransCmp fun a b ↦ cmp (f a) (f b) where
  eq_swap := Std.OrientedCmp.eq_swap
  isLE_trans := Std.TransCmp.isLE_trans

instance : Std.TransCmp rankOrder := by
  have hindex := @transCmp_on (List Char) ℕ compareNat _ indexRank
  have hfolded := @transCmp_on _ _ (List.compareLex compareNat) _ (List.map foldedByte)
  have hcase := @transCmp_on _ _ (List.compareLex compareNat) _ caseRank
  exact inferInstanceAs (Std.TransCmp (compareLex _ (compareLex _ _)))

theorem toNat_lt_of_isKeyChar {c : Char} (hc : isKeyChar c = true) : c.toNat < 128 := by
  delta isKeyChar Char.isAlphanum Char.isAlpha Char.isUpper Char.isLower Char.isDigit at hc
  simp only [Bool.or_eq_true, Bool.and_eq_true, decide_eq_true_eq, beq_iff_eq] at hc
  rcases hc with ((⟨-, hc⟩ | ⟨-, hc⟩) | ⟨-, hc⟩) | rfl
  · exact Nat.lt_of_le_of_lt hc (by decide)
  · exact Nat.lt_of_le_of_lt hc (by decide)
  · exact Nat.lt_of_le_of_lt hc (by decide)
  · decide

/-- The character of a folded byte and a case. -/
def restored (byte upper : ℕ) : Char :=
  if byte = 0 then '_' else Char.ofNat (byte - 32 * upper)

theorem eq_restored {c : Char} (hc : isKeyChar c = true) :
    c = restored (foldedByte c) c.isUpper.toNat := by
  have hall : ∀ n < 128, isKeyChar (Char.ofNat n) = true → Char.ofNat n =
      restored (foldedByte (Char.ofNat n)) (Char.ofNat n).isUpper.toNat := by
    decide
  have hchar := hall c.toNat (toNat_lt_of_isKeyChar hc)
  rw [Char.ofNat_toNat] at hchar
  exact hchar hc

/-- A character of a key is known by its folded byte and its case. -/
theorem eq_of_folded {c d : Char} (hc : isKeyChar c = true) (hd : isKeyChar d = true)
    (hfolded : foldedByte c = foldedByte d) (hcase : c.isUpper.toNat = d.isUpper.toNat) :
    c = d := by
  rw [eq_restored hc, eq_restored hd, hfolded, hcase]

variable {a b : List Char}

theorem caseTie_eq (ha : IsKey a) (hb : IsKey b) (hfolded : a.map foldedByte = b.map foldedByte) :
    caseTie a b = List.compareLex compareNat (caseRank a) (caseRank b) := by
  induction a generalizing b with
  | nil =>
    obtain rfl := map_eq_nil_iff.mp hfolded.symm
    rfl
  | cons c a ih =>
    cases b with
    | nil => cases hfolded
    | cons d b =>
      obtain ⟨hbyte, hrest⟩ := cons.inj hfolded
      obtain ⟨hc, ha⟩ := forall_mem_cons.mp ha
      obtain ⟨hd, hb⟩ := forall_mem_cons.mp hb
      have hsplit : List.compareLex compareNat (caseRank (c :: a)) (caseRank (d :: b)) =
          (compareCase c d).then (List.compareLex compareNat (caseRank a) (caseRank b)) :=
        List.compareLex_cons_cons
      rw [hsplit, ← ih ha hb hrest]
      by_cases hsame : c = d
      · subst hsame
        have hself : compareCase c c = .eq :=
          @Std.ReflCmp.compare_self ℕ compareNat _ c.isUpper.toNat
        rw [hself]
        simp [caseTie]
      · have hdiffer : compareCase c d ≠ .eq := by
          intro heq
          exact hsame (eq_of_folded hc hd hbyte (Std.LawfulEqCmp.eq_of_compare heq))
        have htie : caseTie (c :: a) (d :: b) = compareCase c d := by
          simp [caseTie, hsame]
        rw [htie]
        cases hcompare : compareCase c d with
        | eq => exact absurd hcompare hdiffer
        | lt => rfl
        | gt => rfl

/-- The collation is the order by the last two ranks. -/
theorem collation_eq (ha : IsKey a) (hb : IsKey b) :
    collation a b = (List.compareLex compareNat (a.map foldedByte) (b.map foldedByte)).then
      (List.compareLex compareNat (caseRank a) (caseRank b)) := by
  unfold collation
  cases hfolded : List.compareLex compareNat (a.map foldedByte) (b.map foldedByte) with
  | eq => rw [caseTie_eq ha hb (Std.LawfulEqCmp.eq_of_compare hfolded)]
  | lt => rfl
  | gt => rfl

theorem rankOrder_swap (a b : List Char) : rankOrder b a = (rankOrder a b).swap :=
  Std.OrientedCmp.eq_swap

theorem isLE_rankOrder_trans {c : List Char} (hab : (rankOrder a b).isLE = true)
    (hbc : (rankOrder b c).isLE = true) : (rankOrder a c).isLE = true :=
  Std.TransCmp.isLE_trans hab hbc

theorem rankOrder_self (key : List Char) : rankOrder key key = .eq :=
  Std.ReflCmp.compare_self

/-- Keys are compared by their ranks. -/
theorem keyOrder_eq (ha : IsKey a) (hb : IsKey b) : keyOrder a b = rankOrder a b := by
  have hrank : rankOrder a b = (compareNat (indexRank a) (indexRank b)).then (collation a b) := by
    rw [collation_eq ha hb]
    rfl
  have hindex : ∀ {key : List Char} {n : ℕ}, arrayIndex key = some n → n < 2 ^ 32 := by
    intro key n hkey
    have hn := (Transform.index_eq_some_iff.mp hkey).2
    omega
  unfold keyOrder
  cases hfirst : arrayIndex a with
  | none =>
    cases hsecond : arrayIndex b with
    | none =>
      have hself : compareNat (indexRank a) (indexRank b) = .eq := by
        rw [indexRank, indexRank, hfirst, hsecond]
        exact Std.ReflCmp.compare_self
      rw [hrank, hself]
      rfl
    | some n =>
      have hgt : compareNat (indexRank a) (indexRank b) = .gt := by
        rw [indexRank, indexRank, hfirst, hsecond]
        exact Nat.compare_eq_gt.mpr (hindex hsecond)
      rw [hrank, hgt]
      rfl
  | some m =>
    cases hsecond : arrayIndex b with
    | none =>
      have hlt : compareNat (indexRank a) (indexRank b) = .lt := by
        rw [indexRank, indexRank, hfirst, hsecond]
        exact Nat.compare_eq_lt.mpr (hindex hfirst)
      rw [hrank, hlt]
      rfl
    | some n =>
      have hboth : compareNat (indexRank a) (indexRank b) = compareNat m n := by
        rw [indexRank, indexRank, hfirst, hsecond]
        rfl
      cases hcompare : compareNat m n with
      | eq =>
        obtain rfl := Std.LawfulEqCmp.eq_of_compare hcompare
        obtain rfl := Transform.index_inj hfirst hsecond
        exact hcompare.trans (rankOrder_self a).symm
      | lt =>
        rw [hrank, hboth, hcompare]
        exact hcompare
      | gt =>
        rw [hrank, hboth, hcompare]
        exact hcompare

/-- Two keys that compare equal are the same key. -/
theorem keyOrder_eq_eq_iff (ha : IsKey a) (hb : IsKey b) : keyOrder a b = .eq ↔ a = b := by
  rw [keyOrder_eq ha hb]
  constructor
  · intro heq
    obtain ⟨hfolded, hcase⟩ := compareLex_eq_eq.mp (compareLex_eq_eq.mp heq).2
    have hbytes : a.map foldedByte = b.map foldedByte := Std.LawfulEqCmp.eq_of_compare hfolded
    have hcases : caseRank a = caseRank b := Std.LawfulEqCmp.eq_of_compare hcase
    have hlength : a.length = b.length := by simpa using congrArg List.length hbytes
    refine ext_getElem hlength fun index hfirst hsecond ↦ ?_
    refine eq_of_folded (ha _ (getElem_mem hfirst)) (hb _ (getElem_mem hsecond)) ?_ ?_
    · have hbyte := getElem_of_eq hbytes (by simpa using hfirst)
      simpa using hbyte
    · have hupper := getElem_of_eq hcases (by simpa [caseRank] using hfirst)
      simpa [caseRank] using hupper
  · rintro rfl
    exact rankOrder_self a

/-- The order of keys is a strict total order. -/
theorem keyOrder_strict {c : List Char} (ha : IsKey a) (hb : IsKey b) (hc : IsKey c) :
    keyOrder b a = (keyOrder a b).swap ∧ (keyOrder a b = .eq ↔ a = b) ∧
      (keyOrder a b = .lt → keyOrder b c = .lt → keyOrder a c = .lt) := by
  refine ⟨?_, keyOrder_eq_eq_iff ha hb, ?_⟩
  · rw [keyOrder_eq ha hb, keyOrder_eq hb ha]
    exact rankOrder_swap a b
  · rw [keyOrder_eq ha hb, keyOrder_eq hb hc, keyOrder_eq ha hc]
    exact Std.TransCmp.lt_trans

end ObsMcp.Observation
