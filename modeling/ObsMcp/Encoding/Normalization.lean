import ObsMcp.Encoding.SourceJson
import ObsMcp.Transform.KeyOrder

/-!
# The normalization of numbers

`normalizeWithLimits` refuses a value the encoder does not take and otherwise puts every number in
the form that is written: an integer when its text is one. The printer of numbers is a parameter,
and `ParsesBack` is what is asked of it: a text parses back to the number it was printed for, and a
text that parses as an integer is the numeral of that integer.

The number that a text is read as has the same text again (`numberText_normalizeNumber`), so a value
and its normalization are written alike (`bytes_visit`) and a second normalization changes nothing
(`visit_visit`). `unary` is a printer that parses back.
-/

namespace ObsMcp.Encoding

open Foundations Scenes Opaque Receipts List Option

/-! ### The normalization -/

/-- The answer, and the value as it is left. -/
def normalizeWithLimits (numerals : Numerals) (value : Json) (limits : Limits) :
    Except NumericNormalizationError Unit × Json :=
  match encodedLen numerals value limits with
  | .error error => (.error error, value)
  | .ok _ => (.ok (), visit numerals value)

/-! ### Printing and parsing -/

/-- The integer that a text is read as. -/
def integer (text : String) : Option Number :=
  ((parseU64 text).map Number.posInt).or (parseNegative text)

/-- The numeral of an integer. -/
def literal : Number → Option String
  | .posInt n => some (toString n.toNat)
  | .negInt n _ => some (toString n.toInt)
  | .float _ => none

def zero : Finite64 :=
  ⟨0.0, isFinite_zero⟩

/-- A text parses back to the number it was printed for, where the two zeros may have one text, and
a text that is read as an integer is its numeral. The parser reads a numeral as the nearest double
and refuses the empty text. -/
structure ParsesBack (numerals : Numerals) (parse : String → Option Float) : Prop where
  back : ∀ x, parse (numerals.jsNumber x) = some x.value ∨
    x.value = -0.0 ∧ numerals.jsNumber x = numerals.jsNumber zero
  plain : ∀ x m, integer (numerals.jsNumber x) = some m →
    literal m = some (numerals.jsNumber x)
  nearest : ∀ m text, literal m = some text → parse text = some m.asF64
  empty : parse "" = none

section Numbers

variable {numerals : Numerals} {parse : String → Option Float}

theorem sourceNumber_eq (x : Finite64) :
    numerals.sourceNumber x = (integer (numerals.jsNumber x)).getD (.float x) := by
  unfold Numerals.sourceNumber integer
  cases parseU64 (numerals.jsNumber x) <;> rfl

section

variable (hback : ParsesBack numerals parse)
include hback

/-- An integer that is read from the text of a number is that number, or both are a zero. -/
theorem ParsesBack.asF64_eq {x : Finite64} {m : Number}
    (hread : integer (numerals.jsNumber x) = some m) :
    m.asF64 = x.value ∨
      x.value = -0.0 ∧ m.asF64 = 0.0 ∧ numerals.jsNumber x = numerals.jsNumber zero := by
  have hm := hback.nearest m _ (hback.plain x m hread)
  rcases hback.back x with hx | ⟨hzero, hsame⟩
  · exact .inl (some.inj (hm.symm.trans hx))
  · rcases hback.back zero with hprinted | ⟨hsign, -⟩
    · rw [hsame] at hm
      exact .inr ⟨hzero, some.inj (hm.symm.trans hprinted), hsame⟩
    · exact absurd hsign (by decide)

/-- A normalized number has the text of the number. -/
theorem numberText_normalizeNumber (n : Number) :
    numberText numerals (normalizeNumber numerals n) = numberText numerals n := by
  unfold normalizeNumber numberText
  rw [sourceNumber_eq]
  cases hread : integer (numerals.jsNumber ⟨n.asF64, n.asF64_isFinite⟩) with
  | none => rfl
  | some m =>
    rcases hback.asF64_eq hread with hsame | ⟨-, hzero, htext⟩
    · exact congrArg numerals.jsNumber (Finite64.mk.injEq _ _ _ _ ▸ hsame)
    · rw [htext]
      exact congrArg numerals.jsNumber (Finite64.mk.injEq _ _ _ _ ▸ hzero)

theorem normalizeNumber_idem (n : Number) :
    normalizeNumber numerals (normalizeNumber numerals n) = normalizeNumber numerals n := by
  have htext := numberText_normalizeNumber hback n
  unfold normalizeNumber numberText at *
  rw [sourceNumber_eq, htext]
  rw [sourceNumber_eq]
  cases integer (numerals.jsNumber ⟨n.asF64, n.asF64_isFinite⟩) <;> rfl

/-- A normalized number is the same number. -/
theorem normalizeNumber_beq (n : Number) :
    (n.asF64 == (normalizeNumber numerals n).asF64) = true := by
  have hself : (n.asF64 == n.asF64) = true :=
    Binary64.beq_self (Binary64.isNaN_of_isFinite n.asF64_isFinite)
  unfold normalizeNumber
  rw [sourceNumber_eq]
  cases hread : integer (numerals.jsNumber ⟨n.asF64, n.asF64_isFinite⟩) with
  | none => exact hself
  | some m =>
    rcases hback.asF64_eq hread with hsame | ⟨hsign, hzero, -⟩
    · rw [getD_some, hsame]
      exact hself
    · dsimp only at hsign
      rw [getD_some, hzero, hsign]
      decide

theorem ParsesBack.printed : Printed numerals := by
  intro n hempty
  unfold numberText at hempty
  have hzero : numerals.jsNumber zero ≠ "" := by
    intro hnone
    rcases hback.back zero with hprinted | ⟨hsign, -⟩
    · rw [hnone, hback.empty] at hprinted
      exact absurd hprinted (by simp)
    · exact absurd hsign (by decide)
  rcases hback.back ⟨n.asF64, n.asF64_isFinite⟩ with hprinted | ⟨-, hsame⟩
  · rw [hempty, hback.empty] at hprinted
    exact absurd hprinted (by simp)
  · exact hzero (hsame.symm.trans hempty)

end

end Numbers

/-! ### Values -/

mutual

/-- The values agree but for the way their numbers are held: a number stays equal as a float, and
everything else, the keys and the order stay as they are. -/
def SameNumbers : Json → Json → Prop
  | .number m, .number n => (m.asF64 == n.asF64) = true
  | .array items, .array others => SameItems items others
  | .object members, .object others => SameMembers members others
  | value, other => value = other

def SameItems : List Json → List Json → Prop
  | [], [] => True
  | item :: items, other :: others => SameNumbers item other ∧ SameItems items others
  | _, _ => False

def SameMembers : List (String × Json) → List (String × Json) → Prop
  | [], [] => True
  | (key, value) :: members, (other, kept) :: others =>
    key = other ∧ SameNumbers value kept ∧ SameMembers members others
  | _, _ => False

end

mutual

/-- The numbers in a value. -/
def numbers : Json → List Number
  | .number n => [n]
  | .array items => itemNumbers items
  | .object members => memberNumbers members
  | _ => []

def itemNumbers : List Json → List Number
  | [] => []
  | item :: items => numbers item ++ itemNumbers items

def memberNumbers : List (String × Json) → List Number
  | [] => []
  | (_, value) :: members => numbers value ++ memberNumbers members

end

section Values

variable {numerals : Numerals} {parse : String → Option Float}

variable {items : List Json} {members : List (String × Json)}

theorem itemPieces_visitItems
    (hitems : ∀ item ∈ items, pieces numerals (visit numerals item) = pieces numerals item)
    (first : Bool) :
    itemPieces numerals first (visitItems numerals items) = itemPieces numerals first items := by
  induction items generalizing first with
  | nil => rfl
  | cons item items ih =>
    obtain ⟨hitem, hrest⟩ := forall_mem_cons.mp hitems
    rw [visitItems, itemPieces, itemPieces, hitem, ih hrest]

theorem memberPieces_visitMembers (hmembers : ∀ member ∈ members,
      pieces numerals (visit numerals member.2) = pieces numerals member.2) (first : Bool) :
    memberPieces numerals first (visitMembers numerals members) =
      memberPieces numerals first members := by
  induction members generalizing first with
  | nil => rfl
  | cons member members ih =>
    obtain ⟨key, value⟩ := member
    obtain ⟨hmember, hrest⟩ := forall_mem_cons.mp hmembers
    rw [visitMembers, memberPieces, memberPieces, hmember, ih hrest]

/-- A normalized value is written as the value. -/
theorem pieces_visit (hback : ParsesBack numerals parse) (value : Json) :
    pieces numerals (visit numerals value) = pieces numerals value := by
  induction value using Json.induct with
  | null | bool b | string text => rfl
  | number n => rw [visit, pieces, pieces, numberText_normalizeNumber hback]
  | array items ih => rw [visit, pieces, pieces, itemPieces_visitItems ih]
  | object members ih => rw [visit, pieces, pieces, memberPieces_visitMembers ih]

theorem bytes_visit (hback : ParsesBack numerals parse) (value : Json) :
    bytes numerals (visit numerals value) = bytes numerals value := by
  rw [bytes, pieces_visit hback, bytes]

theorem visitItems_visitItems
    (hitems : ∀ item ∈ items, visit numerals (visit numerals item) = visit numerals item) :
    visitItems numerals (visitItems numerals items) = visitItems numerals items := by
  induction items with
  | nil => rfl
  | cons item items ih =>
    obtain ⟨hitem, hrest⟩ := forall_mem_cons.mp hitems
    rw [visitItems, visitItems, hitem, ih hrest]

theorem visitMembers_visitMembers (hmembers : ∀ member ∈ members,
      visit numerals (visit numerals member.2) = visit numerals member.2) :
    visitMembers numerals (visitMembers numerals members) = visitMembers numerals members := by
  induction members with
  | nil => rfl
  | cons member members ih =>
    obtain ⟨key, value⟩ := member
    obtain ⟨hmember, hrest⟩ := forall_mem_cons.mp hmembers
    rw [visitMembers, visitMembers, hmember, ih hrest]

theorem visit_visit (hback : ParsesBack numerals parse) (value : Json) :
    visit numerals (visit numerals value) = visit numerals value := by
  induction value using Json.induct with
  | null | bool b | string text => rfl
  | number n => rw [visit, visit, normalizeNumber_idem hback]
  | array items ih => rw [visit, visit, visitItems_visitItems ih]
  | object members ih => rw [visit, visit, visitMembers_visitMembers ih]

theorem sameItems_visitItems (hitems : ∀ item ∈ items, SameNumbers item (visit numerals item)) :
    SameItems items (visitItems numerals items) := by
  induction items with
  | nil => trivial
  | cons item items ih =>
    obtain ⟨hitem, hrest⟩ := forall_mem_cons.mp hitems
    exact ⟨hitem, ih hrest⟩

theorem sameMembers_visitMembers
    (hmembers : ∀ member ∈ members, SameNumbers member.2 (visit numerals member.2)) :
    SameMembers members (visitMembers numerals members) := by
  induction members with
  | nil => trivial
  | cons member members ih =>
    obtain ⟨hmember, hrest⟩ := forall_mem_cons.mp hmembers
    exact ⟨rfl, hmember, ih hrest⟩

theorem sameNumbers_visit (hback : ParsesBack numerals parse) (value : Json) :
    SameNumbers value (visit numerals value) := by
  induction value using Json.induct with
  | null | bool b | string text => rfl
  | number n => exact normalizeNumber_beq hback n
  | array items ih => exact sameItems_visitItems ih
  | object members ih => exact sameMembers_visitMembers ih

variable {depth maxDepth : ℕ}

theorem itemsWithinDepth_visitItems
    (hitems : ∀ item ∈ items, withinDepth maxDepth depth (visit numerals item) =
      withinDepth maxDepth depth item) :
    itemsWithinDepth maxDepth depth (visitItems numerals items) =
      itemsWithinDepth maxDepth depth items := by
  induction items with
  | nil => rfl
  | cons item items ih =>
    obtain ⟨hitem, hrest⟩ := forall_mem_cons.mp hitems
    rw [visitItems, itemsWithinDepth, itemsWithinDepth, hitem, ih hrest]

theorem membersWithinDepth_visitMembers
    (hmembers : ∀ member ∈ members, withinDepth maxDepth depth (visit numerals member.2) =
      withinDepth maxDepth depth member.2) :
    membersWithinDepth maxDepth depth (visitMembers numerals members) =
      membersWithinDepth maxDepth depth members := by
  induction members with
  | nil => rfl
  | cons member members ih =>
    obtain ⟨key, value⟩ := member
    obtain ⟨hmember, hrest⟩ := forall_mem_cons.mp hmembers
    rw [visitMembers, membersWithinDepth, membersWithinDepth, hmember, ih hrest]

/-- A normalized value is as deep as the value. -/
theorem withinDepth_visit (numerals : Numerals) (maxDepth depth : ℕ) (value : Json) :
    withinDepth maxDepth depth (visit numerals value) = withinDepth maxDepth depth value := by
  induction value using Json.induct generalizing depth with
  | null | bool b | string text | number n => rfl
  | array items ih =>
    rw [visit, withinDepth, withinDepth,
      itemsWithinDepth_visitItems fun item hitem ↦ ih item hitem _]
  | object members ih =>
    rw [visit, withinDepth, withinDepth,
      membersWithinDepth_visitMembers fun member hmember ↦ ih member hmember _]

end Values

/-! ### What the normalization keeps -/

section Normalization

variable {numerals : Numerals} {parse : String → Option Float}

/-- The value is normalized exactly when it is not too deep and its bytes fit. -/
theorem normalizeWithLimits_eq (hback : ParsesBack numerals parse) (value : Json)
    (limits : Limits) :
    (withinDepth limits.maxDepth 0 value = true ∧
        (bytes numerals value).length ≤ limits.maxEncodedBytes ∧
        normalizeWithLimits numerals value limits = (.ok (), visit numerals value)) ∨
      (¬(withinDepth limits.maxDepth 0 value = true ∧
          (bytes numerals value).length ≤ limits.maxEncodedBytes) ∧
        ∃ error, normalizeWithLimits numerals value limits = (.error error, value)) := by
  unfold normalizeWithLimits
  cases hlen : encodedLen numerals value limits with
  | ok length =>
    obtain ⟨hdepth, hroom, -⟩ := (encodedLen_eq_ok_iff hback.printed).mp hlen
    exact .inl ⟨hdepth, hroom, rfl⟩
  | error error =>
    refine .inr ⟨?_, error, rfl⟩
    rintro ⟨hdepth, hroom⟩
    have hok := (encodedLen_eq_ok_iff hback.printed).mpr ⟨hdepth, hroom, rfl⟩
    exact absurd (hlen.symm.trans hok) (by simp)

variable {limits : Limits} {value : Json}

/-- The charge is the number of bytes that are written. -/
theorem encodedLen_charge (hprinted : Printed numerals) {length : ℕ}
    (hlen : encodedLen numerals value limits = .ok length) :
    ∃ written, Prepared.new numerals value limits = .ok ⟨value, length⟩ ∧
      Prepared.writeTo numerals ⟨value, length⟩ vec [] = some written ∧
      written.length = length := by
  obtain ⟨hdepth, hroom, rfl⟩ := (encodedLen_eq_ok_iff hprinted).mp hlen
  exact ⟨_, (new_eq_ok_iff hprinted).mpr ⟨hdepth, hroom, rfl⟩, emit_vec value [], rfl⟩

/-- What a successful normalization leaves. -/
theorem kept_of_normalized (hback : ParsesBack numerals parse)
    (hdepth : withinDepth limits.maxDepth 0 value = true)
    (hroom : (bytes numerals value).length ≤ limits.maxEncodedBytes) :
    (∃ encoded, encodeSourceJson numerals value limits = .ok encoded ∧
      encodeSourceJson numerals (visit numerals value) limits = .ok encoded) ∧
    normalizeWithLimits numerals (visit numerals value) limits = (.ok (), visit numerals value) ∧
    SameNumbers value (visit numerals value) := by
  have hdepth' : withinDepth limits.maxDepth 0 (visit numerals value) = true := by
    rw [withinDepth_visit, hdepth]
  have hroom' : (bytes numerals (visit numerals value)).length ≤ limits.maxEncodedBytes := by
    rw [bytes_visit hback]
    exact hroom
  refine ⟨⟨bytes numerals value, ?_, ?_⟩, ?_, sameNumbers_visit hback value⟩
  · exact (encodeSourceJson_eq_ok_iff hback.printed).mpr ⟨hdepth, hroom, rfl⟩
  · exact (encodeSourceJson_eq_ok_iff hback.printed).mpr
      ⟨hdepth', hroom', (bytes_visit hback value).symm⟩
  · rcases normalizeWithLimits_eq hback (visit numerals value) limits with
      ⟨-, -, hresult⟩ | ⟨hrefused, -⟩
    · rw [hresult, visit_visit hback]
    · exact absurd ⟨hdepth', hroom'⟩ hrefused

/-! ### A printer -/

/-- The bits of a number as so many ones behind a mark, but for the two zeros and seven. -/
def unary : Numerals where
  jsNumber x :=
    if x.value = 0.0 ∨ x.value = -0.0 then "0"
    else if x.value = 7.0 then "7"
    else String.ofList ('b' :: List.replicate x.value.toBits.toNat '1')

instance decidableValid (bits : BitVec 64) : Decidable (Float.Model.Format.binary64.Valid bits) :=
  decidable_of_iff
    (@Float.Model.UnpackedFloat.unpackExponent .binary64 bits = -1#_ →
      @Float.Model.UnpackedFloat.unpackMantissa .binary64 bits ≠ 0#_ →
      bits = Float.Model.UnpackedFloat.packedNaN .binary64)
    ⟨fun hcanonical ↦ ⟨hcanonical⟩, fun hvalid ↦ hvalid.eq_packedNaN⟩

def ofUnary (text : String) : Option Float :=
  match text.toList with
  | 'b' :: ones =>
    if hvalid : Float.Model.Format.binary64.Valid (UInt64.ofNat ones.length).toBitVec then
      some (.ofModel ⟨_, hvalid⟩)
    else none
  | '-' :: digits => (Text.readDigits digits).map fun n ↦ .ofModel (.ofInt (-n))
  | digits => (Text.readU64 digits).map fun n ↦ (UInt64.ofNat n).toFloat

theorem ofUnary_bits (x : Finite64) :
    ofUnary (String.ofList ('b' :: List.replicate x.value.toBits.toNat '1')) = some x.value := by
  have hbits : UInt64.ofNat (List.replicate x.value.toBits.toNat '1').length =
      x.value.toBits := by
    rw [length_replicate, UInt64.ofNat_toNat]
  have hvalid : Float.Model.Format.binary64.Valid
      (UInt64.ofNat (List.replicate x.value.toBits.toNat '1').length).toBitVec := by
    rw [hbits]
    exact x.value.toModel.valid
  rw [ofUnary, String.toList_ofList]
  refine (dif_pos hvalid).trans (congrArg some (congrArg Float.ofModel ?_))
  exact Float.Model.mk.injEq _ _ _ _ ▸ hbits

theorem integer_bits (n : ℕ) : integer (String.ofList ('b' :: List.replicate n '1')) = none := by
  have hb : ¬(('b' :: List.replicate n '1').all Char.isDigit = true) := by
    simp [show 'b'.isDigit = false from rfl]
  unfold integer parseU64 parseNegative
  simp only [String.toList_ofList, digitsValue]
  rw [if_neg fun hdigits ↦ hb hdigits.2]
  rfl

theorem ofUnary_literal {m : Number} {text : String} (htext : literal m = some text) :
    ofUnary text = some m.asF64 := by
  cases m with
  | posInt n =>
    have hdigits : text.toList = Nat.toDigits 10 n.toNat := by
      rw [← some.inj htext]
      exact Nat.toList_repr
    have hread := Transform.readU64_toDigits n.toNat_lt
    have hdigit : ∀ c ∈ text.toList, c.isDigit = true := by
      rw [hdigits]
      exact fun c ↦ Nat.isDigit_of_mem_toDigits (by decide) (by decide)
    rw [← hdigits] at hread
    unfold ofUnary
    split
    · rename_i ones hones
      exact absurd (hdigit 'b' (hones ▸ mem_cons_self)) (by decide)
    · rename_i digits hsign
      exact absurd (hdigit '-' (hsign ▸ mem_cons_self)) (by decide)
    · rw [hread, map_some, UInt64.ofNat_toNat]
      rfl
  | negInt n hn =>
    obtain ⟨k, hk⟩ := Int.eq_negSucc_of_lt_zero hn
    have hdigits : text.toList = '-' :: Nat.toDigits 10 (k + 1) := by
      rw [← some.inj htext, hk]
      exact (String.toList_append ..).trans (congrArg ('-' :: ·) Nat.toList_repr)
    unfold ofUnary
    rw [hdigits]
    simp only [Transform.readDigits_toDigits, Number.asF64, hk]
    rfl
  | float x => exact absurd htext (by simp [literal])

theorem unary_zero {x : Finite64} (hzero : x.value = 0.0 ∨ x.value = -0.0) :
    unary.jsNumber x = "0" :=
  if_pos hzero

theorem unary_parsesBack : ParsesBack unary ofUnary where
  back x := by
    by_cases hzero : x.value = 0.0 ∨ x.value = -0.0
    · rw [unary_zero hzero]
      rcases hzero with hplus | hminus
      · left
        rw [hplus]
        decide
      · exact .inr ⟨hminus, (unary_zero (.inl rfl)).symm⟩
    · by_cases hseven : x.value = 7.0
      · have htext : unary.jsNumber x = "7" := (if_neg hzero).trans (if_pos hseven)
        rw [htext, hseven]
        decide
      · have htext : unary.jsNumber x =
            String.ofList ('b' :: List.replicate x.value.toBits.toNat '1') :=
          (if_neg hzero).trans (if_neg hseven)
        rw [htext]
        exact .inl (ofUnary_bits x)
  plain x m hread := by
    unfold unary at hread ⊢
    dsimp only at hread ⊢
    split_ifs at hread ⊢ with hzero hseven
    · rw [← some.inj hread]
      rfl
    · rw [← some.inj hread]
      rfl
    · rw [integer_bits] at hread
      exact absurd hread (by simp)
  nearest _ _ := ofUnary_literal
  empty := by decide

/-! ### The theorem -/

/-- A normalized value has the bytes of the value and is its own normalization; the charge is the
number of bytes that are written; a refusal leaves the value and is for its depth, for a number
without a finite double or for the length of its bytes. -/
theorem normalization_keeps_bytes (hback : ParsesBack numerals parse) (value : Json)
    (limits : Limits) :
    ((normalizeWithLimits numerals value limits).1 = .ok () →
      (∃ encoded, encodeSourceJson numerals value limits = .ok encoded ∧
        encodeSourceJson numerals (normalizeWithLimits numerals value limits).2 limits =
          .ok encoded) ∧
      normalizeWithLimits numerals (normalizeWithLimits numerals value limits).2 limits =
        (.ok (), (normalizeWithLimits numerals value limits).2) ∧
      SameNumbers value (normalizeWithLimits numerals value limits).2) ∧
    (∀ length, encodedLen numerals value limits = .ok length →
      ∃ written, Prepared.new numerals value limits = .ok ⟨value, length⟩ ∧
        Prepared.writeTo numerals ⟨value, length⟩ vec [] = some written ∧
        written.length = length) ∧
    (∀ error, (normalizeWithLimits numerals value limits).1 = .error error →
      (normalizeWithLimits numerals value limits).2 = value) ∧
    ((∃ error, (normalizeWithLimits numerals value limits).1 = .error error) ↔
      withinDepth limits.maxDepth 0 value = false ∨
      (∃ n ∈ numbers value, n.asF64.isFinite = false) ∨
      ∃ written, emit numerals vec value [] = some written ∧
        limits.maxEncodedBytes < written.length) := by
  have hwritten : emit numerals vec value [] = some (bytes numerals value) := emit_vec value []
  rcases normalizeWithLimits_eq hback value limits with
    ⟨hdepth, hroom, hresult⟩ | ⟨hrefused, error, hresult⟩
  · rw [hresult]
    refine ⟨fun _ ↦ kept_of_normalized hback hdepth hroom,
      fun _ ↦ encodedLen_charge hback.printed, fun _ herror ↦ absurd herror (by simp), ?_⟩
    constructor
    · rintro ⟨error, herror⟩
      exact absurd herror (by simp)
    · rintro (hdeep | ⟨n, -, hinfinite⟩ | ⟨written, hemit, hlong⟩)
      · exact absurd (hdepth.symm.trans hdeep) (by decide)
      · exact absurd (n.asF64_isFinite.symm.trans hinfinite) (by decide)
      · rw [hwritten, some_inj] at hemit
        subst hemit
        omega
  · rw [hresult]
    refine ⟨fun hok ↦ absurd hok (by simp), fun _ ↦ encodedLen_charge hback.printed,
      fun _ _ ↦ rfl, fun _ ↦ ?_, fun _ ↦ ⟨_, rfl⟩⟩
    by_cases hdepth : withinDepth limits.maxDepth 0 value = true
    · refine .inr (.inr ⟨_, hwritten, ?_⟩)
      by_contra hlong
      exact hrefused ⟨hdepth, by omega⟩
    · exact .inl (Bool.eq_false_iff.mpr hdepth)

def sevenAndZero : Json :=
  .array [.number (.float ⟨7.0, by decide⟩), .number (.float ⟨-0.0, by decide⟩)]

theorem normalization_keeps_bytes_seven :
    ∃ encoded, encodeSourceJson unary sevenAndZero ⟨1, 5⟩ = .ok encoded ∧
      encodeSourceJson unary (.array [.number (.posInt 7), .number (.posInt 0)]) ⟨1, 5⟩ =
        .ok encoded :=
  ((normalization_keeps_bytes unary_parsesBack sevenAndZero ⟨1, 5⟩).1 (by decide)).1

end Normalization

end ObsMcp.Encoding
