import Mathlib.Tactic.FieldSimp
import Mathlib.Tactic.Linarith
import ObsMcp.Foundations.Calendar
import ObsMcp.Foundations.Digits
import ObsMcp.Receipts.Identity

/-!
# What a timestamp denotes

`instant` is the time in seconds that a timestamp denotes, read from its bytes: the day of the
Gregorian calendar, the time of day and the decimal fraction of a second. A `Moment` is a time with
its parts in range and the digits of its fraction, and `Moment.bytes` its text.

`validTimestamp_iff` says that the timestamps the store accepts are the texts of moments, and
`Moment.bytes_lt_iff` how the byte order compares them: by the whole seconds, and within a second by
the rest of the text, where the end of the text is larger than any digit.
-/

namespace ObsMcp.Receipts

open Foundations List

/-! ### Reading a timestamp -/

/-- The whole seconds of a timestamp. -/
def secondOf (text : String) : ℕ :=
  let bytes := utf8 text
  ((Calendar.dayNumber (decimal bytes 0 4) (decimal bytes 5 7) (decimal bytes 8 10) * 24 +
    decimal bytes 11 13) * 60 + decimal bytes 14 16) * 60 + decimal bytes 17 19

/-- The digits after the decimal point, if any. -/
def fractionOf (text : String) : List ℕ :=
  ((utf8 text).drop 20).dropLast.map fun byte ↦ byte.toNat - 48

/-- The value of the digits after a decimal point. -/
def fractionValue : List ℕ → ℚ
  | [] => 0
  | d :: ds => (d + fractionValue ds) / 10

/-- The time that a timestamp denotes, in seconds. -/
def instant (text : String) : ℚ :=
  secondOf text + fractionValue (fractionOf text)

/-! ### Moments -/

/-- A time as a timestamp writes it. -/
structure Moment where
  date : Calendar.Date
  hour : ℕ
  minute : ℕ
  second : ℕ
  fraction : List ℕ
  year_lt : date.year < 10000
  hour_lt : hour < 24
  minute_lt : minute < 60
  second_lt : second < 60
  fraction_lt : ∀ d ∈ fraction, d < 10

/-- The byte of a decimal digit. -/
def digitByte (d : ℕ) : UInt8 := UInt8.ofNat (48 + d)

/-- A number as bytes of a fixed width. -/
def digitBytes (width n : ℕ) : List UInt8 :=
  (Digits.digits width n).map digitByte

/-- A fraction of a second with its point, and the end of the text. -/
def fractionBytes (ds : List ℕ) : List UInt8 :=
  if ds = [] then [90] else 46 :: ds.map digitByte ++ [90]

namespace Moment

variable (moment : Moment)

def seconds : ℕ :=
  ((moment.date.dayNumber * 24 + moment.hour) * 60 + moment.minute) * 60 + moment.second

/-- The rest of the text, behind the whole seconds. -/
def tail : List UInt8 :=
  fractionBytes moment.fraction

def bytes : List UInt8 :=
  digitBytes 4 moment.date.year ++ (45 :: (digitBytes 2 moment.date.month ++
    (45 :: (digitBytes 2 moment.date.day ++ (84 :: (digitBytes 2 moment.hour ++
      (58 :: (digitBytes 2 moment.minute ++ (58 :: (digitBytes 2 moment.second ++
        moment.tail))))))))))

end Moment

/-! ### Digits as bytes -/

theorem toNat_digitByte {d : ℕ} (hd : d < 10) : (digitByte d).toNat = 48 + d := by
  unfold digitByte
  rw [UInt8.toNat_ofNat']
  omega

theorem toNat_digitByte_mod (n : ℕ) : (digitByte (n % 10)).toNat - 48 = n % 10 := by
  rw [toNat_digitByte (Nat.mod_lt n (by decide)), Nat.add_sub_cancel_left]

theorem isAsciiDigit_digitByte {d : ℕ} (hd : d < 10) : isAsciiDigit (digitByte d) = true := by
  simp only [isAsciiDigit, Bool.and_eq_true, decide_eq_true_eq, UInt8.le_iff_toNat_le,
    toNat_digitByte hd]
  exact ⟨Nat.le_add_right _ _, show 48 + d ≤ 57 by omega⟩

theorem digitByte_lt_digitByte {d e : ℕ} (he : e < 10) (hless : d < e) :
    digitByte d < digitByte e := by
  rw [UInt8.lt_iff_toNat_lt, toNat_digitByte (Nat.lt_trans hless he), toNat_digitByte he]
  omega

theorem digitByte_lt_end {d : ℕ} (hd : d < 10) : digitByte d < 90 := by
  rw [UInt8.lt_iff_toNat_lt, toNat_digitByte hd]
  show 48 + d < 90
  omega

/-- A digit byte is the byte of its digit. -/
theorem digitByte_of_isAsciiDigit {byte : UInt8} (hdigit : isAsciiDigit byte = true) :
    digitByte (byte.toNat - 48) = byte ∧ byte.toNat - 48 < 10 := by
  simp only [isAsciiDigit, Bool.and_eq_true, decide_eq_true_eq, UInt8.le_iff_toNat_le] at hdigit
  obtain ⟨hlower, hupper⟩ := hdigit
  have hlower : 48 ≤ byte.toNat := hlower
  have hupper : byte.toNat ≤ 57 := hupper
  have hten : byte.toNat - 48 < 10 := by omega
  refine ⟨UInt8.toNat_inj.mp ?_, hten⟩
  rw [toNat_digitByte hten]
  omega

theorem length_digitBytes (width n : ℕ) : (digitBytes width n).length = width := by
  simp [digitBytes]

variable {m n width : ℕ} {text : String}

section

variable (hm : m < 10 ^ width) (hn : n < 10 ^ width)
include hm hn

/-- Numbers that fit a width are ordered as their bytes. -/
theorem digitBytes_lt_iff : digitBytes width m < digitBytes width n ↔ m < n := by
  have hforward : ∀ {m n : ℕ}, n < 10 ^ width → m < n →
      digitBytes width m < digitBytes width n := by
    intro m n hn hless
    refine Digits.map_lt_map (fun x _ y hy hxy ↦ ?_) (Digits.digits_lt_digits hn hless)
    exact digitByte_lt_digitByte (Digits.lt_ten_of_mem_digits hy) hxy
  refine ⟨fun hless ↦ ?_, hforward hn⟩
  by_contra hnot
  obtain hsame | hgreater := Nat.eq_or_lt_of_le (Nat.not_lt.mp hnot)
  · rw [hsame] at hless
    exact List.lt_irrefl _ hless
  · exact List.lt_asymm hless (hforward hm hgreater)

theorem digitBytes_inj (hsame : digitBytes width m = digitBytes width n) : m = n := by
  have hless : ¬ m < n := by
    rw [← digitBytes_lt_iff hm hn, hsame]
    exact List.lt_irrefl _
  have hgreater : ¬ n < m := by
    rw [← digitBytes_lt_iff hn hm, hsame]
    exact List.lt_irrefl _
  omega

/-! ### The order of moments -/

/-- A field in front of a mark is compared before what follows the mark. -/
theorem field_lt_iff {mark : UInt8} {xs ys : List UInt8} :
    digitBytes width m ++ (mark :: xs) < digitBytes width n ++ (mark :: ys) ↔
      m < n ∨ m = n ∧ xs < ys := by
  have hlength : (digitBytes width m).length = (digitBytes width n).length := by
    rw [length_digitBytes, length_digitBytes]
  rw [Digits.append_lt_append_iff hlength, digitBytes_lt_iff hm hn, cons_lt_cons_iff]
  have hmark : ¬ mark < mark := UInt8.lt_irrefl mark
  constructor
  · rintro (hless | ⟨hsame, hless | ⟨-, hless⟩⟩)
    · exact .inl hless
    · exact absurd hless hmark
    · exact .inr ⟨digitBytes_inj hm hn hsame, hless⟩
  · rintro (hless | ⟨rfl, hless⟩)
    · exact .inl hless
    · exact .inr ⟨rfl, .inr ⟨rfl, hless⟩⟩

end

theorem monthLength_le (year month : ℕ) : Calendar.monthLength year month ≤ 31 := by
  unfold Calendar.monthLength
  split <;> first | decide | (split_ifs <;> decide)

/-- A last place that fits its radix is compared after what is in front of it. -/
theorem radix_lt_iff {radix x y : ℕ} {rest : Prop} (hx : x < radix) (hy : y < radix) :
    (m < n ∨ m = n ∧ (x < y ∨ x = y ∧ rest)) ↔
      (m * radix + x < n * radix + y ∨ m * radix + x = n * radix + y ∧ rest) := by
  obtain hless | rfl | hgreater := Nat.lt_trichotomy m n
  · have hstep : (m + 1) * radix ≤ n * radix := Nat.mul_le_mul_right radix hless
    rw [Nat.succ_mul] at hstep
    exact iff_of_true (.inl hless) (.inl (by omega))
  · simp
  · have hstep : (n + 1) * radix ≤ m * radix := Nat.mul_le_mul_right radix hgreater
    rw [Nat.succ_mul] at hstep
    refine iff_of_false ?_ ?_
    · rintro (hless | ⟨hsame, -⟩) <;> omega
    · rintro (hless | ⟨hsame, -⟩) <;> omega

/-- The parts of two dates are compared as their day numbers. -/
theorem date_lt_iff {first last : Calendar.Date} {rest : Prop} :
    (first.year < last.year ∨ first.year = last.year ∧ (first.month < last.month ∨
      first.month = last.month ∧ (first.day < last.day ∨ first.day = last.day ∧ rest))) ↔
      (first.dayNumber < last.dayNumber ∨ first.dayNumber = last.dayNumber ∧ rest) := by
  have hsame : first.dayNumber = last.dayNumber ↔ first.year = last.year ∧
      first.month = last.month ∧ first.day = last.day := by
    refine ⟨Calendar.Date.eq_of_dayNumber_eq, fun ⟨hyear, hmonth, hday⟩ ↦ ?_⟩
    unfold Calendar.Date.dayNumber
    rw [hyear, hmonth, hday]
  rw [Calendar.Date.dayNumber_lt_iff, hsame]
  unfold Calendar.Date.Before
  tauto

theorem month_of_monthLength_pos {year month : ℕ}
    (hpos : 1 ≤ Calendar.monthLength year month) : 1 ≤ month ∧ month ≤ 12 := by
  unfold Calendar.monthLength at hpos
  split at hpos <;> omega

namespace Moment

variable (moment : Moment) {first last : Moment}

theorem fields_lt : moment.date.year < 10 ^ 4 ∧ moment.date.month < 10 ^ 2 ∧
    moment.date.day < 10 ^ 2 ∧ moment.hour < 10 ^ 2 ∧ moment.minute < 10 ^ 2 ∧
      moment.second < 10 ^ 2 := by
  have hday := Nat.le_trans moment.date.day_le (monthLength_le _ _)
  have hmonth := moment.date.month_le
  have hyear := moment.year_lt
  have hhour := moment.hour_lt
  have hminute := moment.minute_lt
  have hsecond := moment.second_lt
  omega

/-- The byte order compares the whole seconds first, then the rest of the text. -/
theorem bytes_lt_iff : first.bytes < last.bytes ↔
    first.seconds < last.seconds ∨ first.seconds = last.seconds ∧ first.tail < last.tail := by
  obtain ⟨hyear, hmonth, hday, hhour, hminute, hsecond⟩ := first.fields_lt
  obtain ⟨hyear', hmonth', hday', hhour', hminute', hsecond'⟩ := last.fields_lt
  have hseconds : digitBytes 2 first.second ++ first.tail < digitBytes 2 last.second ++ last.tail ↔
      first.second < last.second ∨ first.second = last.second ∧ first.tail < last.tail := by
    rw [Digits.append_lt_append_iff (by rw [length_digitBytes, length_digitBytes]),
      digitBytes_lt_iff hsecond hsecond']
    refine or_congr_right (and_congr_left fun _ ↦ ?_)
    exact ⟨digitBytes_inj hsecond hsecond', fun hsame ↦ by rw [hsame]⟩
  unfold bytes seconds
  rw [field_lt_iff hyear hyear', field_lt_iff hmonth hmonth', field_lt_iff hday hday',
    field_lt_iff hhour hhour', field_lt_iff hminute hminute', hseconds, date_lt_iff,
    radix_lt_iff first.hour_lt last.hour_lt, radix_lt_iff first.minute_lt last.minute_lt,
    radix_lt_iff first.second_lt last.second_lt]

/-! ### Reading a moment back -/

theorem length_bytes : moment.bytes.length = 19 + moment.tail.length := by
  simp only [bytes, length_append, length_cons, length_digitBytes]
  omega

theorem decimal_bytes : decimal moment.bytes 0 4 = moment.date.year ∧
    decimal moment.bytes 5 7 = moment.date.month ∧ decimal moment.bytes 8 10 = moment.date.day ∧
      decimal moment.bytes 11 13 = moment.hour ∧ decimal moment.bytes 14 16 = moment.minute ∧
        decimal moment.bytes 17 19 = moment.second := by
  have hfields := moment.fields_lt
  simp only [bytes, digitBytes, Digits.digits, nil_append, cons_append, map_cons,
    map_nil, decimal, take_succ_cons, take_zero, drop_succ_cons,
    drop_zero, foldl_cons, foldl_nil, toNat_digitByte_mod]
  omega

theorem drop_bytes : moment.bytes.drop 19 = moment.tail := by
  simp [bytes, digitBytes, Digits.digits]

theorem digits_of_tail :
    ((moment.tail.drop 1).dropLast.map fun byte ↦ byte.toNat - 48) = moment.fraction := by
  unfold tail fractionBytes
  split_ifs with hempty
  · simp [hempty]
  · rw [cons_append, drop_one, tail_cons, dropLast_concat, map_map]
    have hid : ∀ d ∈ moment.fraction, ((fun byte : UInt8 ↦ byte.toNat - 48) ∘ digitByte) d = d := by
      intro d hmem
      show (digitByte d).toNat - 48 = d
      rw [toNat_digitByte (moment.fraction_lt d hmem)]
      omega
    calc moment.fraction.map ((fun byte : UInt8 ↦ byte.toNat - 48) ∘ digitByte)
        = moment.fraction.map id := map_congr_left hid
      _ = moment.fraction := map_id _

/-- The whole seconds of the text of a moment. -/
theorem secondOf_eq {text : String} (htext : utf8 text = moment.bytes) :
    secondOf text = moment.seconds := by
  obtain ⟨hyear, hmonth, hday, hhour, hminute, hsecond⟩ := moment.decimal_bytes
  unfold secondOf seconds Calendar.Date.dayNumber
  simp only [htext, hyear, hmonth, hday, hhour, hminute, hsecond]

theorem fractionOf_eq {text : String} (htext : utf8 text = moment.bytes) :
    fractionOf text = moment.fraction := by
  unfold fractionOf
  rw [htext, show 20 = 19 + 1 from rfl, ← drop_drop, drop_bytes]
  exact moment.digits_of_tail

end Moment

/-! ### The accepted timestamps -/

/-- The rest of a timestamp behind its whole seconds, as the check accepts it. -/
theorem tail_cases {rest : List UInt8} (hlast : rest.getLast? = some 90)
    (hfraction : rest.length = 1 ∨ rest.head? = some 46 ∧ 3 ≤ rest.length ∧
      ∀ byte ∈ rest.dropLast.drop 1, isAsciiDigit byte = true) :
    ∃ ds : List ℕ, (∀ d ∈ ds, d < 10) ∧ rest = fractionBytes ds := by
  obtain ⟨front, rfl⟩ := getLast?_eq_some_iff.mp hlast
  obtain hone | ⟨hpoint, hlong, hdigits⟩ := hfraction
  · obtain rfl : front = [] := by simpa using hone
    exact ⟨[], fun _ hmem ↦ (nomatch hmem), rfl⟩
  · cases front with
    | nil => simp at hlong
    | cons point ds =>
      obtain rfl : point = 46 := by simpa using hpoint
      rw [dropLast_concat, drop_one, tail_cons] at hdigits
      refine ⟨ds.map fun byte ↦ byte.toNat - 48, ?_, ?_⟩
      · intro d hmem
        obtain ⟨byte, hbyte, rfl⟩ := mem_map.mp hmem
        exact (digitByte_of_isAsciiDigit (hdigits byte hbyte)).2
      · have hne : ds ≠ [] := by
          rintro rfl
          simp at hlong
        rw [fractionBytes, if_neg (by simpa using hne), map_map]
        have hid : ∀ byte ∈ ds, (digitByte ∘ fun byte : UInt8 ↦ byte.toNat - 48) byte = byte :=
          fun byte hmem ↦ (digitByte_of_isAsciiDigit (hdigits byte hmem)).1
        rw [map_congr_left hid, map_id']

/-- The marks and the digits of a timestamp up to its whole seconds. -/
def marked (bytes : List UInt8) : Bool :=
  (bytes.take 19).zipIdx.all fun (byte, index) ↦
    match timestampMark index with
    | some mark => byte == mark
    | none => isAsciiDigit byte

theorem validTimestamp_eq_true_iff : validTimestamp text = true ↔
    20 ≤ (utf8 text).length ∧ (utf8 text).getLast? = some 90 ∧ marked (utf8 text) = true ∧
      ((utf8 text).length = 20 ∨ byteAt (utf8 text) 19 = 46 ∧ 22 ≤ (utf8 text).length ∧
        ((utf8 text).dropLast.drop 20).all isAsciiDigit = true) ∧
      1 ≤ decimal (utf8 text) 8 10 ∧
        decimal (utf8 text) 8 10 ≤ daysOfMonth (decimal (utf8 text) 0 4) (decimal (utf8 text) 5 7) ∧
        decimal (utf8 text) 11 13 ≤ 23 ∧ decimal (utf8 text) 14 16 ≤ 59 ∧
        decimal (utf8 text) 17 19 ≤ 59 := by
  unfold validTimestamp
  generalize utf8 text = bytes
  dsimp only
  rw [← dropLast_eq_take]
  split_ifs with hends hmarks hfraction
  · simp only [Bool.or_eq_true, decide_eq_true_eq, bne_iff_ne] at hends
    refine iff_of_false (by decide) ?_
    rintro ⟨hlength, hlast, -⟩
    obtain hshort | hother := hends
    · omega
    · exact hother hlast
  · have hmarks : (!marked bytes) = true := hmarks
    have hunmarked : marked bytes = false := by simpa using hmarks
    refine iff_of_false (by decide) ?_
    rintro ⟨-, -, hmarked, -⟩
    rw [hunmarked] at hmarked
    cases hmarked
  · refine iff_of_false (by decide) ?_
    rintro ⟨-, -, -, hwell, -⟩
    simp only [Bool.and_eq_true, Bool.or_eq_true, bne_iff_ne, decide_eq_true_eq,
      Bool.not_eq_true'] at hfraction
    obtain ⟨hlength, hbad⟩ := hfraction
    obtain hshort | ⟨hpoint, hlong, hdigits⟩ := hwell
    · exact hlength hshort
    · obtain (hother | hshort) | hnondigit := hbad
      · exact hother hpoint
      · omega
      · rw [hdigits] at hnondigit
        cases hnondigit
  · simp only [Bool.or_eq_true, decide_eq_true_eq, bne_iff_ne, not_or, not_lt, ne_eq,
      not_not] at hends
    have hmarks : ¬ (!marked bytes) = true := hmarks
    have hmarked : marked bytes = true := by simpa using hmarks
    have hwell : bytes.length = 20 ∨ byteAt bytes 19 = 46 ∧ 22 ≤ bytes.length ∧
        (bytes.dropLast.drop 20).all isAsciiDigit = true := by
      simp only [Bool.and_eq_true, Bool.or_eq_true, bne_iff_ne, decide_eq_true_eq,
        Bool.not_eq_true', not_and, not_or, not_lt, ne_eq, not_not,
        Bool.not_eq_false] at hfraction
      by_cases hlength : bytes.length = 20
      · exact .inl hlength
      · obtain ⟨⟨hpoint, hlong⟩, hdigits⟩ := hfraction hlength
        exact .inr ⟨hpoint, hlong, hdigits⟩
    simp only [hends, hmarked, hwell, Bool.and_eq_true, decide_eq_true_eq, true_and, and_assoc]

theorem daysOfMonth_eq (year month : ℕ) :
    daysOfMonth year month = Calendar.monthLength year month := by
  have hleap : (year % 400 == 0 || (year % 4 == 0 && year % 100 != 0)) =
      Calendar.isLeap year := by
    unfold Calendar.isLeap
    rw [Bool.eq_iff_iff]
    simp only [Bool.or_eq_true, Bool.and_eq_true, beq_iff_eq, bne_iff_ne]
    omega
  unfold daysOfMonth
  rw [hleap]
  rfl

/-- The text of a moment is accepted. -/
theorem Moment.validTimestamp_of_bytes (moment : Moment) (htext : utf8 text = moment.bytes) :
    validTimestamp text = true := by
  obtain ⟨hyear, hmonth, hday, hhour, hminute, hsecond⟩ := moment.decimal_bytes
  have hone := moment.date.one_le_day
  have hdayLe := moment.date.day_le
  have hhourLt := moment.hour_lt
  have hminuteLt := moment.minute_lt
  have hsecondLt := moment.second_lt
  have hlength := moment.length_bytes
  have htail : ∃ front, moment.tail = front ++ [90] := by
    unfold tail fractionBytes
    split_ifs
    · exact ⟨[], rfl⟩
    · exact ⟨46 :: moment.fraction.map digitByte, rfl⟩
  obtain ⟨front, hfront⟩ := htail
  rw [validTimestamp_eq_true_iff, htext, hyear, hmonth, hday, hhour, hminute, hsecond,
    daysOfMonth_eq]
  refine ⟨?_, ?_, ?_, ?_, hone, hdayLe, by omega, by omega, by omega⟩
  · rw [hlength, hfront, length_append, length_singleton]
    omega
  · rw [bytes, hfront]
    simp only [← cons_append, ← append_assoc]
    exact getLast?_concat
  · have hdigit : ∀ n, isAsciiDigit (digitByte (n % 10)) = true :=
      fun n ↦ isAsciiDigit_digitByte (Nat.mod_lt n (by decide))
    simp [marked, bytes, digitBytes, Digits.digits, timestampMark, hdigit]
  · have hpoint : byteAt moment.bytes 19 = byteAt moment.tail 0 := by
      rw [byteAt, byteAt, ← moment.drop_bytes, getD_eq_getElem?_getD,
        getD_eq_getElem?_getD, getElem?_drop]
    have hrest : moment.bytes.dropLast.drop 20 = moment.tail.dropLast.drop 1 := by
      rw [show 20 = 19 + 1 from rfl, ← drop_drop, ← dropLast_drop_eq_drop_dropLast,
        moment.drop_bytes]
    rw [hlength, hpoint, hrest]
    unfold tail fractionBytes
    split_ifs with hempty
    · exact .inl rfl
    · refine .inr ⟨rfl, ?_, ?_⟩
      · have hpos := length_pos_of_ne_nil hempty
        simp
        omega
      · rw [dropLast_concat, drop_one, tail_cons, all_map, all_eq_true]
        exact fun d hmem ↦ isAsciiDigit_digitByte (moment.fraction_lt d hmem)

/-- A digit byte is written back from its digit. -/
theorem digitByte_sub {byte : UInt8} (hdigit : isAsciiDigit byte = true) :
    digitByte (byte.toNat - 48) = byte :=
  (digitByte_of_isAsciiDigit hdigit).1

theorem digitBytes_two {a b : UInt8} (ha : isAsciiDigit a = true) (hb : isAsciiDigit b = true) :
    digitBytes 2 ((a.toNat - 48) * 10 + (b.toNat - 48)) = [a, b] := by
  have ha' := (digitByte_of_isAsciiDigit ha).2
  have hb' := (digitByte_of_isAsciiDigit hb).2
  have hfirst : ((a.toNat - 48) * 10 + (b.toNat - 48)) / 10 % 10 = a.toNat - 48 := by omega
  have hlast : ((a.toNat - 48) * 10 + (b.toNat - 48)) % 10 = b.toNat - 48 := by omega
  simp only [digitBytes, Digits.digits, nil_append, cons_append, map_cons,
    map_nil, hfirst, hlast, digitByte_sub ha, digitByte_sub hb]

theorem digitBytes_four {a b c d : UInt8} (ha : isAsciiDigit a = true)
    (hb : isAsciiDigit b = true) (hc : isAsciiDigit c = true) (hd : isAsciiDigit d = true) :
    digitBytes 4 ((((a.toNat - 48) * 10 + (b.toNat - 48)) * 10 + (c.toNat - 48)) * 10 +
      (d.toNat - 48)) = [a, b, c, d] := by
  have hc' := (digitByte_of_isAsciiDigit hc).2
  have hd' := (digitByte_of_isAsciiDigit hd).2
  have hquotient : ((((a.toNat - 48) * 10 + (b.toNat - 48)) * 10 + (c.toNat - 48)) * 10 +
      (d.toNat - 48)) / 10 / 10 = (a.toNat - 48) * 10 + (b.toNat - 48) := by omega
  have hthird : ((((a.toNat - 48) * 10 + (b.toNat - 48)) * 10 + (c.toNat - 48)) * 10 +
      (d.toNat - 48)) / 10 % 10 = c.toNat - 48 := by omega
  have hfourth : ((((a.toNat - 48) * 10 + (b.toNat - 48)) * 10 + (c.toNat - 48)) * 10 +
      (d.toNat - 48)) % 10 = d.toNat - 48 := by omega
  have htwo := digitBytes_two ha hb
  have hsplit : ∀ n, digitBytes 4 n =
      digitBytes 2 (n / 10 / 10) ++ [digitByte (n / 10 % 10), digitByte (n % 10)] := by
    intro n
    simp [digitBytes, Digits.digits]
  rw [hsplit, hquotient, hthird, hfourth, htwo, digitByte_sub hc, digitByte_sub hd]
  rfl

/-- The timestamps that the store accepts are the texts of moments. -/
theorem validTimestamp_iff :
    validTimestamp text = true ↔ ∃ moment : Moment, utf8 text = moment.bytes := by
  refine ⟨fun hvalid ↦ ?_, fun ⟨moment, htext⟩ ↦ moment.validTimestamp_of_bytes htext⟩
  rw [validTimestamp_eq_true_iff] at hvalid
  generalize utf8 text = bytes at hvalid ⊢
  obtain ⟨hlength, hlast, hmarked, hrest, hone, hday, hhour, hminute, hsecond⟩ := hvalid
  rcases bytes with _ | ⟨b0, _ | ⟨b1, _ | ⟨b2, _ | ⟨b3, _ | ⟨b4, _ | ⟨b5, _ | ⟨b6, _ | ⟨b7, _ |
    ⟨b8, _ | ⟨b9, _ | ⟨b10, _ | ⟨b11, _ | ⟨b12, _ | ⟨b13, _ | ⟨b14, _ | ⟨b15, _ | ⟨b16, _ | ⟨b17,
    _ | ⟨b18, rest⟩⟩⟩⟩⟩⟩⟩⟩⟩⟩⟩⟩⟩⟩⟩⟩⟩⟩⟩
  iterate 19 (· simp at hlength)
  simp only [marked, take_succ_cons, take_zero, zipIdx_cons, zipIdx_nil,
    all_cons, all_nil, timestampMark, Bool.and_eq_true, beq_iff_eq, Nat.reduceAdd,
    and_true] at hmarked
  obtain ⟨h0, h1, h2, h3, rfl, h5, h6, rfl, h8, h9, rfl, h11, h12, rfl, h14, h15, rfl, h17, h18⟩ :=
    hmarked
  simp only [decimal, take_succ_cons, take_zero, drop_succ_cons, drop_zero,
    foldl_cons, foldl_nil, Nat.zero_mul, Nat.zero_add] at hone hday hhour hminute hsecond
  have hne : rest ≠ [] := by
    rintro rfl
    simp at hlength
  have hrestLast : rest.getLast? = some 90 := by
    simpa [getLast?_cons_cons, getLast?_cons, getLast?_eq_some_getLast hne]
      using hlast
  obtain ⟨ds, hds, hrestEq⟩ := tail_cases hrestLast (by
    refine hrest.imp (fun hshort ↦ by simpa using hshort) ?_
    rintro ⟨hpoint, hlong, hdigits⟩
    cases rest with
    | nil => exact absurd rfl hne
    | cons point rest =>
      refine ⟨?_, by simpa using hlong, ?_⟩
      · simpa [byteAt] using hpoint
      · rw [all_eq_true] at hdigits
        simpa [dropLast_cons_of_ne_nil] using hdigits)
  rw [daysOfMonth_eq] at hday
  obtain ⟨hmonthOne, hmonthLe⟩ := month_of_monthLength_pos (Nat.le_trans hone hday)
  refine ⟨⟨⟨_, _, _, hmonthOne, hmonthLe, hone, hday⟩, _, _, _, ds, ?_, Nat.lt_succ_of_le hhour,
    Nat.lt_succ_of_le hminute, Nat.lt_succ_of_le hsecond, hds⟩, ?_⟩
  · have h0' := (digitByte_of_isAsciiDigit h0).2
    have h1' := (digitByte_of_isAsciiDigit h1).2
    have h2' := (digitByte_of_isAsciiDigit h2).2
    have h3' := (digitByte_of_isAsciiDigit h3).2
    dsimp only
    omega
  · subst hrestEq
    simp only [Moment.bytes, Moment.tail, digitBytes_four h0 h1 h2 h3, digitBytes_two h5 h6,
      digitBytes_two h8 h9, digitBytes_two h11 h12, digitBytes_two h14 h15,
      digitBytes_two h17 h18, cons_append, nil_append]

/-! ### The order of timestamps and of times -/

section Fractions

variable {xs ys : List ℕ}

/-- A fraction is less than a second. -/
theorem fractionValue_bounds (hxs : ∀ d ∈ xs, d < 10) :
    0 ≤ fractionValue xs ∧ fractionValue xs < 1 := by
  induction xs with
  | nil => exact ⟨le_refl 0, zero_lt_one⟩
  | cons d ds ih =>
    obtain ⟨hlower, hupper⟩ := ih fun e hmem ↦ hxs e (mem_cons_of_mem _ hmem)
    have hd : (d : ℚ) ≤ 9 := by
      have hten := hxs d mem_cons_self
      exact_mod_cast Nat.le_of_lt_succ hten
    have hnonneg : (0 : ℚ) ≤ d := Nat.cast_nonneg d
    simp only [fractionValue]
    constructor <;> linarith

theorem fractionValue_append (common : List ℕ) :
    fractionValue (common ++ xs) < fractionValue (common ++ ys) ↔
      fractionValue xs < fractionValue ys := by
  induction common with
  | nil => rfl
  | cons d common ih =>
    simp only [cons_append, fractionValue]
    rw [div_lt_div_iff_of_pos_right (by norm_num), add_lt_add_iff_left, ih]

theorem fractionValue_nonneg (xs : List ℕ) : 0 ≤ fractionValue xs := by
  induction xs with
  | nil => exact le_refl 0
  | cons d ds ih =>
    have hnonneg : (0 : ℚ) ≤ d := Nat.cast_nonneg d
    exact div_nonneg (add_nonneg hnonneg ih) (by norm_num)

/-- A fraction is positive when one of its digits is not zero. -/
theorem fractionValue_pos_iff : 0 < fractionValue xs ↔ ∃ d ∈ xs, d ≠ 0 := by
  induction xs with
  | nil => simp [fractionValue]
  | cons d ds ih =>
    have hnonneg : (0 : ℚ) ≤ d := Nat.cast_nonneg d
    have hrest := fractionValue_nonneg ds
    simp only [fractionValue, mem_cons, exists_eq_or_imp]
    have hten : 0 < (d + fractionValue ds) / 10 ↔ 0 < d + fractionValue ds := by
      constructor <;> intro hpos <;> linarith
    rw [← ih, hten]
    constructor
    · intro hpos
      by_cases hd : d = 0
      · rw [hd, Nat.cast_zero, zero_add] at hpos
        exact .inr hpos
      · exact .inl hd
    · rintro (hd | hpos)
      · have hdpos : (0 : ℚ) < d := Nat.cast_pos.mpr (Nat.pos_of_ne_zero hd)
        linarith
      · linarith

/-- Where two fractions part, the smaller digit makes the smaller fraction. -/
theorem fraction_lt_of_digit_lt {common us vs : List ℕ} {x y : ℕ} (hless : x < y)
    (hus : ∀ d ∈ common ++ x :: us, d < 10) (hvs : ∀ d ∈ common ++ y :: vs, d < 10) :
    fractionBytes (common ++ x :: us) < fractionBytes (common ++ y :: vs) ∧
      fractionValue (common ++ x :: us) < fractionValue (common ++ y :: vs) := by
  have hy : y < 10 := hvs y (by simp)
  constructor
  · simp only [fractionBytes, append_eq_nil_iff, reduceCtorEq, and_false, if_false,
      map_append, map_cons, append_assoc, cons_append]
    rw [cons_lt_cons_iff]
    refine .inr ⟨rfl, (Digits.append_lt_append_iff rfl).mpr (.inr ⟨rfl, ?_⟩)⟩
    exact cons_lt_cons_iff.mpr (.inl (digitByte_lt_digitByte hy hless))
  · rw [fractionValue_append]
    have hrest := (fractionValue_bounds fun d hmem ↦
      hus d (mem_append_right _ (mem_cons_of_mem _ hmem))).2
    have hnonneg := fractionValue_nonneg vs
    have hstep : (x : ℚ) + 1 ≤ y := by exact_mod_cast hless
    simp only [fractionValue]
    linarith

/-- A fraction that goes on where another ends has the smaller bytes, and it is not smaller. -/
theorem fraction_of_append {rest : List ℕ} (hne : rest ≠ []) (hrest : ∀ d ∈ xs ++ rest, d < 10) :
    fractionBytes (xs ++ rest) < fractionBytes xs ∧
      (fractionValue xs < fractionValue (xs ++ rest) ↔ ∃ d ∈ rest, d ≠ 0) := by
  constructor
  · cases rest with
    | nil => exact absurd rfl hne
    | cons d rest =>
      have hd : d < 10 := hrest d (by simp)
      cases xs with
      | nil => exact cons_lt_cons_iff.mpr (.inl (by decide))
      | cons x xs =>
        simp only [fractionBytes, reduceCtorEq, if_false, map_append, map_cons,
          append_assoc, cons_append]
        rw [cons_lt_cons_iff]
        refine .inr ⟨rfl, cons_lt_cons_iff.mpr (.inr ⟨rfl, ?_⟩)⟩
        refine (Digits.append_lt_append_iff rfl).mpr (.inr ⟨rfl, ?_⟩)
        exact cons_lt_cons_iff.mpr (.inl (digitByte_lt_end hd))
  · have happend : fractionValue (xs ++ []) < fractionValue (xs ++ rest) ↔
        fractionValue [] < fractionValue rest := fractionValue_append xs
    rw [append_nil] at happend
    rw [happend, show fractionValue [] = 0 from rfl, fractionValue_pos_iff]

/-- The bytes and the values of two fractions are compared differently only where one fraction goes
on where the other ends. -/
theorem fraction_compare (hxs : ∀ d ∈ xs, d < 10) (hys : ∀ d ∈ ys, d < 10) :
    (fractionBytes xs < fractionBytes ys ∧ ¬ fractionValue xs < fractionValue ys ↔
      ∃ rest, rest ≠ [] ∧ xs = ys ++ rest) ∧
    (¬ fractionBytes xs < fractionBytes ys ∧ fractionValue xs < fractionValue ys ↔
      ∃ rest, ys = xs ++ rest ∧ ∃ d ∈ rest, d ≠ 0) := by
  by_cases hsame : xs = ys
  · subst hsame
    refine ⟨iff_of_false (fun h ↦ List.lt_irrefl _ h.1) ?_,
      iff_of_false (fun h ↦ lt_irrefl _ h.2) ?_⟩
    · rintro ⟨rest, hne, happend⟩
      exact hne (self_eq_append_right.mp happend)
    · rintro ⟨rest, happend, d, hmem, -⟩
      rw [self_eq_append_right.mp happend] at hmem
      cases hmem
  obtain ⟨common, ⟨x, us, y, vs, hxy, rfl, rfl⟩ | ⟨rest, hne, rfl, rfl⟩ | ⟨rest, hne, rfl, rfl⟩⟩ :=
    Digits.exists_common_start hsame
  · have hcontinues : ∀ {x y us vs}, x ≠ y →
        ¬ ∃ rest, common ++ x :: us = common ++ y :: vs ++ rest := by
      rintro x y us vs hxy ⟨rest, happend⟩
      rw [append_assoc, append_cancel_left_eq] at happend
      exact hxy (List.cons.inj happend).1
    refine ⟨iff_of_false ?_ fun ⟨rest, _, h⟩ ↦ hcontinues hxy ⟨rest, h⟩,
      iff_of_false ?_ fun ⟨rest, h, _⟩ ↦ hcontinues hxy.symm ⟨rest, h⟩⟩
    all_goals
      obtain hless | hgreater := Nat.lt_or_gt_of_ne hxy
      · obtain ⟨hbytes, hvalue⟩ := fraction_lt_of_digit_lt hless hxs hys
        tauto
      · obtain ⟨hbytes, hvalue⟩ := fraction_lt_of_digit_lt hgreater hys hxs
        rintro ⟨h, h'⟩
        first | exact List.lt_asymm h hbytes | exact lt_asymm h' hvalue
  · obtain ⟨hbytes, hvalue⟩ := fraction_of_append hne hxs
    have hge : ¬ fractionValue (ys ++ rest) < fractionValue ys := by
      have happend : fractionValue (ys ++ rest) < fractionValue (ys ++ []) ↔
          fractionValue rest < fractionValue [] := fractionValue_append ys
      rw [append_nil] at happend
      rw [happend]
      exact not_lt.mpr (fractionValue_nonneg rest)
    refine ⟨iff_of_true ⟨hbytes, hge⟩ ⟨rest, hne, rfl⟩, iff_of_false (fun h ↦ hge h.2) ?_⟩
    rintro ⟨more, happend, d, hmem, -⟩
    rw [append_assoc] at happend
    exact hne (append_eq_nil_iff.mp (self_eq_append_right.mp happend)).1
  · obtain ⟨hbytes, hvalue⟩ := fraction_of_append hne hys
    refine ⟨iff_of_false (fun h ↦ List.lt_asymm h.1 hbytes) ?_, ?_⟩
    · rintro ⟨more, -, happend⟩
      rw [append_assoc] at happend
      exact hne (append_eq_nil_iff.mp (self_eq_append_right.mp happend)).1
    · rw [hvalue]
      refine ⟨fun h ↦ ⟨rest, rfl, h.2⟩, ?_⟩
      rintro ⟨more, happend, hnonzero⟩
      rw [append_cancel_left_eq] at happend
      exact ⟨List.lt_asymm hbytes, happend ▸ hnonzero⟩

end Fractions

/-- The first text continues the fraction of the second within the same second. -/
def Extends (longer shorter : String) : Prop :=
  secondOf longer = secondOf shorter ∧
    ∃ rest, rest ≠ [] ∧ fractionOf longer = fractionOf shorter ++ rest

/-- The first text continues the fraction of the second, and with more than zeros. -/
def Outlasts (longer shorter : String) : Prop :=
  secondOf longer = secondOf shorter ∧
    ∃ rest, fractionOf longer = fractionOf shorter ++ rest ∧ ∃ d ∈ rest, d ≠ 0

/-- Times are compared by their whole seconds first, then by their fractions. -/
theorem instant_lt_iff {first last : Moment} :
    (first.seconds : ℚ) + fractionValue first.fraction <
        last.seconds + fractionValue last.fraction ↔
      first.seconds < last.seconds ∨ first.seconds = last.seconds ∧
        fractionValue first.fraction < fractionValue last.fraction := by
  obtain ⟨hfirst, hfirst'⟩ := fractionValue_bounds first.fraction_lt
  obtain ⟨hlast, hlast'⟩ := fractionValue_bounds last.fraction_lt
  obtain hless | hsame | hgreater := Nat.lt_trichotomy first.seconds last.seconds
  · have hstep : (first.seconds : ℚ) + 1 ≤ last.seconds := by exact_mod_cast hless
    exact iff_of_true (by linarith) (.inl hless)
  · simp [hsame]
  · have hstep : (last.seconds : ℚ) + 1 ≤ first.seconds := by exact_mod_cast hgreater
    refine iff_of_false (by linarith) ?_
    rintro (hless | ⟨hsame, -⟩) <;> omega

/-- Two comparisons by the same first part differ only where the first parts are equal. -/
theorem lex_and_not_lex {less same rest other : Prop} (hapart : ¬ (less ∧ same)) :
    (less ∨ same ∧ rest) ∧ ¬ (less ∨ same ∧ other) ↔ same ∧ rest ∧ ¬ other := by
  tauto

section Texts

variable {first last : String}

/-- The two ways in which the bytes of two timestamps and their times are compared differently. -/
theorem compare_timestamps (hfirst : validTimestamp first = true)
    (hlast : validTimestamp last = true) :
    (textLt first last = true ∧ ¬ instant first < instant last ↔ Extends first last) ∧
      (textLt first last = false ∧ instant first < instant last ↔ Outlasts last first) := by
  obtain ⟨m, hm⟩ := validTimestamp_iff.mp hfirst
  obtain ⟨n, hn⟩ := validTimestamp_iff.mp hlast
  have hless : textLt first last = true ↔
      m.seconds < n.seconds ∨ m.seconds = n.seconds ∧ m.tail < n.tail := by
    rw [← Moment.bytes_lt_iff, textLt, hm, hn, decide_eq_true_eq]
  have hinstant : instant first < instant last ↔ m.seconds < n.seconds ∨
      m.seconds = n.seconds ∧ fractionValue m.fraction < fractionValue n.fraction := by
    rw [← instant_lt_iff, instant, instant, m.secondOf_eq hm, m.fractionOf_eq hm,
      n.secondOf_eq hn, n.fractionOf_eq hn]
  obtain ⟨hextends, houtlasts⟩ := fraction_compare m.fraction_lt n.fraction_lt
  rw [← Bool.not_eq_true, hless, hinstant, Extends, Outlasts, m.secondOf_eq hm,
    m.fractionOf_eq hm, n.secondOf_eq hn, n.fractionOf_eq hn, ← hextends, ← houtlasts]
  have hapart : ¬ (m.seconds < n.seconds ∧ m.seconds = n.seconds) := by omega
  refine ⟨lex_and_not_lex hapart, ?_⟩
  rw [eq_comm (a := n.seconds), and_comm, lex_and_not_lex hapart]
  exact and_congr_right fun _ ↦ and_comm

end Texts

end ObsMcp.Receipts
