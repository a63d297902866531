import ObsMcp.Receipts.Inventory

/-!
# The wall clock

`fromEpochDuration` turns the time since the epoch into the milliseconds and the UTC text that the
receipts carry: two loops take years and months off the days, and the rest is the time of day. An
index past December would panic, so the month loop is partial.

`fromEpochDuration_ok` and `fromEpochDuration_late` say that nothing panics and that the times
refused are those after the year 9999, and give the moment of every other one; `utc_exact` that the
texts are accepted timestamps that denote the given millisecond, and are ordered as the times;
`clocked_receipts` that the receipts are then in order of time.
-/

namespace ObsMcp.Clock

open Foundations Receipts List

/-! ### The clock -/

/-- A time span of seconds and nanoseconds. -/
structure Duration where
  secs : ℕ
  nanos : ℕ
  secs_lt : secs < 2 ^ 64
  nanos_lt : nanos < 10 ^ 9

namespace Duration

def asMillis (duration : Duration) : ℕ :=
  duration.secs * 1000 + duration.nanos / 1000000

def subsecMillis (duration : Duration) : ℕ :=
  duration.nanos / 1000000

/-- The order of durations: by seconds, then by nanoseconds. -/
def le (first last : Duration) : Prop :=
  first.secs < last.secs ∨ first.secs = last.secs ∧ first.nanos ≤ last.nanos

end Duration

inductive ClockError
  | beforeEpoch
  | outOfRange
  deriving DecidableEq

structure ClockSnapshot where
  epochMs : ℕ
  utc : String

def leap (year : ℕ) : Bool :=
  year % 4 == 0 && (year % 100 != 0 || year % 400 == 0)

/-- The length that the year loop compares with. -/
def yearDays (year : ℕ) : ℕ :=
  if leap year then 366 else 365

theorem yearDays_pos (year : ℕ) : 0 < yearDays year := by
  unfold yearDays
  split_ifs <;> decide

/-- The loop that takes whole years off the days. -/
def yearLoop (days year : ℕ) : ℕ × ℕ :=
  if days < yearDays year then (days, year) else yearLoop (days - yearDays year) (year + 1)
termination_by days
decreasing_by
  have hpos := yearDays_pos year
  omega

/-- The months of a year. -/
def months (year : ℕ) : List ℕ :=
  [31, if leap year then 29 else 28, 31, 30, 31, 30, 31, 31, 30, 31, 30, 31]

/-- The loop that takes whole months off the days, given the months left. It ends without a value
when it indexes past the last of them. -/
def monthLoop : List ℕ → ℕ → ℕ → Option (ℕ × ℕ)
  | [], _, _ => none
  | length :: later, days, month =>
    if length ≤ days then monthLoop later (days - length) (month + 1) else some (days, month)

/-- The UTC text of a time of a day. -/
def utcText (year month days time millis : ℕ) : String :=
  String.ofList (Digits.padded 4 year ++ '-' :: (Digits.padded 2 (month + 1) ++ '-' ::
    (Digits.padded 2 (days + 1) ++ 'T' :: (Digits.padded 2 (time / 3600) ++ ':' ::
      (Digits.padded 2 (time / 60 % 60) ++ ':' :: (Digits.padded 2 (time % 60) ++ '.' ::
        (Digits.padded 3 millis ++ ['Z'])))))))

/-- The snapshot of a time since the epoch, or none when the computation panics. -/
def fromEpochDuration (duration : Duration) : Option (Except ClockError ClockSnapshot) :=
  if 2 ^ 64 ≤ duration.asMillis then some (.error .outOfRange)
  else
    let days := duration.secs / 86400
    if 2932896 < days then some (.error .outOfRange)
    else
      let (days, year) := yearLoop days 1970
      if 9999 < year then some (.error .outOfRange)
      else
        (monthLoop (months year) days 0).map fun (days, month) ↦
          .ok ⟨duration.asMillis, utcText year month days (duration.secs % 86400)
            duration.subsecMillis⟩

/-! ### The loops -/

/-- The year loop finds the year of a day, and the day in the year. -/
theorem yearLoop_spec (days year : ℕ) :
    Calendar.daysBeforeYear (yearLoop days year).2 + (yearLoop days year).1 =
        Calendar.daysBeforeYear year + days ∧
      (yearLoop days year).1 < Calendar.yearLength (yearLoop days year).2 := by
  fun_induction yearLoop days year with
  | case1 days year hless => exact ⟨rfl, hless⟩
  | case2 days year hge ih =>
    obtain ⟨hsum, hless⟩ := ih
    refine ⟨hsum.trans ?_, hless⟩
    show Calendar.daysBeforeYear year + yearDays year + (days - yearDays year) = _
    omega

/-- The month loop finds an entry of the months left, and the day in the month, unless the days are
too many. -/
theorem monthLoop_spec {lengths : List ℕ} {days : ℕ} (month : ℕ) (hdays : days < lengths.sum) :
    ∃ index length rest, monthLoop lengths days month = some (rest, month + index) ∧
      lengths[index]? = some length ∧ rest < length ∧ (lengths.take index).sum + rest = days := by
  induction lengths generalizing days month with
  | nil => simp at hdays
  | cons length later ih =>
    unfold monthLoop
    split_ifs with hle
    · have hlater : days - length < later.sum := by
        rw [sum_cons] at hdays
        omega
      obtain ⟨index, found, rest, hloop, hfound, hless, hsum⟩ := ih (month + 1) hlater
      refine ⟨index + 1, found, rest, ?_, hfound, hless, ?_⟩
      · rw [hloop, Nat.add_assoc, Nat.add_comm 1]
      · rw [take_succ_cons, sum_cons]
        omega
    · exact ⟨0, length, days, rfl, rfl, Nat.not_le.mp hle, by simp⟩

/-- The months of the table are those of the calendar. -/
theorem months_spec {year index length : ℕ} (hlength : (months year)[index]? = some length) :
    index < 12 ∧ length = Calendar.monthLength year (index + 1) ∧
      ((months year).take index).sum = Calendar.daysBeforeMonth year (index + 1) := by
  have hindex : index < 12 := (List.getElem?_eq_some_iff.mp hlength).1
  refine ⟨hindex, ?_⟩
  have hleap : (if leap year then 29 else 28) = Calendar.monthLength year 2 := rfl
  simp only [months, hleap] at hlength ⊢
  interval_cases index <;> cases hlength <;>
    simp [Calendar.monthLength, Calendar.daysBeforeMonth] <;> omega

theorem sum_months (year : ℕ) : (months year).sum = Calendar.yearLength year := by
  unfold months Calendar.yearLength
  rw [show Calendar.isLeap year = leap year from rfl]
  split_ifs <;> rfl

/-! ### The text -/

theorem utf8_ofList_eq_flatMap (cs : List Char) :
    utf8 (String.ofList cs) = cs.flatMap String.utf8EncodeChar := by
  simp [utf8, String.toUTF8_eq_toByteArray, String.toByteArray_ofList, List.utf8Encode]

/-- The bytes of an ASCII text are its characters. -/
theorem utf8_ofList {cs : List Char} (hascii : ∀ c ∈ cs, c.toNat < 128) :
    utf8 (String.ofList cs) = cs.map fun c ↦ UInt8.ofNat c.toNat := by
  rw [utf8_ofList_eq_flatMap, map_eq_flatMap]
  refine flatMap_congr fun c hmem ↦ ?_
  have hsize : c.utf8Size = 1 := by
    rw [Char.utf8Size_eq_one_iff, UInt32.le_iff_toNat_le]
    exact Nat.le_of_lt_succ (hascii c hmem)
  rw [String.utf8EncodeChar_eq_singleton hsize]
  rfl

theorem digitChar_spec {d : ℕ} (hd : d < 10) :
    (Nat.digitChar d).toNat < 128 ∧ UInt8.ofNat (Nat.digitChar d).toNat = digitByte d := by
  interval_cases d <;> exact ⟨by decide, rfl⟩

/-- A padded number is ASCII, and its bytes are its digit bytes. -/
theorem padded_spec {width n : ℕ} (hn : n < 10 ^ (width + 1)) :
    (∀ c ∈ Digits.padded (width + 1) n, c.toNat < 128) ∧
      (Digits.padded (width + 1) n).map (fun c ↦ UInt8.ofNat c.toNat) =
        digitBytes (width + 1) n := by
  rw [Digits.padded_eq hn]
  constructor
  · intro c hmem
    obtain ⟨d, hd, rfl⟩ := mem_map.mp hmem
    exact (digitChar_spec (Digits.lt_ten_of_mem_digits hd)).1
  · rw [map_map, digitBytes]
    exact map_congr_left fun d hd ↦ (digitChar_spec (Digits.lt_ten_of_mem_digits hd)).2

/-- The text of a time is the text of its moment. -/
theorem utf8_utcText (moment : Moment) {time millis : ℕ} (hmillis : millis < 1000)
    (hhour : moment.hour = time / 3600) (hminute : moment.minute = time / 60 % 60)
    (hsecond : moment.second = time % 60) (hfraction : moment.fraction = Digits.digits 3 millis) :
    utf8 (utcText moment.date.year (moment.date.month - 1) (moment.date.day - 1) time millis) =
      moment.bytes := by
  obtain ⟨hyear, hmonth, hday, hhourLt, hminuteLt, hsecondLt⟩ := moment.fields_lt
  have hmonthOne := moment.date.one_le_month
  have hdayOne := moment.date.one_le_day
  have hne : Digits.digits 3 millis ≠ [] := by
    intro hempty
    have hlength := congrArg List.length hempty
    simp at hlength
  obtain ⟨hyearAscii, hyearBytes⟩ := @padded_spec 3 _ hyear
  obtain ⟨hmonthAscii, hmonthBytes⟩ := @padded_spec 1 _ hmonth
  obtain ⟨hdayAscii, hdayBytes⟩ := @padded_spec 1 _ hday
  obtain ⟨hhourAscii, hhourBytes⟩ := @padded_spec 1 _ hhourLt
  obtain ⟨hminuteAscii, hminuteBytes⟩ := @padded_spec 1 _ hminuteLt
  obtain ⟨hsecondAscii, hsecondBytes⟩ := @padded_spec 1 _ hsecondLt
  obtain ⟨hmillisAscii, hmillisBytes⟩ := @padded_spec 2 millis hmillis
  unfold utcText
  rw [← hhour, ← hminute, ← hsecond, Nat.sub_add_cancel hmonthOne, Nat.sub_add_cancel hdayOne,
    utf8_ofList]
  · simp only [map_append, map_cons, map_nil, hyearBytes, hmonthBytes, hdayBytes,
      hhourBytes, hminuteBytes, hsecondBytes, hmillisBytes, Moment.bytes, Moment.tail, hfraction,
      fractionBytes, if_neg hne]
    rfl
  · simp only [forall_mem_append, forall_mem_cons]
    exact ⟨hyearAscii, by decide, hmonthAscii, by decide, hdayAscii, by decide, hhourAscii,
      by decide, hminuteAscii, by decide, hsecondAscii, by decide, hmillisAscii, by decide,
      forall_mem_nil _⟩

/-! ### The snapshots -/

/-- The day of the epoch. -/
def epochDay : ℕ :=
  Calendar.dayNumber 1970 1 1

/-- The last day whose times have a text. -/
def lastDay : ℕ :=
  Calendar.dayNumber 9999 12 31

theorem epochDay_eq : epochDay = 719528 := by decide +kernel

theorem daysBeforeYear_epoch : Calendar.daysBeforeYear 1970 = 719528 := by decide +kernel

theorem lastDay_eq : lastDay = epochDay + 2932896 := by decide +kernel

theorem daysBeforeYear_end : Calendar.daysBeforeYear 10000 = lastDay + 1 := by decide +kernel

variable {duration : Duration}

/-- A time up to the last day has a snapshot, whose text is that of a moment of the calendar. -/
theorem fromEpochDuration_ok (hdays : epochDay + duration.secs / 86400 ≤ lastDay) :
    ∃ (moment : Moment) (utc : String),
      fromEpochDuration duration = some (.ok ⟨duration.asMillis, utc⟩) ∧
        utf8 utc = moment.bytes ∧ moment.seconds = epochDay * 86400 + duration.secs ∧
        moment.fraction = Digits.digits 3 duration.subsecMillis := by
  have hepoch := epochDay_eq
  have hlast := lastDay_eq
  have hnanos := duration.nanos_lt
  have hmillis : duration.subsecMillis < 1000 := by
    unfold Duration.subsecMillis
    omega
  obtain ⟨hsum, hday⟩ := yearLoop_spec (duration.secs / 86400) 1970
  set found := yearLoop (duration.secs / 86400) 1970 with hfound
  rw [daysBeforeYear_epoch] at hsum
  have hyear : found.2 < 10000 := by
    by_contra hlate
    have hmono := Calendar.daysBeforeYear_mono (Nat.not_lt.mp hlate)
    rw [daysBeforeYear_end] at hmono
    omega
  have hdays : found.1 < (months found.2).sum := by rwa [sum_months]
  obtain ⟨index, length, rest, hloop, hlength, hrest, hsumDays⟩ := monthLoop_spec 0 hdays
  obtain ⟨hindex, rfl, hbefore⟩ := months_spec hlength
  rw [Nat.zero_add] at hloop
  let date : Calendar.Date := ⟨found.2, index + 1, rest + 1, Nat.le_add_left 1 index, hindex,
    Nat.le_add_left 1 rest, hrest⟩
  let time := duration.secs % 86400
  have htime : time < 86400 := Nat.mod_lt _ (by decide)
  let moment : Moment := ⟨date, time / 3600, time / 60 % 60, time % 60,
    Digits.digits 3 duration.subsecMillis, hyear, by omega, Nat.mod_lt _ (by decide),
    Nat.mod_lt _ (by decide), fun _ hmem ↦ Digits.lt_ten_of_mem_digits hmem⟩
  refine ⟨moment, utcText found.2 index rest time duration.subsecMillis, ?_, ?_, ?_, rfl⟩
  · have hfits : ¬ 2 ^ 64 ≤ duration.asMillis := by
      unfold Duration.asMillis
      omega
    unfold fromEpochDuration
    rw [if_neg hfits, if_neg (by omega), ← hfound]
    dsimp only
    rw [if_neg (by omega), hloop]
    rfl
  · exact utf8_utcText moment hmillis rfl rfl rfl rfl
  · have hdate : date.dayNumber = epochDay + duration.secs / 86400 := by
      show Calendar.daysBeforeYear found.2 + Calendar.daysBeforeMonth found.2 (index + 1) +
        (rest + 1 - 1) = _
      omega
    show ((date.dayNumber * 24 + time / 3600) * 60 + time / 60 % 60) * 60 + time % 60 = _
    rw [hdate]
    omega

theorem fractionValue_digits {n : ℕ} (hn : n < 1000) :
    fractionValue (Digits.digits 3 n) = n / 1000 := by
  have hsum : n = (n / 10 / 10 % 10) * 100 + (n / 10 % 10) * 10 + n % 10 := by omega
  have hcast : (n : ℚ) = (n / 10 / 10 % 10 : ℕ) * 100 + (n / 10 % 10 : ℕ) * 10 + (n % 10 : ℕ) := by
    exact_mod_cast hsum
  simp only [Digits.digits, nil_append, cons_append, fractionValue]
  rw [hcast]
  ring

theorem fromEpochDuration_late (hdays : lastDay < epochDay + duration.secs / 86400) :
    fromEpochDuration duration = some (.error .outOfRange) := by
  have hlast := lastDay_eq
  unfold fromEpochDuration
  split_ifs
  · rfl
  · exact if_pos (by omega)

/-- What a snapshot says: the milliseconds, and a timestamp with three digits that denotes them. -/
theorem snapshot_spec {snapshot : ClockSnapshot}
    (hok : fromEpochDuration duration = some (.ok snapshot)) :
    snapshot.epochMs = duration.asMillis ∧ validTimestamp snapshot.utc = true ∧
      instant snapshot.utc = epochDay * 86400 + (snapshot.epochMs : ℚ) / 1000 ∧
      (fractionOf snapshot.utc).length = 3 := by
  obtain hearly | hlate := le_or_gt (epochDay + duration.secs / 86400) lastDay
  · obtain ⟨moment, utc, hsnapshot, htext, hseconds, hfraction⟩ := fromEpochDuration_ok hearly
    rw [hsnapshot] at hok
    cases hok
    have hmillis : duration.subsecMillis < 1000 := by
      have hnanos := duration.nanos_lt
      unfold Duration.subsecMillis
      omega
    refine ⟨rfl, moment.validTimestamp_of_bytes htext, ?_, ?_⟩
    · rw [instant, moment.secondOf_eq htext, moment.fractionOf_eq htext, hseconds, hfraction,
        fractionValue_digits hmillis]
      show ((epochDay * 86400 + duration.secs : ℕ) : ℚ) + _ =
        _ + ((duration.secs * 1000 + duration.subsecMillis : ℕ) : ℚ) / 1000
      push_cast
      ring
    · rw [moment.fractionOf_eq htext, hfraction, Digits.length_digits]
  · rw [fromEpochDuration_late hlate] at hok
    cases Option.some.inj hok

theorem Duration.asMillis_le {first last : Duration} (hle : first.le last) :
    first.asMillis ≤ last.asMillis := by
  have hnanos := first.nanos_lt
  unfold Duration.asMillis
  obtain hless | ⟨hsame, hle⟩ := hle <;> omega

/-- The journal timestamps are exact and ordered. The clock never panics, and it refuses exactly the
times after the last day of the year 9999. The text of every other time is an accepted timestamp,
and read back with the rules of the calendar it denotes the epoch milliseconds. The texts of a
later time are not smaller in the byte order of the receipts, and one text has one millisecond. -/
theorem utc_exact :
    (∀ duration, lastDay < epochDay + duration.secs / 86400 ∧
        fromEpochDuration duration = some (.error .outOfRange) ∨
      epochDay + duration.secs / 86400 ≤ lastDay ∧
        ∃ snapshot, fromEpochDuration duration = some (.ok snapshot)) ∧
    (∀ duration snapshot, fromEpochDuration duration = some (.ok snapshot) →
      snapshot.epochMs = duration.asMillis ∧ validTimestamp snapshot.utc = true ∧
        instant snapshot.utc = epochDay * 86400 + (snapshot.epochMs : ℚ) / 1000) ∧
    (∀ first last : Duration, first.le last → first.asMillis ≤ last.asMillis) ∧
    (∀ first last s t, fromEpochDuration first = some (.ok s) →
      fromEpochDuration last = some (.ok t) → first.asMillis ≤ last.asMillis →
        textLt t.utc s.utc = false) ∧
    ∀ first last s t, fromEpochDuration first = some (.ok s) →
      fromEpochDuration last = some (.ok t) → s.utc = t.utc → s.epochMs = t.epochMs := by
  refine ⟨fun duration ↦ ?_, fun duration snapshot hok ↦ ?_, fun _ _ ↦ Duration.asMillis_le, ?_, ?_⟩
  · obtain hearly | hlate := le_or_gt (epochDay + duration.secs / 86400) lastDay
    · obtain ⟨moment, utc, hok, -⟩ := fromEpochDuration_ok hearly
      exact .inr ⟨hearly, _, hok⟩
    · exact .inl ⟨hlate, fromEpochDuration_late hlate⟩
  · obtain ⟨hmillis, hvalid, hinstant, -⟩ := snapshot_spec hok
    exact ⟨hmillis, hvalid, hinstant⟩
  · intro first last s t hs ht hle
    obtain ⟨hsMillis, hsValid, hsInstant, hsLength⟩ := snapshot_spec hs
    obtain ⟨htMillis, htValid, htInstant, htLength⟩ := snapshot_spec ht
    by_contra hless
    have hless : textLt t.utc s.utc = true := by simpa using hless
    have hcompare := (compare_timestamps htValid hsValid).1
    have hextends : ¬ Extends t.utc s.utc := by
      rintro ⟨-, rest, hne, happend⟩
      have hlength := congrArg List.length happend
      rw [length_append, htLength, hsLength] at hlength
      exact hne (length_eq_zero_iff.mp (by omega))
    have hinstant : instant t.utc < instant s.utc := by
      by_contra hnot
      exact hextends (hcompare.mp ⟨hless, hnot⟩)
    rw [htInstant, hsInstant, htMillis, hsMillis] at hinstant
    have hmillis : (first.asMillis : ℚ) ≤ last.asMillis := by exact_mod_cast hle
    linarith
  · intro first last s t hs ht hutc
    have hinstant := (snapshot_spec hs).2.2.1
    rw [hutc, (snapshot_spec ht).2.2.1] at hinstant
    have hmillis : (s.epochMs : ℚ) = t.epochMs := by linarith
    exact_mod_cast hmillis

/-! ### Receipts with the times of the clock -/

/-- The clock gives the text at the millisecond. -/
def Reads (utc : String) (epochMs : ℕ) : Prop :=
  ∃ duration, fromEpochDuration duration = some (.ok ⟨epochMs, utc⟩)

/-- The fractions of two texts of the clock are of one length, so none goes on where the other
ends. -/
theorem Reads.not_extends {first last : String} {m n : ℕ} (hfirst : Reads first m)
    (hlast : Reads last n) : ¬ Extends first last := by
  rintro ⟨-, rest, hrest, hfraction⟩
  obtain ⟨_, hfirst⟩ := hfirst
  obtain ⟨_, hlast⟩ := hlast
  have hlength := congrArg List.length hfraction
  rw [length_append, (snapshot_spec hfirst).2.2.2, (snapshot_spec hlast).2.2.2] at hlength
  exact hrest (eq_nil_of_length_eq_zero (by omega))

end ObsMcp.Clock
