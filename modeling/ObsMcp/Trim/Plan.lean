import ObsMcp.Foundations.Spans
import Mathlib.Data.Rat.Floor

/-!
# Planning a trim

`planCuts` decides which stretches of a recording are cut. The idle stretches that are long enough
are shrunk at both sides, the times around chapters and before the end are taken out of them, and
what is left is merged, clamped to the recording, filtered again and rounded to hundredths. The
keep spans are the gaps between the cuts, and `remapTime` moves an instant of the recording to the
trimmed one without looking at them.

Times are exact rationals and `roundSeconds` rounds half up. `roundSeconds_mono`,
`roundSeconds_le` and `lt_roundSeconds` are its order and its error, and `roundSeconds_sub` says
that a whole number of hundredths passes through it.
-/

namespace ObsMcp.Trim

open Foundations

/-! ### Rounding -/

/-- The nearest integer, halves up. -/
def rounded (value : ℚ) : ℚ :=
  if value = 0 then value
  else
    let floor : ℚ := ⌊value⌋
    if value - floor < 1 / 2 then floor else floor + 1

/-- The nearest hundredth of a second, halves up. -/
def roundSeconds (value : ℚ) : ℚ :=
  rounded (value * 100) / 100

/-! ### The plan -/

structure Chapter where
  atTime : ℚ
  name : String

structure CutOptions where
  duration : ℚ
  idle : List (Span ℚ)
  chapters : List Chapter
  minIdleSeconds : ℚ
  keepSeconds : ℚ
  holdAfterChapterSeconds : ℚ
  holdBeforeChapterSeconds : ℚ

structure CutPlan where
  cuts : List (Span ℚ)
  keep : List (Span ℚ)

/-- The length of a span. -/
def length (span : Span ℚ) : ℚ :=
  span.stop - span.start

namespace CutOptions

/-- An idle span without the seconds kept at its sides. -/
def shrink (options : CutOptions) (span : Span ℚ) : Span ℚ :=
  ⟨span.start + options.keepSeconds, span.stop - options.keepSeconds⟩

/-- The idle stretches that may be cut before anything is held back. -/
def candidates (options : CutOptions) : List (Span ℚ) :=
  ((options.idle.filter fun span ↦ options.minIdleSeconds ≤ length span).map
    options.shrink).filter fun span ↦ 1 / 2 ≤ length span

/-- The time held around a chapter. -/
def hold (options : CutOptions) (chapter : Chapter) : Span ℚ :=
  ⟨chapter.atTime - options.holdBeforeChapterSeconds,
    chapter.atTime + options.holdAfterChapterSeconds⟩

/-- The time held before the end of the recording. -/
def lastHold (options : CutOptions) : Span ℚ :=
  ⟨options.duration - options.holdBeforeChapterSeconds, options.duration⟩

/-- Every time that is never cut. -/
def held (options : CutOptions) : List (Span ℚ) :=
  options.chapters.map options.hold ++ [options.lastHold]

/-- A span with its ends brought into the recording. -/
def clamp (options : CutOptions) (span : Span ℚ) : Span ℚ :=
  ⟨max 0 span.start, min options.duration span.stop⟩

end CutOptions

/-- A span with its ends rounded. -/
def roundSpan (span : Span ℚ) : Span ℚ :=
  ⟨roundSeconds span.start, roundSeconds span.stop⟩

/-- The stretches that are cut. -/
def cutSpans (options : CutOptions) : List (Span ℚ) :=
  (((Span.merge (Span.subtract options.candidates options.held)).map options.clamp).filter
    fun span ↦ 1 / 2 ≤ length span).map roundSpan

/-- The gaps between cuts from a cursor on, and what follows the last cut. -/
def keepFrom (duration cursor : ℚ) : List (Span ℚ) → List (Span ℚ)
  | [] => if cursor < duration then [⟨roundSeconds cursor, roundSeconds duration⟩] else []
  | cut :: rest =>
    (if cursor < cut.start then [⟨roundSeconds cursor, cut.start⟩] else []) ++
      keepFrom duration cut.stop rest

def planCuts (options : CutOptions) : CutPlan :=
  ⟨cutSpans options, keepFrom options.duration 0 (cutSpans options)⟩

/-- What one cut takes away before an instant. -/
def removedBy (time : ℚ) (cut : Span ℚ) : ℚ :=
  if cut.stop ≤ time then cut.stop - cut.start
  else if cut.start < time then time - cut.start
  else 0

/-- What all cuts take away before an instant. -/
def removedBefore (time : ℚ) (cuts : List (Span ℚ)) : ℚ :=
  (cuts.map (removedBy time)).sum

/-- The instant of the trimmed recording that an instant of the recording becomes. -/
def remapTime (time : ℚ) (cuts : List (Span ℚ)) : ℚ :=
  roundSeconds (time - removedBefore time cuts)

/-- The total length of a list of spans. -/
def total (spans : List (Span ℚ)) : ℚ :=
  (spans.map length).sum

/-! ### The report -/

structure OutputChapter where
  atSeconds : ℚ
  name : String

structure Timeline where
  path : String
  durationSeconds : ℚ
  trimmedSeconds : ℚ
  removedSeconds : ℚ
  idle : List (Span ℚ)
  cuts : List (Span ℚ)
  keep : List (Span ℚ)
  seams : List ℚ
  chapters : List OutputChapter
  audioConsidered : Bool

def timeline (path : String) (options : CutOptions) (audible : Bool) : Timeline :=
  let plan := planCuts options
  let removed := roundSeconds (total plan.cuts)
  { path := path
    durationSeconds := roundSeconds options.duration
    trimmedSeconds := roundSeconds (options.duration - removed)
    removedSeconds := removed
    idle := options.idle.map roundSpan
    cuts := plan.cuts
    keep := plan.keep
    seams := plan.cuts.map fun span ↦ remapTime span.start plan.cuts
    chapters := options.chapters.map fun chapter ↦
      ⟨remapTime chapter.atTime plan.cuts, chapter.name⟩
    audioConsidered := audible }

/-! ### What rounding does -/

/-- Rounding is the floor of the value plus one half. -/
theorem rounded_eq (value : ℚ) : rounded value = ⌊value + 1 / 2⌋ := by
  have hfloor := Int.floor_le value
  have hnext := Int.lt_floor_add_one value
  by_cases hzero : value = 0
  · rw [rounded, if_pos hzero, hzero]
    norm_num
  · by_cases hlow : value - ⌊value⌋ < 1 / 2
    · have hint : ⌊value + 1 / 2⌋ = ⌊value⌋ := by
        rw [Int.floor_eq_iff]
        constructor <;> linarith
      simp only [rounded, if_neg hzero, if_pos hlow, hint]
    · have hint : ⌊value + 1 / 2⌋ = ⌊value⌋ + 1 := by
        rw [Int.floor_eq_iff]
        push_cast
        constructor <;> linarith
      simp only [rounded, if_neg hzero, if_neg hlow, hint]
      push_cast
      rfl

/-- Rounding to hundredths as a floor. -/
theorem roundSeconds_eq (value : ℚ) : roundSeconds value = (⌊value * 100 + 1 / 2⌋ : ℚ) / 100 := by
  rw [roundSeconds, rounded_eq]

/-- Rounding keeps the order of instants. -/
theorem roundSeconds_mono : Monotone roundSeconds := by
  intro a b hab
  rw [roundSeconds_eq, roundSeconds_eq]
  have hfloor : ⌊a * 100 + 1 / 2⌋ ≤ ⌊b * 100 + 1 / 2⌋ := Int.floor_le_floor (by linarith)
  have hcast : (⌊a * 100 + 1 / 2⌋ : ℚ) ≤ ⌊b * 100 + 1 / 2⌋ := by exact_mod_cast hfloor
  linarith

/-- Rounding goes up by half a hundredth at most. -/
theorem roundSeconds_le (value : ℚ) : roundSeconds value ≤ value + 1 / 200 := by
  have hfloor := Int.floor_le (value * 100 + 1 / 2)
  rw [roundSeconds_eq]
  linarith

/-- Rounding goes down by less than half a hundredth. -/
theorem lt_roundSeconds (value : ℚ) : value - 1 / 200 < roundSeconds value := by
  have hnext := Int.lt_floor_add_one (value * 100 + 1 / 2)
  rw [roundSeconds_eq]
  linarith

/-- A whole number of hundredths. -/
def Cent (value : ℚ) : Prop :=
  ∃ n : ℤ, value = n / 100

/-- Rounded values are whole numbers of hundredths. -/
theorem cent_roundSeconds (value : ℚ) : Cent (roundSeconds value) :=
  ⟨⌊value * 100 + 1 / 2⌋, roundSeconds_eq value⟩

/-- Zero is a whole number of hundredths. -/
theorem cent_zero : Cent 0 :=
  ⟨0, by norm_num⟩

/-- Whole numbers of hundredths add up to one. -/
theorem Cent.add {a b : ℚ} (ha : Cent a) (hb : Cent b) : Cent (a + b) := by
  obtain ⟨m, rfl⟩ := ha
  obtain ⟨n, rfl⟩ := hb
  exact ⟨m + n, by push_cast; ring⟩

/-- Whole numbers of hundredths differ by one. -/
theorem Cent.sub {a b : ℚ} (ha : Cent a) (hb : Cent b) : Cent (a - b) := by
  obtain ⟨m, rfl⟩ := ha
  obtain ⟨n, rfl⟩ := hb
  exact ⟨m - n, by push_cast; ring⟩

/-- A whole number of hundredths passes through the rounding of a difference. -/
theorem roundSeconds_sub (value : ℚ) {cents : ℚ} (hcents : Cent cents) :
    roundSeconds (value - cents) = roundSeconds value - cents := by
  obtain ⟨n, rfl⟩ := hcents
  have hshift : (value - n / 100) * 100 + 1 / 2 = value * 100 + 1 / 2 - (n : ℤ) := by ring
  rw [roundSeconds_eq, roundSeconds_eq, hshift, Int.floor_sub_intCast]
  push_cast
  ring

/-- Rounding leaves whole numbers of hundredths alone. -/
theorem roundSeconds_cent {cents : ℚ} (hcents : Cent cents) : roundSeconds cents = cents := by
  have hself := roundSeconds_sub cents hcents
  have hzero : roundSeconds 0 = 0 := by
    rw [roundSeconds_eq]
    norm_num
  rw [sub_self, hzero] at hself
  linarith

example : roundSeconds (-1 / 200) = 0 := by decide +kernel

end ObsMcp.Trim
