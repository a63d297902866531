import ObsMcp.Monitor.Guarantees

/-!
# Blank stretches

A take monitor reports the stretches of a recording whose pictures were black. A stretch begins
with the first black picture, but the monitor only notes the second one and dates the stretch back
by one sample interval. The interval is time of the clock, while the stretches are in recording
time, which stands still during a pause: when pauses fall between the pictures, the stretch can
begin before a picture that was not black, or before the recording.

`watch` is the monitor together with the recording times of the accepted pictures that were not
black. `truthful_of_spaced` says that the blank stretches of every report are true in every run in
which the second black picture of a row comes at least one interval of recording time after the
last picture that was not black. `paused_take_untruthful` is a take with two pauses whose report is
wrong.

Times are rounded to hundredths, and what is computed on the way is rounded too. `near_floored`
bounds the error of all of it in hundredths, far below the half that rounding leaves, and
`Spaced.apart` keeps this much away from the half.
-/

namespace ObsMcp.Monitor

open Foundations Machine List Option

variable {num : Numerics} {core next : Core num} {nowMs : ℤ} {call : Call}

/-! ### The pictures that count -/

/-- A picture without anything brighter than a black level. -/
def black (luma : List UInt8) : Bool :=
  luma.all (· < 16)

namespace Core

/-- The picture that a call makes the monitor observe, and its reading: one that is injected, or
one whose ticket is of this monitor, unused and of the present history. -/
def pictureTaken (core : Core num) : Call → Option (ℤ × List UInt8)
  | .observePicture nowMs luma =>
    if core.stoppedAtMs.isSome || core.isPaused then none else some (nowMs, luma)
  | .finishSample ticket nowMs (.picture luma) =>
    if core.sampleOwner = ticket.owner ∧ core.flags ticket.active = true ∧
        ticket.kind = .picture ∧ core.pictureHistory = ticket.pictureHistory then
      if core.stoppedAtMs.isSome || core.isPaused then none else some (nowMs, luma)
    else none
  | _ => none

/-- The recording time of an accepted picture that is not black. -/
def litTime (core : Core num) (call : Call) : Option ℚ :=
  match core.pictureTaken call with
  | some (nowMs, luma) => if black luma then none else some (core.now nowMs)
  | none => none

end Core

/-- A world and the recording times of the accepted pictures that were not black. -/
structure Watched (num : Numerics) where
  world : World num
  lit : List ℚ

def Watched.after (watched : Watched num) (call : Call) : Watched num :=
  ⟨watched.world.after call, watched.lit ++ (watched.world.core.litTime call).toList⟩

/-- The monitors of all takes with a positive sample interval, watched from `new` on. -/
def watch (num : Numerics) : Machine (Watched num) Call where
  initial watched := (monitor num).initial watched.world ∧ watched.lit = [] ∧
    0 < watched.world.core.options.sampleIntervalMs
  step watched call other := watched.world.Admits call ∧ other = watched.after call

/-- What is asked of the blank stretches of a report: they lie in the recording, in order and apart,
and no picture inside one was anything but black. -/
structure Truthful (watched : Watched num) (nowMs : ℤ) : Prop where
  inside : ∀ span ∈ (watched.world.core.summary nowMs).blanks, 0 ≤ span.start ∧
    span.start ≤ span.stop ∧ span.stop ≤ (watched.world.core.summary nowMs).durationSeconds
  apart : (watched.world.core.summary nowMs).blanks.Pairwise fun a b ↦ a.stop ≤ b.start
  dark : ∀ span ∈ (watched.world.core.summary nowMs).blanks, ∀ time ∈ watched.lit,
    ¬(span.start < time ∧ time < span.stop)

/-- The milliseconds are far from the whole numbers that doubles round, and the second black picture
of a row comes, to almost half a hundredth of a second, at least one sample interval of recording
time after the start and after every picture that was not black, and within 2^30 seconds. -/
structure Spaced (watched : Watched num) (call : Call) : Prop where
  whole : ∀ nowMs, call.reading = some nowMs →
    ∀ ms ∈ watched.world.core.millis nowMs, |ms| ≤ 2 ^ 50
  apart : ∀ nowMs luma, watched.world.core.pictureTaken call = some (nowMs, luma) →
    black luma = true → watched.world.core.blankRun = 1 →
      watched.world.core.now nowMs ≤ 2 ^ 30 ∧ ∀ time ∈ 0 :: watched.lit,
        time + watched.world.core.options.sampleIntervalMs / 1000 ≤
          watched.world.core.now nowMs + 499 / 100000

/-! ### Hundredths -/

/-- A time as `round` gives it. -/
def Rounded (rounding : Rounding) (time : ℚ) : Prop :=
  ∃ cents : ℤ, time = rounding.nearest (cents / 100)

theorem rounded_zero (rounding : Rounding) : Rounded rounding 0 :=
  ⟨0, by rw [Int.cast_zero, zero_div, rounding.zero]⟩

theorem rounded_now (core : Core num) (nowMs : ℤ) : Rounded num.rounding (core.now nowMs) :=
  ⟨_, rfl⟩

section Hundredths

variable (rounding : Rounding) {n time present interval : ℚ} {cents : ℤ}

theorem near_hundredths (hn : |n| ≤ 2 ^ 32) :
    |rounding.nearest (rounding.nearest (n * 100) + 1 / 2) - (n * 100 + 1 / 2)| ≤ 1 / 4000 := by
  have hscaled : |n * 100| ≤ 2 ^ 32 * 100 := by
    rw [abs_mul]
    norm_num at hn ⊢
    linarith
  have hfirst := rounding.near_of_le (by norm_num) hscaled
  have hhalf : |rounding.nearest (n * 100) + 1 / 2| ≤ 2 ^ 32 * 101 := by
    rw [abs_le] at hscaled hfirst ⊢
    norm_num at hscaled hfirst ⊢
    constructor <;> linarith
  have hsecond := rounding.near_of_le (by norm_num) hhalf
  rw [abs_le] at hfirst hsecond ⊢
  norm_num at hfirst hsecond ⊢
  constructor <;> linarith

theorem near_cents (hcents : |rounding.nearest (cents / 100)| ≤ 2 ^ 30 + 1) :
    |rounding.nearest (cents / 100) - cents / 100| ≤ 1 / 2 ^ 20 := by
  have hlarge : |(cents / 100 : ℚ)| ≤ 2 ^ 32 := by
    refine (rounding.abs_le_two_mul _).trans ?_
    have hmax : 2 * max 1 |rounding.nearest (cents / 100)| ≤ 2 * (2 ^ 30 + 1) :=
      mul_le_mul_of_nonneg_left (max_le (by norm_num) hcents) two_pos.le
    exact hmax.trans (by norm_num)
  exact (rounding.near_of_le (by norm_num) hlarge).trans (by norm_num)

/-- What is floored to date a stretch back. -/
theorem near_backdated (hpresent : |present| ≤ 2 ^ 30 + 1) (hinterval : |interval| ≤ 2 ^ 30 + 1) :
    |rounding.nearest (rounding.nearest
        (rounding.nearest (present - rounding.nearest interval) * 100) + 1 / 2) -
      ((present - interval) * 100 + 1 / 2)| ≤ 1 / 2000 := by
  have hfirst := rounding.near_of_le (by norm_num) hinterval
  have hback : |present - rounding.nearest interval| ≤ 2 ^ 31 + 3 := by
    rw [abs_le] at hpresent hinterval hfirst ⊢
    norm_num at hpresent hinterval hfirst ⊢
    constructor <;> linarith
  have hsecond := rounding.near_of_le (by norm_num) hback
  have hsmall : |rounding.nearest (present - rounding.nearest interval)| ≤ 2 ^ 32 := by
    rw [abs_le] at hback hsecond ⊢
    norm_num at hback hsecond ⊢
    constructor <;> linarith
  have hthird := near_hundredths rounding hsmall
  rw [abs_le] at hfirst hsecond hthird ⊢
  norm_num at hfirst hsecond hthird ⊢
  constructor <;> linarith

end Hundredths

section Backdated

variable {present : ℚ} (hsmall : present ≤ 2 ^ 30) (hpositive : 0 < core.options.sampleIntervalMs)
  (hfirst : core.options.sampleIntervalMs / 1000 ≤ present + 499 / 100000)
include hsmall hpositive hfirst

/-- What is floored to date a stretch back from an instant of the recording. -/
theorem near_floored :
    |num.rounding.nearest (num.rounding.nearest (num.rounding.nearest
        (present - num.rounding.nearest (core.options.sampleIntervalMs / 1000)) * 100) + 1 / 2) -
      ((present - core.options.sampleIntervalMs / 1000) * 100 + 1 / 2)| ≤ 1 / 2000 := by
  have hinterval : 0 < core.options.sampleIntervalMs / 1000 := div_pos hpositive (by norm_num)
  refine near_backdated num.rounding ?_ ?_ <;> rw [abs_le]
  · constructor <;> linarith
  · constructor <;> linarith

theorem abs_present : |present| ≤ 2 ^ 30 + 1 := by
  have hinterval : 0 < core.options.sampleIntervalMs / 1000 := div_pos hpositive (by norm_num)
  rw [abs_le]
  constructor <;> linarith

/-- A stretch is dated back. -/
theorem backdated_le (hrounded : Rounded num.rounding present) :
    core.backdated present ≤ present := by
  obtain ⟨cents, rfl⟩ := hrounded
  have hinterval : 0 < core.options.sampleIntervalMs / 1000 := div_pos hpositive (by norm_num)
  have hfloored := near_floored hsmall hpositive hfirst
  have hcents := near_cents num.rounding (abs_present hsmall hpositive hfirst)
  refine num.rounding.mono (div_le_div_of_nonneg_right (Int.cast_le.mpr ?_) (by norm_num))
  refine Int.lt_add_one_iff.mp (Int.floor_lt.mpr ?_)
  rw [abs_le] at hfloored hcents
  push_cast
  linarith

/-- Nothing that lies one interval back is after the beginning of the stretch. -/
theorem le_backdated {time : ℚ} (hrounded : Rounded num.rounding time) (hzero : 0 ≤ time)
    (hapart : time + core.options.sampleIntervalMs / 1000 ≤ present + 499 / 100000) :
    time ≤ core.backdated present := by
  obtain ⟨cents, rfl⟩ := hrounded
  have hinterval : 0 < core.options.sampleIntervalMs / 1000 := div_pos hpositive (by norm_num)
  have hfloored := near_floored hsmall hpositive hfirst
  have hbounded : |num.rounding.nearest (cents / 100)| ≤ 2 ^ 30 + 1 := by
    rw [abs_of_nonneg hzero]
    linarith
  have hcents := near_cents num.rounding hbounded
  refine num.rounding.mono (div_le_div_of_nonneg_right (Int.cast_le.mpr ?_) (by norm_num))
  refine Int.le_floor.mpr ?_
  rw [abs_le] at hfloored hcents
  linarith

end Backdated

/-! ### What a call does to the blank stretches -/

namespace Core

/-- The options and everything about blank stretches. -/
def blankView (core : Core num) : MonitorOptions × List (Span ℚ) × Option ℚ × ℕ :=
  (core.options, core.blanks, core.blankSince, core.blankRun)

/-- A call that writes leaves the blank stretches alone. -/
theorem blankView_of_writes {next : Core num} (hwrites : Writes nowMs core next) :
    next.blankView = core.blankView := by
  rw [blankView, hwrites.options, hwrites.pictures.blanks, hwrites.pictures.blankSince,
    hwrites.pictures.blankRun, blankView]

theorem blankView_onRecordState (core : Core num) (nowMs : ℤ) (data : Json) :
    (core.onRecordState nowMs data).blankView = core.blankView := by
  have hpath : (core.notePath data).blankView = core.blankView :=
    blankView_of_writes (core.notePath_writes data : Writes nowMs _ _)
  have hstate (core : Core num) (state : Option String) :
      (core.onOutputState nowMs state).blankView = core.blankView := by
    rw [onOutputState]
    split_ifs
    · rw [pause]
      split_ifs <;> rfl
    · rw [resume]
      split <;> rfl
    · rfl
  rw [onRecordState, blankView_of_writes (warnStopped_writes _ nowMs data), hstate, hpath]

theorem blankView_onEvent (core : Core num) (nowMs : ℤ) (event : String) (data : Json) :
    (core.onEvent nowMs event data).blankView = core.blankView := by
  have hhandled {next : Core num} {detail : String}
      (hevent : core.handleEvent nowMs event data = some (next, detail)) :
      next.blankView = core.blankView := by
    rw [handleEvent] at hevent
    split_ifs at hevent
    all_goals obtain ⟨rfl, -⟩ := Prod.mk.inj (some.inj hevent)
    · exact blankView_of_writes (core.onTracksChanged_writes data : Writes nowMs _ _)
    · show (core.noteScene data).blankView = core.blankView
      exact blankView_of_writes (core.noteScene_writes data : Writes nowMs _ _)
    · exact core.blankView_onRecordState nowMs data
    all_goals rfl
  rw [onEvent]
  split_ifs
  · rfl
  · exact blankView_of_writes (core.onMeters_writes nowMs data)
  · split
    · rfl
    · rename_i hevent
      rw [blankView_of_writes (log_writes _ nowMs _ _)]
      exact hhandled hevent

/-- A call that takes no picture leaves the blank stretches alone, unless it is the cleanup. -/
theorem blankView_call (hcall : call ≠ .finishCleanup) (hnone : core.pictureTaken call = none) :
    (core.call call).blankView = core.blankView := by
  cases call with
  | completeSetup nowMs supportsPpm =>
    show (core.completeSetup nowMs supportsPpm).2.blankView = _
    rw [completeSetup]
    split_ifs
    · rfl
    · rfl
    · exact (blankView_of_writes (log_writes _ nowMs _ _)).trans rfl
  | loadTracks recorded tracks =>
    exact blankView_of_writes (core.loadTracks_writes recorded tracks : Writes 0 _ _)
  | tracksUnknown nowMs message =>
    exact blankView_of_writes (core.tracksUnknown_writes nowMs message)
  | loadProgramScene response =>
    exact blankView_of_writes (core.loadProgramScene_writes response : Writes 0 _ _)
  | onEvent nowMs event data => exact core.blankView_onEvent nowMs event data
  | onDisconnect nowMs => exact blankView_of_writes (core.onDisconnect_writes nowMs)
  | beginSample kind =>
    show (core.beginSample kind).2.blankView = _
    rw [beginSample]
    split_ifs <;> rfl
  | finishSample ticket nowMs observation =>
    show (core.finishSample ticket nowMs observation).2.blankView = _
    rw [finishSample]
    split_ifs with howner hrefused
    · rfl
    · rfl
    · dsimp only
      split
      · exact (blankView_of_writes (observeStats_writes _ nowMs _)).trans rfl
      · rename_i luma hkind
        rw [not_or, not_and, not_not] at hrefused
        obtain ⟨hflag, hhistory⟩ := hrefused
        have htaken : ¬((core.stoppedAtMs.isSome || core.isPaused) = false) := by
          intro hrunning
          simp [pictureTaken, not_not.mp howner, hkind, hrunning, Bool.not_eq_false _ ▸ hflag,
            hhistory hkind] at hnone
        rw [observePicture, if_pos]
        · rfl
        · exact Bool.not_eq_false _ ▸ htaken
      · rfl
      · rfl
  | drop ticket => rfl
  | observeStats nowMs stats => exact blankView_of_writes (core.observeStats_writes nowMs stats)
  | observePicture nowMs luma =>
    show (core.observePicture nowMs luma).blankView = _
    rw [observePicture]
    rw [pictureTaken] at hnone
    split_ifs at hnone with hquiet
    rw [if_pos hquiet]
  | mark nowMs name => rfl
  | expectStop => rfl
  | beginStopExpectation => rfl
  | rollbackStopExpectation previous => rfl
  | beginStop nowMs =>
    show (core.beginStop nowMs).2.blankView = _
    rw [beginStop]
    split_ifs <;> rfl
  | finishCleanup => exact absurd rfl hcall
  | summary nowMs => rfl

/-- What a picture makes of the blank stretches. -/
def blankStep (core : Core num) (time : ℚ) (luma : List UInt8) :
    MonitorOptions × List (Span ℚ) × Option ℚ × ℕ :=
  if black luma then
    if core.blankRun = 1 then (core.options, core.blanks, some (core.backdated time), 2)
    else (core.options, core.blanks, core.blankSince, saturatingSucc core.blankRun)
  else (core.options, core.blanks ++ core.blankSince.toList.map (⟨·, time⟩), none, 0)

theorem saturatingSucc_eq_two_iff {run : ℕ} : saturatingSucc run = 2 ↔ run = 1 := by
  rw [saturatingSucc]
  omega

theorem blankView_observeBlank (core : Core num) (nowMs : ℤ) (time : ℚ) (luma : List UInt8) :
    (core.observeBlank nowMs time luma).blankView = core.blankStep time luma := by
  rw [blankStep, observeBlank, ← black]
  by_cases hblack : black luma = true
  · rw [if_pos hblack, if_pos hblack]
    dsimp only
    by_cases hrun : core.blankRun = 1
    · rw [if_pos (saturatingSucc_eq_two_iff.mpr hrun), if_pos hrun,
        blankView_of_writes (warn_writes _ nowMs _ _), blankView,
          saturatingSucc_eq_two_iff.mpr hrun]
      rfl
    · rw [if_neg (mt saturatingSucc_eq_two_iff.mp hrun), if_neg hrun, blankView]
  · rw [if_neg hblack, if_neg hblack, closeBlank]
    cases core.blankSince with
    | none => simp [blankView]
    | some since => simp [blankView]

theorem blankView_observePicture (hrunning : (core.stoppedAtMs.isSome || core.isPaused) = false)
    (luma : List UInt8) :
    (core.observePicture nowMs luma).blankView = core.blankStep (core.now nowMs) luma := by
  rw [observePicture, hrunning, if_neg Bool.false_ne_true]
  exact blankView_observeBlank _ _ _ _

/-- A call that takes a picture does nothing else to the blank stretches. -/
theorem blankView_of_picture {luma : List UInt8}
    (htaken : core.pictureTaken call = some (nowMs, luma)) :
    call.reading = some nowMs ∧ core.stoppedAtMs = none ∧
      (core.call call).blankView = core.blankStep (core.now nowMs) luma := by
  have hnone (hrunning : ¬(core.stoppedAtMs.isSome || core.isPaused) = true) :
      core.stoppedAtMs = none := by
    simpa using (not_or.mp (mt (Bool.or_eq_true _ _).mpr hrunning)).1
  cases call with
  | observePicture reading picture =>
    rw [pictureTaken] at htaken
    split_ifs at htaken with hquiet
    obtain ⟨rfl, rfl⟩ := Prod.mk.inj (some.inj htaken)
    exact ⟨rfl, hnone hquiet, blankView_observePicture (Bool.not_eq_true _ ▸ hquiet) picture⟩
  | finishSample ticket reading observation =>
    cases observation with
    | picture picture =>
      rw [pictureTaken] at htaken
      split_ifs at htaken with hticket hquiet
      obtain ⟨rfl, rfl⟩ := Prod.mk.inj (some.inj htaken)
      obtain ⟨howner, hflag, hkind, hhistory⟩ := hticket
      refine ⟨rfl, hnone hquiet, ?_⟩
      have hfinish : (core.finishSample ticket reading (.picture picture)).2 =
          (core.dropTicket ticket).observePicture reading picture := by
        rw [finishSample, if_neg (not_not.mpr howner), if_neg]
        · simp only [hkind]
        · simp [hflag, hhistory]
      show (core.finishSample ticket reading (.picture picture)).2.blankView = _
      rw [hfinish]
      have hrunning : ((core.dropTicket ticket).stoppedAtMs.isSome ||
          (core.dropTicket ticket).isPaused) = false := Bool.not_eq_true _ ▸ hquiet
      exact blankView_observePicture hrunning picture
    | stats stats => cases htaken
    | failed => cases htaken
  | _ => cases htaken

/-- The cleanup closes the blank stretch that is open, if it does anything. -/
theorem blankView_finishCleanup (core : Core num) :
    core.finishCleanup.2.blankView = core.blankView ∨
      core.phase = .stopping ∧ core.finishCleanup.2.blankView =
        (core.options,
          core.blanks ++ core.blankSince.toList.map (⟨·, core.now (core.stoppedAtMs.getD 0)⟩),
          none, core.blankRun) := by
  rw [finishCleanup]
  split_ifs with hstopped hstopping hpending
  · exact .inl rfl
  · exact .inl rfl
  · exact .inl rfl
  · refine .inr ⟨not_not.mp hstopping, ?_⟩
    dsimp only
    cases hsince : core.blankSince with
    | none => simp [blankView, closeBlank, closeStill, hsince]
    | some since => simp [blankView, closeBlank, closeStill, hsince]

end Core

/-! ### Dated stretches -/

/-- Blank stretches, the last of which may be open, that are true of a recording up to the present:
`lit` are the times of its pictures that were not black. -/
structure Dated (rounding : Rounding) (now : ℚ) (lit : List ℚ) (blanks : List (Span ℚ))
    (since : Option ℚ) : Prop where
  rounded : ∀ time ∈ lit, Rounded rounding time
  past : ∀ time ∈ lit, time ≤ now
  inside : ∀ span ∈ blanks, 0 ≤ span.start ∧ span.start ≤ span.stop ∧ span.stop ≤ now
  apart : blanks.Pairwise fun a b ↦ a.stop ≤ b.start
  dark : ∀ span ∈ blanks, ∀ time ∈ lit, ¬(span.start < time ∧ time < span.stop)
  opened : ∀ start, since = some start → 0 ≤ start ∧ start ≤ now ∧ (∀ time ∈ lit, time ≤ start) ∧
    ∀ span ∈ blanks, span.stop ≤ start

section Dated

variable {rounding : Rounding} {now ending : ℚ} {lit : List ℚ} {blanks : List (Span ℚ)}
  {since : Option ℚ}

theorem Dated.later (hdated : Dated rounding now lit blanks since) (hlater : now ≤ ending) :
    Dated rounding ending lit blanks since where
  rounded := hdated.rounded
  past := fun time htime ↦ (hdated.past time htime).trans hlater
  inside := fun span hspan ↦
    have ⟨hstart, hforward, hstop⟩ := hdated.inside span hspan
    ⟨hstart, hforward, hstop.trans hlater⟩
  apart := hdated.apart
  dark := hdated.dark
  opened := fun start hstart ↦
    have ⟨hzero, hnow, hbehind⟩ := hdated.opened start hstart
    ⟨hzero, hnow.trans hlater, hbehind⟩

/-- The open stretch ends at the present. -/
theorem Dated.close (hdated : Dated rounding now lit blanks since) :
    Dated rounding now lit (blanks ++ since.toList.map (⟨·, now⟩)) none := by
  cases since with
  | none =>
    rw [toList_none, map_nil, append_nil]
    exact { hdated with }
  | some start =>
    obtain ⟨hzero, hnow, hlit, hblanks⟩ := hdated.opened start rfl
    refine ⟨hdated.rounded, hdated.past, ?_, ?_, ?_, nofun⟩
    · refine forall_mem_append.mpr ⟨hdated.inside, fun span hspan ↦ ?_⟩
      rw [mem_singleton.mp hspan]
      exact ⟨hzero, hnow, le_rfl⟩
    · refine pairwise_append.mpr ⟨hdated.apart, pairwise_singleton _ _, ?_⟩
      intro span hspan last hlast
      rw [mem_singleton.mp hlast]
      exact hblanks span hspan
    · refine forall_mem_append.mpr ⟨hdated.dark, fun span hspan time htime hinside ↦ ?_⟩
      rw [mem_singleton.mp hspan] at hinside
      exact absurd (hlit time htime) (not_le.mpr hinside.1)

/-- A picture that is not black is taken while no stretch is open. -/
theorem Dated.light (hdated : Dated rounding now lit blanks none) (hnow : Rounded rounding now) :
    Dated rounding now (lit ++ [now]) blanks none where
  rounded := forall_mem_append.mpr ⟨hdated.rounded, forall_mem_singleton.mpr hnow⟩
  past := forall_mem_append.mpr ⟨hdated.past, forall_mem_singleton.mpr le_rfl⟩
  inside := hdated.inside
  apart := hdated.apart
  dark := fun span hspan ↦ forall_mem_append.mpr ⟨hdated.dark span hspan,
    forall_mem_singleton.mpr fun hinside ↦
      absurd (hdated.inside span hspan).2.2 (not_le.mpr hinside.2)⟩
  opened := nofun

/-- A stretch is dated back to an instant that nothing forbids. -/
theorem Dated.open (hdated : Dated rounding now lit blanks since) {start : ℚ} (hstart : start ≤ now)
    (hlit : ∀ time ∈ 0 :: lit, time ≤ start) (hended : ∀ span ∈ blanks, span.stop ∈ lit) :
    Dated rounding now lit blanks (some start) where
  rounded := hdated.rounded
  past := hdated.past
  inside := hdated.inside
  apart := hdated.apart
  dark := hdated.dark
  opened := fun other hother ↦ by
    cases hother
    obtain ⟨hzero, hbehind⟩ := forall_mem_cons.mp hlit
    exact ⟨hzero, hstart, hbehind, fun span hspan ↦ hbehind span.stop (hended span hspan)⟩

end Dated

/-! ### Runs of spaced pictures -/

/-- What holds along a run of spaced pictures: the stretches are dated, and while the recording goes
on each of them was ended by a picture that was not black. -/
structure Faithful (watched : Watched num) : Prop where
  sane : Sane watched.world
  interval : 0 < watched.world.core.options.sampleIntervalMs
  dated : Dated num.rounding watched.world.now watched.lit watched.world.core.blanks
    watched.world.core.blankSince
  ended : watched.world.core.stoppedAtMs = none →
    ∀ span ∈ watched.world.core.blanks, span.stop ∈ watched.lit

theorem blankView_eq_iff {view : MonitorOptions × List (Span ℚ) × Option ℚ × ℕ} :
    core.blankView = view ↔ core.options = view.1 ∧ core.blanks = view.2.1 ∧
      core.blankSince = view.2.2.1 ∧ core.blankRun = view.2.2.2 := by
  simp only [Core.blankView, Prod.ext_iff]

variable {watched : Watched num}

section

variable (hfaithful : Faithful watched)
include hfaithful

/-- A call that leaves the blank stretches alone and takes no picture. -/
theorem Faithful.of_view (hadmits : watched.world.Admits call)
    (hview : (watched.world.core.call call).blankView = watched.world.core.blankView)
    (hnone : watched.world.core.pictureTaken call = none) : Faithful (watched.after call) := by
  obtain ⟨hoptions, hblanks, hsince, -⟩ := blankView_eq_iff.mp hview
  have hlit : (watched.after call).lit = watched.lit := by
    simp [Watched.after, Core.litTime, hnone]
  have hlater := (now_of_step hfaithful.sane.inv hadmits).1
  have hadvances := call_advances hfaithful.sane.inv call watched.world.clock
  refine ⟨hfaithful.sane.after hadmits, ?_, ?_, ?_⟩
  · show 0 < (watched.world.core.call call).options.sampleIntervalMs
    rw [hoptions]
    exact hfaithful.interval
  · show Dated _ _ _ (watched.world.core.call call).blanks (watched.world.core.call call).blankSince
    rw [hlit, hblanks, hsince]
    exact hfaithful.dated.later hlater
  · intro hrunning
    show ∀ span ∈ (watched.world.core.call call).blanks, _
    rw [hlit, hblanks]
    refine hfaithful.ended (eq_none_iff_forall_ne_some.mpr fun stop hstop ↦ ?_)
    exact some_ne_none stop ((hadvances.stopped stop hstop).symm.trans hrunning)

/-- The cleanup ends the open stretch at the time of the stop. -/
theorem Faithful.cleanup (hadmits : watched.world.Admits .finishCleanup) :
    Faithful (watched.after .finishCleanup) := by
  rcases watched.world.core.blankView_finishCleanup with hsame | ⟨hphase, hclosed⟩
  · exact hfaithful.of_view hadmits hsame rfl
  · obtain ⟨hoptions, hblanks, hsince, -⟩ := blankView_eq_iff.mp hclosed
    have hdeaf : watched.world.core.listening = false := by
      rw [Core.listening, hphase]
      rfl
    obtain ⟨stop, hstop⟩ : ∃ stop, watched.world.core.stoppedAtMs = some stop := by
      refine ne_none_iff_exists'.mp fun hnone ↦ ?_
      exact Bool.false_ne_true (hdeaf.symm.trans (hfaithful.sane.inv.listening.mpr hnone))
    have hlit : (watched.after .finishCleanup).lit = watched.lit := append_nil _
    have hnow : (watched.after .finishCleanup).world.now = watched.world.now :=
      now_after hfaithful.sane.inv .finishCleanup
    have hend : watched.world.core.now (watched.world.core.stoppedAtMs.getD 0) =
        watched.world.now := by
      simp [World.now, Core.now, Core.elapsed, hstop]
    have hadvances := call_advances hfaithful.sane.inv .finishCleanup watched.world.clock
    refine ⟨hfaithful.sane.after hadmits, ?_, ?_, ?_⟩
    · show 0 < watched.world.core.finishCleanup.2.options.sampleIntervalMs
      rw [hoptions]
      exact hfaithful.interval
    · show Dated _ _ _ watched.world.core.finishCleanup.2.blanks
        watched.world.core.finishCleanup.2.blankSince
      rw [hnow, hlit, hblanks, hsince, hend]
      exact hfaithful.dated.close
    · intro hrunning
      exact absurd ((hadvances.stopped stop hstop).symm.trans hrunning) (some_ne_none stop)

/-- A spaced picture. -/
theorem Faithful.picture (hadmits : watched.world.Admits call) (hspaced : Spaced watched call)
    {luma : List UInt8} (htaken : watched.world.core.pictureTaken call = some (nowMs, luma)) :
    Faithful (watched.after call) := by
  obtain ⟨hreading, hrunning, hview⟩ := Core.blankView_of_picture htaken
  have hnow : (watched.after call).world.now = watched.world.core.now nowMs := by
    have hafter := now_after hfaithful.sane.inv call
    rwa [hreading, getD_some] at hafter
  have hlater := (now_of_step hfaithful.sane.inv hadmits).1
  have hdated := hfaithful.dated.later (hlater.trans_eq hnow)
  have hended := hfaithful.ended hrunning
  rw [Core.blankStep] at hview
  suffices hafter : 0 < (watched.world.core.call call).options.sampleIntervalMs ∧
      Dated num.rounding (watched.world.core.now nowMs) (watched.after call).lit
        (watched.world.core.call call).blanks (watched.world.core.call call).blankSince ∧
      ∀ span ∈ (watched.world.core.call call).blanks, span.stop ∈ (watched.after call).lit by
    obtain ⟨hinterval, hdated, hended⟩ := hafter
    exact ⟨hfaithful.sane.after hadmits, hinterval, hnow ▸ hdated, fun _ ↦ hended⟩
  by_cases hblack : black luma = true
  · have hlit : (watched.after call).lit = watched.lit := by
      simp [Watched.after, Core.litTime, htaken, hblack]
    rw [if_pos hblack] at hview
    by_cases hrun : watched.world.core.blankRun = 1
    · rw [if_pos hrun] at hview
      obtain ⟨hoptions, hblanks, hsince, -⟩ := blankView_eq_iff.mp hview
      rw [hlit, hoptions, hblanks, hsince]
      obtain ⟨hsmall, hapart⟩ := hspaced.apart nowMs luma htaken hblack hrun
      obtain ⟨hfirst, -⟩ := forall_mem_cons.mp hapart
      rw [zero_add] at hfirst
      have hinterval := hfaithful.interval
      have hstart : 0 ≤ watched.world.core.backdated (watched.world.core.now nowMs) :=
        le_backdated hsmall hinterval hfirst (rounded_zero _) le_rfl (by rwa [zero_add])
      refine ⟨hinterval, hdated.open ?_ ?_ hended, hended⟩
      · exact backdated_le hsmall hinterval hfirst (rounded_now _ _)
      · refine forall_mem_cons.mpr ⟨hstart, fun time htime ↦ ?_⟩
        rcases le_total 0 time with hzero | hnegative
        · exact le_backdated hsmall hinterval hfirst (hfaithful.dated.rounded time htime) hzero
            (hapart time (mem_cons_of_mem _ htime))
        · exact hnegative.trans hstart
    · rw [if_neg hrun] at hview
      obtain ⟨hoptions, hblanks, hsince, -⟩ := blankView_eq_iff.mp hview
      rw [hlit, hoptions, hblanks, hsince]
      exact ⟨hfaithful.interval, hdated, hended⟩
  · have hlit : (watched.after call).lit = watched.lit ++ [watched.world.core.now nowMs] := by
      simp [Watched.after, Core.litTime, htaken, hblack]
    rw [if_neg hblack] at hview
    obtain ⟨hoptions, hblanks, hsince, -⟩ := blankView_eq_iff.mp hview
    rw [hlit, hoptions, hblanks, hsince]
    refine ⟨hfaithful.interval, hdated.close.light (rounded_now _ _),
      forall_mem_append.mpr ⟨fun span hspan ↦ ?_, fun span hspan ↦ ?_⟩⟩
    · exact mem_append_left _ (hended span hspan)
    · obtain ⟨since, -, rfl⟩ := mem_map.mp hspan
      exact mem_append_right _ mem_cons_self

theorem Faithful.after (hadmits : watched.world.Admits call) (hspaced : Spaced watched call) :
    Faithful (watched.after call) := by
  cases htaken : watched.world.core.pictureTaken call with
  | some picture => exact hfaithful.picture hadmits hspaced htaken
  | none =>
    by_cases hcall : call = .finishCleanup
    · subst hcall
      exact hfaithful.cleanup hadmits
    · exact hfaithful.of_view hadmits (Core.blankView_call hcall htaken) htaken

/-- The stretches of a report are the closed ones and the one that is open at the reading. -/
theorem Faithful.truthful (hnow : watched.world.clock ≤ nowMs) : Truthful watched nowMs := by
  have hlater : watched.world.now ≤ watched.world.core.now nowMs :=
    now_le_of_elapsed (elapsed_mono watched.world.core hnow)
  have hdated := hfaithful.dated.later hlater
  have hreport : Dated num.rounding (watched.world.core.now nowMs) watched.lit
      (watched.world.core.summary nowMs).blanks none := by
    rw [Core.summary]
    dsimp only
    split_ifs with hrunning
    · exact hdated.close
    · rw [map_nil, append_nil]
      exact { hdated with opened := nofun }
  exact ⟨hreport.inside, hreport.apart, hreport.dark⟩

end

/-- In every run whose second black pictures come at least one sample interval of recording time
after the start and after every picture that was not black, every report of every state has the
whole milliseconds and tells the truth about the blank stretches. -/
theorem truthful_of_spaced (num : Numerics) (watched : Watched num)
    (hreachable : ((watch num).restrict Spaced).Reachable watched) (nowMs : ℤ)
    (hnow : watched.world.clock ≤ nowMs) (hspaced : Spaced watched (.summary nowMs)) :
    watched.world.core.doubles nowMs = watched.world.core.elapsed nowMs ∧
      Truthful watched nowMs := by
  have hfaithful : Faithful watched := by
    refine invariant_of_step Faithful ?_ ?_ hreachable
    · rintro ⟨world, lit⟩ ⟨hinitial, rfl, hinterval⟩
      have hsane := sane_of_reachable (.initial hinitial)
      obtain ⟨identity, startedAtMs, startedAt, options, rfl⟩ := hinitial
      exact ⟨hsane, hinterval, ⟨nofun, nofun, nofun, .nil, nofun, nofun⟩, fun _ ↦ nofun⟩
    · rintro watched call _ - hfaithful ⟨hspaced, hadmits, rfl⟩
      exact hfaithful.after hadmits hspaced
  exact ⟨doubles_elapsed (hspaced.whole nowMs rfl), hfaithful.truthful hnow⟩

theorem options_call (core : Core num) (call : Call) : (core.call call).options = core.options := by
  cases htaken : core.pictureTaken call with
  | some picture =>
    obtain ⟨-, -, hview⟩ := Core.blankView_of_picture htaken
    rw [(blankView_eq_iff.mp hview).1, Core.blankStep]
    split_ifs <;> rfl
  | none =>
    by_cases hcall : call = .finishCleanup
    · subst hcall
      rcases core.blankView_finishCleanup with hsame | ⟨-, hclosed⟩
      · exact (blankView_eq_iff.mp hsame).1
      · exact (blankView_eq_iff.mp hclosed).1
    · exact (blankView_eq_iff.mp (Core.blankView_call hcall htaken)).1

/-- Watching limits no run: every monitor with a positive interval is watched. -/
theorem exists_watched {world : World num} (hreachable : (monitor num).Reachable world)
    (hinterval : 0 < world.core.options.sampleIntervalMs) :
    ∃ lit, (watch num).Reachable ⟨world, lit⟩ := by
  induction hreachable with
  | initial hinitial => exact ⟨[], .initial ⟨hinitial, rfl, hinterval⟩⟩
  | step _ hstep ih =>
    obtain ⟨hadmits, rfl⟩ := hstep
    have hbefore := options_call _ _ ▸ hinterval
    obtain ⟨lit, hlit⟩ := ih hbefore
    exact ⟨_, hlit.step ⟨hadmits, rfl⟩⟩

/-! ### Two takes -/

/-- Numbers that no one looks at. -/
def plain : Numerics where
  rounding := .binary64
  Level := Unit
  Count := Unit
  peaks _ := ((), ())
  levelMax _ _ := ()
  louder _ _ := true
  exceeds _ _ := false
  levelText _ := "0"
  zero := ()
  add _ _ := ()
  delta _ _ _ := ()
  isZero _ := true
  countText _ := "0"
  numberText _ := "0"
  numberTruthy _ := true

/-- A take that samples the picture every five seconds. -/
def fiveSeconds : Watched plain :=
  ⟨⟨Core.new plain 0 0 "" ⟨false, -50, 5000, 5000, 10⟩, [], 0⟩, []⟩

namespace Watched

/-- A call that is admitted. -/
def admits (watched : Watched num) (call : Call) : Bool :=
  (call.reading.all fun nowMs ↦ watched.world.clock ≤ nowMs) &&
    match call with
    | .finishSample ticket _ _ =>
      watched.world.held.contains ticket || ticket.owner != watched.world.core.sampleOwner
    | .drop ticket => watched.world.held.contains ticket
    | _ => true

/-- A call that is spaced. -/
def spaced (watched : Watched num) (call : Call) : Bool :=
  (call.reading.all fun nowMs ↦ (watched.world.core.millis nowMs).all fun ms ↦ |ms| ≤ 2 ^ 50) &&
    match watched.world.core.pictureTaken call with
    | some (nowMs, luma) =>
      !black luma || watched.world.core.blankRun != 1 ||
        watched.world.core.now nowMs ≤ 2 ^ 30 && (0 :: watched.lit).all fun time ↦
          time + watched.world.core.options.sampleIntervalMs / 1000 ≤
            watched.world.core.now nowMs + 499 / 100000
    | none => true

theorem admits_sound (hadmits : watched.admits call = true) : watched.world.Admits call := by
  unfold admits at hadmits
  obtain ⟨hclock, hcall⟩ := Bool.and_eq_true_iff.mp hadmits
  rw [Option.all_eq_true] at hclock
  refine ⟨fun nowMs hreading ↦ of_decide_eq_true (hclock nowMs hreading), ?_⟩
  cases call with
  | finishSample ticket nowMs observation => simpa using hcall
  | drop ticket => simpa using hcall
  | _ => trivial

theorem spaced_sound (hspaced : watched.spaced call = true) : Spaced watched call := by
  rw [spaced, Bool.and_eq_true] at hspaced
  obtain ⟨hwhole, hapart⟩ := hspaced
  refine ⟨fun nowMs hreading ↦ ?_, fun nowMs luma htaken hblack hrun ↦ ?_⟩
  · rw [hreading, Option.all_some, List.all_eq_true] at hwhole
    exact fun ms hms ↦ of_decide_eq_true (hwhole ms hms)
  · rw [htaken] at hapart
    dsimp only at hapart
    rw [hblack, hrun, Bool.or_eq_true, Bool.and_eq_true, List.all_eq_true] at hapart
    obtain ⟨hsmall, htimes⟩ := hapart.resolve_left (by decide)
    exact ⟨of_decide_eq_true hsmall, fun time htime ↦ of_decide_eq_true (htimes time htime)⟩

/-- An admitted call. -/
def act (watched : Watched num) (call : Call) : Option (Watched num) :=
  if watched.admits call then some (watched.after call) else none

/-- An admitted call whose picture is spaced. -/
def actSpaced (watched : Watched num) (call : Call) : Option (Watched num) :=
  if watched.spaced call then watched.act call else none

theorem step_of_act {watched other : Watched num} (hact : watched.act call = some other) :
    (watch num).step watched call other := by
  rw [act] at hact
  split_ifs at hact with hadmits
  exact ⟨admits_sound hadmits, (some.inj hact).symm⟩

theorem step_of_actSpaced {watched other : Watched num}
    (hact : watched.actSpaced call = some other) :
    ((watch num).restrict Spaced).step watched call other := by
  rw [actSpaced] at hact
  split_ifs at hact with hspaced
  exact ⟨spaced_sound hspaced, step_of_act hact⟩

end Watched

theorem fiveSeconds_initial : (watch plain).initial fiveSeconds :=
  ⟨⟨0, 0, "", _, rfl⟩, rfl, by decide⟩

/-- A pause of almost five seconds. -/
def pauseFrom (nowMs : ℤ) : List Call :=
  [.onEvent nowMs "RecordStateChanged"
      (.object [("outputState", .string "OBS_WEBSOCKET_OUTPUT_PAUSED")]),
    .onEvent (nowMs + 4800) "RecordStateChanged"
      (.object [("outputState", .string "OBS_WEBSOCKET_OUTPUT_RESUMED")])]

/-- The monitor begins to watch a scene. -/
def beginTake : List Call :=
  [.completeSetup 0 true, .loadProgramScene (.object [("sceneName", .string "Main")])]

/-- A sample of the picture. -/
def sample (history active : ℕ) (nowMs : ℤ) (luma : List UInt8) : List Call :=
  [.beginSample .picture,
    .finishSample ⟨0, history, active, .picture⟩ nowMs (.picture luma)]

/-- A white picture and two black ones, five seconds apart, with a pause after each of the first
two. -/
def pausedTake : List Call :=
  beginTake ++ sample 1 2 5000 [255] ++ pauseFrom 5100 ++ sample 3 4 10000 [0] ++
    pauseFrom 10100 ++ sample 5 6 15000 [0]

/-- The same pictures without a pause. -/
def plainTake : List Call :=
  beginTake ++ sample 1 2 5000 [255] ++ sample 1 3 10000 [0] ++ sample 1 4 15000 [0]

/-- A white picture five seconds into the recording lies inside the black stretch that is reported
from 0.4 to 5.4 seconds. -/
theorem paused_take_untruthful :
    ¬∀ watched, (watch plain).Reachable watched → ∀ nowMs, watched.world.clock ≤ nowMs →
      Truthful watched nowMs := by
  intro hall
  have hrun : (pausedTake.foldlM Watched.act fiveSeconds).any (fun watched ↦
      (watched.world.core.summary 15000).blanks.any (fun span ↦ span.start < 5 ∧ 5 < span.stop) ∧
        5 ∈ watched.lit ∧ watched.world.clock ≤ 15000) = true := by decide +kernel
  rw [Option.any_eq_true] at hrun
  obtain ⟨watched, hwatched, hreport⟩ := hrun
  obtain ⟨hblanks, hlit, hclock⟩ := of_decide_eq_true hreport
  obtain ⟨span, hspan, hinside⟩ := List.any_eq_true.mp hblanks
  have hreachable : (watch plain).Reachable watched :=
    Reachable.of_foldlM (fun _ _ _ ↦ Watched.step_of_act) (.initial fiveSeconds_initial) hwatched
  exact (hall watched hreachable 15000 hclock).dark span hspan 5 hlit (of_decide_eq_true hinside)

/-- A take without pauses whose report is true. -/
theorem truthful_of_spaced_plain :
    ∃ watched, plainTake.foldlM Watched.actSpaced fiveSeconds = some watched ∧
      (watched.world.core.doubles 15000 = watched.world.core.elapsed 15000 ∧
        Truthful watched 15000) := by
  have hrun : (plainTake.foldlM Watched.actSpaced fiveSeconds).any (fun watched ↦
      watched.world.clock ≤ 15000 ∧ watched.spaced (.summary 15000) = true) = true := by
    decide +kernel
  rw [Option.any_eq_true] at hrun
  obtain ⟨watched, hwatched, hready⟩ := hrun
  obtain ⟨hclock, hspaced⟩ := of_decide_eq_true hready
  have hreachable : ((watch plain).restrict Spaced).Reachable watched :=
    Reachable.of_foldlM (fun _ _ _ ↦ Watched.step_of_actSpaced) (.initial fiveSeconds_initial)
      hwatched
  exact ⟨watched, hwatched, truthful_of_spaced plain watched hreachable 15000 hclock
    (Watched.spaced_sound hspaced)⟩

end ObsMcp.Monitor
