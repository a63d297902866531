import ObsMcp.Foundations.Rounding
import ObsMcp.Foundations.Spans

/-!
# Still pictures

A tracker is pushed small grey pictures with their times and reports the stretches in which the
picture did not change. It compares the pixelwise median of the first three of six pictures with
the median of the last three: while they agree the stretch goes on, and when they differ it is
closed at the first picture that left the old median and a new one begins where the new median
settled.

A stretch may begin before the one reported last has ended. The push after a transition looks at
five of the same pictures again, may find another transition earlier than the first one, and takes
its place as the beginning of the next stretch; `reported_twice` is such a feed. `Backdates` is
this case, seen from the pictures before the push, and `spans_sound` proves that every feed without
it is reported in order and without overlap.

The tracker only compares times, apart from its test of a stretch's length, which is a parameter:
`atLeast` is the test of the source, a rounded difference compared with the least length.
-/

namespace ObsMcp.Monitor

open Foundations List Option

/-! ### The tracker -/

/-- A stretch between two times is long enough. -/
def atLeast (rounding : Rounding) (minSeconds start time : ℚ) : Bool :=
  minSeconds ≤ rounding.nearest (time - start)

/-- A stretch that is long enough goes forward. -/
theorem le_of_atLeast {rounding : Rounding} {minSeconds start time : ℚ} (hmin : 0 < minSeconds)
    (hlong : atLeast rounding minSeconds start time = true) : start ≤ time := by
  by_contra hbackward
  have hle : rounding.nearest (time - start) ≤ rounding.nearest 0 :=
    rounding.mono (sub_nonpos.mpr (not_le.mp hbackward).le)
  rw [rounding.zero] at hle
  exact absurd ((of_decide_eq_true hlong).trans hle) (not_le.mpr hmin)

structure Frame (T : Type) where
  time : T
  luma : List UInt8

/-- Two pictures of one size that differ by more than twelve in fewer than two pixels. -/
def sameLuma (a b : List UInt8) : Bool :=
  !a.isEmpty && a.length == b.length &&
    ((a.zip b).filter fun ⟨x, y⟩ ↦ 12 < max x y - min x y).length < 2

/-- The middle one of three pixels. -/
def middle (a b c : UInt8) : UInt8 :=
  max (min a b) (min (max a b) c)

/-- The pixelwise median of three pictures of one size. -/
def median {T : Type} (a b c : Frame T) : List UInt8 :=
  (a.luma.zip (b.luma.zip c.luma)).map fun ⟨x, y, z⟩ ↦ middle x y z

/-- Six pictures in a row. -/
structure Window (T : Type) where
  f0 : Frame T
  f1 : Frame T
  f2 : Frame T
  f3 : Frame T
  f4 : Frame T
  f5 : Frame T

variable {T : Type}

namespace Window

def ofSamples : List (Frame T) → Option (Window T)
  | f0 :: f1 :: f2 :: f3 :: f4 :: f5 :: _ => some ⟨f0, f1, f2, f3, f4, f5⟩
  | _ => none

def before (w : Window T) : List UInt8 :=
  median w.f0 w.f1 w.f2

def after (w : Window T) : List UInt8 :=
  median w.f3 w.f4 w.f5

/-- The times of those of the first three pictures that agree with their median. -/
def matching (w : Window T) : List T :=
  ([w.f0, w.f1, w.f2].filter fun f ↦ sameLuma w.before f.luma).map Frame.time

/-- The pictures that may be the first to leave the old median. -/
def middles (w : Window T) : List (Frame T) :=
  [w.f1, w.f2, w.f3, w.f4]

/-- The time of the first picture that left the old median. -/
def changedAt (w : Window T) : T :=
  match w.middles.find? fun f ↦ !sameLuma w.before f.luma with
  | some f => f.time
  | none => w.f3.time

/-- The time from which on the pictures agree with the new median. -/
def settled (w : Window T) : T :=
  if sameLuma w.after w.f2.luma then
    if sameLuma w.after w.f1.luma then w.f1.time else w.f2.time
  else w.f3.time

end Window

/-- `long` says which stretches are long enough, from their beginning to their end. -/
structure StillTracker (T : Type) where
  long : T → T → Bool
  samples : List (Frame T)
  stillFrom : Option T
  lastTime : Option T
  comparisonQualified : Bool
  spans : List (Span T)

namespace StillTracker

def new (long : T → T → Bool) : StillTracker T :=
  ⟨long, [], none, none, false, []⟩

def stillSince (tracker : StillTracker T) : Option T :=
  tracker.stillFrom.filter fun start ↦
    tracker.comparisonQualified && tracker.lastTime.any fun last ↦ tracker.long start last

def close (tracker : StillTracker T) (time : T) : StillTracker T :=
  match tracker.stillFrom.filter fun start ↦
      tracker.comparisonQualified && tracker.long start time with
  | some start => { tracker with spans := tracker.spans ++ [⟨start, time⟩] }
  | none => tracker

/-- Forgets the pictures and the stretch they belong to. -/
def clear (tracker : StillTracker T) : StillTracker T :=
  { tracker with samples := [], stillFrom := none, lastTime := none, comparisonQualified := false }

def finish (tracker : StillTracker T) (time : T) : StillTracker T :=
  (tracker.close time).clear

/-- A picture of another size than those held. -/
def resized (tracker : StillTracker T) (luma : List UInt8) : Bool :=
  tracker.samples.head?.any fun sample ↦ sample.luma.length != luma.length

/-- Closes the stretch at the last picture when the size changes. -/
def resize (tracker : StillTracker T) (luma : List UInt8) : StillTracker T :=
  if tracker.resized luma then
    match tracker.lastTime with
    | some last => (tracker.close last).clear
    | none => tracker.clear
  else tracker

/-- Takes a picture in. -/
def accept (tracker : StillTracker T) (frame : Frame T) : StillTracker T :=
  { tracker with
    stillFrom := some (tracker.stillFrom.getD frame.time)
    lastTime := some frame.time
    samples := tracker.samples ++ [frame] }

variable [LinearOrder T]

/-- A first transition closes a stretch from the first picture that agrees with its median. -/
def qualify (tracker : StillTracker T) (w : Window T) : StillTracker T :=
  match tracker.comparisonQualified, w.matching with
  | false, first :: _ :: _ =>
    { tracker with
      stillFrom := tracker.stillFrom.map fun start ↦ max start first
      comparisonQualified := true }
  | _, _ => tracker

/-- What six pictures say. -/
def compare (tracker : StillTracker T) (w : Window T) : StillTracker T :=
  if sameLuma w.before w.after then
    { tracker with comparisonQualified := !w.before.isEmpty }
  else
    { (tracker.qualify w).close w.changedAt with
      stillFrom := some (max w.changedAt w.settled)
      comparisonQualified := false }

/-- Compares the pictures held, when there are six, and lets the first one go. -/
def slide (tracker : StillTracker T) : StillTracker T :=
  match Window.ofSamples tracker.samples with
  | some w => { tracker.compare w with samples := tracker.samples.tail }
  | none => tracker

def push (tracker : StillTracker T) (frame : Frame T) : StillTracker T :=
  ((tracker.resize frame.luma).accept frame).slide

/-- Every picture of a list, one after the other. -/
def pushAll (tracker : StillTracker T) (frames : List (Frame T)) : StillTracker T :=
  frames.foldl push tracker

/-! ### The spans that are reported -/

/-- Spans that are long enough, in order, apart and between two instants. -/
structure Sound (long : T → T → Bool) (first latest : T) (spans : List (Span T)) : Prop where
  long : ∀ span ∈ spans, long span.start span.stop = true
  apart : spans.Pairwise (fun a b ↦ a.stop ≤ b.start)
  inside : ∀ span ∈ spans, first ≤ span.start ∧ span.stop ≤ latest

variable {tracker : StillTracker T} {long : T → T → Bool} {first latest time : T}
  {spans : List (Span T)}

/-- A later instant bounds the same spans. -/
theorem Sound.later (hsound : Sound long first latest spans) (hlater : latest ≤ time) :
    Sound long first time spans :=
  ⟨hsound.long, hsound.apart, fun span hspan ↦
    ⟨(hsound.inside span hspan).1, (hsound.inside span hspan).2.trans hlater⟩⟩

/-- A span that starts after all others have stopped may be added. -/
theorem Sound.append (hsound : Sound long first latest spans) {start : T} (hfirst : first ≤ start)
    (hafter : ∀ span ∈ spans, span.stop ≤ start) (hlong : long start time = true)
    (htime : time ≤ latest) : Sound long first latest (spans ++ [⟨start, time⟩]) := by
  constructor
  · intro span hspan
    rcases mem_append.mp hspan with hspan | hspan
    · exact hsound.long span hspan
    · rw [mem_singleton.mp hspan]
      exact hlong
  · refine pairwise_append.mpr ⟨hsound.apart, pairwise_singleton _ _, ?_⟩
    intro span hspan other hother
    rw [mem_singleton.mp hother]
    exact hafter span hspan
  · intro span hspan
    rcases mem_append.mp hspan with hspan | hspan
    · exact hsound.inside span hspan
    · rw [mem_singleton.mp hspan]
      exact ⟨hfirst, htime⟩

/-- What a tracker holds between pushes: its reported spans are sound, the stretch at hand starts
after all of them, and its pictures were taken since the first one. -/
structure Inv (first latest : T) (tracker : StillTracker T) : Prop where
  forward : ∀ start time, tracker.long start time = true → start ≤ time
  sound : Sound tracker.long first latest tracker.spans
  candidate : ∀ start, tracker.stillFrom = some start →
    first ≤ start ∧ ∀ span ∈ tracker.spans, span.stop ≤ start
  clock : ∀ last, tracker.lastTime = some last → last ≤ latest
  pictures : ∀ frame ∈ tracker.samples, first ≤ frame.time ∧ frame.time ≤ latest

omit [LinearOrder T] in
/-- Closing reports the stretch at hand or nothing. -/
theorem close_spans (tracker : StillTracker T) (time : T) :
    (tracker.close time).spans = tracker.spans ∨
      ∃ start, tracker.stillFrom = some start ∧ tracker.long start time = true ∧
        (tracker.close time).spans = tracker.spans ++ [⟨start, time⟩] := by
  rw [close]
  split
  · rename_i start hstart
    obtain ⟨hfrom, hlong⟩ := filter_eq_some_iff.mp hstart
    rw [Bool.and_eq_true] at hlong
    exact Or.inr ⟨start, hfrom, hlong.2, rfl⟩
  · exact Or.inl rfl

omit [LinearOrder T] in
/-- Closing changes nothing but the reported spans. -/
theorem close_eq (tracker : StillTracker T) (time : T) :
    tracker.close time = { tracker with spans := (tracker.close time).spans } := by
  rw [close]
  split <;> rfl

/-- Closing keeps the reported spans sound. -/
theorem Inv.close_sound (hinv : tracker.Inv first latest) (htime : time ≤ latest) :
    Sound tracker.long first latest (tracker.close time).spans := by
  rcases tracker.close_spans time with hspans | ⟨start, hfrom, hlong, hspans⟩
  · rw [hspans]
    exact hinv.sound
  · obtain ⟨hfirst, hafter⟩ := hinv.candidate start hfrom
    rw [hspans]
    exact hinv.sound.append hfirst hafter hlong htime

/-- A cleared tracker keeps its invariant with whatever sound spans it has. -/
theorem inv_clear (hforward : ∀ start time, tracker.long start time = true → start ≤ time)
    (hsound : Sound tracker.long first latest tracker.spans) : tracker.clear.Inv first latest :=
  ⟨hforward, hsound, fun _ hnone ↦ (nomatch hnone), fun _ hnone ↦ (nomatch hnone),
    fun _ hframe ↦ absurd hframe not_mem_nil⟩

/-- Finishing keeps the invariant up to the time of the end. -/
theorem Inv.finish (hinv : tracker.Inv first latest) (htime : time ≤ latest) :
    (tracker.finish time).Inv first latest := by
  have hsound := hinv.close_sound htime
  have hsame : (tracker.close time).long = tracker.long := by rw [close_eq]
  exact inv_clear (hsame ▸ hinv.forward) (hsame.symm ▸ hsound)

/-- A change of size keeps the invariant. -/
theorem Inv.resize (hinv : tracker.Inv first latest) (luma : List UInt8) :
    (tracker.resize luma).Inv first latest := by
  rw [StillTracker.resize]
  split_ifs
  · cases hlast : tracker.lastTime with
    | none => exact inv_clear hinv.forward hinv.sound
    | some last => exact hinv.finish (hinv.clock last hlast)
  · exact hinv

variable {frame : Frame T} {instant : T} {samples : List (Frame T)}

/-- Taking a picture in keeps the invariant up to its time. -/
theorem Inv.accept (hinv : tracker.Inv first latest) (hfirst : first ≤ frame.time)
    (hlate : latest ≤ frame.time) : (tracker.accept frame).Inv first frame.time := by
  refine ⟨hinv.forward, hinv.sound.later hlate, ?_, ?_, ?_⟩
  · intro start hstart
    cases hstart
    cases hfrom : tracker.stillFrom with
    | none =>
      rw [getD_none]
      exact ⟨hfirst, fun span hspan ↦ ((hinv.sound.inside span hspan).2).trans hlate⟩
    | some start =>
      rw [getD_some]
      exact hinv.candidate start hfrom
  · intro last hlast
    exact (some.inj hlast).ge
  · intro other hother
    rcases mem_append.mp hother with hother | hother
    · exact ⟨(hinv.pictures other hother).1, (hinv.pictures other hother).2.trans hlate⟩
    · rw [mem_singleton.mp hother]
      exact ⟨hfirst, le_rfl⟩

/-- Qualifying moves the beginning of the stretch at hand forward only. -/
theorem Inv.qualify (hinv : tracker.Inv first latest) (w : Window T) :
    (tracker.qualify w).Inv first latest := by
  rw [StillTracker.qualify]
  split
  · rename_i matched _ _ _ _
    refine ⟨hinv.forward, hinv.sound, ?_, hinv.clock, hinv.pictures⟩
    intro start hstart
    obtain ⟨old, hold, rfl⟩ := map_eq_some_iff.mp hstart
    obtain ⟨hfirst, hafter⟩ := hinv.candidate old hold
    exact ⟨hfirst.trans (le_max_left _ _), fun span hspan ↦
      (hafter span hspan).trans (le_max_left _ _)⟩
  · exact hinv

/-! ### Transitions -/

/-- A picture that left the old median before an instant. -/
def EarlyChange (w : Window T) (instant : T) : Prop :=
  (∃ frame ∈ w.middles, frame.time < instant ∧ sameLuma w.before frame.luma = false) ∨
    ((∀ frame ∈ w.middles, sameLuma w.before frame.luma = true) ∧ w.f3.time < instant)

/-- Pictures that agree with the new median from before an instant on. -/
def EarlySettled (w : Window T) (instant : T) : Prop :=
  w.f3.time < instant ∨
    (sameLuma w.after w.f2.luma = true ∧
      (w.f2.time < instant ∨ (sameLuma w.after w.f1.luma = true ∧ w.f1.time < instant)))

variable {w : Window T}

/-- A transition found before an instant was found in a picture before it. -/
theorem earlyChange_of_lt (hlt : w.changedAt < instant) : EarlyChange w instant := by
  rw [Window.changedAt] at hlt
  split at hlt
  · rename_i frame hfound
    have hleft := find?_some hfound
    rw [Bool.not_eq_true'] at hleft
    exact Or.inl ⟨frame, mem_of_find?_eq_some hfound, hlt, hleft⟩
  · rename_i hnone
    refine Or.inr ⟨fun frame hframe ↦ ?_, hlt⟩
    have hsame := find?_eq_none.mp hnone frame hframe
    simpa using hsame

/-- A median that settled before an instant settled in pictures before it. -/
theorem earlySettled_of_lt (hlt : w.settled < instant) : EarlySettled w instant := by
  rw [Window.settled] at hlt
  split_ifs at hlt with hsecond hfirst
  · exact Or.inr ⟨hsecond, Or.inr ⟨hfirst, hlt⟩⟩
  · exact Or.inr ⟨hsecond, Or.inl hlt⟩
  · exact Or.inl hlt

/-- The six pictures a push compares, if the sizes agree and there are so many. -/
def nextWindow (tracker : StillTracker T) (frame : Frame T) : Option (Window T) :=
  if tracker.resized frame.luma then none else Window.ofSamples (tracker.samples ++ [frame])

/-- The next picture completes six whose medians differ, and both the first picture that left the
old median and the first that agrees with the new one are from before the end of a reported
span. -/
def Backdates (tracker : StillTracker T) (frame : Frame T) : Prop :=
  ∃ w, tracker.nextWindow frame = some w ∧ sameLuma w.before w.after = false ∧
    ∃ span ∈ tracker.spans, EarlyChange w span.stop ∧ EarlySettled w span.stop

omit [LinearOrder T] in
/-- The pictures of a window are among the samples. -/
theorem mem_of_ofSamples (hwindow : Window.ofSamples samples = some w) :
    w.f1 ∈ samples ∧ w.f2 ∈ samples ∧ w.f3 ∈ samples ∧ w.f4 ∈ samples := by
  rw [Window.ofSamples.eq_def] at hwindow
  split at hwindow
  · cases hwindow
    simp
  · cases hwindow

omit [LinearOrder T] in
/-- A transition is at one of the pictures. -/
theorem changedAt_mem (hwindow : Window.ofSamples samples = some w) :
    ∃ frame ∈ samples, frame.time = w.changedAt := by
  obtain ⟨h1, h2, h3, h4⟩ := mem_of_ofSamples hwindow
  rw [Window.changedAt]
  split
  · rename_i frame hfound
    refine ⟨frame, ?_, rfl⟩
    have hmem := mem_of_find?_eq_some hfound
    simp only [Window.middles, mem_cons, not_mem_nil, or_false] at hmem
    rcases hmem with rfl | rfl | rfl | rfl
    · exact h1
    · exact h2
    · exact h3
    · exact h4
  · exact ⟨w.f3, h3, rfl⟩

/-- Comparing keeps the invariant unless a transition begins before a reported span ended. -/
theorem Inv.compare (hinv : tracker.Inv first latest)
    (hwindow : Window.ofSamples tracker.samples = some w)
    (hsteady : sameLuma w.before w.after = false → ∀ span ∈ tracker.spans,
      span.stop ≤ max w.changedAt w.settled) : (tracker.compare w).Inv first latest := by
  obtain ⟨frame, hframe, hchanged⟩ := changedAt_mem hwindow
  obtain ⟨hfrom, hto⟩ := hinv.pictures frame hframe
  rw [hchanged] at hfrom hto
  rw [StillTracker.compare]
  by_cases hsame : sameLuma w.before w.after = true
  · rw [if_pos hsame]
    exact ⟨hinv.forward, hinv.sound, hinv.candidate, hinv.clock, hinv.pictures⟩
  · have hqualified := hinv.qualify w
    have hspans : (tracker.qualify w).spans = tracker.spans := by
      rw [StillTracker.qualify]
      split <;> rfl
    rw [if_neg hsame, close_eq]
    refine ⟨hqualified.forward, hqualified.close_sound hto, ?_, hqualified.clock,
      hqualified.pictures⟩
    intro start hstart
    cases hstart
    refine ⟨hfrom.trans (le_max_left _ _), ?_⟩
    show ∀ span ∈ ((tracker.qualify w).close w.changedAt).spans, _
    rcases (tracker.qualify w).close_spans w.changedAt with hsame' | ⟨old, hold, hlong, hclosed⟩
    · rw [hsame', hspans]
      exact hsteady (Bool.not_eq_true _ ▸ hsame)
    · intro span hspan
      rw [hclosed] at hspan
      refine le_trans ?_ (le_max_left _ _)
      rcases mem_append.mp hspan with hspan | hspan
      · have hbefore := (hqualified.candidate old hold).2 span hspan
        exact hbefore.trans (hqualified.forward old w.changedAt hlong)
      · rw [mem_singleton.mp hspan]

/-- A push that does not backdate keeps the invariant up to the time of its picture. -/
theorem Inv.push (hinv : tracker.Inv first latest) (hfirst : first ≤ frame.time)
    (hlate : latest ≤ frame.time) (hsteady : ¬tracker.Backdates frame) :
    (tracker.push frame).Inv first frame.time := by
  have hadmitted := (hinv.resize frame.luma).accept hfirst hlate
  rw [StillTracker.push, slide]
  split
  · rename_i w hwindow
    have hcompared := hadmitted.compare hwindow fun hdiffer span hspan ↦ by
      by_cases hresized : tracker.resized frame.luma = true
      · have hfew : ((tracker.resize frame.luma).accept frame).samples = [frame] := by
          rw [StillTracker.accept, StillTracker.resize, if_pos hresized]
          cases tracker.lastTime <;> rfl
        rw [hfew] at hwindow
        cases hwindow
      · have hsame : tracker.resize frame.luma = tracker := if_neg hresized
        rw [hsame] at hwindow hspan
        by_contra hearly
        obtain ⟨hchanged, hsettled⟩ := max_lt_iff.mp (not_le.mp hearly)
        exact hsteady ⟨w, by rw [nextWindow, if_neg hresized]; exact hwindow, hdiffer, span, hspan,
          earlyChange_of_lt hchanged, earlySettled_of_lt hsettled⟩
    exact ⟨hcompared.forward, hcompared.sound, hcompared.candidate, hcompared.clock,
      fun other hother ↦ hadmitted.pictures other (mem_of_mem_tail hother)⟩
  · exact hadmitted

end StillTracker

/-! ### Feeds -/

/-- Pictures with nondecreasing times and the time of the end. -/
structure Feed (T : Type) [LinearOrder T] where
  long : T → T → Bool
  frames : List (Frame T)
  finishAt : T
  forward : ∀ start time, long start time = true → start ≤ time
  sorted : frames.Pairwise (fun a b ↦ a.time ≤ b.time)
  ends : ∀ frame ∈ frames, frame.time ≤ finishAt

variable [LinearOrder T]

namespace Feed

/-- The time of the first picture. -/
def first (feed : Feed T) : T :=
  (feed.frames.head?.map Frame.time).getD feed.finishAt

/-- The spans that are reported when the feed has ended. -/
def reported (feed : Feed T) : List (Span T) :=
  (((StillTracker.new feed.long).pushAll feed.frames).finish feed.finishAt).spans

end Feed

/-- A feed of which no picture backdates. -/
structure SteadyFeed (T : Type) [LinearOrder T] extends Feed T where
  steady : ∀ earlier frame later, frames = earlier ++ frame :: later →
    ¬((StillTracker.new long).pushAll earlier).Backdates frame

namespace StillTracker

variable {tracker : StillTracker T} {long : T → T → Bool} {first latest time : T}

/-- A push does not change the test of the length. -/
theorem push_long (tracker : StillTracker T) (frame : Frame T) :
    (tracker.push frame).long = tracker.long := by
  have hclose : ∀ (t : StillTracker T) (time : T), (t.close time).long = t.long :=
    fun t time ↦ by rw [close_eq]
  have hresize : (tracker.resize frame.luma).long = tracker.long := by
    rw [resize]
    split_ifs
    · split
      · exact hclose _ _
      · rfl
    · rfl
  have hqualify : ∀ (t : StillTracker T) (w : Window T), (t.qualify w).long = t.long := by
    intro t w
    rw [qualify]
    split <;> rfl
  rw [push, slide]
  split
  · rw [compare]
    split_ifs
    · exact hresize
    · exact ((hclose _ _).trans (hqualify _ _)).trans hresize
  · exact hresize

/-- Pushes do not change the test of the length. -/
theorem pushAll_long (tracker : StillTracker T) (frames : List (Frame T)) :
    (tracker.pushAll frames).long = tracker.long := by
  induction frames generalizing tracker with
  | nil => rfl
  | cons frame rest ih => exact (ih (tracker.push frame)).trans (tracker.push_long frame)

/-- A later instant bounds what the tracker holds. -/
theorem Inv.later (hinv : tracker.Inv first latest) (hlater : latest ≤ time) :
    tracker.Inv first time :=
  ⟨hinv.forward, hinv.sound.later hlater, hinv.candidate,
    fun last hlast ↦ (hinv.clock last hlast).trans hlater, fun frame hframe ↦
      ⟨(hinv.pictures frame hframe).1, (hinv.pictures frame hframe).2.trans hlater⟩⟩

/-- A new tracker holds nothing. -/
theorem inv_new (hforward : ∀ start time, long start time = true → start ≤ time) :
    (new long).Inv first latest := by
  have hsound : Sound long first latest [] :=
    ⟨fun _ hspan ↦ absurd hspan not_mem_nil, List.Pairwise.nil,
      fun _ hspan ↦ absurd hspan not_mem_nil⟩
  have hclear : (new long).clear.Inv first latest := inv_clear hforward hsound
  exact hclear

/-- Pushes that do not backdate, with nondecreasing times, keep the invariant. -/
theorem Inv.pushAll {frames : List (Frame T)} (hinv : tracker.Inv first latest)
    (hfirst : first ≤ latest) (hsorted : frames.Pairwise (fun a b ↦ a.time ≤ b.time))
    (hlate : ∀ frame ∈ frames, latest ≤ frame.time) (hbound : ∀ frame ∈ frames, frame.time ≤ time)
    (htime : latest ≤ time)
    (hsteady : ∀ earlier frame later, frames = earlier ++ frame :: later →
      ¬(tracker.pushAll earlier).Backdates frame) :
    (tracker.pushAll frames).Inv first time := by
  induction frames generalizing tracker latest with
  | nil => exact hinv.later htime
  | cons frame rest ih =>
    obtain ⟨hhead, htail⟩ := pairwise_cons.mp hsorted
    have hframe := hlate frame mem_cons_self
    have hpushed := hinv.push (hfirst.trans hframe) hframe (hsteady [] frame rest rfl)
    refine ih hpushed (hfirst.trans hframe) htail hhead
      (fun next hnext ↦ hbound next (mem_cons_of_mem _ hnext))
      (hbound frame mem_cons_self) fun earlier next later hrest ↦ ?_
    exact hsteady (frame :: earlier) next later (by rw [hrest, cons_append])

end StillTracker

open StillTracker

/-- The first picture of a feed is not after any other, nor after the end. -/
theorem Feed.first_le (feed : Feed T) :
    feed.first ≤ feed.finishAt ∧ ∀ frame ∈ feed.frames, feed.first ≤ frame.time := by
  have hsorted := feed.sorted
  have hends := feed.ends
  rw [Feed.first]
  cases hframes : feed.frames with
  | nil => exact ⟨le_rfl, fun _ hframe ↦ absurd hframe not_mem_nil⟩
  | cons head rest =>
    rw [hframes] at hsorted hends
    refine ⟨hends head mem_cons_self, fun frame hframe ↦ ?_⟩
    rcases mem_cons.mp hframe with rfl | hframe
    · exact le_rfl
    · exact (pairwise_cons.mp hsorted).1 frame hframe

/-- A steady feed is reported soundly after any number of pictures and at its end: the spans are in
time order, do not overlap, are long enough and lie between the first picture and the end. -/
theorem spans_sound (feed : SteadyFeed T) :
    (∀ pushed later, feed.frames = pushed ++ later →
      Sound feed.long feed.first feed.finishAt
        ((StillTracker.new feed.long).pushAll pushed).spans) ∧
      Sound feed.long feed.first feed.finishAt feed.reported := by
  obtain ⟨hfirst, hafter⟩ := feed.first_le
  have hinv : ∀ pushed later, feed.frames = pushed ++ later →
      ((StillTracker.new feed.long).pushAll pushed).Inv feed.first feed.finishAt := by
    intro pushed later hframes
    have hsub : ∀ frame ∈ pushed, frame ∈ feed.frames := fun frame hframe ↦ by
      rw [hframes]
      exact mem_append_left _ hframe
    have hsorted := feed.sorted
    rw [hframes] at hsorted
    refine (StillTracker.inv_new feed.forward).pushAll le_rfl (pairwise_append.mp hsorted).1
      (fun frame hframe ↦ hafter frame (hsub frame hframe))
      (fun frame hframe ↦ feed.ends frame (hsub frame hframe)) hfirst ?_
    intro earlier frame rest hpushed
    refine feed.steady earlier frame (rest ++ later) ?_
    rw [hframes, hpushed, append_assoc, cons_append]
  have hlong : ∀ pushed, ((StillTracker.new feed.long).pushAll pushed).long =
      feed.long := fun pushed ↦ pushAll_long _ pushed
  refine ⟨fun pushed later hframes ↦ ?_, ?_⟩
  · have hsound := (hinv pushed later hframes).sound
    rwa [hlong] at hsound
  · have hsound := (hinv feed.frames [] (append_nil _).symm).close_sound le_rfl
    rwa [hlong] at hsound

/-- Eight pictures of four pixels in which a second transition is found before the first. -/
def twice : Feed ℚ where
  long := atLeast .exact 1
  frames := [⟨0, [100, 100, 100, 100]⟩, ⟨1, [100, 100, 112, 112]⟩, ⟨2, [100, 100, 88, 88]⟩,
    ⟨3, [200, 100, 112, 112]⟩, ⟨4, [200, 0, 112, 112]⟩, ⟨5, [200, 0, 112, 112]⟩,
    ⟨6, [200, 0, 112, 112]⟩, ⟨7, [200, 0, 112, 112]⟩]
  finishAt := 8
  forward _ _ := le_of_atLeast one_pos
  sorted := by decide
  ends := by decide

/-- The second between three and four is reported in two spans. -/
theorem reported_twice :
    twice.reported = [⟨0, 4⟩, ⟨3, 8⟩] ∧
      ¬Sound twice.long twice.first twice.finishAt twice.reported := by
  have hreported : twice.reported = [⟨0, 4⟩, ⟨3, 8⟩] := by decide +kernel
  refine ⟨hreported, fun hsound ↦ ?_⟩
  have hapart := hsound.apart
  rw [hreported] at hapart
  have horder := (pairwise_cons.mp hapart).1 ⟨3, 8⟩ mem_cons_self
  exact absurd horder (by decide)

end ObsMcp.Monitor
