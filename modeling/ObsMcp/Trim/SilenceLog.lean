import ObsMcp.Trim.Evidence
import Mathlib.Tactic.NormNum

/-!
# What audio evidence is accepted

A text is a silence log when its lines are frames of silence fields that tell silences of the
recording: the frames are numbered upwards and complete, their starts and ends alternate, and the
silences, clamped to the recording, run forwards, in order and apart. `accepted_iff_silence_log`
says that the parser accepts exactly the silence logs.

The parser learns that a frame is over only at the next frame or at the end, so the step lemmas
`Reached.of_header` and `Reached.of_field` are about the lines read so far: the frames before the
last have had their effect, and the last one is held with its fields. `tally` is that effect, mark
by mark.
-/

namespace ObsMcp.Trim

open Foundations List Option

variable {K : Type} [Field K] [LinearOrder K]

/-! ### Silence logs -/

/-- What one line of a log says. -/
inductive LogLine (K : Type)
  | header (number : ℕ)
  | field (name : SilenceField) (value : K)

/-- The word of a silence field. -/
def SilenceField.word : SilenceField → List Char
  | .start => "start".toList
  | .stop => "end".toList
  | .duration => "duration".toList

/-- The key of a silence field in the log. -/
def SilenceField.key (name : SilenceField) : List Char :=
  "lavfi.silence_".toList ++ name.word

/-- A well-formed frame header: a number, a presentation timestamp or `NOPTS`, and its time. -/
def IsHeader (readSeconds : List Char → Option K) (line : List Char) (number : ℕ) : Prop :=
  ∃ rest frameRaw behind ptsRaw timeRaw, line = "frame:".toList ++ rest ∧
    Text.splitOnce "pts:".toList (rest.dropWhile Text.isWhitespace) = some (frameRaw, behind) ∧
    Text.splitOnce "pts_time:".toList behind = some (ptsRaw, timeRaw) ∧
    Text.readU64 (Text.trimMatches Text.isWhitespace frameRaw) = some number ∧
    number ≤ 9007199254740991 ∧
    (Text.trimMatches Text.isWhitespace ptsRaw = "NOPTS".toList ∨
      (Text.readI64 (Text.trimMatches Text.isWhitespace ptsRaw)).isSome) ∧
    (readSeconds (Text.trimMatches Text.isWhitespace timeRaw)).isSome

/-- A silence field whose value is at most a tenth of a second outside the recording. -/
def IsField (readSeconds : List Char → Option K) (duration : K) (line : List Char)
    (name : SilenceField) (value : K) : Prop :=
  ∃ raw, Text.splitOnce ['='] line = some (name.key, raw) ∧ readSeconds raw = some value ∧
    -(1 / 10) ≤ value ∧ value ≤ duration + 1 / 10

/-- A line is spelled as the log line it is read as. -/
def Spells (readSeconds : List Char → Option K) (duration : K) (line : List Char) :
    LogLine K → Prop
  | .header number => IsHeader readSeconds line number
  | .field name value => IsField readSeconds duration line name value

/-- A frame header and the fields that follow it. -/
structure LogFrame (K : Type) where
  number : ℕ
  fields : List (SilenceField × K)

namespace LogFrame

/-- The lines of a frame. -/
def lines (frame : LogFrame K) : List (LogLine K) :=
  .header frame.number :: frame.fields.map fun field ↦ .field field.1 field.2

/-- The value of a field of a frame. -/
def value (frame : LogFrame K) (name : SilenceField) : Option K :=
  frame.fields.lookup name

/-- A frame with a field, none of them twice, with an end exactly when it has a duration, which is
not negative. -/
structure Complete (frame : LogFrame K) : Prop where
  nonempty : frame.fields ≠ []
  once : (frame.fields.map Prod.fst).Nodup
  paired : (frame.value .stop).isSome ↔ (frame.value .duration).isSome
  nonneg : ∀ length, frame.value .duration = some length → 0 ≤ length

end LogFrame

/-- A silence starts or ends. -/
inductive Mark (K : Type)
  | start (time : K)
  | stop (time : K)

/-- The start of a frame, then its end. -/
def LogFrame.marks (frame : LogFrame K) : List (Mark K) :=
  (frame.value .start).toList.map .start ++ (frame.value .stop).toList.map .stop

/-- Silences as they are told: the ones that end, and the last if it does not. -/
structure Silences (K : Type) where
  closed : List (Span K)
  opened : Option K

namespace Silences

/-- Starts and ends in turn, beginning with a start. -/
def marks (silences : Silences K) : List (Mark K) :=
  silences.closed.flatMap (fun span ↦ [.start span.start, .stop span.stop]) ++
    silences.opened.toList.map .start

/-- The silences inside the recording; one that does not end lasts until the duration. -/
def clamped (duration : K) (silences : Silences K) : List (Span K) :=
  silences.closed.map (fun span ↦ ⟨max span.start 0, min span.stop duration⟩) ++
    silences.opened.toList.map fun start ↦ ⟨max start 0, duration⟩

end Silences

/-- Lines that are frames, and the silences that the frames tell. -/
structure Tells (readSeconds : List Char → Option K) (duration : K) (lines : List (List Char))
    (frames : List (LogFrame K)) (silences : Silences K) : Prop where
  spelled : List.Forall₂ (Spells readSeconds duration) lines (frames.flatMap LogFrame.lines)
  increasing : (frames.map LogFrame.number).Pairwise (· < ·)
  complete : ∀ frame ∈ frames, frame.Complete
  alternate : frames.flatMap LogFrame.marks = silences.marks
  forward : ∀ span ∈ silences.closed, span.start ≤ span.stop
  ordered : Span.Ordered (silences.clamped duration)

/-- A complete, unambiguous silence log. -/
def IsSilenceLog (readSeconds : List Char → Option K) (duration : K) (text : List Char) : Prop :=
  (text = [] ∨ text.getLast? = some '\n') ∧
    ∃ frames silences, Tells readSeconds duration (Text.lines text) frames silences

/-- The lines that do not begin a frame. -/
def fieldLines (lines : List (List Char)) : ℕ :=
  lines.countP fun line ↦ (Text.afterStart "frame:".toList line).isNone

/-! ### Reading lines -/

variable {readSeconds : List Char → Option K} {duration : K} {state next : EvidenceState K}
  {lines : List (List Char)} {line : List Char}

variable {rest : List Char} {value : K} {silences : Silences K} {spans : List (Span K)}
  {frame : LogFrame K}

theorem afterStart_eq_some_iff {start cs : List Char} :
    Text.afterStart start cs = some rest ↔ cs = start ++ rest := by
  rw [Text.afterStart]
  constructor
  · intro hafter
    split_ifs at hafter with hstart
    obtain ⟨behind, rfl⟩ := isPrefixOf_iff_prefix.mp hstart
    rw [← some.inj hafter, drop_left]
  · rintro rfl
    rw [if_pos ( isPrefixOf_iff_prefix.mpr (prefix_append _ _)), drop_left]

variable {number : ℕ} {name : SilenceField}

omit [Field K] [LinearOrder K] in
/-- A frame line is accepted when it is a header with a later number. -/
theorem frameNumber_eq_some_iff {prior : Option ℕ} :
    frameNumber readSeconds prior rest = some number ↔
      IsHeader readSeconds ("frame:".toList ++ rest) number ∧ prior.all (· < number) := by
  simp only [frameNumber, IsHeader, bind_eq_bind, bind_eq_some_iff, Prod.exists]
  constructor
  · rintro ⟨frameRaw, behind, hframe, ptsRaw, timeRaw, hpts, next, hnext, time, htime, hif⟩
    split_ifs at hif with hgood
    cases hif
    exact ⟨⟨rest, frameRaw, behind, ptsRaw, timeRaw, rfl, hframe, hpts, hnext, hgood.1, hgood.2.2,
      isSome_of_eq_some htime⟩, hgood.2.1⟩
  · rintro ⟨⟨rest', frameRaw, behind, ptsRaw, timeRaw, hrest, hframe, hpts, hnext, hsmall, hstamp,
      htime⟩, hprior⟩
    obtain rfl := append_cancel_left hrest
    obtain ⟨time, htime⟩ := isSome_iff_exists.mp htime
    exact ⟨frameRaw, behind, hframe, ptsRaw, timeRaw, hpts, number, hnext, time, htime,
      if_pos ⟨hsmall, hprior, hstamp⟩⟩

theorem silenceField_eq_some_iff {key : List Char} :
    silenceField key = some name ↔ key = name.key := by
  have hword (rest : List Char) :
      (if rest = "start".toList then some SilenceField.start
        else if rest = "end".toList then some .stop
        else if rest = "duration".toList then some .duration
        else none) = some name ↔ rest = name.word := by
    constructor
    · intro hrest
      split_ifs at hrest with hstart hstop hduration
      all_goals
        cases hrest
        assumption
    · rintro rfl
      cases name <;> decide
  unfold silenceField
  split
  next hnone =>
    constructor
    · intro hsome
      cases hsome
    · intro hkey
      have hsome := afterStart_eq_some_iff.mpr hkey
      cases hnone.symm.trans hsome
  next rest hrest =>
    have hfront := afterStart_eq_some_iff.mp hrest
    refine (hword rest).trans ⟨fun hrest ↦ ?_, fun hkey ↦ ?_⟩
    · exact hfront.trans (congrArg _ hrest)
    · exact append_cancel_left (hfront.symm.trans hkey)

omit [Field K] [LinearOrder K] in
theorem IsHeader.afterStart (hheader : IsHeader readSeconds line number) :
    ∃ rest, Text.afterStart "frame:".toList line = some rest := by
  obtain ⟨rest, _, _, _, _, hline, -⟩ := hheader
  exact ⟨rest, afterStart_eq_some_iff.mpr hline⟩

theorem IsField.afterStart (hfield : IsField readSeconds duration line name value) :
    Text.afterStart "frame:".toList line = none := by
  obtain ⟨raw, hsplit, -⟩ := hfield
  have hline : line = 'l' :: _ := Text.splitOnce_eq_some hsplit
  refine eq_none_iff_forall_ne_some.mpr fun rest hafter ↦ ?_
  have hframe : line = 'f' :: _ := afterStart_eq_some_iff.mp hafter
  have hhead := head_eq_of_cons_eq (hline.symm.trans hframe)
  exact absurd hhead (by decide)

/-- What one line of the log does, when it is accepted. -/
theorem evidenceLine_iff :
    evidenceLine readSeconds duration state line = .ok next ↔
      (∃ number mid, IsHeader readSeconds line number ∧ finishFrame duration state = .ok mid ∧
        mid.frame.all (· < number) ∧
        next = { mid with frame := some number, fields := fun _ ↦ none }) ∨
      ∃ name value, IsField readSeconds duration line name value ∧ state.frame.isSome ∧
        (state.fields name).isNone ∧ state.events + 1 ≤ AUDIO_EVIDENCE_EVENTS ∧
        next = { state with
          events := state.events + 1
          fields := fun other ↦ if other = name then some value else state.fields other } := by
  rw [evidenceLine]
  split
  next rest hrest =>
    have hline := afterStart_eq_some_iff.mp hrest
    have hnot (name : SilenceField) (value : K) : ¬IsField readSeconds duration line name value :=
      fun hfield ↦ some_ne_none rest (hrest.symm.trans hfield.afterStart)
    simp only [frameLine, bind_eq_ok_iff, hnot, false_and, exists_false, or_false]
    constructor
    · rintro ⟨mid, hmid, hnumber⟩
      split at hnumber
      next => cases hnumber
      next number hnext =>
        obtain ⟨hheader, hprior⟩ := frameNumber_eq_some_iff.mp hnext
        exact ⟨number, mid, hline ▸ hheader, hmid, hprior, (Except.ok.inj hnumber).symm⟩
    · rintro ⟨number, mid, hheader, hmid, hprior, rfl⟩
      refine ⟨mid, hmid, ?_⟩
      rw [frameNumber_eq_some_iff.mpr ⟨hline ▸ hheader, hprior⟩]
  next hnone =>
    have hnot (number : ℕ) : ¬IsHeader readSeconds line number := fun hheader ↦ by
      obtain ⟨rest, hrest⟩ := hheader.afterStart
      exact some_ne_none rest (hrest.symm.trans hnone)
    simp only [hnot, false_and, exists_false, false_or]
    rw [fieldLine]
    constructor
    · intro hfield
      split at hfield
      next => cases hfield
      next key raw hsplit =>
        split at hfield
        next => cases hfield
        next name hname =>
          split at hfield
          next => cases hfield
          next value hvalue =>
            obtain ⟨hkey, hopen⟩ := filter_eq_some_iff.mp hname
            obtain ⟨hread, hrange⟩ := filter_eq_some_iff.mp hvalue
            obtain ⟨hframe, hfresh, hevents⟩ := of_decide_eq_true hopen
            obtain ⟨hlow, hhigh⟩ := of_decide_eq_true hrange
            rw [silenceField_eq_some_iff.mp hkey] at hsplit
            exact ⟨name, value, ⟨raw, hsplit, hread, hlow, hhigh⟩, hframe, hfresh, hevents,
              (Except.ok.inj hfield).symm⟩
    · rintro ⟨name, value, ⟨raw, hsplit, hread, hlow, hhigh⟩, hframe, hfresh, hevents, rfl⟩
      have hname : (silenceField name.key).filter (fun field ↦
          state.frame.isSome ∧ (state.fields field).isNone ∧
            state.events + 1 ≤ AUDIO_EVIDENCE_EVENTS) = some name :=
        filter_eq_some_iff.mpr
          ⟨silenceField_eq_some_iff.mpr rfl, decide_eq_true ⟨hframe, hfresh, hevents⟩⟩
      have hvalue : (readSeconds raw).filter (fun value ↦
          -(1 / 10) ≤ value ∧ value ≤ duration + 1 / 10) = some value :=
        filter_eq_some_iff.mpr ⟨hread, decide_eq_true ⟨hlow, hhigh⟩⟩
      rw [hsplit]
      dsimp only
      rw [hname]
      dsimp only
      rw [hvalue]

/-! ### What the marks add up to -/

/-- The effect of a mark on the silences that are closed and the one that is open. -/
def tally (duration : K) : List (Span K) × Option K → Mark K → Option (List (Span K) × Option K)
  | (spans, none), .start time => some (spans, some (max time 0))
  | (spans, some since), .stop time =>
    if since ≤ time then some (spans ++ [⟨since, min time duration⟩], none) else none
  | (_, some _), .start _ => none
  | (_, none), .stop _ => none

/-- A closed silence inside the recording. -/
def clamp (duration : K) (span : Span K) : Span K :=
  ⟨max span.start 0, min span.stop duration⟩

/-- Silences that end no earlier than they start inside the recording are added up. -/
theorem tally_marks (duration : K) (front : List (Span K))
    (hforward : ∀ span ∈ silences.closed, max span.start 0 ≤ span.stop) :
    silences.marks.foldlM (tally duration) (front, none) =
      some (front ++ silences.closed.map (clamp duration),
        silences.opened.map fun start ↦ max start 0) := by
  obtain ⟨closed, opened⟩ := silences
  induction closed generalizing front with
  | nil =>
    cases opened with
    | none => simp [Silences.marks]
    | some start => simp [Silences.marks, tally]
  | cons span closed ih =>
    obtain ⟨hspan, hrest⟩ := forall_mem_cons.mp hforward
    have hfold := ih (front ++ [clamp duration span]) hrest
    have hmarks : (Silences.mk (span :: closed) opened).marks =
        .start span.start :: .stop span.stop :: (Silences.mk closed opened).marks := rfl
    rw [hmarks]
    simp only [foldlM_cons, tally, if_pos hspan, bind_eq_bind, bind_some]
    refine hfold.trans ?_
    rw [append_assoc]
    rfl

/-- Marks that can be added up are those of silences. -/
theorem silences_of_tally {marks : List (Mark K)} {front : List (Span K)} {start : Option K}
    (hfold : marks.foldlM (tally duration) (front, none) = some (spans, start)) :
    ∃ silences : Silences K, marks = silences.marks ∧
      (∀ span ∈ silences.closed, max span.start 0 ≤ span.stop) ∧
      spans = front ++ silences.closed.map (clamp duration) ∧
      start = silences.opened.map fun start ↦ max start 0 := by
  match marks with
  | [] =>
    cases hfold
    exact ⟨⟨[], none⟩, rfl, fun _ hspan ↦ absurd hspan not_mem_nil, by simp, rfl⟩
  | [.start time] =>
    cases hfold
    exact ⟨⟨[], some time⟩, rfl, fun _ hspan ↦ absurd hspan not_mem_nil, by simp, rfl⟩
  | .stop _ :: _ => cases hfold
  | .start _ :: .start _ :: _ => cases hfold
  | .start first :: .stop last :: marks =>
    simp only [foldlM_cons, tally, bind_eq_bind, bind_some] at hfold
    by_cases hforward : max first 0 ≤ last
    swap
    · rw [if_neg hforward] at hfold
      cases hfold
    rw [if_pos hforward] at hfold
    obtain ⟨⟨closed, opened⟩, rfl, hclosed, rfl, rfl⟩ := silences_of_tally hfold
    refine ⟨⟨⟨first, last⟩ :: closed, opened⟩, rfl,
      forall_mem_cons.mpr ⟨hforward, hclosed⟩, ?_, rfl⟩
    rw [append_assoc]
    rfl

omit [Field K] [LinearOrder K] in
theorem LogFrame.fields_eq_nil_iff : frame.fields = [] ↔ ∀ name, frame.value name = none := by
  constructor
  · intro hnil name
    rw [LogFrame.value, hnil, lookup_nil]
  · intro hnone
    by_contra hfields
    obtain ⟨⟨name, value⟩, rest, hcons⟩ := exists_cons_of_ne_nil hfields
    have hsome := hnone name
    rw [LogFrame.value, hcons, lookup_cons_self] at hsome
    cases hsome

/-- What the fields of a complete frame pass. -/
theorem complete_iff (honce : (frame.fields.map Prod.fst).Nodup) :
    frame.Complete ↔
      ¬(((frame.value .start).isNone ∧ (frame.value .stop).isNone ∧
          (frame.value .duration).isNone) ∨
        (frame.value .stop).isSome ≠ (frame.value .duration).isSome) ∧
      ¬(frame.value .duration).any (· < 0) = true := by
  have hnil : frame.fields = [] ↔ (frame.value .start).isNone ∧ (frame.value .stop).isNone ∧
      (frame.value .duration).isNone := by
    simp only [LogFrame.fields_eq_nil_iff, isNone_iff_eq_none]
    exact ⟨fun hnone ↦ ⟨hnone _, hnone _, hnone _⟩,
      by rintro ⟨hstart, hstop, hduration⟩ name; cases name <;> assumption⟩
  have hnonneg : ¬(frame.value .duration).any (· < 0) = true ↔
      ∀ length, frame.value .duration = some length → 0 ≤ length := by
    simp [Option.any_eq_true]
  rw [← hnil, hnonneg, not_or, not_not, Bool.eq_iff_iff]
  constructor
  · rintro ⟨hsome, -, hpaired, hlength⟩
    exact ⟨⟨hsome, hpaired⟩, hlength⟩
  · rintro ⟨⟨hsome, hpaired⟩, hlength⟩
    exact ⟨hsome, honce, hpaired, hlength⟩

/-- A frame is finished when it is complete and its marks can be added. -/
theorem finishAudioFrame_iff (hfields : state.fields = frame.value)
    (honce : (frame.fields.map Prod.fst).Nodup) :
    finishAudioFrame duration state = .ok next ↔ frame.Complete ∧ ∃ spans start,
      frame.marks.foldlM (tally duration) (state.spans, state.start) = some (spans, start) ∧
      next = { state with spans := spans, start := start } := by
  rw [complete_iff honce, finishAudioFrame, hfields, LogFrame.marks]
  dsimp only
  split_ifs with hincomplete hnegative hoverlap
  · exact iff_of_false (by simp) fun hright ↦ hright.1.1 hincomplete
  · exact iff_of_false (by simp) fun hright ↦ hright.1.2 hnegative
  · obtain ⟨time, htime⟩ := isSome_iff_exists.mp hoverlap.1
    obtain ⟨since, hsince⟩ := isSome_iff_exists.mp hoverlap.2
    simp [htime, hsince, tally]
  · refine Iff.trans ?_ (and_iff_right ⟨hincomplete, hnegative⟩).symm
    cases hstart : frame.value .start with
    | none =>
      cases hstop : frame.value .stop with
      | none => simp [eq_comm]
      | some time =>
        cases hopen : state.start with
        | none => simp [tally]
        | some since =>
          by_cases hforward : since ≤ time
          · simp [tally, hforward, eq_comm, Option.filter]
          · simp [tally, hforward, Option.filter]
    | some first =>
      cases hopen : state.start with
      | some since => exact absurd ⟨by simp [hstart], by simp [hopen]⟩ hoverlap
      | none =>
        cases hstop : frame.value .stop with
        | none => simp [tally, eq_comm]
        | some time =>
          by_cases hforward : max first 0 ≤ time
          · simp [tally, hforward, eq_comm, Option.filter]
          · simp [tally, hforward, Option.filter]

/-! ### What the loop has read -/

/-- The lines read so far: the frames before the last are complete and have had their effect, and
the last one is held with its fields. -/
structure Reached (readSeconds : List Char → Option K) (duration : K) (lines : List (List Char))
    (state : EvidenceState K) (done : List (LogFrame K)) (last : Option (LogFrame K)) : Prop where
  spelled : List.Forall₂ (Spells readSeconds duration) lines
    ((done ++ last.toList).flatMap LogFrame.lines)
  first : last = none → done = []
  increasing : ((done ++ last.toList).map LogFrame.number).Pairwise (· < ·)
  complete : ∀ frame ∈ done, frame.Complete
  once : ∀ frame, last = some frame → (frame.fields.map Prod.fst).Nodup
  tallied : (done.flatMap LogFrame.marks).foldlM (tally duration) ([], none) =
    some (state.spans, state.start)
  frame : state.frame = last.map LogFrame.number
  fields : state.fields = fun name ↦ last.bind (·.value name)
  events : state.events = fieldLines lines

variable {done : List (LogFrame K)} {last : Option (LogFrame K)}

/-- The state before the first line. -/
def EvidenceState.initial : EvidenceState K :=
  ⟨none, fun _ ↦ none, none, [], 0⟩

theorem reached_nil : Reached readSeconds duration [] .initial [] none where
  spelled := .nil
  first := fun _ ↦ rfl
  increasing := .nil
  complete := fun _ hframe ↦ absurd hframe not_mem_nil
  once := nofun
  tallied := rfl
  frame := rfl
  fields := rfl
  events := rfl

theorem eq_initial_of_reached (hreached : Reached readSeconds duration [] state done last) :
    state = .initial := by
  cases last with
  | some frame =>
    have hlength := hreached.spelled.length_eq
    simp [LogFrame.lines] at hlength
  | none =>
    obtain rfl := hreached.first rfl
    obtain ⟨hspans, hstart⟩ := Prod.mk.inj (some.inj hreached.tallied)
    calc
      state = ⟨state.frame, state.fields, state.start, state.spans, state.events⟩ := rfl
      _ = .initial := by
        rw [hreached.frame, hreached.fields, hreached.events, ← hspans, ← hstart]
        rfl

/-- Finishing the last frame completes the frames. -/
theorem finishFrame_iff (hreached : Reached readSeconds duration lines state done last) :
    finishFrame duration state = .ok next ↔
      (∀ frame ∈ done ++ last.toList, frame.Complete) ∧ ∃ spans start,
        ((done ++ last.toList).flatMap LogFrame.marks).foldlM (tally duration) ([], none) =
          some (spans, start) ∧
        next = { state with spans := spans, start := start } := by
  have hguard : finishFrame duration state =
      if last.isSome then finishAudioFrame duration state else .ok state := by
    rw [finishFrame, hreached.frame, isSome_map]
  rw [hguard]
  cases last with
  | none =>
    simp only [isSome_none, Bool.false_eq_true, if_false,
      toList_none, append_nil, hreached.tallied]
    constructor
    · intro hnext
      exact ⟨hreached.complete, state.spans, state.start, rfl, (Except.ok.inj hnext).symm⟩
    · rintro ⟨-, spans, start, heq, rfl⟩
      cases heq
      rfl
  | some frame =>
    have hfields : state.fields = frame.value := hreached.fields
    simp only [isSome_some, if_true, toList_some,
      finishAudioFrame_iff hfields (hreached.once frame rfl), flatMap_append,
      foldlM_append, hreached.tallied, flatMap_cons, flatMap_nil, append_nil,
      bind_eq_bind, bind_some, forall_mem_append, forall_mem_singleton]
    constructor
    · rintro ⟨hframe, hnext⟩
      exact ⟨⟨hreached.complete, hframe⟩, hnext⟩
    · rintro ⟨⟨-, hframe⟩, hnext⟩
      exact ⟨hframe, hnext⟩

theorem forall₂_concat {α β : Type} {R : α → β → Prop} {xs : List α} {ys : List β} {x : α} {y : β} :
    List.Forall₂ R (xs ++ [x]) (ys ++ [y]) ↔ List.Forall₂ R xs ys ∧ R x y := by
  rw [← forall₂_reverse_iff, reverse_concat, reverse_concat, forall₂_cons,
    forall₂_reverse_iff, and_comm]

theorem fieldLines_concat :
    fieldLines (lines ++ [line]) =
      fieldLines lines + if (Text.afterStart "frame:".toList line).isNone then 1 else 0 := by
  rw [fieldLines, fieldLines, countP_append, countP_singleton]

omit [Field K] [LinearOrder K] in
theorem LogFrame.value_concat (hfresh : frame.value name = none) :
    LogFrame.value ⟨frame.number, frame.fields ++ [(name, value)]⟩ =
      fun other ↦ if other = name then some value else frame.value other := by
  funext other
  rw [LogFrame.value, lookup_append]
  by_cases hother : other = name
  · subst hother
    rw [if_pos rfl, ← LogFrame.value, hfresh, none_or, lookup_cons_self]
  · simp [LogFrame.value, if_neg hother, lookup_cons, beq_false_of_ne hother]

omit [Field K] [LinearOrder K] in
theorem LogFrame.value_eq_none_iff :
    frame.value name = none ↔ name ∉ frame.fields.map Prod.fst := by
  simp [LogFrame.value, List.lookup_eq_none_iff, List.mem_map]
  grind

theorem pairwise_concat_iff {numbers : List ℕ} :
    (numbers ++ [number]).Pairwise (· < ·) ↔
      numbers.Pairwise (· < ·) ∧ numbers.getLast?.all (· < number) := by
  rcases eq_nil_or_concat numbers with rfl | ⟨front, prior, rfl⟩
  · simp
  · simp only [concat_eq_append, getLast?_concat, pairwise_append,
      pairwise_singleton, mem_singleton, mem_append, all_some,
      decide_eq_true_eq, true_and, forall_eq]
    constructor
    · rintro ⟨hfront, hnumber⟩
      exact ⟨hfront, hnumber prior (.inr rfl)⟩
    · rintro ⟨hfront, hprior⟩
      refine ⟨hfront, fun other hother ↦ ?_⟩
      rcases hother with hother | rfl
      · exact (hfront.2 other hother).trans hprior
      · exact hprior

section

variable (hreached : Reached readSeconds duration lines state done last)
include hreached

theorem Reached.getLast?_numbers :
    ((done ++ last.toList).map LogFrame.number).getLast? = state.frame := by
  rw [hreached.frame]
  cases last with
  | none => simp [hreached.first rfl]
  | some frame => simp

/-- A header after the lines read so far. -/
theorem Reached.header {mid : EvidenceState K} (hheader : IsHeader readSeconds line number)
    (hfinish : finishFrame duration state = .ok mid) (hprior : mid.frame.all (· < number)) :
    Reached readSeconds duration (lines ++ [line])
      { mid with frame := some number, fields := fun _ ↦ none } (done ++ last.toList)
      (some ⟨number, []⟩) := by
  obtain ⟨hcomplete, spans, start, htally, rfl⟩ := (finishFrame_iff hreached).mp hfinish
  obtain ⟨rest, hafter⟩ := hheader.afterStart
  refine ⟨?_, nofun, ?_, hcomplete, ?_, htally, rfl, rfl, ?_⟩
  · rw [toList_some, flatMap_append]
    exact forall₂_concat.mpr ⟨hreached.spelled, hheader⟩
  · rw [toList_some, map_append]
    refine pairwise_concat_iff.mpr ⟨hreached.increasing, ?_⟩
    rw [hreached.getLast?_numbers]
    exact hprior
  · intro frame hframe
    cases hframe
    exact nodup_nil
  · rw [fieldLines_concat, hafter]
    exact hreached.events

/-- A field after the lines read so far. -/
theorem Reached.field (hfield : IsField readSeconds duration line name value)
    (hframe : state.frame.isSome) (hfresh : (state.fields name).isNone) :
    ∃ frame, last = some frame ∧ Reached readSeconds duration (lines ++ [line])
      { state with
        events := state.events + 1
        fields := fun other ↦ if other = name then some value else state.fields other }
      done (some ⟨frame.number, frame.fields ++ [(name, value)]⟩) := by
  rw [hreached.frame, isSome_map] at hframe
  obtain ⟨frame, rfl⟩ := isSome_iff_exists.mp hframe
  have hfields : state.fields = frame.value := hreached.fields
  rw [hfields, isNone_iff_eq_none] at hfresh
  refine ⟨frame, rfl, ?_, nofun, ?_, hreached.complete, ?_, hreached.tallied, hreached.frame, ?_,
    ?_⟩
  · have hspelled := hreached.spelled
    simp only [toList_some, flatMap_append, flatMap_singleton, LogFrame.lines,
      map_append, map_singleton] at hspelled ⊢
    rw [← cons_append, ← append_assoc]
    exact forall₂_concat.mpr ⟨hspelled, hfield⟩
  · simpa only [toList_some, map_append, map_singleton] using hreached.increasing
  · intro longer hlonger
    cases hlonger
    rw [map_append, map_singleton, ← concat_eq_append]
    exact (hreached.once frame rfl).concat (LogFrame.value_eq_none_iff.mp hfresh)
  · rw [hfields]
    exact (LogFrame.value_concat hfresh).symm
  · rw [fieldLines_concat, hfield.afterStart, hreached.events]
    rfl

end

omit [Field K] [LinearOrder K] in
/-- Frames end with a last one, if there are any. -/
theorem exists_last (frames : List (LogFrame K)) :
    ∃ done last, frames = done ++ last.toList ∧ (last = none → done = []) := by
  rcases eq_nil_or_concat frames with rfl | ⟨done, last, rfl⟩
  · exact ⟨[], none, rfl, fun _ ↦ rfl⟩
  · exact ⟨done, some last, concat_eq_append, nofun⟩

/-- Lines whose last one is a header were read up to that header. -/
theorem Reached.of_header
    (hreached : Reached readSeconds duration (lines ++ [line]) next done (some ⟨number, []⟩)) :
    ∃ state mid before prior, Reached readSeconds duration lines state before prior ∧
      IsHeader readSeconds line number ∧ finishFrame duration state = .ok mid ∧
      mid.frame.all (· < number) ∧
      next = { mid with frame := some number, fields := fun _ ↦ none } := by
  obtain ⟨before, prior, rfl, hfirst⟩ := exists_last done
  have hspelled := hreached.spelled
  rw [toList_some, flatMap_append] at hspelled
  obtain ⟨hlines, hheader⟩ := forall₂_concat.mp hspelled
  have hnumbers := hreached.increasing
  rw [toList_some, map_append] at hnumbers
  obtain ⟨hincreasing, hlater⟩ := pairwise_concat_iff.mp hnumbers
  have htallied := hreached.tallied
  rw [flatMap_append, foldlM_append, bind_eq_bind] at htallied
  obtain ⟨⟨spans, start⟩, htally, -⟩ := bind_eq_some_iff.mp htallied
  obtain ⟨rest, hafter⟩ := hheader.afterStart
  have hevents := hreached.events
  rw [fieldLines_concat, hafter] at hevents
  have hbefore : Reached readSeconds duration lines
      ⟨prior.map LogFrame.number, fun name ↦ prior.bind (·.value name), start, spans,
        fieldLines lines⟩ before prior :=
    { spelled := hlines
      first := hfirst
      increasing := hincreasing
      complete := fun frame hframe ↦ hreached.complete frame (mem_append_left _ hframe)
      once := fun frame hframe ↦
        (hreached.complete frame (mem_append_right _ (by simp [hframe]))).once
      tallied := htally
      frame := rfl
      fields := rfl
      events := rfl }
  refine ⟨_, _, before, prior, hbefore, hheader, (finishFrame_iff hbefore).mpr
    ⟨hreached.complete, next.spans, next.start, hreached.tallied, rfl⟩, ?_, ?_⟩
  · rw [← hbefore.getLast?_numbers]
    exact hlater
  · calc
      next = ⟨next.frame, next.fields, next.start, next.spans, next.events⟩ := rfl
      _ = _ := by
        rw [hreached.frame, hreached.fields, hevents]
        rfl

/-- Lines whose last one is a field were read up to that field. -/
theorem Reached.of_field {fields : List (SilenceField × K)}
    (hreached : Reached readSeconds duration (lines ++ [line]) next done
      (some ⟨number, fields ++ [(name, value)]⟩)) :
    ∃ state, Reached readSeconds duration lines state done (some ⟨number, fields⟩) ∧
      IsField readSeconds duration line name value ∧ state.frame.isSome ∧
      (state.fields name).isNone ∧
      next = { state with
        events := state.events + 1
        fields := fun other ↦ if other = name then some value else state.fields other } := by
  have hspelled := hreached.spelled
  simp only [toList_some, flatMap_append, flatMap_singleton, LogFrame.lines,
    map_append, map_singleton] at hspelled
  rw [← cons_append, ← append_assoc] at hspelled
  obtain ⟨hlines, hfield⟩ := forall₂_concat.mp hspelled
  have honce := hreached.once _ rfl
  rw [map_append, map_singleton, ← concat_eq_append, nodup_concat] at honce
  have hfresh : LogFrame.value ⟨number, fields⟩ name = none :=
    LogFrame.value_eq_none_iff.mpr honce.1
  have hevents := hreached.events
  rw [fieldLines_concat, hfield.afterStart] at hevents
  refine ⟨⟨some number, LogFrame.value ⟨number, fields⟩, next.start, next.spans, fieldLines lines⟩,
    ?_, hfield, rfl, isNone_iff_eq_none.mpr hfresh, ?_⟩
  · exact
      { spelled := by simpa [LogFrame.lines] using hlines
        first := nofun
        increasing := by simpa using hreached.increasing
        complete := hreached.complete
        once := fun frame hframe ↦ some.inj hframe ▸ honce.2
        tallied := hreached.tallied
        frame := rfl
        fields := rfl
        events := rfl }
  · calc
      next = ⟨next.frame, next.fields, next.start, next.spans, next.events⟩ := rfl
      _ = _ := by
        rw [hreached.frame, hreached.fields, hevents]
        simp only [bind_some, ← LogFrame.value_concat hfresh]
        rfl

/-- The loop gets through the lines exactly when they can be read as frames, and then holds what
they have told so far. The induction takes the last line off, because a frame is finished only by
the line behind it. -/
theorem loop_iff (hevents : fieldLines lines ≤ AUDIO_EVIDENCE_EVENTS) :
    lines.foldlM (evidenceLine readSeconds duration) .initial = .ok state ↔
      ∃ done last, Reached readSeconds duration lines state done last := by
  induction lines using List.reverseRecOn generalizing state with
  | nil =>
    rw [foldlM_nil, pure_eq_ok_iff]
    constructor
    · rintro rfl
      exact ⟨[], none, reached_nil⟩
    · rintro ⟨done, last, hreached⟩
      exact (eq_initial_of_reached hreached).symm
  | append_singleton lines line ih =>
    have hcount : fieldLines lines ≤ AUDIO_EVIDENCE_EVENTS := by
      rw [fieldLines_concat] at hevents
      omega
    simp only [foldlM_append, foldlM_cons, foldlM_nil, bind_pure, bind_eq_ok_iff,
      ih hcount]
    constructor
    · rintro ⟨prior, ⟨done, last, hreached⟩, hline⟩
      rcases evidenceLine_iff.mp hline with ⟨number, mid, hheader, hfinish, hprior, rfl⟩ |
        ⟨name, value, hfield, hframe, hfresh, -, rfl⟩
      · exact ⟨_, _, hreached.header hheader hfinish hprior⟩
      · obtain ⟨frame, -, hnext⟩ := hreached.field hfield hframe hfresh
        exact ⟨_, _, hnext⟩
    · rintro ⟨done, last, hreached⟩
      obtain ⟨⟨number, fields⟩, rfl⟩ : ∃ frame, last = some frame := by
        refine ne_none_iff_exists'.mp fun hnone ↦ ?_
        have hlength := hreached.spelled.length_eq
        simp [hnone, hreached.first hnone] at hlength
      rcases eq_nil_or_concat fields with rfl | ⟨fields, ⟨name, value⟩, rfl⟩
      · obtain ⟨prior, mid, before, last, hbefore, hheader, hfinish, hlater, rfl⟩ :=
          hreached.of_header
        exact ⟨prior, ⟨before, last, hbefore⟩,
          evidenceLine_iff.mpr (.inl ⟨number, mid, hheader, hfinish, hlater, rfl⟩)⟩
      · rw [concat_eq_append] at hreached
        obtain ⟨prior, hbefore, hfield, hframe, hfresh, rfl⟩ := hreached.of_field
        refine ⟨prior, ⟨done, _, hbefore⟩,
          evidenceLine_iff.mpr (.inr ⟨name, value, hfield, hframe, hfresh, ?_, rfl⟩)⟩
        rw [fieldLines_concat, hfield.afterStart] at hevents
        rw [hbefore.events]
        exact hevents

/-! ### What is accepted -/

omit [Field K] in
/-- Spans in order pass the last check. -/
theorem not_overlapping_of_ordered (hordered : Span.Ordered spans) : overlapping spans = false := by
  induction spans with
  | nil => rfl
  | cons span rest ih =>
    obtain ⟨hspan, hforward⟩ := forall_mem_cons.mp hordered.forward
    obtain ⟨hnext, hapart⟩ := pairwise_cons.mp hordered.apart
    cases rest with
    | nil => simpa [overlapping] using hspan
    | cons next rest =>
      simp only [overlapping, ih ⟨hforward, hapart⟩, Bool.or_false, Bool.or_eq_false_iff,
        decide_eq_false_iff_not, not_lt]
      exact ⟨hspan, hnext next mem_cons_self⟩

/-- What is left of the parser when the silences have been added up: the last one is closed at the
duration, and the spans have to be in order. -/
theorem checked_iff : (let ended := match silences.opened.map fun start ↦ max start 0 with
      | some start => silences.closed.map (clamp duration) ++ [⟨start, duration⟩]
      | none => silences.closed.map (clamp duration)
    if overlapping ended then .error (evidence "Audio silence evidence overlaps") else .ok ended) =
        Except.ok spans ↔
      Span.Ordered (silences.clamped duration) ∧ spans = silences.clamped duration := by
  have hended : (match silences.opened.map fun start ↦ max start 0 with
      | some start => silences.closed.map (clamp duration) ++ [⟨start, duration⟩]
      | none => silences.closed.map (clamp duration)) = silences.clamped duration := by
    rw [Silences.clamped]
    cases silences.opened with
    | none => exact (append_nil _).symm
    | some start => rfl
  dsimp only
  rw [hended]
  by_cases hordered : Span.Ordered (silences.clamped duration)
  · rw [not_overlapping_of_ordered hordered, and_iff_right hordered]
    exact ⟨fun hok ↦ (Except.ok.inj hok).symm, fun heq ↦ heq ▸ rfl⟩
  · have hoverlapping : overlapping (silences.clamped duration) = true := by
      by_contra hcheck
      exact hordered (ordered_of_not_overlapping (Bool.not_eq_true _ ▸ hcheck))
    rw [hoverlapping]
    exact iff_of_false nofun fun hright ↦ hordered hright.1

/-- An accepted text has whole lines that tell the spans which the parser answers. -/
theorem parse_eq_ok_iff {text : List Char} (hduration : 0 < duration)
    (hbytes : Text.size text ≤ AUDIO_EVIDENCE_BYTES)
    (hevents : fieldLines (Text.lines text) ≤ AUDIO_EVIDENCE_EVENTS) :
    parseAudioTrackEvidence readSeconds text duration = .ok spans ↔
      (text = [] ∨ text.getLast? = some '\n') ∧ ∃ frames silences,
        Tells readSeconds duration (Text.lines text) frames silences ∧
        spans = silences.clamped duration := by
  have hguard : (duration ≤ 0 ∨ AUDIO_EVIDENCE_BYTES < Text.size text ∨
      (text ≠ [] ∧ text.getLast? ≠ some '\n')) ↔ ¬(text = [] ∨ text.getLast? = some '\n') := by
    rw [not_or, or_iff_right (not_le.mpr hduration), or_iff_right (not_lt.mpr hbytes)]
  rw [parseAudioTrackEvidence, if_congr hguard rfl rfl]
  by_cases hwhole : text = [] ∨ text.getLast? = some '\n'
  swap
  · rw [if_pos hwhole]
    exact iff_of_false (by simp) fun hright ↦ hwhole hright.1
  rw [if_neg (not_not.mpr hwhole), and_iff_right hwhole]
  simp only [bind_eq_ok_iff]
  constructor
  · rintro ⟨state, hloop, finished, hfinish, hchecked⟩
    obtain ⟨done, last, hreached⟩ := (loop_iff hevents).mp hloop
    obtain ⟨hcomplete, closed, start, htally, rfl⟩ := (finishFrame_iff hreached).mp hfinish
    obtain ⟨silences, hmarks, hforward, rfl, rfl⟩ := silences_of_tally htally
    obtain ⟨hordered, rfl⟩ := checked_iff.mp hchecked
    exact ⟨done ++ last.toList, silences,
      { spelled := hreached.spelled
        increasing := hreached.increasing
        complete := hcomplete
        alternate := hmarks
        forward := fun span hspan ↦ (le_max_left _ _).trans (hforward span hspan)
        ordered := hordered }, rfl⟩
  · rintro ⟨frames, silences, htells, rfl⟩
    obtain ⟨done, last, rfl, hfirst⟩ := exists_last frames
    have hforward : ∀ span ∈ silences.closed, max span.start 0 ≤ span.stop := by
      intro span hspan
      have hclamped := htells.ordered.forward (clamp duration span)
        (mem_append_left _ (mem_map_of_mem hspan))
      exact hclamped.trans (min_le_left _ _)
    have htally := tally_marks duration [] hforward
    rw [← htells.alternate] at htally
    obtain ⟨state, hreached⟩ : ∃ state, Reached readSeconds duration (Text.lines text) state
        done last := by
      have hfront := htally
      rw [flatMap_append, foldlM_append, bind_eq_bind] at hfront
      obtain ⟨⟨spans, start⟩, hdone, -⟩ := bind_eq_some_iff.mp hfront
      exact ⟨⟨last.map LogFrame.number, fun name ↦ last.bind (·.value name), start, spans,
          fieldLines (Text.lines text)⟩,
        { spelled := htells.spelled
          first := hfirst
          increasing := htells.increasing
          complete := fun frame hframe ↦ htells.complete frame (mem_append_left _ hframe)
          once := fun frame hframe ↦
            (htells.complete frame (mem_append_right _ (by simp [hframe]))).once
          tallied := hdone
          frame := rfl
          fields := rfl
          events := rfl }⟩
    refine ⟨state, (loop_iff hevents).mpr ⟨done, last, hreached⟩, _,
      (finishFrame_iff hreached).mpr ⟨htells.complete, _, _, htally, rfl⟩, ?_⟩
    exact checked_iff.mpr ⟨htells.ordered, rfl⟩

/-- The parser accepts exactly the silence logs: frames in rising order, each complete, whose starts
and ends alternate and whose silences, clamped to the recording, run forwards and do not overlap. -/
theorem accepted_iff_silence_log {text : List Char} (hduration : 0 < duration)
    (hbytes : Text.size text ≤ AUDIO_EVIDENCE_BYTES)
    (hevents : fieldLines (Text.lines text) ≤ AUDIO_EVIDENCE_EVENTS) :
    (∃ spans, parseAudioTrackEvidence readSeconds text duration = .ok spans) ↔
      IsSilenceLog readSeconds duration text := by
  simp only [parse_eq_ok_iff hduration hbytes hevents, IsSilenceLog]
  constructor
  · rintro ⟨spans, hwhole, frames, silences, htells, -⟩
    exact ⟨hwhole, frames, silences, htells⟩
  · rintro ⟨hwhole, frames, silences, htells⟩
    exact ⟨_, hwhole, frames, silences, htells, rfl⟩

/-- A decimal number, with or without a sign and a fraction. -/
def decimalSeconds : List Char → Option ℚ
  | '-' :: digits => (unsigned digits).map Neg.neg
  | digits => unsigned digits
where
  unsigned (digits : List Char) : Option ℚ :=
    match Text.splitOnce ['.'] digits with
    | none => (Text.readDigits digits).map (↑)
    | some (whole, fraction) => do
      let whole ← Text.readDigits whole
      let value ← Text.readDigits fraction
      some (whole + value / 10 ^ fraction.length)

/-- A silence from half a second to two seconds. -/
def shortLog : List Char :=
  ("frame:0 pts:0 pts_time:0\nlavfi.silence_start=0.5\nframe:9 pts:NOPTS pts_time:2\n" ++
    "lavfi.silence_end=2\nlavfi.silence_duration=1.5\n").toList

example : parseAudioTrackEvidence decimalSeconds shortLog 6 = .ok [⟨1 / 2, 2⟩] := by decide +kernel

/-- The acceptance of a log of one silence. -/
theorem accepted_iff_silence_log_short :
    (∃ spans, parseAudioTrackEvidence decimalSeconds shortLog 6 = .ok spans) ↔
      IsSilenceLog decimalSeconds 6 shortLog :=
  accepted_iff_silence_log (by norm_num) (by decide +kernel) (by decide +kernel)

end ObsMcp.Trim
