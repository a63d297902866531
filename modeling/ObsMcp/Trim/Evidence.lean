import ObsMcp.Foundations.Fallible
import ObsMcp.Foundations.Spans
import ObsMcp.Foundations.Text

/-!
# Audio evidence

The silence of each audio track is read from a file of frames. A frame line is followed by the
silence fields of that frame, and at the next frame, or at the end, the fields open a silence or
close the one that is open. What the file says is trusted only if every line has its place and the
spans that come out are forward, in order and apart.

Times are the elements of any ordered field. Decimal fractions are read by a parameter,
`readSeconds`, which answers the finite numbers; everything else is read here. `silence_of_text`
says what the accepted texts give: spans in order, without overlap, between zero and the duration.
-/

namespace ObsMcp.Trim

open Foundations List

variable {K : Type} [Field K] [LinearOrder K]

scoped instance atLeastTwo_ten : Nat.AtLeastTwo 10 := inferInstance

/-! ### The parser -/

inductive ErrorKind
  | evidence
  | cancelled
  | encode
  | probe
  | decode
  | preview
  | unsafePath
  | destinationExists
  | stageChanged
  | storage
  | limit
  | unsupported
  deriving DecidableEq

structure TrimError where
  kind : ErrorKind
  message : String
  deriving DecidableEq

def evidence (message : String) : TrimError :=
  ⟨.evidence, message⟩

def AUDIO_EVIDENCE_BYTES : ℕ := 1024 * 1024

def AUDIO_EVIDENCE_EVENTS : ℕ := 100000

/-- The silence fields a frame may have. -/
inductive SilenceField
  | start
  | stop
  | duration
  deriving DecidableEq

/-- The field that a key of the file names. -/
def silenceField (key : List Char) : Option SilenceField :=
  match Text.afterStart "lavfi.silence_".toList key with
  | none => none
  | some name =>
    if name = "start".toList then some .start
    else if name = "end".toList then some .stop
    else if name = "duration".toList then some .duration
    else none

/-- What the loop over the lines holds: the frame it is in and its fields, the silence that is
open, the spans closed so far and the number of field lines. -/
structure EvidenceState (K : Type) where
  frame : Option ℕ
  fields : SilenceField → Option K
  start : Option K
  spans : List (Span K)
  events : ℕ

/-- Opens and closes silences as the fields of a frame say. -/
def finishAudioFrame (duration : K) (state : EvidenceState K) :
    Except TrimError (EvidenceState K) :=
  let fields := state.fields
  if ((fields .start).isNone ∧ (fields .stop).isNone ∧ (fields .duration).isNone) ∨
      (fields .stop).isSome ≠ (fields .duration).isSome then
    .error (evidence "Audio evidence frame is incomplete")
  else if (fields .duration).any (· < 0) then
    .error (evidence "Audio evidence silence duration is negative")
  else if (fields .start).isSome ∧ state.start.isSome then
    .error (evidence "Audio evidence has overlapping silence starts")
  else
    let start :=
      match fields .start with
      | some value => some (max value 0)
      | none => state.start
    match fields .stop with
    | none => .ok { state with start := start }
    | some stop =>
      match start.filter (· ≤ stop) with
      | none => .error (evidence "Audio evidence has an unmatched silence end")
      | some since =>
        .ok { state with
          start := none
          spans := state.spans ++ [⟨since, min stop duration⟩] }

/-- Finishes the frame at hand, if there is one. -/
def finishFrame (duration : K) (state : EvidenceState K) : Except TrimError (EvidenceState K) :=
  if state.frame.isSome then finishAudioFrame duration state else .ok state

/-- The frame number of a frame line, when its numbers are well formed and it is later than the
frame before. -/
def frameNumber (readSeconds : List Char → Option K) (prior : Option ℕ) (rest : List Char) :
    Option ℕ := do
  let (frameRaw, rest) ← Text.splitOnce "pts:".toList (rest.dropWhile Text.isWhitespace)
  let (ptsRaw, timeRaw) ← Text.splitOnce "pts_time:".toList rest
  let next ← Text.readU64 (Text.trimMatches Text.isWhitespace frameRaw)
  let pts := Text.trimMatches Text.isWhitespace ptsRaw
  let _ ← readSeconds (Text.trimMatches Text.isWhitespace timeRaw)
  if next ≤ 9007199254740991 ∧ prior.all (· < next) ∧
      (pts = "NOPTS".toList ∨ (Text.readI64 pts).isSome) then
    some next
  else none

/-- A line that begins a frame. -/
def frameLine (readSeconds : List Char → Option K) (duration : K) (state : EvidenceState K)
    (rest : List Char) : Except TrimError (EvidenceState K) := do
  let state ← finishFrame duration state
  match frameNumber readSeconds state.frame rest with
  | none => .error (evidence "Audio evidence frame sequence is invalid")
  | some next => .ok { state with frame := some next, fields := fun _ ↦ none }

/-- A line that gives a field of the frame. -/
def fieldLine (readSeconds : List Char → Option K) (duration : K) (state : EvidenceState K)
    (line : List Char) : Except TrimError (EvidenceState K) :=
  match Text.splitOnce ['='] line with
  | none => .error (evidence "Audio evidence contains unexpected or duplicate metadata")
  | some (key, raw) =>
    match (silenceField key).filter fun field ↦
        state.frame.isSome ∧ (state.fields field).isNone ∧
          state.events + 1 ≤ AUDIO_EVIDENCE_EVENTS with
    | none => .error (evidence "Audio evidence contains unexpected or duplicate metadata")
    | some field =>
      match (readSeconds raw).filter fun value ↦
          -(1 / 10) ≤ value ∧ value ≤ duration + 1 / 10 with
      | none => .error (evidence "Audio evidence timestamp is outside the recording")
      | some value =>
        .ok { state with
          events := state.events + 1
          fields := fun other ↦ if other = field then some value else state.fields other }

/-- One turn of the loop. -/
def evidenceLine (readSeconds : List Char → Option K) (duration : K) (state : EvidenceState K)
    (line : List Char) : Except TrimError (EvidenceState K) :=
  match Text.afterStart "frame:".toList line with
  | some rest => frameLine readSeconds duration state rest
  | none => fieldLine readSeconds duration state line

/-- A span that runs backwards, or that starts before the one before it ends. -/
def overlapping : List (Span K) → Bool
  | [] => false
  | [span] => span.stop < span.start
  | span :: next :: rest =>
    decide (span.stop < span.start) || decide (next.start < span.stop) || overlapping (next :: rest)

def parseAudioTrackEvidence (readSeconds : List Char → Option K) (text : List Char)
    (duration : K) : Except TrimError (List (Span K)) := do
  if duration ≤ 0 ∨ AUDIO_EVIDENCE_BYTES < Text.size text ∨
      (text ≠ [] ∧ text.getLast? ≠ some '\n') then
    .error (evidence "Audio evidence is incomplete or exceeds its bound")
  else
    let state ← (Text.lines text).foldlM (evidenceLine readSeconds duration)
      ⟨none, fun _ ↦ none, none, [], 0⟩
    let state ← finishFrame duration state
    let spans :=
      match state.start with
      | some start => state.spans ++ [⟨start, duration⟩]
      | none => state.spans
    if overlapping spans then .error (evidence "Audio silence evidence overlaps")
    else .ok spans

/-! ### What an accepted text gives -/

variable {readSeconds : List Char → Option K} {duration : K} {state next : EvidenceState K}

/-- Spans start at zero or later and stop at the duration at the latest. -/
def Between (duration : K) (spans : List (Span K)) : Prop :=
  ∀ span ∈ spans, 0 ≤ span.start ∧ span.stop ≤ duration

/-- The silences of a loop: the closed ones lie in the recording and the open one starts there. -/
structure EvidenceState.Inside (duration : K) (state : EvidenceState K) : Prop where
  closed : Between duration state.spans
  opened : ∀ start, state.start = some start → 0 ≤ start

variable {spans : List (Span K)}

/-- A span appended to spans in the recording. -/
theorem between_append {span : Span K} (hspans : Between duration spans) (hstart : 0 ≤ span.start)
    (hstop : span.stop ≤ duration) : Between duration (spans ++ [span]) := by
  intro other hother
  rcases mem_append.mp hother with hother | hother
  · exact hspans other hother
  · rw [mem_singleton.mp hother]
    exact ⟨hstart, hstop⟩

/-- Finishing a frame keeps the silences inside the recording. -/
theorem finishAudioFrame_inside (hinside : state.Inside duration)
    (hfinish : finishAudioFrame duration state = .ok next) : next.Inside duration := by
  have hopened : ∀ start, (match state.fields .start with
      | some value => some (max value 0)
      | none => state.start) = some start → 0 ≤ start := by
    intro start hstart
    cases hfield : state.fields .start with
    | none =>
      rw [hfield] at hstart
      exact hinside.opened start hstart
    | some value =>
      rw [hfield] at hstart
      exact Option.some.inj hstart ▸ le_max_right value 0
  simp only [finishAudioFrame] at hfinish
  split_ifs at hfinish
  cases hstop : state.fields .stop with
  | none =>
    simp only [hstop, Except.ok.injEq] at hfinish
    subst hfinish
    exact ⟨hinside.closed, hopened⟩
  | some stop =>
    simp only [hstop] at hfinish
    split at hfinish
    · cases hfinish
    · rename_i since hsince
      obtain ⟨hstart, -⟩ := Option.filter_eq_some_iff.mp hsince
      cases hfinish
      exact ⟨between_append hinside.closed (hopened since hstart) (min_le_right _ _),
        fun _ hnone ↦ by cases hnone⟩

/-- Finishing the frame at hand, if there is one, keeps the silences inside the recording. -/
theorem finishFrame_inside (hinside : state.Inside duration)
    (hfinish : finishFrame duration state = .ok next) : next.Inside duration := by
  rw [finishFrame] at hfinish
  split_ifs at hfinish
  · exact finishAudioFrame_inside hinside hfinish
  · exact Except.ok.inj hfinish ▸ hinside

/-- A field line neither opens nor closes a silence. -/
theorem silences_of_fieldLine {line : List Char}
    (hline : fieldLine readSeconds duration state line = .ok next) :
    next.spans = state.spans ∧ next.start = state.start := by
  rw [fieldLine] at hline
  split at hline
  · cases hline
  · split at hline
    · cases hline
    · split at hline
      · cases hline
      · cases hline
        exact ⟨rfl, rfl⟩

/-- One line keeps the silences inside the recording. -/
theorem evidenceLine_inside (line : List Char) (hinside : state.Inside duration)
    (hline : evidenceLine readSeconds duration state line = .ok next) : next.Inside duration := by
  rw [evidenceLine] at hline
  cases hframe : Text.afterStart "frame:".toList line with
  | some rest =>
    simp only [hframe, frameLine] at hline
    obtain ⟨mid, hfinish, hnumber⟩ := bind_eq_ok_iff.mp hline
    have hmid := finishFrame_inside hinside hfinish
    cases hnext : frameNumber readSeconds mid.frame rest with
    | none =>
      simp only [hnext] at hnumber
      cases hnumber
    | some number =>
      simp only [hnext, Except.ok.injEq] at hnumber
      subst hnumber
      exact ⟨hmid.closed, hmid.opened⟩
  | none =>
    simp only [hframe] at hline
    obtain ⟨hspans, hstart⟩ := silences_of_fieldLine hline
    exact ⟨hspans ▸ hinside.closed, hstart ▸ hinside.opened⟩

omit [Field K] in
/-- Spans that pass the last check are ordered. -/
theorem ordered_of_not_overlapping (hcheck : overlapping spans = false) : Span.Ordered spans := by
  induction spans with
  | nil => exact ⟨fun _ hspan ↦ absurd hspan not_mem_nil, List.Pairwise.nil⟩
  | cons span rest ih =>
    cases rest with
    | nil =>
      have hforward : span.start ≤ span.stop := by
        simpa only [overlapping, decide_eq_false_iff_not, not_lt] using hcheck
      refine ⟨fun other hother ↦ ?_, pairwise_singleton _ _⟩
      rw [mem_singleton.mp hother]
      exact hforward
    | cons next rest =>
      simp only [overlapping, Bool.or_eq_false_iff, decide_eq_false_iff_not, not_lt] at hcheck
      obtain ⟨⟨hforward, hnext⟩, hrest⟩ := hcheck
      have htail := ih hrest
      refine ⟨forall_mem_cons.mpr ⟨hforward, htail.forward⟩,
        pairwise_cons.mpr ⟨fun other hother ↦ ?_, htail.apart⟩⟩
      rcases mem_cons.mp hother with rfl | hother
      · exact hnext
      · have hafter := (pairwise_cons.mp htail.apart).1 other hother
        exact (hnext.trans (htail.forward next mem_cons_self)).trans hafter

/-- The silences of an accepted text are ordered and lie inside the recording. -/
theorem silence_of_text {text : List Char}
    (hparse : parseAudioTrackEvidence readSeconds text duration = .ok spans) :
    Span.Ordered spans ∧ Between duration spans := by
  rw [parseAudioTrackEvidence] at hparse
  split_ifs at hparse
  obtain ⟨last, hloop, hparse⟩ := bind_eq_ok_iff.mp hparse
  obtain ⟨done, hfinish, hparse⟩ := bind_eq_ok_iff.mp hparse
  have hstart : EvidenceState.Inside duration ⟨none, fun _ ↦ none, none, [], 0⟩ :=
    ⟨fun _ hspan ↦ absurd hspan not_mem_nil, fun _ hnone ↦ by cases hnone⟩
  have hlast : last.Inside duration :=
    foldlM_keeps (EvidenceState.Inside duration)
      (fun _ line _ hinside hline ↦ evidenceLine_inside line hinside hline) hstart hloop
  have hdone := finishFrame_inside hlast hfinish
  dsimp only at hparse
  split_ifs at hparse with hcheck
  cases hparse
  refine ⟨ordered_of_not_overlapping (Bool.not_eq_true _ ▸ hcheck), ?_⟩
  cases hopen : done.start with
  | none => exact hdone.closed
  | some start => exact between_append hdone.closed (hdone.opened start hopen) le_rfl

end ObsMcp.Trim
