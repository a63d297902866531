import ObsMcp.Trim.Tiling

/-!
# The segments of a trimmed export

The export joins one part for every keep span. A part trims the picture and every audio track to
the span, and the filter text names the parts in order before it concatenates them. The encoder
rejects a segment without length.

Every gap between two cuts has length, since cut ends are whole hundredths when they are compared.
The last keep span is the exception: `planCuts` compares the cursor with the duration before the
duration is rounded. `keepFrom_positive_iff` finds the only empty span there can be, and
`segments_positive_iff` says for which settings it occurs: the duration is rounded down, and either
to zero or to the hundredth at which a stretch that may be cut ends.
-/

namespace ObsMcp.Trim

open Foundations List

variable {options : CutOptions} {cuts : List (Span ℚ)} {cursor duration : ℚ}

/-! ### The filter -/

/-- What a trim filter reads. -/
inductive Stream
  | video
  | audio (track : ℕ)

/-- One trim filter: its stream, the keep span and the label of its output. -/
structure Segment where
  stream : Stream
  span : Span ℚ
  label : String

/-- The trim filters of one keep span. Without qualified tracks a recording with sound has one
audio filter. -/
def segmentsOf (tracks : ℕ) (audio : Bool) (index : ℕ) (span : Span ℚ) : List Segment :=
  let video : Segment := ⟨.video, span, s!"v{index}"⟩
  if tracks = 0 ∧ audio = true then [video, ⟨.audio 0, span, s!"a{index}"⟩]
  else if tracks ≠ 0 then
    video :: (List.range tracks).map fun track ↦ ⟨.audio track, span, s!"a{index}_{track}"⟩
  else [video]

/-- The trim filters of every keep span, part by part. -/
def parts (tracks : ℕ) (audio : Bool) (keep : List (Span ℚ)) : List (List Segment) :=
  keep.zipIdx.map fun ⟨span, index⟩ ↦ segmentsOf tracks audio index span

/-- Every trim filter is of a keep span. -/
theorem span_of_mem_parts {tracks : ℕ} {audio : Bool} {keep : List (Span ℚ)}
    {part : List Segment} (hpart : part ∈ parts tracks audio keep) {segment : Segment}
    (hsegment : segment ∈ part) : segment.span ∈ keep := by
  obtain ⟨⟨span, index⟩, hspan, rfl⟩ := mem_map.mp hpart
  have hkeep : span ∈ keep := by
    have hfst := mem_map_of_mem (f := Prod.fst) hspan
    rwa [zipIdx_map_fst] at hfst
  have hsame : segment.span = span := by
    simp only [segmentsOf] at hsegment
    split_ifs at hsegment
    · rcases mem_cons.mp hsegment with rfl | hsegment
      · rfl
      · rw [mem_singleton.mp hsegment]
    · rcases mem_cons.mp hsegment with rfl | hsegment
      · rfl
      · obtain ⟨track, -, rfl⟩ := mem_map.mp hsegment
        rfl
    · rw [mem_singleton.mp hsegment]
  exact hsame ▸ hkeep

/-! ### The last keep span -/

/-- Where the cursor stands after the last cut. -/
def lastCursor (cursor : ℚ) : List (Span ℚ) → ℚ
  | [] => cursor
  | cut :: rest => lastCursor cut.stop rest

/-- A keep span is empty exactly when the last cut ends at the rounded duration and the duration
itself is longer. -/
theorem keepFrom_positive_iff (hlaid : Laid (roundSeconds duration) cursor cuts)
    (hcursor : Cent cursor) :
    (∀ span ∈ keepFrom duration cursor cuts, span.start < span.stop) ↔
      ¬(roundSeconds duration < duration ∧ lastCursor cursor cuts = roundSeconds duration) := by
  induction cuts generalizing cursor with
  | nil =>
    have hle : cursor ≤ roundSeconds duration := hlaid
    by_cases hleft : cursor < duration
    · simp only [keepFrom, if_pos hleft, mem_singleton, forall_eq, lastCursor,
        roundSeconds_cent hcursor]
      constructor
      · rintro hpositive ⟨-, hat⟩
        exact absurd hat hpositive.ne
      · intro hnot
        refine hle.lt_of_ne fun hat ↦ hnot ⟨hat ▸ hleft, hat⟩
    · simp only [keepFrom, if_neg hleft, not_mem_nil, false_implies, implies_true, true_iff,
        lastCursor]
      rintro ⟨hdown, hat⟩
      exact hleft (hat ▸ hdown)
  | cons cut rest ih =>
    obtain ⟨-, -, -, hstop, hrest⟩ := hlaid
    rw [lastCursor, ← ih hrest hstop]
    by_cases hgap : cursor < cut.start
    · rw [keepFrom, if_pos hgap, roundSeconds_cent hcursor]
      simp only [singleton_append, forall_mem_cons, hgap, true_and]
    · rw [keepFrom, if_neg hgap, nil_append]

/-- The cursor ends at the last instant exactly when it began there without cuts or some cut ends
there. -/
theorem lastCursor_eq_iff {last : ℚ} (hlaid : Laid last cursor cuts) :
    lastCursor cursor cuts = last ↔ cursor = last ∨ ∃ cut ∈ cuts, cut.stop = last := by
  induction cuts generalizing cursor with
  | nil => simp [lastCursor]
  | cons cut rest ih =>
    obtain ⟨hfrom, hforward, -, -, hrest⟩ := hlaid
    have hbefore : cursor ≠ last := ((hfrom.trans_lt hforward).trans_le hrest.cursor_le).ne
    rw [lastCursor, ih hrest]
    simp only [mem_cons, exists_eq_or_imp, hbefore, false_or]

/-- A cut ends at the rounded duration exactly when half a second or more that may be cut ends at
an instant that rounds to it. -/
theorem exists_cut_at_end_iff (options : CutOptions) :
    (∃ cut ∈ cutSpans options, cut.stop = roundSeconds options.duration) ↔
      ∃ first last, 0 ≤ first ∧ last ≤ options.duration ∧ first + 1 / 2 ≤ last ∧
        roundSeconds last = roundSeconds options.duration ∧
          ∀ time, first ≤ time → time < last → Free options time := by
  constructor
  · rintro ⟨cut, hcut, hstop⟩
    obtain ⟨merged, hmerged, hlong, rfl⟩ := mem_cutSpans.mp hcut
    refine ⟨(options.clamp merged).start, (options.clamp merged).stop, le_max_left _ _,
      min_le_left _ _, ?_, hstop, fun time hfrom hto ↦ ?_⟩
    · rw [length] at hlong
      linarith
    · exact (covered_merged options time).mp
        ⟨merged, hmerged, (le_max_right _ _).trans hfrom, hto.trans_le (min_le_right _ _)⟩
  · rintro ⟨first, last, hfirst, hlast, hlong, hround, hfree⟩
    have hstretch : first < last := by linarith
    obtain ⟨merged, hmerged, hfrom, hto⟩ :=
      Span.within_of_covered
        (Span.merge_separated (Span.subtract options.candidates options.held)) hstretch
        fun time hfrom hto ↦ (covered_merged options time).mpr (hfree time hfrom hto)
    have hstart : (options.clamp merged).start ≤ first := max_le hfirst hfrom
    have hstop : last ≤ (options.clamp merged).stop := le_min hlast hto
    refine ⟨roundSpan (options.clamp merged), mem_cutSpans.mpr ⟨merged, hmerged, ?_, rfl⟩, ?_⟩
    · rw [length]
      linarith
    · have hend : (options.clamp merged).stop ≤ options.duration := min_le_left _ _
      exact le_antisymm (roundSeconds_mono hend) (hround ▸ roundSeconds_mono hstop)

/-! ### Every export -/

/-- Settings that the tool admits: each number in its range, the idle spans inside the recording,
any chapters. -/
structure ToolInput extends CutOptions where
  duration_pos : 0 < duration
  minIdle_range : 1 ≤ minIdleSeconds ∧ minIdleSeconds ≤ 60
  keep_range : 0 ≤ keepSeconds ∧ keepSeconds ≤ 5
  holdAfter_range : 0 ≤ holdAfterChapterSeconds ∧ holdAfterChapterSeconds ≤ 10
  holdBefore_range : 0 ≤ holdBeforeChapterSeconds ∧ holdBeforeChapterSeconds ≤ 10
  idle_inside : ∀ span ∈ idle, 0 ≤ span.start ∧ span.start ≤ span.stop ∧ span.stop ≤ duration

/-- Every keep span of a plan has length, and so has every segment of the filter built from it,
whatever the tracks. -/
def Playable (options : CutOptions) : Prop :=
  (∀ span ∈ (planCuts options).keep, span.start < span.stop) ∧
    ∀ tracks audio, ∀ part ∈ parts tracks audio (planCuts options).keep, ∀ segment ∈ part,
      segment.span.start < segment.span.stop

/-- The duration is rounded down, and either to zero or to the hundredth at which half a second or
more that may be cut ends. -/
def EndsShort (options : CutOptions) : Prop :=
  roundSeconds options.duration < options.duration ∧
    (roundSeconds options.duration = 0 ∨
      ∃ first last, 0 ≤ first ∧ last ≤ options.duration ∧ first + 1 / 2 ≤ last ∧
        roundSeconds last = roundSeconds options.duration ∧
          ∀ time, first ≤ time → time < last → Free options time)

/-- The segments have length when the keep spans have. -/
theorem playable_iff_keep :
    Playable options ↔ ∀ span ∈ (planCuts options).keep, span.start < span.stop := by
  constructor
  · exact fun hplayable ↦ hplayable.1
  · intro hkeep
    exact ⟨hkeep, fun _ _ _ hpart segment hsegment ↦
      hkeep segment.span (span_of_mem_parts hpart hsegment)⟩

/-- Exports have no empty segment exactly when the recording does not end short of its duration in
a stretch that is cut. -/
theorem segments_positive_iff (input : ToolInput) :
    Playable input.toCutOptions ↔ ¬EndsShort input.toCutOptions := by
  have hlaid := laid_cutSpans input.duration_pos
  rw [playable_iff_keep, EndsShort, ← exists_cut_at_end_iff]
  show (∀ span ∈ keepFrom _ 0 (cutSpans _), span.start < span.stop) ↔ _
  rw [keepFrom_positive_iff hlaid cent_zero, lastCursor_eq_iff hlaid]
  exact not_congr (and_congr_right fun _ ↦ or_congr eq_comm Iff.rfl)

/-- Ten seconds and four thousandths, the second half of them still and nothing held. -/
def shortTail : ToolInput where
  duration := 10004 / 1000
  idle := [⟨5, 10004 / 1000⟩]
  chapters := []
  minIdleSeconds := 1
  keepSeconds := 0
  holdAfterChapterSeconds := 0
  holdBeforeChapterSeconds := 0
  duration_pos := by norm_num
  minIdle_range := by norm_num
  keep_range := by norm_num
  holdAfter_range := by norm_num
  holdBefore_range := by norm_num
  idle_inside := by
    intro span hspan
    rw [mem_singleton.mp hspan]
    norm_num

/-- The plan of that recording keeps an empty span at its end. -/
theorem shortTail_keeps_nothing :
    (planCuts shortTail.toCutOptions).keep = [⟨0, 5⟩, ⟨10, 10⟩] ∧
      ¬Playable shortTail.toCutOptions := by
  have hkeep : (planCuts shortTail.toCutOptions).keep = [⟨0, 5⟩, ⟨10, 10⟩] := by decide +kernel
  refine ⟨hkeep, fun hplayable ↦ ?_⟩
  have hmem : (⟨10, 10⟩ : Span ℚ) ∈ (planCuts shortTail.toCutOptions).keep := by
    rw [hkeep]
    exact mem_cons_of_mem _ mem_cons_self
  exact lt_irrefl _ (hplayable.1 _ hmem)

end ObsMcp.Trim
