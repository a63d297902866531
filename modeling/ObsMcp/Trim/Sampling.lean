import ObsMcp.Foundations.Blocks
import ObsMcp.Foundations.Checked
import ObsMcp.Monitor.Stills
import ObsMcp.Trim.Evidence

/-!
# Sampling the picture of a recording

`GraySink` is fed the raw grey pictures that a decoder writes into a pipe. The pipe cuts them into
chunks of its own choice, so `consume` keeps the picture that has begun in `pending`, and every full
picture is pushed to the still tracker with its time, which is its number over the sampling rate. A
chunk may fail in the middle, when there are too many still spans.

`consume` subtracts the pending bytes from the size of a picture and goes on while there are bytes;
the model gives no answer when the subtraction underflows or the loop does not end.
`consume_eq_feed` says that it answers whenever a picture is pending that is not full, and that it
does with a chunk what it would do byte by byte. `chunking_is_irrelevant` draws the consequence for
every two ways of cutting a stream.
-/

namespace ObsMcp.Trim

open Foundations Monitor List

/-! ### The sink -/

def SAMPLE_FPS : ℚ := 2

/-- What a request says about the pictures. -/
structure SamplingRequest where
  frameBytes : ℕ
  duration : ℚ
  minIdleSeconds : ℚ

structure GraySink where
  tracker : StillTracker ℚ
  pending : List UInt8
  frameBytes : ℕ
  duration : ℚ
  frames : ℕ
  maxSpans : ℕ
  stderr : List UInt16
  stderrOverflow : Bool

namespace GraySink

/-- The diagnostics are kept as UTF-16 units. -/
structure GrayAnalysis where
  spans : List (Foundations.Span ℚ)
  frames : ℕ
  trailingBytes : ℕ
  stderr : List UInt16

def new (request : SamplingRequest) (maxSpans : ℕ) : Except TrimError GraySink :=
  if request.frameBytes = 0 ∨ maxSpans = 0 then
    .error ⟨.limit, "Grayscale stream bounds must be positive"⟩
  else
    .ok
      { tracker := .new (atLeast .exact request.minIdleSeconds)
        pending := []
        frameBytes := request.frameBytes
        duration := request.duration
        frames := 0
        maxSpans := maxSpans
        stderr := []
        stderrOverflow := false }

/-- Pushes a full picture. -/
def pushFrame (sink : GraySink) (luma : List UInt8) : Except TrimError GraySink :=
  let tracker := sink.tracker.push ⟨sink.frames / SAMPLE_FPS, luma⟩
  match checkedAdd sink.frames 1 with
  | none => .error ⟨.limit, "Grayscale frame counter exhausted"⟩
  | some frames =>
    if tracker.spans.length > sink.maxSpans then
      .error ⟨.limit, "Still-span history exceeds the configured bound"⟩
    else .ok { sink with tracker := tracker, frames := frames, pending := [] }

/-- One turn of the loop over the bytes of a chunk, unless the difference underflows: the sink after
it and the bytes that are left. -/
def consumeTurn (sink : GraySink) (bytes : List UInt8) :
    Option (Except TrimError (GraySink × List UInt8)) :=
  (checkedSub sink.frameBytes sink.pending.length).map fun room ↦
    let count := min room bytes.length
    let pending := sink.pending ++ bytes.take count
    if pending.length = sink.frameBytes then
      (sink.pushFrame pending).map fun sink ↦ (sink, bytes.drop count)
    else .ok ({ sink with pending := pending }, bytes.drop count)

/-- The loop over the bytes of a chunk, for at most so many turns. -/
def consumeLoop : ℕ → GraySink → List UInt8 → Option (Except TrimError GraySink)
  | _, sink, [] => some (.ok sink)
  | 0, _, _ :: _ => none
  | turns + 1, sink, byte :: bytes =>
    match sink.consumeTurn (byte :: bytes) with
    | none => none
    | some (.error error) => some (.error error)
    | some (.ok (sink, bytes)) => consumeLoop turns sink bytes

/-- Takes a chunk in. There is no answer when the loop takes more turns than there are bytes. -/
def consume (sink : GraySink) (bytes : List UInt8) : Option (Except TrimError GraySink) :=
  consumeLoop bytes.length sink bytes

/-- Takes chunks in until one fails. -/
def consumeAll (sink : GraySink) : List (List UInt8) → Option (Except TrimError GraySink)
  | [] => some (.ok sink)
  | chunk :: chunks =>
    match sink.consume chunk with
    | none => none
    | some (.error error) => some (.error error)
    | some (.ok sink) => consumeAll sink chunks

def finish (sink : GraySink) : Except TrimError GrayAnalysis :=
  if sink.stderrOverflow then
    .error (evidence "Audio analysis diagnostics exceed the configured bound")
  else
    let spans := (sink.tracker.finish (min sink.duration (sink.frames / SAMPLE_FPS))).spans
    if spans.length > sink.maxSpans then
      .error ⟨.limit, "Still-span history exceeds the configured bound"⟩
    else
      .ok
        { spans := spans
          frames := sink.frames
          trailingBytes := sink.pending.length
          stderr := sink.stderr }

/-! ### Byte by byte -/

/-- The pictures with their times, from a number on. -/
def timedFrames (first : ℕ) : List (List UInt8) → List (Frame ℚ)
  | [] => []
  | luma :: rest => ⟨first / SAMPLE_FPS, luma⟩ :: timedFrames (first + 1) rest

/-- The sink that has begun a picture. -/
def withPending (held : GraySink × List UInt8) : GraySink :=
  { held.1 with pending := held.2 }

variable {sink next : GraySink} {bytes : List UInt8} {size : ℕ}

/-- What a full picture leaves as it was. -/
theorem pushFrame_cases {luma : List UInt8} (hpush : sink.pushFrame luma = .ok next) :
    next = { sink with
      tracker := sink.tracker.push ⟨sink.frames / SAMPLE_FPS, luma⟩
      frames := sink.frames + 1
      pending := [] } := by
  rw [pushFrame] at hpush
  split at hpush
  · cases hpush
  · rename_i frames hframes
    split_ifs at hpush
    rw [← eq_of_checkedAdd hframes]
    exact (Except.ok.inj hpush).symm

variable {begun : List UInt8} {maxSpans : ℕ} {request : SamplingRequest}

/-- A turn takes some bytes, and does with them what it would do byte by byte. -/
theorem consumeTurn_eq_feed (hshort : begun.length < sink.frameBytes) (hbytes : bytes ≠ []) :
    ∃ taken rest, bytes = taken ++ rest ∧ taken ≠ [] ∧
      (withPending (sink, begun)).consumeTurn bytes =
        some ((taken.foldlM (feed sink.frameBytes pushFrame) (sink, begun)).map
          fun held ↦ (withPending held, rest)) := by
  have hroom : checkedSub (withPending (sink, begun)).frameBytes
      (withPending (sink, begun)).pending.length = some (sink.frameBytes - begun.length) :=
    checkedSub_of_le hshort.le
  have hpos := length_pos_of_ne_nil hbytes
  refine ⟨bytes.take (min (sink.frameBytes - begun.length) bytes.length),
    bytes.drop (min (sink.frameBytes - begun.length) bytes.length),
    (take_append_drop _ _).symm, ?_, ?_⟩
  · refine ne_nil_of_length_pos ?_
    rw [length_take]
    omega
  · generalize hcount : min (sink.frameBytes - begun.length) bytes.length = count
    have htaken : (bytes.take count).length = count := by
      rw [length_take]
      omega
    rw [consumeTurn, hroom, Option.map_some]
    simp only [hcount]
    by_cases hfull : (begun ++ bytes.take count).length = sink.frameBytes
    · have hsum : begun.length + (bytes.take count).length = sink.frameBytes := by
        rw [← length_append]
        exact hfull
      rw [feed_full hshort hsum]
      show some (if (begun ++ bytes.take count).length = sink.frameBytes then _ else _) = _
      rw [if_pos hfull]
      show some (Except.map _ (sink.pushFrame (begun ++ bytes.take count))) = _
      cases hpush : sink.pushFrame (begun ++ bytes.take count) with
      | error error => rfl
      | ok next =>
        rw [pushFrame_cases hpush]
        rfl
    · have hsum : begun.length + (bytes.take count).length < sink.frameBytes := by
        rw [length_append] at hfull
        omega
      rw [feed_short hsum]
      show some (if (begun ++ bytes.take count).length = sink.frameBytes then _ else _) = _
      rw [if_neg hfull]
      rfl

variable {after held : GraySink × List UInt8} {chunks : List (List UInt8)}

/-- A picture that has begun stays short of its size. -/
theorem feed_pending {byte : UInt8} (hshort : held.2.length < held.1.frameBytes)
    (hfeed : feed held.1.frameBytes pushFrame held byte = .ok after) :
    after.1.frameBytes = held.1.frameBytes ∧ after.2.length < after.1.frameBytes := by
  rw [feed] at hfeed
  split_ifs at hfeed with hfull
  · cases hpush : held.1.pushFrame (held.2 ++ [byte]) with
    | error error =>
      rw [hpush] at hfeed
      cases hfeed
    | ok next =>
      rw [hpush] at hfeed
      cases hfeed
      rw [pushFrame_cases hpush]
      exact ⟨rfl, (Nat.zero_le _).trans_lt hshort⟩
  · cases hfeed
    refine ⟨rfl, ?_⟩
    show (held.2 ++ [byte]).length < held.1.frameBytes
    rw [length_append, length_singleton]
    omega

/-- Bytes keep the picture that has begun short of its size. -/
theorem feedAll_pending (hsize : held.1.frameBytes = size) (hshort : held.2.length < size)
    (hfeed : bytes.foldlM (feed size pushFrame) held = .ok after) :
    after.1.frameBytes = size ∧ after.2.length < size :=
  foldlM_keeps (fun held : GraySink × List UInt8 ↦ held.1.frameBytes = size ∧ held.2.length < size)
    (fun held byte after hheld hstep ↦ by
      obtain ⟨rfl, hlt⟩ := hheld
      obtain ⟨hsame, hafter⟩ := feed_pending hlt hstep
      exact ⟨hsame, hsame ▸ hafter⟩)
    ⟨hsize, hshort⟩ hfeed

section

variable (hsize : sink.frameBytes = size) (hshort : begun.length < size)
include hsize hshort

/-- The loop ends within as many turns as there are bytes, and does what it would do byte by
byte. -/
theorem consumeLoop_eq_feed {turns : ℕ} (hturns : bytes.length ≤ turns) :
    consumeLoop turns (withPending (sink, begun)) bytes =
      some ((bytes.foldlM (feed size pushFrame) (sink, begun)).map withPending) := by
  induction turns generalizing sink begun bytes with
  | zero =>
    obtain rfl := eq_nil_of_length_eq_zero (Nat.le_zero.mp hturns)
    rfl
  | succ turns ih =>
    cases hbytes : bytes with
    | nil => rfl
    | cons byte others =>
      rw [← hbytes]
      have hsome : bytes ≠ [] := by
        rw [hbytes]
        exact cons_ne_nil _ _
      obtain ⟨taken, rest, hsplit, htaken, hturn⟩ := consumeTurn_eq_feed (hsize ▸ hshort) hsome
      have hloop : consumeLoop (turns + 1) (withPending (sink, begun)) bytes =
          match (withPending (sink, begun)).consumeTurn bytes with
          | none => none
          | some (.error error) => some (.error error)
          | some (.ok (sink, bytes)) => consumeLoop turns sink bytes := by
        rw [hbytes]
        rfl
      rw [hloop, hturn, hsplit, foldlM_append, hsize]
      cases hfeed : taken.foldlM (feed size pushFrame) (sink, begun) with
      | error error => rfl
      | ok held =>
        obtain ⟨hheld, hlt⟩ := feedAll_pending hsize hshort hfeed
        obtain ⟨sink, begun⟩ := held
        refine ih hheld hlt ?_
        have hpos := length_pos_of_ne_nil htaken
        rw [hsplit, length_append] at hturns
        omega

/-- A chunk is taken in as it would be byte by byte. -/
theorem consume_eq_feed :
    (withPending (sink, begun)).consume bytes =
      some ((bytes.foldlM (feed size pushFrame) (sink, begun)).map withPending) :=
  consumeLoop_eq_feed hsize hshort le_rfl

/-- Chunks are taken in as their bytes would be. -/
theorem consumeAll_eq_feed :
    (withPending (sink, begun)).consumeAll chunks =
      some ((chunks.flatten.foldlM (feed size pushFrame) (sink, begun)).map withPending) := by
  induction chunks generalizing sink begun with
  | nil => rfl
  | cons chunk chunks ih =>
    rw [consumeAll, consume_eq_feed hsize hshort, flatten_cons, foldlM_append]
    cases hfeed : chunk.foldlM (feed size pushFrame) (sink, begun) with
    | error error => rfl
    | ok held =>
      obtain ⟨hheld, hlt⟩ := feedAll_pending hsize hshort hfeed
      obtain ⟨sink, begun⟩ := held
      exact ih hheld hlt

end

/-! ### Whole pictures -/

/-- Pictures that are taken in are pushed at their times. -/
theorem pushFrame_run {pictures : List (List UInt8)} (hnone : sink.pending = [])
    (hrun : pictures.foldlM pushFrame sink = .ok next) :
    next = { sink with
      tracker := sink.tracker.pushAll (timedFrames sink.frames pictures)
      frames := sink.frames + pictures.length } := by
  induction pictures generalizing sink with
  | nil => exact (Except.ok.inj hrun).symm
  | cons luma pictures ih =>
    rw [foldlM_cons] at hrun
    obtain ⟨mid, hpush, hrest⟩ := bind_eq_ok_iff.mp hrun
    obtain rfl := pushFrame_cases hpush
    rw [ih rfl hrest, length_cons]
    simp only [timedFrames, StillTracker.pushAll, foldl_cons, hnone, GraySink.mk.injEq,
      true_and, and_true]
    omega

/-- The time of a picture is its number over the sampling rate. -/
theorem timedFrames_eq_mapIdx (first : ℕ) (pictures : List (List UInt8)) :
    timedFrames first pictures =
      pictures.mapIdx fun index luma ↦ ⟨(first + index : ℕ) / SAMPLE_FPS, luma⟩ := by
  induction pictures generalizing first with
  | nil => rfl
  | cons luma pictures ih =>
    rw [timedFrames, ih, mapIdx_cons]
    simp only [Nat.add_zero, Nat.add_assoc, Nat.add_comm 1]

section

variable (hnew : new request maxSpans = .ok sink)
include hnew

/-- A new sink has the bounds of its request and holds nothing. -/
theorem new_cases :
    0 < request.frameBytes ∧ sink =
      { tracker := .new (atLeast .exact request.minIdleSeconds)
        pending := []
        frameBytes := request.frameBytes
        duration := request.duration
        frames := 0
        maxSpans := maxSpans
        stderr := []
        stderrOverflow := false } := by
  rw [new] at hnew
  split_ifs at hnew with hbounds
  exact ⟨Nat.pos_of_ne_zero fun hzero ↦ hbounds (Or.inl hzero), (Except.ok.inj hnew).symm⟩

/-- What a new sink does with chunks, as it depends on their bytes. -/
theorem consumeAll_new (chunks : List (List UInt8)) :
    sink.consumeAll chunks =
      some (((blocks request.frameBytes chunks.flatten).foldlM pushFrame sink).map
        fun next ↦ { next with pending := blocksRest request.frameBytes chunks.flatten }) := by
  obtain ⟨hpos, hsink⟩ := new_cases hnew
  have hsize : sink.frameBytes = request.frameBytes := by rw [hsink]
  have hempty : withPending (sink, []) = sink := by rw [hsink]; rfl
  have hfeed : (withPending (sink, [])).consumeAll chunks = _ := consumeAll_eq_feed hsize hpos
  rw [hempty, feed_stream hpos] at hfeed
  rw [hfeed]
  cases (blocks request.frameBytes chunks.flatten).foldlM pushFrame sink <;> rfl

/-- What a new sink holds after chunks that it took in. -/
theorem held_of_consumeAll (hconsume : sink.consumeAll chunks = some (.ok next)) :
    next = { sink with
      tracker := (StillTracker.new (atLeast .exact request.minIdleSeconds)).pushAll
        ((blocks request.frameBytes chunks.flatten).mapIdx fun index luma ↦
          ⟨index / SAMPLE_FPS, luma⟩)
      frames := chunks.flatten.length / request.frameBytes
      pending := blocksRest request.frameBytes chunks.flatten } := by
  obtain ⟨hpos, hsink⟩ := new_cases hnew
  rw [consumeAll_new hnew] at hconsume
  cases hrun : (blocks request.frameBytes chunks.flatten).foldlM pushFrame sink with
  | error error =>
    rw [hrun] at hconsume
    cases hconsume
  | ok pushed =>
    rw [hrun] at hconsume
    cases hconsume
    rw [pushFrame_run (by rw [hsink]) hrun, timedFrames_eq_mapIdx, length_blocks, hsink]
    simp only [Nat.zero_add]

end

/-- The analysis of a stream that comes in chunks. -/
def analysis (sink : GraySink) (chunks : List (List UInt8)) :
    Option (Except TrimError GrayAnalysis) :=
  (sink.consumeAll chunks).map fun result ↦ result.bind finish

/-- However a stream is cut into chunks, a new sink takes it in with the same outcome, an error or a
sink, and gives the same analysis. The difference never underflows and the loop ends. A sink that
took chunks in holds less than a picture, and has pushed the whole pictures of the stream, each at
its number over the sampling rate; their number and the rest of the stream are those of the
analysis. -/
theorem chunking_is_irrelevant {request : SamplingRequest} {maxSpans : ℕ}
    (hnew : new request maxSpans = .ok sink) :
    (∀ chunks others : List (List UInt8), chunks.flatten = others.flatten →
      sink.consumeAll chunks = sink.consumeAll others ∧
        sink.analysis chunks = sink.analysis others) ∧
    (∀ chunks : List (List UInt8), sink.consumeAll chunks ≠ none) ∧
    ∀ (chunks : List (List UInt8)) (next : GraySink), sink.consumeAll chunks = some (.ok next) →
      next.pending.length < next.frameBytes ∧
      next.tracker = (StillTracker.new (atLeast .exact request.minIdleSeconds)).pushAll
        ((blocks request.frameBytes chunks.flatten).mapIdx fun index luma ↦
          ⟨index / SAMPLE_FPS, luma⟩) ∧
      (∀ result, next.finish = .ok result →
        result.frames = chunks.flatten.length / request.frameBytes ∧
        result.trailingBytes = chunks.flatten.length % request.frameBytes) := by
  obtain ⟨hpos, hsink⟩ := new_cases hnew
  refine ⟨fun chunks others hsame ↦ ?_, fun chunks hnone ↦ ?_, fun chunks next hconsume ↦ ?_⟩
  · have hequal : sink.consumeAll chunks = sink.consumeAll others := by
      rw [consumeAll_new hnew, consumeAll_new hnew, hsame]
    exact ⟨hequal, by rw [analysis, analysis, hequal]⟩
  · rw [consumeAll_new hnew] at hnone
    cases hnone
  · have hnext := held_of_consumeAll hnew hconsume
    have hrest := length_blocksRest request.frameBytes chunks.flatten
    refine ⟨?_, by rw [hnext], fun result hfinish ↦ ?_⟩
    · rw [hnext, hsink]
      show (blocksRest request.frameBytes chunks.flatten).length < request.frameBytes
      rw [hrest]
      exact Nat.mod_lt _ hpos
    · rw [finish] at hfinish
      dsimp only at hfinish
      split_ifs at hfinish
      obtain rfl := Except.ok.inj hfinish
      rw [hnext]
      exact ⟨rfl, hrest⟩

/-- Two ways of cutting four bytes, for pictures of two bytes. -/
theorem chunking_is_irrelevant_pair :
    ∃ sink, new ⟨2, 3, 1⟩ 1 = .ok sink ∧
      sink.analysis [[1, 2, 3], [4]] = sink.analysis [[1], [], [2, 3, 4]] := by
  have hnew : new ⟨2, 3, 1⟩ 1 = .ok _ := rfl
  exact ⟨_, hnew, ((chunking_is_irrelevant hnew).1 _ _ rfl).2⟩

end GraySink

end ObsMcp.Trim
