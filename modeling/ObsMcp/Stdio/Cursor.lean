import ObsMcp.Foundations.Checked
import ObsMcp.Foundations.Fallible
import ObsMcp.Foundations.Json

/-!
# Publications of the standard output

What a publication of `stdio_output.rs` is made of. A publication is a list of cycles, each a list
of values with a number of repetitions; its expansion is the list of the frames it stands for
(`expansion`). A reservation counts and bounds the frames and their bytes (`plan`), encodes every
value once (`payload`), and leaves a cursor that walks over the encoded lines without materializing
the repetitions. `Cursor.remaining` is the list of the frames in front of a cursor: the cursor reads
its head (`current_eq`) and advances to its tail (`remaining_advance`), and it starts at the
expansion of the cycles (`payload_expansion`).

The encoding of a value, without the line end, is a parameter.
-/

namespace ObsMcp.Stdio

open Foundations List Option

/-- An encoded value with its line end. -/
abbrev Line := List UInt8

structure Cycle where
  values : List Json
  repetitions : ℕ

structure Limits where
  items : ℕ
  bytes : ℕ
  templateEntries : ℕ
  headerBytes : ℕ
  frames : ℕ
  amplifiedBytes : ℕ

/-- The limits of an output with a number of items and of bytes. -/
def Limits.ordinary (items bytes : ℕ) : Limits :=
  ⟨items, bytes, 4096, 256 * 1024, 256 * 1024, 256 * 1024 * 1024⟩

structure Segment where
  lines : List Line
  repetitions : ℕ

inductive Payload
  | single (line : Line)
  | repeated (segments : List Segment)

structure Cursor where
  payload : Payload
  segment : ℕ
  repetition : ℕ
  line : ℕ
  frames : ℕ

namespace Cursor

def current (cursor : Cursor) : Option Line :=
  match cursor.payload with
  | .single line => if cursor.segment = 0 then some line else none
  | .repeated segments =>
    segments[cursor.segment]?.map fun segment ↦ segment.lines.getD cursor.line []

def advance (cursor : Cursor) : Cursor :=
  match cursor.payload with
  | .single _ => { cursor with segment := 1 }
  | .repeated segments =>
    match segments[cursor.segment]? with
    | some segment =>
      if cursor.line + 1 = segment.lines.length then
        if cursor.repetition + 1 = segment.repetitions then
          { cursor with line := 0, repetition := 0, segment := cursor.segment + 1 }
        else
          { cursor with line := 0, repetition := cursor.repetition + 1 }
      else
        { cursor with line := cursor.line + 1 }
    | none => cursor

end Cursor

/-! ### Reservations -/

/-- The two errors of a reservation. -/
inductive Refusal
  | capacity
  | invalid
  deriving DecidableEq

/-- The sums of a reservation. -/
structure Tally where
  frames : ℕ
  amplification : ℕ
  templates : ℕ
  headers : ℕ
  maximum : ℕ
  encodedSum : ℕ

/-- The size of a segment and of the head of a line. -/
def segmentBytes : ℕ := 32

def vecBytes : ℕ := 24

def require (condition : Bool) (refusal : Refusal) : Except Refusal Unit :=
  if condition then .ok () else .error refusal

/-- A checked sum or product within a bound. -/
def bounded (value : Option ℕ) (test : ℕ → Bool) : Except Refusal ℕ :=
  match value.filter test with
  | some n => .ok n
  | none => .error .capacity

section Encoding

variable (encoding : Json → List UInt8) (limits : Limits)

/-- The length of the line of a value, within a limit. -/
def encodedLength (value : Json) (limit : ℕ) : Except Refusal ℕ :=
  let length := (encoding value).length
  if length ≤ limit - 1 ∧ length + 1 ≤ limit then .ok (length + 1) else .error .capacity

/-- The line of a value, of a length counted before. -/
def encode (value : Json) (length : ℕ) : Except Refusal Line :=
  if (encoding value).length ≤ length - 1 then
    if (encoding value).length + 1 = length then .ok (encoding value ++ [10])
    else .error .invalid
  else
    .error .capacity

def tallyValue (single : Bool) (repetitions : ℕ) (tally : Tally) (value : Json) :
    Except Refusal Tally := do
  let length ← encodedLength encoding value limits.bytes
  let encodedSum ← bounded (checkedAdd tally.encodedSum length) (fun n ↦ n ≤ limits.bytes)
  let amplified ← bounded (checkedMul length repetitions) (fun _ ↦ true)
  let amplification ← bounded (checkedAdd tally.amplification amplified)
    (fun n ↦ single || n ≤ limits.amplifiedBytes)
  return { tally with maximum := max tally.maximum length, encodedSum, amplification }

def tallyCycle (single : Bool) (count : ℕ) (tally : Tally) (cycle : Cycle) :
    Except Refusal Tally := do
  require (!(cycle.values.isEmpty || cycle.repetitions == 0)) .invalid
  let templates ← bounded (checkedAdd tally.templates cycle.values.length) (fun _ ↦ true)
  require (single || (checkedAdd templates count).any (fun n ↦ n ≤ limits.templateEntries))
    .capacity
  let emitted ← bounded (checkedMul cycle.values.length cycle.repetitions) (fun _ ↦ true)
  let frames ← bounded (checkedAdd tally.frames emitted) (fun n ↦ single || n ≤ limits.frames)
  let heads ← bounded (checkedMul cycle.values.length vecBytes) (fun _ ↦ true)
  let headers ← bounded (checkedAdd tally.headers heads) (fun _ ↦ true)
  cycle.values.foldlM (tallyValue encoding limits single cycle.repetitions)
    { tally with templates, frames, headers }

/-- One value that is published once. -/
def isSingle : List Cycle → Bool
  | [cycle] => cycle.values.length == 1 && cycle.repetitions == 1
  | _ => false

/-- The checks of `Output::reserve_publication`. -/
def plan (cycles : List Cycle) : Except Refusal Tally := do
  let single := isSingle cycles
  require (!(cycles.isEmpty || (!single && limits.templateEntries < cycles.length))) .invalid
  let headers ← bounded (checkedMul cycles.length segmentBytes) (fun _ ↦ true)
  cycles.foldlM (tallyCycle encoding limits single cycles.length) ⟨0, 0, 0, headers, 0, 0⟩

def encodeCycle (cycle : Cycle) : Except Refusal Segment := do
  let lines ← cycle.values.mapM fun value ↦ do
    let length ← encodedLength encoding value limits.bytes
    encode encoding value length
  return ⟨lines, cycle.repetitions⟩

/-- The encoded lines of a planned publication. -/
def payload (cycles : List Cycle) (tally : Tally) : Except Refusal Payload :=
  if tally.frames = 1 then
    match cycles with
    | ⟨value :: _, _⟩ :: _ => Payload.single <$> encode encoding value tally.maximum
    | _ => .error .invalid
  else
    Payload.repeated <$> cycles.mapM (encodeCycle encoding limits)

/-! ### Expansions -/

/-- The line of a value. -/
def lineOf (value : Json) : Line := encoding value ++ [10]

/-- The frames of a cycle. -/
def Cycle.frames (cycle : Cycle) : List Line :=
  (List.replicate cycle.repetitions (cycle.values.map (lineOf encoding))).flatten

/-- The frames of a publication. -/
def expansion (cycles : List Cycle) : List Line :=
  cycles.flatMap (Cycle.frames encoding)

end Encoding

def Segment.frames (segment : Segment) : List Line :=
  (List.replicate segment.repetitions segment.lines).flatten

/-- The frames of a segment from a repetition and a line on. -/
def Segment.remaining (segment : Segment) (repetition line : ℕ) : List Line :=
  segment.lines.drop line ++
    (List.replicate (segment.repetitions - (repetition + 1)) segment.lines).flatten

namespace Cursor

/-- The frames in front of a cursor. -/
def remaining (cursor : Cursor) : List Line :=
  match cursor.payload with
  | .single line => if cursor.segment = 0 then [line] else []
  | .repeated segments =>
    match segments.drop cursor.segment with
    | [] => []
    | segment :: rest =>
      segment.remaining cursor.repetition cursor.line ++ rest.flatMap Segment.frames

/-- The cursor is at a line of its payload or at the end. -/
def Valid (cursor : Cursor) : Prop :=
  match cursor.payload with
  | .single _ => True
  | .repeated segments =>
    (∀ segment ∈ segments, 0 < segment.lines.length ∧ 0 < segment.repetitions) ∧
      ∀ segment : Segment, segments[cursor.segment]? = some segment →
        cursor.line < segment.lines.length ∧ cursor.repetition < segment.repetitions

end Cursor

namespace Segment

variable {segment : Segment} {repetition line : ℕ}

theorem remaining_zero (hrepetitions : 0 < segment.repetitions) :
    segment.remaining 0 0 = segment.frames := by
  unfold remaining frames
  obtain ⟨count, hcount⟩ := Nat.exists_eq_succ_of_ne_zero (Nat.pos_iff_ne_zero.mp hrepetitions)
  rw [hcount, replicate_succ]
  simp

theorem remaining_line (hline : line < segment.lines.length) :
    segment.remaining repetition line =
      segment.lines.getD line [] :: segment.remaining repetition (line + 1) := by
  unfold remaining
  rw [List.drop_eq_getElem_cons hline, cons_append, getD_eq_getElem?_getD,
    getElem?_eq_getElem hline, getD_some]

/-- The end of a repetition is the start of the next one. -/
theorem remaining_repetition (hline : line = segment.lines.length)
    (hrepetition : repetition + 1 < segment.repetitions) :
    segment.remaining repetition line = segment.remaining (repetition + 1) 0 := by
  unfold remaining
  obtain ⟨count, hcount⟩ : ∃ count, segment.repetitions - (repetition + 1) = count + 1 :=
    ⟨segment.repetitions - (repetition + 2), by omega⟩
  have hnext : segment.repetitions - (repetition + 1 + 1) = count := by omega
  rw [hline, drop_length, hcount, hnext, replicate_succ, flatten_cons]
  simp

theorem remaining_end (hline : line = segment.lines.length)
    (hrepetition : repetition + 1 = segment.repetitions) :
    segment.remaining repetition line = [] := by
  unfold remaining
  rw [hline, hrepetition]
  simp

end Segment

namespace Cursor

variable {cursor : Cursor}

theorem current_eq (hvalid : cursor.Valid) : cursor.current = cursor.remaining.head? := by
  unfold Valid at hvalid
  unfold current remaining
  cases hpayload : cursor.payload with
  | single line =>
    simp only
    split_ifs <;> rfl
  | repeated segments =>
    simp only [hpayload] at hvalid ⊢
    cases hsegment : segments[cursor.segment]? with
    | none =>
      rw [drop_eq_nil_of_le (getElem?_eq_none_iff.mp hsegment)]
      rfl
    | some segment =>
      obtain ⟨hlt, hget⟩ := List.getElem?_eq_some_iff.mp hsegment
      rw [List.drop_eq_getElem_cons hlt, hget]
      simp only [Segment.remaining_line (hvalid.2 segment hsegment).1, map_some,
        cons_append, head?_cons]

/-- One step of the cursor leaves the frames after the current one. -/
theorem remaining_advance (hvalid : cursor.Valid) :
    cursor.advance.remaining = cursor.remaining.tail ∧ cursor.advance.Valid ∧
      cursor.advance.payload = cursor.payload ∧ cursor.advance.frames = cursor.frames := by
  unfold Valid at hvalid
  cases hpayload : cursor.payload with
  | single line =>
    simp only [advance, hpayload]
    refine ⟨?_, ?_, trivial, trivial⟩
    · simp only [remaining, hpayload, Nat.one_ne_zero, if_false]
      split_ifs <;> rfl
    · simp only [Valid]
  | repeated segments =>
    simp only [hpayload] at hvalid
    cases hsegment : segments[cursor.segment]? with
    | none =>
      have hdrop := drop_eq_nil_of_le (getElem?_eq_none_iff.mp hsegment)
      simp only [advance, hpayload, hsegment]
      refine ⟨?_, ?_, trivial, trivial⟩
      · simp [remaining, hpayload, hdrop]
      · simpa only [Valid, hpayload] using hvalid
    | some segment =>
      obtain ⟨hlt, hget⟩ := List.getElem?_eq_some_iff.mp hsegment
      obtain ⟨hline, hrepetition⟩ := hvalid.2 segment hsegment
      have hdrop := List.drop_eq_getElem_cons hlt
      rw [hget] at hdrop
      have hbefore : cursor.remaining.tail =
          segment.remaining cursor.repetition (cursor.line + 1) ++
            (segments.drop (cursor.segment + 1)).flatMap Segment.frames := by
        simp only [remaining, hpayload, hdrop, Segment.remaining_line hline, cons_append,
          tail_cons]
      rw [hbefore]
      simp only [advance, hpayload, hsegment]
      split_ifs with hlast hrepeated
      · refine ⟨?_, ?_, rfl, rfl⟩
        · rw [Segment.remaining_end hlast hrepeated, nil_append]
          simp only [remaining]
          cases hrest : segments.drop (cursor.segment + 1) with
          | nil => rfl
          | cons next rest =>
            have hmem : next ∈ segments :=
              mem_of_mem_drop (hrest ▸ mem_cons_self : next ∈ segments.drop _)
            simp only [Segment.remaining_zero (hvalid.1 next hmem).2, flatMap_cons]
        · simp only [Valid]
          exact ⟨hvalid.1, fun next hnext ↦ hvalid.1 next (mem_of_getElem? hnext)⟩
      · refine ⟨?_, ?_, rfl, rfl⟩
        · simp only [remaining, hdrop]
          rw [Segment.remaining_repetition hlast (by omega)]
        · simp only [Valid]
          refine ⟨hvalid.1, fun next hnext ↦ ?_⟩
          obtain rfl : segment = next := some.inj (hsegment.symm.trans hnext)
          exact ⟨by omega, by omega⟩
      · refine ⟨?_, ?_, rfl, rfl⟩
        · simp only [remaining, hdrop]
        · simp only [Valid]
          refine ⟨hvalid.1, fun next hnext ↦ ?_⟩
          obtain rfl : segment = next := some.inj (hsegment.symm.trans hnext)
          exact ⟨by omega, by omega⟩

end Cursor

/-! ### What a plan and its payload are -/

@[simp] theorem require_eq_ok_iff {condition : Bool} {refusal : Refusal} {u : Unit} :
    require condition refusal = .ok u ↔ condition = true := by
  unfold require
  split_ifs with hcondition
  · exact iff_of_true rfl hcondition
  · exact iff_of_false (by simp) hcondition

theorem of_bounded {value : Option ℕ} {test : ℕ → Bool} {n : ℕ}
    (hbounded : bounded value test = .ok n) : value = some n := by
  unfold bounded at hbounded
  cases hfilter : value.filter test with
  | none =>
    rw [hfilter] at hbounded
    cases hbounded
  | some m =>
    rw [hfilter] at hbounded
    obtain rfl : m = n := by simpa using hbounded
    exact (filter_eq_some_iff.mp hfilter).1

section Plans

variable {encoding : Json → List UInt8} {limits : Limits} {single : Bool}

theorem length_lineOf (value : Json) :
    (lineOf encoding value).length = (encoding value).length + 1 := by
  simp [lineOf]

variable {value : Json} {next tally : Tally} {repetitions : ℕ} {cycle : Cycle} {cycles : List Cycle}

variable {count length : ℕ} {line : Line} {values : List Json}

theorem of_encodedLength {limit : ℕ} (hlength : encodedLength encoding value limit = .ok length) :
    length = (lineOf encoding value).length := by
  unfold encodedLength at hlength
  simp only at hlength
  split_ifs at hlength
  rw [length_lineOf]
  exact (Except.ok.inj hlength).symm

theorem of_encode (hencode : encode encoding value length = .ok line) :
    line = lineOf encoding value := by
  unfold encode at hencode
  split_ifs at hencode
  exact (Except.ok.inj hencode).symm

theorem of_tallyValue
    (htally : tallyValue encoding limits single repetitions tally value = .ok next) :
    next.frames = tally.frames ∧
      next.maximum = max tally.maximum (lineOf encoding value).length := by
  unfold tallyValue at htally
  obtain ⟨length, hlength, htally⟩ := bind_eq_ok_iff.mp htally
  obtain ⟨encodedSum, -, htally⟩ := bind_eq_ok_iff.mp htally
  obtain ⟨amplified, -, htally⟩ := bind_eq_ok_iff.mp htally
  obtain ⟨amplification, -, htally⟩ := bind_eq_ok_iff.mp htally
  obtain rfl := pure_eq_ok_iff.mp htally
  exact ⟨rfl, by rw [of_encodedLength hlength]⟩

/-- The values of a cycle change no count of frames, and the maximum bounds their lines. -/
theorem of_tallyValues
    (htally : values.foldlM (tallyValue encoding limits single repetitions) tally = .ok next) :
    next.frames = tally.frames ∧ tally.maximum ≤ next.maximum ∧
      ∀ value ∈ values, (lineOf encoding value).length ≤ next.maximum := by
  induction values generalizing tally with
  | nil =>
    rw [foldlM_nil, pure_eq_ok_iff] at htally
    subst htally
    exact ⟨rfl, Nat.le_refl _, by simp⟩
  | cons value values ih =>
    rw [foldlM_cons, bind_eq_ok_iff] at htally
    obtain ⟨middle, hvalue, hvalues⟩ := htally
    obtain ⟨hframes, hmaximum⟩ := of_tallyValue hvalue
    obtain ⟨hrest, hle, hbound⟩ := ih hvalues
    refine ⟨hrest.trans hframes, by omega, fun other hother ↦ ?_⟩
    rcases mem_cons.mp hother with rfl | hother
    · omega
    · exact hbound other hother

theorem of_tallyCycle (htally : tallyCycle encoding limits single count tally cycle = .ok next) :
    cycle.values ≠ [] ∧ 0 < cycle.repetitions ∧
      next.frames = tally.frames + cycle.values.length * cycle.repetitions ∧
      tally.maximum ≤ next.maximum ∧
      ∀ value ∈ cycle.values, (lineOf encoding value).length ≤ next.maximum := by
  unfold tallyCycle at htally
  obtain ⟨⟨⟩, hnonempty, htally⟩ := bind_eq_ok_iff.mp htally
  obtain ⟨templates, -, htally⟩ := bind_eq_ok_iff.mp htally
  obtain ⟨⟨⟩, -, htally⟩ := bind_eq_ok_iff.mp htally
  obtain ⟨emitted, hemitted, htally⟩ := bind_eq_ok_iff.mp htally
  obtain ⟨frames, hframes, htally⟩ := bind_eq_ok_iff.mp htally
  obtain ⟨heads, -, htally⟩ := bind_eq_ok_iff.mp htally
  obtain ⟨headers, -, htally⟩ := bind_eq_ok_iff.mp htally
  obtain ⟨hcount, hmaximum, hbound⟩ := of_tallyValues htally
  rw [require_eq_ok_iff] at hnonempty
  have hframesEq := eq_of_checkedAdd (of_bounded hframes)
  have hemittedEq := eq_of_checkedMul (of_bounded hemitted)
  simp only [Bool.not_eq_true', Bool.or_eq_false_iff, isEmpty_eq_false_iff,
    beq_eq_false_iff_ne] at hnonempty
  refine ⟨hnonempty.1, Nat.pos_of_ne_zero hnonempty.2, ?_, hmaximum, hbound⟩
  rw [hcount, hframesEq, hemittedEq]

theorem length_frames (cycle : Cycle) :
    (cycle.frames encoding).length = cycle.values.length * cycle.repetitions := by
  simp [Cycle.frames, Nat.mul_comm]

theorem mem_frames (hline : line ∈ cycle.frames encoding) :
    ∃ value ∈ cycle.values, line = lineOf encoding value := by
  obtain ⟨lines, hlines, hmem⟩ := mem_flatten.mp hline
  rw [eq_of_mem_replicate hlines] at hmem
  obtain ⟨value, hvalue, rfl⟩ := mem_map.mp hmem
  exact ⟨value, hvalue, rfl⟩

/-- What a plan counts and bounds. -/
structure Planned (encoding : Json → List UInt8) (cycles : List Cycle) (tally : Tally) : Prop where
  nonempty : ∀ cycle ∈ cycles, cycle.values ≠ [] ∧ 0 < cycle.repetitions
  frames : tally.frames = (expansion encoding cycles).length
  maximum : ∀ line ∈ expansion encoding cycles, line.length ≤ tally.maximum

theorem of_tallyCycles
    (htally : cycles.foldlM (tallyCycle encoding limits single count) tally = .ok next) :
    (∀ cycle ∈ cycles, cycle.values ≠ [] ∧ 0 < cycle.repetitions) ∧
      next.frames = tally.frames + (expansion encoding cycles).length ∧
      tally.maximum ≤ next.maximum ∧
      ∀ line ∈ expansion encoding cycles, line.length ≤ next.maximum := by
  induction cycles generalizing tally with
  | nil =>
    rw [foldlM_nil, pure_eq_ok_iff] at htally
    subst htally
    exact ⟨by simp, by simp [expansion], Nat.le_refl _, by simp [expansion]⟩
  | cons cycle cycles ih =>
    rw [foldlM_cons, bind_eq_ok_iff] at htally
    obtain ⟨middle, hcycle, hcycles⟩ := htally
    obtain ⟨hvalues, hrepetitions, hframes, hmaximum, hbound⟩ := of_tallyCycle hcycle
    obtain ⟨hnonempty, hrest, hle, hrestBound⟩ := ih hcycles
    have hexpansion : expansion encoding (cycle :: cycles) =
        cycle.frames encoding ++ expansion encoding cycles := flatMap_cons
    refine ⟨forall_mem_cons.mpr ⟨⟨hvalues, hrepetitions⟩, hnonempty⟩, ?_, by omega,
      fun line hline ↦ ?_⟩
    · rw [hexpansion, length_append, length_frames]
      omega
    · rw [hexpansion] at hline
      rcases mem_append.mp hline with hline | hline
      · obtain ⟨value, hvalue, rfl⟩ := mem_frames hline
        have := hbound value hvalue
        omega
      · exact hrestBound line hline

theorem planned_of_plan (hplan : plan encoding limits cycles = .ok tally) :
    Planned encoding cycles tally := by
  unfold plan at hplan
  obtain ⟨⟨⟩, -, hplan⟩ := bind_eq_ok_iff.mp hplan
  obtain ⟨headers, -, hplan⟩ := bind_eq_ok_iff.mp hplan
  obtain ⟨hnonempty, hframes, -, hbound⟩ := of_tallyCycles hplan
  exact ⟨hnonempty, by simpa using hframes, hbound⟩

/-- A publication of one frame is one value published once. -/
theorem expansion_of_one
    (hnonempty : ∀ cycle ∈ (⟨value :: values, repetitions⟩ :: cycles : List Cycle),
      cycle.values ≠ [] ∧ 0 < cycle.repetitions)
    (hone : (expansion encoding (⟨value :: values, repetitions⟩ :: cycles)).length = 1) :
    expansion encoding (⟨value :: values, repetitions⟩ :: cycles) = [lineOf encoding value] := by
  have hrepetitions := (hnonempty _ mem_cons_self).2
  obtain ⟨count, hcount⟩ := Nat.exists_eq_succ_of_ne_zero (Nat.pos_iff_ne_zero.mp hrepetitions)
  simp only at hcount
  subst hcount
  have hhead : ∃ rest, expansion encoding (⟨value :: values, count + 1⟩ :: cycles) =
      lineOf encoding value :: rest := by
    simp [expansion, Cycle.frames, replicate_succ]
  obtain ⟨rest, hrest⟩ := hhead
  rw [hrest] at hone ⊢
  obtain rfl : rest = [] := by simpa using hone
  rfl

theorem of_encodeCycle {segment : Segment}
    (hencode : encodeCycle encoding limits cycle = .ok segment) :
    segment = ⟨cycle.values.map (lineOf encoding), cycle.repetitions⟩ := by
  unfold encodeCycle at hencode
  obtain ⟨lines, hlines, hsegment⟩ := bind_eq_ok_iff.mp hencode
  obtain rfl := pure_eq_ok_iff.mp hsegment
  have hvalues : lines = cycle.values.map (lineOf encoding) := by
    refine eq_map_of_mapM hlines fun value _ line hline ↦ ?_
    obtain ⟨length, -, hline⟩ := bind_eq_ok_iff.mp hline
    exact of_encode hline
  rw [hvalues]

/-- The cursor of a new reservation stands in front of the expansion. -/
theorem payload_expansion {encoded : Payload} (hplanned : Planned encoding cycles tally)
    (hpayload : payload encoding limits cycles tally = .ok encoded) :
    let cursor : Cursor := ⟨encoded, 0, 0, 0, tally.frames⟩
    cursor.Valid ∧ cursor.remaining = expansion encoding cycles := by
  unfold payload at hpayload
  split_ifs at hpayload with hone
  · split at hpayload
    · rename_i value values repetitions rest
      obtain ⟨line, hline, rfl⟩ := map_eq_ok_iff.mp hpayload
      rw [of_encode hline]
      refine ⟨trivial, ?_⟩
      rw [expansion_of_one hplanned.nonempty (hplanned.frames ▸ hone)]
      rfl
    · cases hpayload
  · obtain ⟨segments, hsegments, rfl⟩ := map_eq_ok_iff.mp hpayload
    obtain rfl := eq_map_of_mapM hsegments fun cycle _ segment hsegment ↦ of_encodeCycle hsegment
    have hpositive : ∀ cycle ∈ cycles,
        0 < (cycle.values.map (lineOf encoding)).length ∧ 0 < cycle.repetitions := by
      intro cycle hcycle
      obtain ⟨hvalues, hrepetitions⟩ := hplanned.nonempty cycle hcycle
      exact ⟨by simpa using length_pos_iff.mpr hvalues, hrepetitions⟩
    refine ⟨⟨fun segment hsegment ↦ ?_, fun segment hsegment ↦ ?_⟩, ?_⟩
    · obtain ⟨cycle, hcycle, rfl⟩ := mem_map.mp hsegment
      exact hpositive cycle hcycle
    · obtain ⟨cycle, hcycle, rfl⟩ := mem_map.mp (mem_of_getElem? hsegment)
      exact hpositive cycle hcycle
    · cases cycles with
      | nil => rfl
      | cons cycle cycles =>
        have hrepetitions := (hpositive cycle mem_cons_self).2
        simp only [Cursor.remaining, drop_zero, map_cons]
        rw [Segment.remaining_zero hrepetitions, flatMap_map]
        rfl

end Plans

end ObsMcp.Stdio
