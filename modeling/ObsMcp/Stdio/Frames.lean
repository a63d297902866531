import Mathlib.Tactic.Ring
import ObsMcp.Foundations.Pieces

/-!
# Frames of the standard input

`Frames.next` of `stdio_input.rs` reads frames that end with a newline. The reader hands out bytes
in chunks of its own choice (`Fill`), a call may be dropped while it waits for a chunk, and the
bytes of a frame that has begun stay in `pending`. `next_called` says what a call does to the frames
in front of it: it answers with the next one and takes it away, or leaves them as they are. Whether
it answers depends on its fills alone (`next_eq_none_iff`, `next_eq_read_iff`). So the answers of
any sequence of calls are those of the stream cut after every newline, and none is held back
(`run_frames`).
-/

namespace ObsMcp.Stdio

open Foundations List Option

/-! ### A call -/

def MAX_FRAME_BYTES : ℕ := 8 * 1024 * 1024

def NEWLINE : UInt8 := 10

/-- How a wait for the reader ends: with one byte and some more, as far as there are any, or with an
error. -/
inductive Fill
  | ready (more : ℕ)
  | failed

/-- The bytes that were not consumed, and those of a frame that has begun. -/
structure Frames where
  reader : List UInt8
  pending : List UInt8

inductive FrameError
  | read
  | invalidData
  deriving DecidableEq

/-- The answer of a call that is not dropped: a frame, nothing at the end of the input, or an
error. -/
abbrev Answer := Except FrameError (Option (List UInt8))

/-- A call to `next` with the fills that it gets; it is dropped when it waits for another one. -/
def Frames.next : Frames → List Fill → Frames × Option Answer
  | frames, [] => (frames, none)
  | frames, .failed :: _ => (frames, some (.error .read))
  | frames, .ready more :: fills =>
    let available := frames.reader.take (more + 1)
    if available.isEmpty then
      if frames.pending.isEmpty then (frames, some (.ok none))
      else ({ frames with pending := [] }, some (.ok (some frames.pending)))
    else
      let newline := available.findIdx? (· = NEWLINE)
      let count := newline.elim available.length (· + 1)
      if frames.pending.length + count > MAX_FRAME_BYTES then (frames, some (.error .invalidData))
      else
        let pending := frames.pending ++ available.take count
        if newline.isSome then (⟨frames.reader.drop count, []⟩, some (.ok (some pending)))
        else Frames.next ⟨frames.reader.drop count, pending⟩ fills

/-- The state after calls, and the answers of those that were not dropped. -/
def Frames.run : Frames → List (List Fill) → Frames × List Answer
  | frames, [] => (frames, [])
  | frames, call :: calls =>
    let called := frames.next call
    let later := Frames.run called.1 calls
    (later.1, called.2.toList ++ later.2)

/-! ### The fills of a call -/

/-- The bytes that fills ask for. -/
def asked (fills : List Fill) : ℕ :=
  (fills.map fun
    | .ready more => more + 1
    | .failed => 0).sum

/-- A call has not ended with its fills: none of them failed, the last one found bytes, and what
they brought holds no newline and is not too long. -/
structure Frames.Waits (frames : Frames) (fills : List Fill) : Prop where
  ready : .failed ∉ fills
  found : fills = [] ∨ asked fills.dropLast < frames.reader.length
  unended : NEWLINE ∉ frames.reader.take (asked fills)
  short : frames.pending.length + (frames.reader.take (asked fills)).length ≤ MAX_FRAME_BYTES

/-! ### The frames in front of a call -/

/-- A stream cut after every newline. -/
def cut (stream : List UInt8) : List (List UInt8) :=
  pieces (· = NEWLINE) [] stream

def Frames.remaining (frames : Frames) : List (List UInt8) :=
  pieces (· = NEWLINE) frames.pending frames.reader

/-- The answer for frames. -/
def answer : List (List UInt8) → Answer
  | [] => .ok none
  | frame :: _ => if frame.length ≤ MAX_FRAME_BYTES then .ok (some frame) else .error .invalidData

/-- The frames after their answer. -/
def advance : List (List UInt8) → List (List UInt8)
  | [] => []
  | frame :: frames => if frame.length ≤ MAX_FRAME_BYTES then frames else frame :: frames

section Next

variable {frames : Frames} {fills : List Fill} {more index : ℕ}

/-- A fill at the end of the input. -/
theorem next_nil (hreader : frames.reader = []) : frames.next (.ready more :: fills) =
    if frames.pending.isEmpty then (frames, some (.ok none))
    else ({ frames with pending := [] }, some (.ok (some frames.pending))) := by
  unfold Frames.next
  rw [hreader]
  rfl

/-- A fill without a newline. -/
theorem next_none (hreader : frames.reader ≠ [])
    (hnone : (frames.reader.take (more + 1)).findIdx? (· = NEWLINE) = none) :
    frames.next (.ready more :: fills) =
      if frames.pending.length + (frames.reader.take (more + 1)).length > MAX_FRAME_BYTES then
        (frames, some (.error .invalidData))
      else Frames.next ⟨frames.reader.drop (more + 1),
        frames.pending ++ frames.reader.take (more + 1)⟩ fills := by
  have hempty : (frames.reader.take (more + 1)).isEmpty = false := by
    simpa using hreader
  have hdrop : frames.reader.drop (frames.reader.take (more + 1)).length =
      frames.reader.drop (more + 1) := by
    rw [length_take]
    rcases Nat.le_total (more + 1) frames.reader.length with hle | hle
    · rw [Nat.min_eq_left hle]
    · rw [Nat.min_eq_right hle, drop_length, drop_eq_nil_of_le hle]
  conv_lhs => unfold Frames.next
  simp only [hempty, hnone, Bool.false_eq_true, if_false, elim_none, take_length, hdrop,
    isSome_none]

/-- A fill with a newline. -/
theorem next_some (hindex : (frames.reader.take (more + 1)).findIdx? (· = NEWLINE) = some index) :
    frames.next (.ready more :: fills) =
      if frames.pending.length + (index + 1) > MAX_FRAME_BYTES then
        (frames, some (.error .invalidData))
      else (⟨frames.reader.drop (index + 1), []⟩,
        some (.ok (some
          (frames.pending ++ (frames.reader.take (more + 1)).take (index + 1))))) := by
  have hempty : (frames.reader.take (more + 1)).isEmpty = false := by
    rw [isEmpty_eq_false_iff]
    intro hnil
    rw [hnil] at hindex
    simp at hindex
  unfold Frames.next
  simp only [hempty, hindex, Bool.false_eq_true, if_false, elim_some, isSome_some,
    if_true]

/-- What a call does to the frames in front of it: it answers and takes the next one away, or it is
dropped or fails, and leaves them. -/
inductive Called (frames after : Frames) : Option Answer → Prop
  | dropped (hsame : after.remaining = frames.remaining) : Called frames after none
  | failed (hsame : after.remaining = frames.remaining) : Called frames after (some (.error .read))
  | answered (hnext : after.remaining = advance frames.remaining) :
    Called frames after (some (answer frames.remaining))

theorem Called.congr {before after : Frames} {answered : Option Answer}
    (hsame : before.remaining = frames.remaining) (hcalled : Called before after answered) :
    Called frames after answered := by
  cases hcalled with
  | dropped hafter => exact .dropped (hafter.trans hsame)
  | failed hafter => exact .failed (hafter.trans hsame)
  | answered hafter => exact hsame ▸ .answered (hsame ▸ hafter)

theorem Called.tooLong {frame : List UInt8} {frames' : List (List UInt8)}
    (hremaining : frames.remaining = frame :: frames') (hlong : MAX_FRAME_BYTES < frame.length) :
    Called frames frames (some (.error .invalidData)) := by
  have hanswer : answer frames.remaining = .error .invalidData := by
    rw [hremaining]
    exact if_neg (Nat.not_le.mpr hlong)
  have hadvance : advance frames.remaining = frames.remaining := by
    rw [hremaining]
    exact if_neg (Nat.not_le.mpr hlong)
  rw [← hanswer]
  exact .answered hadvance.symm

theorem Called.frame {after : Frames} {frame : List UInt8}
    (hremaining : frames.remaining = frame :: after.remaining)
    (hshort : frame.length ≤ MAX_FRAME_BYTES) : Called frames after (some (.ok (some frame))) := by
  have hanswer : answer frames.remaining = .ok (some frame) := by
    rw [hremaining]
    exact if_pos hshort
  rw [← hanswer]
  refine .answered ?_
  rw [hremaining]
  exact (if_pos hshort).symm

theorem next_called (hpending : frames.pending.length ≤ MAX_FRAME_BYTES) :
    Called frames (frames.next fills).1 (frames.next fills).2 ∧
      (frames.next fills).1.pending.length ≤ MAX_FRAME_BYTES := by
  induction fills generalizing frames with
  | nil => exact ⟨.dropped rfl, hpending⟩
  | cons fill fills ih =>
    cases fill with
    | failed => exact ⟨.failed rfl, hpending⟩
    | ready more =>
      have hsplit := take_append_drop (more + 1) frames.reader
      by_cases hreader : frames.reader = []
      · rw [next_nil hreader]
        split_ifs with hbegun
        · have hremaining : frames.remaining = [] := by
            rw [Frames.remaining, hreader, pieces, if_pos hbegun]
          have hanswer : answer frames.remaining = .ok none := by rw [hremaining]; rfl
          refine ⟨hanswer ▸ .answered ?_, hpending⟩
          rw [hremaining]
          rfl
        · have hremaining : frames.remaining = [frames.pending] := by
            rw [Frames.remaining, hreader, pieces, if_neg hbegun]
          refine ⟨.frame (hremaining.trans ?_) hpending, Nat.zero_le _⟩
          rw [Frames.remaining, hreader]
          rfl
      · cases hindex : (frames.reader.take (more + 1)).findIdx? (· = NEWLINE) with
        | none =>
          have hremaining : frames.remaining = pieces (· = NEWLINE)
              (frames.pending ++ frames.reader.take (more + 1))
                (frames.reader.drop (more + 1)) := by
            rw [Frames.remaining, ← pieces_of_findIdx?_eq_none hindex, hsplit]
          rw [next_none hreader hindex]
          split_ifs with hlong
          · have hbegun : frames.pending ++ frames.reader.take (more + 1) ≠ [] := by
              simp [hreader]
            obtain ⟨behind, others, hpieces⟩ := @pieces_of_ne_nil _
              (· = NEWLINE) _ (frames.reader.drop (more + 1)) hbegun
            refine ⟨.tooLong (hremaining.trans hpieces) ?_, hpending⟩
            simp only [length_append]
            omega
          · have hnext := @ih ⟨frames.reader.drop (more + 1),
              frames.pending ++ frames.reader.take (more + 1)⟩ (by
                rw [length_append]
                omega)
            have hsame : Frames.remaining ⟨frames.reader.drop (more + 1),
              frames.pending ++ frames.reader.take (more + 1)⟩ = frames.remaining := hremaining.symm
            exact ⟨hnext.1.congr hsame, hnext.2⟩
        | some index =>
          obtain ⟨hlength, -⟩ := findIdx?_eq_some_iff_getElem.mp hindex
          have hdrop : frames.reader.drop (index + 1) =
              (frames.reader.take (more + 1)).drop (index + 1) ++
                frames.reader.drop (more + 1) := by
            conv_lhs => rw [← hsplit]
            exact drop_append_of_le_length hlength
          have hremaining : frames.remaining =
              (frames.pending ++ (frames.reader.take (more + 1)).take (index + 1)) ::
                pieces (· = NEWLINE) [] (frames.reader.drop (index + 1)) := by
            rw [hdrop, ← pieces_of_findIdx?_eq_some hindex, hsplit]
            rfl
          have hframe :
              (frames.pending ++ (frames.reader.take (more + 1)).take (index + 1)).length =
                frames.pending.length + (index + 1) := by
            rw [length_append, length_take, Nat.min_eq_left hlength]
          rw [next_some hindex]
          split_ifs with hlong
          · exact ⟨.tooLong hremaining (hframe ▸ hlong), hpending⟩
          · exact ⟨.frame hremaining (hframe ▸ Nat.not_lt.mp hlong), Nat.zero_le _⟩

theorem asked_cons (more : ℕ) (fills : List Fill) :
    asked (.ready more :: fills) = more + 1 + asked fills := by
  simp [asked]

theorem waits_nil (hpending : frames.pending.length ≤ MAX_FRAME_BYTES) : frames.Waits [] :=
  ⟨not_mem_nil, .inl rfl, not_mem_nil, hpending⟩

theorem waits_singleton_iff : frames.Waits [.ready more] ↔
    frames.reader ≠ [] ∧ NEWLINE ∉ frames.reader.take (more + 1) ∧
      frames.pending.length + (frames.reader.take (more + 1)).length ≤ MAX_FRAME_BYTES := by
  rw [← length_pos_iff]
  constructor
  · rintro ⟨-, hfound, hunended, hshort⟩
    exact ⟨hfound.resolve_left (cons_ne_nil _ _), hunended, hshort⟩
  · rintro ⟨hfound, hunended, hshort⟩
    exact ⟨by simp, .inr hfound, hunended, hshort⟩

/-- A call that waits after its first fill goes on with what that left. -/
theorem waits_cons_iff : frames.Waits (.ready more :: fills) ↔
    frames.Waits [.ready more] ∧ Frames.Waits ⟨frames.reader.drop (more + 1),
      frames.pending ++ frames.reader.take (more + 1)⟩ fills := by
  have hsplit : frames.reader.take (asked (.ready more :: fills)) =
      frames.reader.take (more + 1) ++ (frames.reader.drop (more + 1)).take (asked fills) := by
    rw [asked_cons, take_add]
  have hfound : asked (Fill.ready more :: fills).dropLast < frames.reader.length ↔
      frames.reader ≠ [] ∧
        (fills = [] ∨ asked fills.dropLast < (frames.reader.drop (more + 1)).length) := by
    rw [length_drop, ← length_pos_iff]
    cases fills with
    | nil => simp [asked]
    | cons fill fills =>
      rw [dropLast_cons_cons, asked_cons]
      simp only [cons_ne_nil, false_or]
      omega
  rw [waits_singleton_iff]
  constructor
  · rintro ⟨hready, hlast, hunended, hshort⟩
    obtain ⟨hreader, hlast⟩ := hfound.mp (hlast.resolve_left (cons_ne_nil _ _))
    rw [hsplit, mem_append, not_or] at hunended
    rw [hsplit, length_append] at hshort
    refine ⟨⟨hreader, hunended.1, by omega⟩, fun hfailed ↦ hready (mem_cons_of_mem _ hfailed),
      hlast, hunended.2, ?_⟩
    rw [length_append, Nat.add_assoc]
    exact hshort
  · rintro ⟨⟨hreader, hnone, -⟩, hready, hlast, hunended, hshort⟩
    rw [length_append, Nat.add_assoc] at hshort
    refine ⟨by simpa using hready, .inr (hfound.mpr ⟨hreader, hlast⟩), ?_, ?_⟩
    · rw [hsplit, mem_append, not_or]
      exact ⟨hnone, hunended⟩
    · rwa [hsplit, length_append]

/-- A call waits after its first fill and goes on with what that left, or it is answered. -/
theorem next_cons (frames : Frames) (more : ℕ) (fills : List Fill) :
    (frames.Waits [.ready more] ∧ frames.next (.ready more :: fills) =
        Frames.next ⟨frames.reader.drop (more + 1),
          frames.pending ++ frames.reader.take (more + 1)⟩ fills) ∨
      ¬ frames.Waits [.ready more] ∧ (frames.next (.ready more :: fills)).2 ≠ none ∧
        (frames.next (.ready more :: fills)).2 ≠ some (.error .read) := by
  rw [waits_singleton_iff]
  by_cases hreader : frames.reader = []
  · rw [next_nil hreader]
    refine .inr ⟨fun hwaits ↦ hwaits.1 hreader, ?_⟩
    split_ifs <;> simp
  · cases hindex : (frames.reader.take (more + 1)).findIdx? (· = NEWLINE) with
    | none =>
      rw [next_none hreader hindex]
      split_ifs with hlong
      · exact .inr ⟨fun hwaits ↦ Nat.not_lt.mpr hwaits.2.2 hlong, by simp⟩
      · refine .inl ⟨⟨hreader, fun hmem ↦ ?_, Nat.not_lt.mp hlong⟩, rfl⟩
        exact Bool.false_ne_true ((findIdx?_eq_none_iff.mp hindex _ hmem).symm.trans rfl)
    | some index =>
      obtain ⟨hlength, hnewline, -⟩ := findIdx?_eq_some_iff_getElem.mp hindex
      have hmem := getElem_mem hlength
      rw [of_decide_eq_true hnewline] at hmem
      rw [next_some hindex]
      refine .inr ⟨fun hwaits ↦ hwaits.2.1 hmem, ?_⟩
      split_ifs <;> simp

/-- A call is dropped exactly when it waits after its fills. -/
theorem next_eq_none_iff (hpending : frames.pending.length ≤ MAX_FRAME_BYTES) :
    (frames.next fills).2 = none ↔ frames.Waits fills := by
  induction fills generalizing frames with
  | nil => exact iff_of_true rfl (waits_nil hpending)
  | cons fill fills ih =>
    cases fill with
    | failed => exact iff_of_false (by simp [Frames.next]) fun hwaits ↦ hwaits.ready (by simp)
    | ready more =>
      rw [waits_cons_iff]
      rcases next_cons frames more fills with ⟨hwaits, hnext⟩ | ⟨hwaits, hanswered, -⟩
      · rw [hnext, ih, and_iff_right hwaits]
        rw [length_append]
        exact (waits_singleton_iff.mp hwaits).2.2
      · exact iff_of_false hanswered fun hboth ↦ hwaits hboth.1

/-- A call answers with an error of the reader exactly when it waits for a fill that fails. -/
theorem next_eq_read_iff (hpending : frames.pending.length ≤ MAX_FRAME_BYTES) :
    (frames.next fills).2 = some (.error .read) ↔
      ∃ before after, fills = before ++ .failed :: after ∧ frames.Waits before := by
  induction fills generalizing frames with
  | nil => exact iff_of_false nofun (by simp)
  | cons fill fills ih =>
    cases fill with
    | failed => exact iff_of_true rfl ⟨[], fills, rfl, waits_nil hpending⟩
    | ready more =>
      have hsplit : (∃ before after, .ready more :: fills = before ++ .failed :: after ∧
          frames.Waits before) ↔ frames.Waits [.ready more] ∧
            ∃ before after, fills = before ++ .failed :: after ∧
              Frames.Waits ⟨frames.reader.drop (more + 1),
                frames.pending ++ frames.reader.take (more + 1)⟩ before := by
        constructor
        · rintro ⟨before, after, hfills, hwaits⟩
          cases before with
          | nil => cases hfills
          | cons first before =>
            obtain ⟨rfl, rfl⟩ := cons.inj hfills
            obtain ⟨hfirst, hwaits⟩ := waits_cons_iff.mp hwaits
            exact ⟨hfirst, before, after, rfl, hwaits⟩
        · rintro ⟨hfirst, before, after, rfl, hwaits⟩
          exact ⟨.ready more :: before, after, rfl, waits_cons_iff.mpr ⟨hfirst, hwaits⟩⟩
      rw [hsplit]
      rcases next_cons frames more fills with ⟨hwaits, hnext⟩ | ⟨hwaits, -, hread⟩
      · rw [hnext, ih, and_iff_right hwaits]
        rw [length_append]
        exact (waits_singleton_iff.mp hwaits).2.2
      · exact iff_of_false hread fun hboth ↦ hwaits hboth.1

/-- Fills that bring bytes as long as there are any, and one more, do not leave a call waiting. -/
theorem not_waits_of_length_lt (henough : frames.reader.length < fills.length) :
    ¬ frames.Waits fills := by
  rintro ⟨hready, hfound, -, -⟩
  have hasked (fills : List Fill) (hready : .failed ∉ fills) : fills.length ≤ asked fills := by
    induction fills with
    | nil => exact Nat.zero_le _
    | cons fill fills ih =>
      cases fill with
      | failed => exact absurd mem_cons_self hready
      | ready more =>
        have hrest := ih fun hfailed ↦ hready (mem_cons_of_mem _ hfailed)
        rw [asked_cons, length_cons]
        omega
  have hlast := hasked fills.dropLast fun hfailed ↦ hready (dropLast_subset _ hfailed)
  rcases hfound with rfl | hfound
  · exact absurd henough (Nat.not_lt_zero _)
  · rw [length_dropLast] at hlast
    omega

end Next

/-! ### All calls -/

/-- An error of the reader. -/
def Answer.faulty : Answer → Bool
  | .error .read => true
  | _ => false

/-- The answers that are not errors of the reader. -/
def ended (answers : List Answer) : List Answer :=
  answers.filter fun given ↦ !given.faulty

/-- The frames that were returned. -/
def returned (answers : List Answer) : List (List UInt8) :=
  answers.filterMap fun
    | .ok frame => frame
    | .error _ => none

/-- The answer with a number: the frames in front of the first one that is too long, then its error,
or nothing when there is none. -/
def answerAt (frames : List (List UInt8)) (number : ℕ) : Answer :=
  let short := frames.takeWhile fun frame ↦ frame.length ≤ MAX_FRAME_BYTES
  match short[number]? with
  | some frame => .ok (some frame)
  | none => if short.length < frames.length then .error .invalidData else .ok none

section Run

variable {frames : Frames} {calls : List (List Fill)} (left : List (List UInt8))

theorem answerAt_zero : answerAt left 0 = answer left := by
  cases left with
  | nil => rfl
  | cons frame left =>
    unfold answerAt answer
    rw [takeWhile_cons]
    split_ifs <;> simp_all

theorem answerAt_advance (number : ℕ) :
    answerAt (advance left) number = answerAt left (number + 1) := by
  cases left with
  | nil => rfl
  | cons frame left =>
    unfold answerAt advance
    rw [takeWhile_cons]
    by_cases hshort : frame.length ≤ MAX_FRAME_BYTES
    · simp [hshort]
    · simp [hshort]

theorem answer_not_faulty : (answer left).faulty = false := by
  cases left with
  | nil => rfl
  | cons frame left =>
    by_cases hshort : frame.length ≤ MAX_FRAME_BYTES
    · rw [answer, if_pos hshort]
      rfl
    · rw [answer, if_neg hshort]
      rfl

/-- The bytes in front of a call. -/
theorem flatten_remaining : frames.remaining.flatten = frames.pending ++ frames.reader :=
  flatten_pieces

/-- A returned frame is taken away from the bytes. -/
theorem flatten_advance :
    (returned [answer left]).flatten ++ (advance left).flatten = left.flatten := by
  cases left with
  | nil => rfl
  | cons frame left =>
    by_cases hshort : frame.length ≤ MAX_FRAME_BYTES
    · rw [answer, advance, if_pos hshort, if_pos hshort]
      simp [returned]
    · rw [answer, advance, if_neg hshort, if_neg hshort]
      simp [returned]

theorem ended_cons (answers : List Answer) :
    ended (answer left :: answers) = answer left :: ended answers :=
  filter_cons_of_pos (by rw [answer_not_faulty]; rfl)

theorem run_called (hpending : frames.pending.length ≤ MAX_FRAME_BYTES) :
    (∀ number given, (ended (frames.run calls).2)[number]? = some given →
        given = answerAt frames.remaining number) ∧
      answer (frames.run calls).1.remaining =
        answerAt frames.remaining (ended (frames.run calls).2).length ∧
      (returned (frames.run calls).2).flatten ++ (frames.run calls).1.remaining.flatten =
        frames.remaining.flatten ∧
      (frames.run calls).1.pending.length ≤ MAX_FRAME_BYTES := by
  induction calls generalizing frames with
  | nil => exact ⟨fun number given hgiven ↦ by simp [Frames.run, ended] at hgiven,
      (answerAt_zero _).symm, rfl, hpending⟩
  | cons call calls ih =>
    obtain ⟨hcalled, hbound⟩ := @next_called _ call hpending
    obtain ⟨hanswers, hnext, hbytes, hafter⟩ := ih hbound
    rw [Frames.run]
    generalize frames.next call = called at hcalled hbound hanswers hnext hbytes hafter ⊢
    obtain ⟨after, answered⟩ := called
    cases hcalled with
    | dropped hsame => exact ⟨hsame ▸ hanswers, hsame ▸ hnext, hsame ▸ hbytes, hafter⟩
    | failed hsame => exact ⟨hsame ▸ hanswers, hsame ▸ hnext, hsame ▸ hbytes, hafter⟩
    | answered hadvance =>
      refine ⟨?_, ?_, ?_, hafter⟩
      · intro number given hgiven
        change
          (ended (answer frames.remaining :: (Frames.run after calls).2))[number]? = _ at hgiven
        rw [ended_cons] at hgiven
        cases number with
        | zero =>
          rw [answerAt_zero]
          exact (some.inj hgiven).symm
        | succ number =>
          rw [← answerAt_advance, ← hadvance]
          exact hanswers number given hgiven
      · show _ = answerAt frames.remaining
          (ended (answer frames.remaining :: (Frames.run after calls).2)).length
        rw [ended_cons, length_cons, ← answerAt_advance, ← hadvance]
        exact hnext
      · have hreturned : returned (answer frames.remaining :: (Frames.run after calls).2) =
            returned [answer frames.remaining] ++ returned (Frames.run after calls).2 :=
          filterMap_append (l := [answer frames.remaining])
        show (returned (answer frames.remaining :: (Frames.run after calls).2)).flatten ++ _ = _
        rw [hreturned, flatten_append, append_assoc, hbytes, hadvance, flatten_advance]

/-- A call that is given more fills than there are bytes, none of them failing, is answered by what
is in front of it. -/
theorem next_eq_answer (hpending : frames.pending.length ≤ MAX_FRAME_BYTES) {fills : List Fill}
    (hready : .failed ∉ fills) (henough : frames.reader.length < fills.length) :
    (frames.next fills).2 = some (answer frames.remaining) := by
  obtain ⟨hcalled, -⟩ := @next_called _ fills hpending
  have hnone := mt (next_eq_none_iff hpending).mp (not_waits_of_length_lt henough)
  have hread : (frames.next fills).2 ≠ some (.error .read) := fun hread ↦ by
    obtain ⟨before, after, rfl, -⟩ := (next_eq_read_iff hpending).mp hread
    exact hready (by simp)
  generalize (frames.next fills).2 = answered at *
  cases hcalled with
  | dropped => exact absurd rfl hnone
  | failed => exact absurd rfl hread
  | answered => rfl

end Run

/-- What a stream, the frames behind some calls and their answers have to do with each other. The
answers, errors of the reader left out, are those of the stream cut after every newline. The frames
that were returned, the pending bytes and the ones that were not read are the stream. A further call
is dropped exactly when it waits after its fills, and answers with an error of the reader exactly
when the fill that it waits for fails; with fills enough it gives the next answer. -/
structure Cuts (stream : List UInt8) (frames : Frames) (answers : List Answer) : Prop where
  numbered : ∀ number given, (ended answers)[number]? = some given →
    given = answerAt (cut stream) number
  bytes : (returned answers).flatten ++ frames.pending ++ frames.reader = stream
  pending : frames.pending.length ≤ MAX_FRAME_BYTES
  dropped : ∀ fills, (frames.next fills).2 = none ↔ frames.Waits fills
  failed : ∀ fills, (frames.next fills).2 = some (.error .read) ↔
    ∃ before after, fills = before ++ .failed :: after ∧ frames.Waits before
  answered : ∀ fills, .failed ∉ fills → frames.reader.length < fills.length →
    (frames.next fills).2 = some (answerAt (cut stream) (ended answers).length)

/-- The answers of any calls to `next` on a stream are the frames of the stream cut after every
newline, up to the first one that is too long, and then its error; nothing after the last one. The
only other answers are the errors of the reader, and no call is dropped that could be answered. -/
theorem run_frames (stream : List UInt8) (calls : List (List Fill)) :
    Cuts stream (Frames.run ⟨stream, []⟩ calls).1 (Frames.run ⟨stream, []⟩ calls).2 := by
  obtain ⟨hanswers, hnext, hbytes, hpending⟩ := @run_called ⟨stream, []⟩ calls (Nat.zero_le _)
  refine ⟨hanswers, ?_, hpending, fun fills ↦ next_eq_none_iff hpending,
    fun fills ↦ next_eq_read_iff hpending, fun fills hready henough ↦ ?_⟩
  · rw [append_assoc, ← flatten_remaining, hbytes, flatten_remaining]
    rfl
  · rw [next_eq_answer hpending hready henough, hnext]
    rfl

end ObsMcp.Stdio
