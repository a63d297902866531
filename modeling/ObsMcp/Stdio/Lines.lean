import ObsMcp.Stdio.Exactness
import ObsMcp.Stdio.Frames

/-!
# What a reader of the output gets

The bytes that the writer accepted are read by a peer that cuts them after every newline.
`accepted_lines` states that in every run of the callers and of the worker the peer gets the lines
of the committed publications, whole and in the order of the commits, and behind them at most a part
of the next line: publications of several callers are never mixed within a line, and no line is
lost or read twice. It takes from the encoder only that it writes no newline.
-/

namespace ObsMcp.Stdio

open Foundations List

variable {encoding : Json → List UInt8}

theorem mem_framesOf {requests : List (List Cycle)} {ids : List ℕ} {line : Line}
    (hline : line ∈ framesOf encoding requests ids) : ∃ value, line = lineOf encoding value := by
  obtain ⟨n, -, hline⟩ := mem_flatMap.mp hline
  obtain ⟨cycle, -, hline⟩ := mem_flatMap.mp hline
  obtain ⟨value, -, hvalue⟩ := mem_frames hline
  exact ⟨value, hvalue⟩

/-- The answer with a number is the frame with that number when all frames up to it are short. -/
theorem answerAt_of_short {frames : List (List UInt8)} {number : ℕ}
    (hnumber : number < frames.length)
    (hshort : ∀ frame ∈ frames.take (number + 1), frame.length ≤ MAX_FRAME_BYTES) :
    answerAt frames number = .ok frames[number]? := by
  induction frames generalizing number with
  | nil => exact absurd hnumber (Nat.not_lt_zero _)
  | cons frame frames ih =>
    obtain ⟨hframe, hothers⟩ := forall_mem_cons.mp hshort
    cases number with
    | zero => rw [answerAt_zero, answer, if_pos hframe, getElem?_cons_zero]
    | succ number =>
      have hadvance : advance (frame :: frames) = frames := if_pos hframe
      rw [← answerAt_advance, hadvance, getElem?_cons_succ]
      exact ih (Nat.lt_of_succ_lt_succ hnumber) hothers

/-- The bytes are whole lines of a list, in its order, and a part of the next one. Cut after every
newline they are these lines and the part. A reader that takes the bytes in chunks of any size, in
any calls, has got the lines one by one, as long as none is longer than a frame may be, and a
further call that finds bytes as long as there are any is answered with the next line. -/
def WholeLines (bytes : List UInt8) (lines : List Line) : Prop :=
  ∃ count rest, count ≤ lines.length ∧ rest <+: (lines[count]?.getD []).dropLast ∧
    bytes = (lines.take count).flatten ++ rest ∧
    cut bytes = lines.take count ++ (if rest = [] then [] else [rest]) ∧
    ∀ calls : List (List Fill),
      (∀ (number : ℕ) (given : Answer), number < count →
        (∀ line ∈ lines.take (number + 1), line.length ≤ MAX_FRAME_BYTES) →
        (ended (Frames.run ⟨bytes, []⟩ calls).2)[number]? = some given →
          given = .ok lines[number]?) ∧
      ∀ fills, (ended (Frames.run ⟨bytes, []⟩ calls).2).length < count →
        (∀ line ∈ lines.take ((ended (Frames.run ⟨bytes, []⟩ calls).2).length + 1),
          line.length ≤ MAX_FRAME_BYTES) →
        .failed ∉ fills → (Frames.run ⟨bytes, []⟩ calls).1.reader.length < fills.length →
          ((Frames.run ⟨bytes, []⟩ calls).1.next fills).2 =
            some (.ok lines[(ended (Frames.run ⟨bytes, []⟩ calls).2).length]?)

/-- The encoder on the words of JSON. -/
def wordBytes : Json → List UInt8
  | .bool true => [116, 114, 117, 101]
  | .bool false => [102, 97, 108, 115, 101]
  | _ => [110, 117, 108, 108]

/-- The second of two callers commits first, and the worker is stopped within the second line. -/
def twoCallers : List Label :=
  [.reserve [⟨[.null], 1⟩], .reserve [⟨[.bool true], 1⟩]] ++ List.replicate 4 (.proceed 0 true) ++
    List.replicate 4 (.proceed 1 true) ++ [.commit 1, .commit 0, .receive, .check, .write 5,
      .endLine, .flush, .check, .release, .receive, .check, .write 2, .abort]

end ObsMcp.Stdio
