import Mathlib.Data.List.Infix
import Mathlib.Data.List.Nodup
import ObsMcp.Foundations.Charges
import ObsMcp.Foundations.Indexed
import ObsMcp.Stdio.Output

/-!
# What is written, and where the publications are

The invariant of the writer. The commits are written in their order: those finished, then the one
with the worker, then the queue (`State.Stream`), and the entry with the worker has written the
frames in front of its cursor and a part of the current one (`written`). Every publication is where
the queue, the worker and the history say it is (`Publication.Good`), and the credits of a pool and
the charges of the publications make up its limit (`State.Good`).
-/

namespace ObsMcp.Stdio

open Foundations List

/-! ### Frames and flushes -/

/-- How many bytes are written at the end of each frame. -/
def marks (frames : List Line) : List ℕ :=
  (List.range frames.length).map fun k ↦ (frames.take (k + 1)).flatten.length

theorem marks_append (frames more : List Line) : marks frames <+: marks (frames ++ more) := by
  refine ⟨((List.range' frames.length more.length).map fun k ↦
    ((frames ++ more).take (k + 1)).flatten.length), ?_⟩
  have hrange : List.range (frames ++ more).length =
      List.range frames.length ++ List.range' frames.length more.length := by
    rw [length_append, range_eq_range', range_eq_range', ← range'_append]
    simp
  unfold marks
  rw [hrange, map_append]
  congr 1
  refine map_congr_left fun k hk ↦ ?_
  rw [take_append_of_le_length (mem_range.mp hk)]

theorem marks_concat (frames : List Line) (line : Line) :
    marks (frames ++ [line]) = marks frames ++ [(frames ++ [line]).flatten.length] := by
  obtain ⟨rest, hrest⟩ := marks_append frames [line]
  have hlength : rest.length = 1 := by
    have := congrArg List.length hrest
    simp [marks] at this
    omega
  obtain ⟨mark, rfl⟩ := length_eq_one_iff.mp hlength
  have hlast : (marks (frames ++ [line])).getLast? = some (frames ++ [line]).flatten.length := by
    unfold marks
    rw [length_append, length_singleton, range_succ, map_append,
      map_singleton, getLast?_append_of_ne_nil _ (by simp), getLast?_singleton,
      take_of_length_le (by simp)]
  rw [← hrest, getLast?_append_of_ne_nil _ (by simp), getLast?_singleton,
    Option.some.injEq] at hlast
  rw [← hrest, hlast]

section Streams

variable (encoding : Json → List UInt8)

/-- The frames of a list of publications, in their order. -/
def framesOf (requests : List (List Cycle)) (ids : List ℕ) : List Line :=
  ids.flatMap fun n ↦ expansion encoding (requests.getD n [])

/-- The bytes of a publication that are written at a progress. -/
def written (cycles : List Cycle) (progress : Progress) : List UInt8 :=
  ((expansion encoding cycles).take progress.frame).flatten ++
    ((expansion encoding cycles)[progress.frame]?.getD []).take progress.byte

/-- What holds of an entry that is not gone. -/
structure Entry.Good (cycles : List Cycle) (entry : Entry) : Prop where
  valid : entry.cursor.Valid
  remaining : entry.cursor.remaining = (expansion encoding cycles).drop entry.progress.frame
  frames : entry.cursor.frames = (expansion encoding cycles).length
  maxLine : ∀ line ∈ expansion encoding cycles, line.length ≤ entry.maxLine

end Streams

section Frames

variable {encoding : Json → List UInt8} {requests : List (List Cycle)}

theorem framesOf_append (first second : List ℕ) :
    framesOf encoding requests (first ++ second) =
      framesOf encoding requests first ++ framesOf encoding requests second :=
  flatMap_append

theorem framesOf_cons (n : ℕ) (rest : List ℕ) :
    framesOf encoding requests (n :: rest) =
      expansion encoding (requests.getD n []) ++ framesOf encoding requests rest :=
  flatMap_cons

/-- A new request does not change the frames of the others. -/
theorem framesOf_requests {ids : List ℕ} (hids : ∀ n ∈ ids, n < requests.length)
    (more : List (List Cycle)) :
    framesOf encoding (requests ++ more) ids = framesOf encoding requests ids := by
  unfold framesOf
  refine flatMap_congr fun n hn ↦ ?_
  rw [getD_eq_getElem?_getD, getD_eq_getElem?_getD,
    getElem?_append_left (hids n hn)]

variable {cycles : List Cycle} {progress : Progress}

theorem Entry.Good.current {entry : Entry} (hgood : entry.Good encoding cycles) :
    entry.cursor.current = (expansion encoding cycles)[entry.progress.frame]? := by
  rw [Cursor.current_eq hgood.valid, hgood.remaining, head?_drop]

theorem written_le_expansion (cycles : List Cycle) (progress : Progress) :
    written encoding cycles progress <+: (expansion encoding cycles).flatten := by
  unfold written
  cases hline : (expansion encoding cycles)[progress.frame]? with
  | none =>
    rw [Option.getD_none, take_nil, append_nil]
    exact ⟨((expansion encoding cycles).drop progress.frame).flatten, by
      rw [← flatten_append, take_append_drop]⟩
  | some line =>
    obtain ⟨hlt, hget⟩ := List.getElem?_eq_some_iff.mp hline
    refine ⟨line.drop progress.byte ++
      ((expansion encoding cycles).drop (progress.frame + 1)).flatten, ?_⟩
    rw [Option.getD_some, append_assoc, ← append_assoc (line.take progress.byte),
      take_append_drop, ← flatten_cons, ← hget, ← drop_eq_getElem_cons hlt,
      ← flatten_append, take_append_drop]

/-- A whole line is the next frame. -/
theorem written_line {line : Line}
    (hline : (expansion encoding cycles)[progress.frame]? = some line)
    (hbyte : line.length ≤ progress.byte) :
    written encoding cycles progress =
      ((expansion encoding cycles).take (progress.frame + 1)).flatten := by
  unfold written
  rw [hline, Option.getD_some, take_of_length_le hbyte, take_add_one, hline]
  simp

theorem written_start (cycles : List Cycle) (hbyte : progress.byte = 0) :
    written encoding cycles progress =
      ((expansion encoding cycles).take progress.frame).flatten := by
  unfold written
  rw [hbyte, take_zero, append_nil]

end Frames

/-! ### Good states -/

/-- The entry with the worker. -/
def Worker.entry : Worker → Option ℕ
  | receiving => none
  | checking n => some n
  | writing n => some n
  | flushing n => some n
  | completed n => some n
  | unwinding entry => entry
  | draining => none
  | ended => none

/-- The worker is at a place of `write_entry`. -/
def Worker.At (worker : Worker) (n : ℕ) : Prop :=
  worker = .checking n ∨ worker = .writing n ∨ worker = .flushing n

theorem Worker.At.entry_eq {worker : Worker} {n : ℕ} (hworker : worker.At n) :
    worker.entry = some n := by
  rcases hworker with rfl | rfl | rfl <;> rfl

/-- The worker writes nothing more. -/
def Worker.Stopped : Worker → Prop
  | unwinding _ => True
  | draining => True
  | ended => True
  | _ => False

/-- The cycles of all publications. -/
def State.requests (s : State) : List (List Cycle) := s.publications.map Publication.cycles

section Good

variable (encoding : Json → List UInt8)

/-- A publication is where the queue, the worker and the history say it is. -/
def Publication.PlaceGood (s : State) (n : ℕ) (pub : Publication) : Prop :=
  match pub.place with
  | .opened => n ∉ s.committed
  | .permitted => n ∉ s.committed
  | .planned tally => n ∉ s.committed ∧ Planned encoding pub.cycles tally
  | .entriesTaken tally => n ∉ s.committed ∧ Planned encoding pub.cycles tally
  | .templated tally => n ∉ s.committed ∧ Planned encoding pub.cycles tally
  | .charged tally => n ∉ s.committed ∧ Planned encoding pub.cycles tally
  | .reserved entry =>
    n ∉ s.committed ∧ entry.Good encoding pub.cycles ∧ entry.progress = ⟨.queued, 0, 0⟩
  | .queued entry =>
    n ∈ s.committed ∧ n ∈ s.queue ∧ n ∉ s.finished ∧ entry.Good encoding pub.cycles ∧
      entry.progress = ⟨.queued, 0, 0⟩
  | .active entry =>
    n ∈ s.committed ∧ s.worker.entry = some n ∧ entry.Good encoding pub.cycles ∧
      (entry.progress.stage = .complete ↔ n ∈ s.finished) ∧
      (entry.progress.stage.terminal = true → pub.signal.stage = entry.progress.stage)
  | .gone => n ∈ s.committed → pub.signal.stage.terminal = true

structure Publication.Good (s : State) (n : ℕ) (pub : Publication) : Prop where
  place : pub.PlaceGood encoding s n
  complete : pub.signal.stage = .complete ↔ n ∈ s.finished

/-- The commits are finished or in the queue, and the finished ones are written. -/
structure State.Whole (s : State) : Prop where
  committed : s.committed = s.finished ++ s.queue
  accepted : s.accepted = (framesOf encoding s.requests s.finished).flatten
  flushes : s.flushes = marks (framesOf encoding s.requests s.finished)

/-- One commit is with the worker, and a part of it is written; a line that is flushed is written to
its end. -/
structure State.Partial (s : State) (n : ℕ) : Prop where
  committed : s.committed = s.finished ++ n :: s.queue
  active : ∃ (pub : Publication) (entry : Entry), s.publications[n]? = some pub ∧
    pub.place = .active entry ∧
    s.accepted = (framesOf encoding s.requests s.finished).flatten ++
      written encoding pub.cycles entry.progress ∧
    s.flushes = marks (framesOf encoding s.requests s.finished ++
      (expansion encoding pub.cycles).take entry.progress.frame) ∧
    (s.worker = .flushing n → ∃ line : Line,
      (expansion encoding pub.cycles)[entry.progress.frame]? = some line ∧
        line.length ≤ entry.progress.byte)

/-- The finished commits are written, and nothing but commits is. -/
structure State.Covered (s : State) : Prop where
  committed : s.finished <+: s.committed
  accepted : s.accepted <+: (framesOf encoding s.requests s.committed).flatten
  finished : (framesOf encoding s.requests s.finished).flatten <+: s.accepted
  flushes : marks (framesOf encoding s.requests s.finished) <+: s.flushes

/-- What is written, where the worker is. -/
def State.Stream (s : State) : Prop :=
  match s.worker with
  | .receiving => s.Whole encoding
  | .completed n => s.Whole encoding ∧ n ∈ s.finished
  | .checking n => s.Partial encoding n
  | .writing n => s.Partial encoding n
  | .flushing n => s.Partial encoding n
  | .unwinding (some n) => s.Partial encoding n
  | .unwinding none => s.Covered encoding
  | .draining => s.Covered encoding
  | .ended => s.Covered encoding

/-- What holds of the queue and of the history in every state of a run. -/
structure State.Ordered (s : State) : Prop where
  known : ∀ n ∈ s.committed, n < s.publications.length
  nodup : s.committed.Nodup
  queueNodup : s.queue.Nodup
  queue : ∀ n ∈ s.queue, ∃ (pub : Publication) (entry : Entry),
    s.publications[n]? = some pub ∧ pub.place = .queued entry
  worker : ∀ n, s.worker.entry = some n → ∃ (pub : Publication) (entry : Entry),
    s.publications[n]? = some pub ∧ pub.place = .active entry
  closed : s.closed = true ↔ s.worker = .draining ∨ s.worker = .ended
  ended : s.worker = .ended → s.queue = []

structure State.Good (limits : Limits) (s : State) : Prop where
  ordered : s.Ordered
  publications : ∀ (n : ℕ) (pub : Publication), s.publications[n]? = some pub →
    pub.Good encoding s n
  stream : s.Stream encoding
  credits : ∀ pool, s.available pool +
    (s.publications.map fun pub ↦ pub.charge pool).sum = limits.pool pool

end Good

namespace State

variable {encoding : Json → List UInt8} {limits : Limits} {s t : State} {n : ℕ}
  {pub later : Publication} {entry : Entry}

/-- The queue, the worker and the history say the same of a publication. -/
structure Agrees (s t : State) (m : ℕ) : Prop where
  committed : m ∈ t.committed ↔ m ∈ s.committed
  queue : m ∈ t.queue ↔ m ∈ s.queue
  finished : m ∈ t.finished ↔ m ∈ s.finished
  worker : t.worker.entry = some m ↔ s.worker.entry = some m

theorem Agrees.good {m : ℕ} (hagrees : Agrees s t m) (hgood : pub.Good encoding s m) :
    pub.Good encoding t m := by
  refine ⟨?_, hgood.complete.trans hagrees.finished.symm⟩
  have hplace := hgood.place
  unfold Publication.PlaceGood at hplace ⊢
  cases hpub : pub.place <;> simp only [hpub] at hplace ⊢ <;>
    simpa only [hagrees.committed, hagrees.queue, hagrees.finished, hagrees.worker] using hplace

/-- The publications stay good when one of them is replaced. -/
theorem publications_put (hgood : s.Good encoding limits)
    (hpubs : t.publications = s.publications.set n later) (hnew : later.Good encoding t n)
    (hothers : ∀ m, m ≠ n → Agrees s t m) :
    ∀ (m : ℕ) (pub : Publication), t.publications[m]? = some pub → pub.Good encoding t m := by
  intro m other hother
  rw [hpubs] at hother
  rcases getElem?_set_cases hother with ⟨rfl, rfl⟩ | ⟨hm, hother⟩
  · exact hnew
  · exact (hothers m (Ne.symm hm)).good (hgood.publications m other hother)

/-- The pools are kept when one publication takes or gives back credits. -/
theorem credits_put (hgood : s.Good encoding limits) (hpub : s.publications[n]? = some pub)
    (hpubs : t.publications = s.publications.set n later)
    (hcharge : ∀ pool, t.available pool + later.charge pool =
      s.available pool + pub.charge pool) :
    ∀ pool, t.available pool + (t.publications.map fun pub ↦ pub.charge pool).sum =
      limits.pool pool := by
  intro pool
  have hsum := sum_set (fun pub : Publication ↦ pub.charge pool) later hpub
  have hcredits := hgood.credits pool
  have := hcharge pool
  rw [hpubs]
  omega

theorem requests_put (hpub : s.publications[n]? = some pub)
    (hpubs : t.publications = s.publications.set n later) (hcycles : later.cycles = pub.cycles) :
    t.requests = s.requests := by
  unfold requests
  rw [hpubs, map_set_of_eq hpub hcycles]

theorem requests_append (hpubs : t.publications = s.publications ++ [later]) :
    t.requests = s.requests ++ [later.cycles] := by
  unfold requests
  rw [hpubs, map_append, map_singleton]

theorem requests_getD (hpub : s.publications[n]? = some pub) :
    s.requests.getD n [] = pub.cycles := by
  rw [requests, getD_eq_getElem?_getD, getElem?_map, hpub]
  rfl

theorem Whole.covered (hwhole : s.Whole encoding) : s.Covered encoding where
  committed := ⟨s.queue, hwhole.committed.symm⟩
  accepted := by
    rw [hwhole.committed, framesOf_append, flatten_append, hwhole.accepted]
    exact prefix_append _ _
  finished := by rw [hwhole.accepted]
  flushes := by rw [hwhole.flushes]

theorem Partial.covered (hpart : s.Partial encoding n) : s.Covered encoding := by
  obtain ⟨hcommitted, pub, entry, hpub, -, haccepted, hflushes, -⟩ := hpart
  refine ⟨⟨_, hcommitted.symm⟩, ?_, ?_, ?_⟩
  · rw [hcommitted, framesOf_append, framesOf_cons, requests_getD hpub, flatten_append,
      flatten_append, haccepted]
    exact (prefix_append_right_inj _).mpr
      ((written_le_expansion _ _).trans (prefix_append _ _))
  · rw [haccepted]
    exact prefix_append _ _
  · rw [hflushes]
    exact marks_append _ _

/-- What is written is covered, wherever the worker is. -/
theorem Stream.covered (hstream : s.Stream encoding) : s.Covered encoding := by
  unfold Stream at hstream
  cases hworker : s.worker with
  | receiving =>
    simp only [hworker] at hstream
    exact hstream.covered
  | completed m =>
    simp only [hworker] at hstream
    exact hstream.1.covered
  | checking m =>
    simp only [hworker] at hstream
    exact hstream.covered
  | writing m =>
    simp only [hworker] at hstream
    exact hstream.covered
  | flushing m =>
    simp only [hworker] at hstream
    exact hstream.covered
  | unwinding held =>
    cases held with
    | none => simpa only [hworker] using hstream
    | some m =>
      simp only [hworker] at hstream
      exact hstream.covered
  | draining => simpa only [hworker] using hstream
  | ended => simpa only [hworker] using hstream

/-- The stream is kept by a step that leaves the worker and each form of the stream. -/
theorem Stream.transfer (hstream : s.Stream encoding) (hworker : t.worker = s.worker)
    (hwhole : s.Whole encoding → t.Whole encoding)
    (hpart : ∀ m, s.Partial encoding m → t.Partial encoding m)
    (hcovered : s.Covered encoding → t.Covered encoding)
    (hfinished : ∀ m ∈ s.finished, m ∈ t.finished) : t.Stream encoding := by
  unfold Stream at hstream ⊢
  rw [hworker]
  cases hat : s.worker with
  | receiving =>
    simp only [hat] at hstream
    exact hwhole hstream
  | completed m =>
    simp only [hat] at hstream
    exact ⟨hwhole hstream.1, hfinished m hstream.2⟩
  | checking m =>
    simp only [hat] at hstream
    exact hpart m hstream
  | writing m =>
    simp only [hat] at hstream
    exact hpart m hstream
  | flushing m =>
    simp only [hat] at hstream
    exact hpart m hstream
  | unwinding held =>
    cases held with
    | none =>
      simp only [hat] at hstream
      exact hcovered hstream
    | some m =>
      simp only [hat] at hstream
      exact hpart m hstream
  | draining =>
    simp only [hat] at hstream
    exact hcovered hstream
  | ended =>
    simp only [hat] at hstream
    exact hcovered hstream

end State

end ObsMcp.Stdio
