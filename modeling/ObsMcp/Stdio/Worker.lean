import ObsMcp.Stdio.Reservations

/-!
# The worker keeps the writer good

The steps of the worker. A step of `write_entry` goes on with the same entry (`Good.continued`): a
write adds the accepted bytes (`write_good`), a flush ends a frame (`flush_good`), and the end of
the frames finishes the publication (`complete_good`). At its end the worker gives up its entry and
what is queued (`unwind_good`).
-/

namespace ObsMcp.Stdio

open Foundations List Option

namespace State

variable {encoding : Json → List UInt8} {limits : Limits} {s t : State} {n : ℕ}
  {pub later : Publication} {entry : Entry}

/-! ### The worker -/

/-- A step of the worker that replaces the publication it holds. -/
theorem Good.worked (hgood : s.Good encoding limits) (hpub : s.publications[n]? = some pub)
    (hpubs : t.publications = s.publications.set n later) (hnew : later.Good encoding t n)
    (hcharge : ∀ pool, t.available pool + later.charge pool = s.available pool + pub.charge pool)
    (hcommitted : t.committed = s.committed)
    (hfinished : ∀ m, m ≠ n → (m ∈ t.finished ↔ m ∈ s.finished))
    (hqueue : ∀ m, m ≠ n → (m ∈ t.queue ↔ m ∈ s.queue)) (hgone : n ∉ t.queue)
    (hnodup : t.queue.Nodup)
    (hworker : ∀ m, m ≠ n → (t.worker.entry = some m ↔ s.worker.entry = some m))
    (hactive : t.worker.entry = some n → ∃ entry, later.place = .active entry)
    (hclosed : t.closed = true ↔ t.worker = .draining ∨ t.worker = .ended)
    (hended : t.worker = .ended → t.queue = []) (hstream : t.Stream encoding) :
    t.Good encoding limits := by
  have hlt := (List.getElem?_eq_some_iff.mp hpub).1
  have hothers : ∀ m, m ≠ n → t.publications[m]? = s.publications[m]? := fun m hm ↦ by
    rw [hpubs, getElem?_set_ne (Ne.symm hm)]
  refine ⟨⟨fun m hm ↦ ?_, hcommitted ▸ hgood.ordered.nodup, hnodup, fun m hm ↦ ?_,
    fun m hm ↦ ?_, hclosed, hended⟩, ?_, hstream, credits_put hgood hpub hpubs hcharge⟩
  · rw [hcommitted] at hm
    rw [hpubs, length_set]
    exact hgood.ordered.known m hm
  · have hne : m ≠ n := fun h ↦ hgone (h ▸ hm)
    rw [hothers m hne]
    exact hgood.ordered.queue m ((hqueue m hne).mp hm)
  · by_cases hne : m = n
    · subst hne
      obtain ⟨entry, hentry⟩ := hactive hm
      exact ⟨later, entry, by rw [hpubs, getElem?_set_self hlt], hentry⟩
    · rw [hothers m hne]
      exact hgood.ordered.worker m ((hworker m hne).mp hm)
  · exact publications_put hgood hpubs hnew fun m hm ↦
      ⟨by rw [hcommitted], hqueue m hm, hfinished m hm, hworker m hm⟩

/-- What holds of the entry with the worker. -/
structure Active (encoding : Json → List UInt8) (s : State) (n : ℕ) (pub : Publication)
    (entry : Entry) : Prop where
  found : s.publications[n]? = some pub
  place : pub.place = .active entry
  worker : s.worker.entry = some n
  committed : n ∈ s.committed
  good : entry.Good encoding pub.cycles
  complete : entry.progress.stage = .complete ↔ n ∈ s.finished
  signal : entry.progress.stage.terminal = true → pub.signal.stage = entry.progress.stage
  queue : n ∉ s.queue

theorem Good.active (hgood : s.Good encoding limits) (hworker : s.worker.entry = some n)
    (hactive : s.activeEntry n = some (pub, entry)) : Active encoding s n pub entry := by
  obtain ⟨found, hfound, hentry⟩ := bind_eq_some_iff.mp hactive
  have hplace : found = pub ∧ found.place = .active entry := by
    cases hat : found.place <;> simp only [hat, reduceCtorEq] at hentry
    cases hentry
    exact ⟨rfl, rfl⟩
  obtain ⟨rfl, hplace⟩ := hplace
  have hold := (hgood.publications n found hfound).place
  unfold Publication.PlaceGood at hold
  simp only [hplace] at hold
  obtain ⟨hcommitted, -, hgoodEntry, hcomplete, hsignal⟩ := hold
  refine ⟨hfound, hplace, hworker, hcommitted, hgoodEntry, hcomplete, hsignal, fun h ↦ ?_⟩
  obtain ⟨other, queued, hother, hqueued⟩ := hgood.ordered.queue n h
  rw [← some.inj (hfound.symm.trans hother), hplace] at hqueued
  cases hqueued

/-- The worker goes on with its entry. -/
theorem Good.continued (hgood : s.Good encoding limits) (hactive : Active encoding s n pub entry)
    {next : Entry} (hpubs : t.publications = s.publications.set n later)
    (hplace : later.place = .active next) (hcycles : later.cycles = pub.cycles)
    (hcharge : later.charge = pub.charge)
    (havailable : t.available = s.available) (hcommitted : t.committed = s.committed)
    (hqueue : t.queue = s.queue) (hclosed : t.closed = s.closed)
    (hworker : t.worker.entry = some n)
    (hfinished : ∀ m, m ≠ n → (m ∈ t.finished ↔ m ∈ s.finished))
    (hgoodEntry : next.Good encoding pub.cycles)
    (hcomplete : next.progress.stage = .complete ↔ n ∈ t.finished)
    (hsignal : next.progress.stage.terminal = true → later.signal.stage = next.progress.stage)
    (hreported : later.signal.stage = .complete ↔ n ∈ t.finished)
    (hstream : t.Stream encoding) : t.Good encoding limits := by
  have hopen : ∀ {u : State}, u.worker.entry = some n →
      ¬ (u.worker = .draining ∨ u.worker = .ended) := by
    rintro u hu (h | h) <;> rw [h] at hu <;> cases hu
  have hnew : later.Good encoding t n := by
    refine ⟨?_, hreported⟩
    unfold Publication.PlaceGood
    simp only [hplace]
    rw [hcommitted, hcycles]
    exact ⟨hactive.committed, hworker, hgoodEntry, hcomplete, hsignal⟩
  refine hgood.worked hactive.found hpubs hnew (fun pool ↦ by rw [havailable, hcharge]) hcommitted
    hfinished (fun m _ ↦ by rw [hqueue]) (hqueue ▸ hactive.queue)
    (hqueue ▸ hgood.ordered.queueNodup) (fun m hm ↦ ?_) (fun _ ↦ ⟨next, hplace⟩)
    (iff_of_false ?_ (hopen hworker)) (fun h ↦ absurd (.inr h) (hopen hworker)) hstream
  · rw [hworker, hactive.worker]
  · rw [hclosed, hgood.ordered.closed]
    exact hopen hactive.worker

/-- What is written of the entry with the worker. -/
theorem Partial.at (hpart : s.Partial encoding n) (hactive : Active encoding s n pub entry) :
    s.accepted = (framesOf encoding s.requests s.finished).flatten ++
      written encoding pub.cycles entry.progress ∧
    s.flushes = marks (framesOf encoding s.requests s.finished ++
      (expansion encoding pub.cycles).take entry.progress.frame) ∧
    (s.worker = .flushing n → ∃ line : Line,
      (expansion encoding pub.cycles)[entry.progress.frame]? = some line ∧
        line.length ≤ entry.progress.byte) := by
  obtain ⟨-, other, active, hother, hplace, hrest⟩ := hpart
  obtain rfl : pub = other := some.inj (hactive.found.symm.trans hother)
  rw [hactive.place] at hplace
  obtain rfl : entry = active := by simpa using hplace
  exact hrest

/-- A progress that writes nothing. -/
theorem progress_append (s : State) (n : ℕ) (pub : Publication) (entry : Entry) (next : Progress)
    (reported : Bool) (worker : Worker) :
    s.progress n pub entry next reported worker =
      { s.progress n pub entry next reported worker with accepted := s.accepted ++ [] } := by
  rw [append_nil]
  rfl

variable {worker : Worker}

section

variable (hgood : s.Good encoding limits)
include hgood

/-- A new progress of the entry with the worker, at the same frame. -/
theorem progress_good (hactive : Active encoding s n pub entry) (hpart : s.Partial encoding n)
    (hunfinished : n ∉ s.finished) {next : Progress} {more : List UInt8}
    (ht : t = { s.progress n pub entry next true worker with accepted := s.accepted ++ more })
    (hframe : next.frame = entry.progress.frame) (hstage : next.stage ≠ .complete)
    (hworker : worker.entry = some n)
    (hwritten : written encoding pub.cycles next =
      written encoding pub.cycles entry.progress ++ more)
    (hstream : (∃ m, worker = .writing m) ∨ (∃ m, worker = .unwinding (some m)) ∨
      (∃ m, worker = .flushing m) ∧ ∃ line : Line,
        (expansion encoding pub.cycles)[entry.progress.frame]? = some line ∧
          line.length ≤ next.byte) :
    t.Good encoding limits := by
  have hlt := (List.getElem?_eq_some_iff.mp hactive.found).1
  have hpubs : t.publications = s.publications.set n
      { pub with place := .active { entry with progress := next }, signal := next } := by
    rw [ht]
    rfl
  have hrequests : t.requests = s.requests := requests_put hactive.found hpubs rfl
  have hfinished : t.finished = s.finished := by
    rw [ht]
    rfl
  have hthere : t.worker = worker := by
    rw [ht]
    rfl
  have hnot : ¬ n ∈ t.finished := by
    rw [hfinished]
    exact hunfinished
  refine hgood.continued hactive hpubs rfl rfl rfl (by rw [ht]; rfl) (by rw [ht]; rfl)
    (by rw [ht]; rfl) (by rw [ht]; rfl) (by rw [hthere, hworker]) (fun m _ ↦ by rw [hfinished])
    ⟨hactive.good.valid, ?_, hactive.good.frames, hactive.good.maxLine⟩ (iff_of_false hstage hnot)
    (fun _ ↦ rfl) (iff_of_false hstage hnot) ?_
  · rw [hframe]
    exact hactive.good.remaining
  · obtain ⟨haccepted, hflushes, -⟩ := hpart.at hactive
    have hnext : t.Partial encoding n := by
      refine ⟨?_, { pub with place := .active { entry with progress := next }, signal := next },
        { entry with progress := next }, ?_, rfl, ?_, ?_, fun hflushing ↦ ?_⟩
      · rw [ht]
        exact hpart.committed
      · rw [hpubs, getElem?_set_self hlt]
      · rw [hrequests, hfinished, hwritten, ← append_assoc, ← haccepted, ht]
      · rw [hrequests, hfinished, hframe, ← hflushes, ht]
        rfl
      · rw [hthere] at hflushing
        rcases hstream with ⟨m, h⟩ | ⟨m, h⟩ | ⟨-, hline⟩
        · rw [h] at hflushing
          cases hflushing
        · rw [h] at hflushing
          cases hflushing
        · rw [hframe]
          exact hline
    unfold Stream
    rw [hthere]
    rcases hstream with ⟨m, rfl⟩ | ⟨m, rfl⟩ | ⟨⟨m, rfl⟩, -⟩
    all_goals
      obtain rfl : m = n := by simpa [Worker.entry] using hworker
      exact hnext

/-- The entry with the worker is not finished while a part of it is written. -/
theorem Good.unfinished (hpart : s.Partial encoding n) : n ∉ s.finished := by
  intro h
  have hnodup := hgood.ordered.nodup
  rw [hpart.committed, nodup_append] at hnodup
  exact hnodup.2.2 n h n mem_cons_self rfl

theorem Good.part_at (hworker : s.worker.At n) : s.Partial encoding n := by
  have hstream := hgood.stream
  unfold Stream at hstream
  rcases hworker with h | h | h <;> simpa only [h] using hstream

/-- `write_entry` ends with an error. -/
theorem failEntry_good (hworker : s.worker.At n) (hactive : s.activeEntry n = some (pub, entry))
    (kind : ErrorKind) : Good encoding limits (s.failEntry n pub entry kind) := by
  have hat := hgood.active hworker.entry_eq hactive
  have hpart := hgood.part_at hworker
  have ht := s.progress_append n pub entry { entry.progress with stage := .failed kind } true
    (.unwinding (some n))
  exact progress_good hgood hat hpart (hgood.unfinished hpart) ht rfl (by simp) rfl
    (append_nil _).symm (.inr (.inl ⟨n, rfl⟩))

end

theorem written_end {cycles : List Cycle} {progress : Progress}
    (hnone : (expansion encoding cycles)[progress.frame]? = none) :
    written encoding cycles progress = (expansion encoding cycles).flatten := by
  unfold written
  rw [hnone, getD_none, take_nil, append_nil,
    take_of_length_le (getElem?_eq_none_iff.mp hnone)]

section

variable (hgood : s.Good encoding limits)
include hgood

/-- The end of the frames: the entry is complete. -/
theorem complete_good (hworker : s.worker.At n) (hactive : s.activeEntry n = some (pub, entry))
    (hnone : entry.cursor.current = none)
    (ht : t = { s.progress n pub entry { entry.progress with stage := .complete } true
      (.completed n) with finished := s.finished ++ [n] }) :
    t.Good encoding limits := by
  have hat := hgood.active hworker.entry_eq hactive
  have hpart := hgood.part_at hworker
  obtain ⟨haccepted, hflushes, -⟩ := hpart.at hat
  rw [hat.good.current] at hnone
  have hpubs : t.publications = s.publications.set n { pub with
      place := .active { entry with progress := { entry.progress with stage := .complete } }
      signal := { entry.progress with stage := .complete } } := by
    rw [ht]
    rfl
  have hrequests : t.requests = s.requests := requests_put hat.found hpubs rfl
  have hfinished : t.finished = s.finished ++ [n] := by rw [ht]
  have hmem : n ∈ t.finished := by simp [hfinished]
  have hframes : framesOf encoding s.requests (s.finished ++ [n]) =
      framesOf encoding s.requests s.finished ++ expansion encoding pub.cycles := by
    rw [framesOf_append, framesOf_cons, requests_getD hat.found]
    simp [framesOf]
  refine hgood.continued hat hpubs rfl rfl rfl (by rw [ht]; rfl) (by rw [ht]; rfl)
    (by rw [ht]; rfl) (by rw [ht]; rfl) (by rw [ht]; rfl)
    (fun m hm ↦ by simp [hfinished, hm])
    ⟨hat.good.valid, hat.good.remaining, hat.good.frames, hat.good.maxLine⟩
    (iff_of_true rfl hmem) (fun _ ↦ rfl) (iff_of_true rfl hmem) ?_
  have hwhole : t.Whole encoding := by
    refine ⟨?_, ?_, ?_⟩
    · rw [hfinished, ht]
      exact hpart.committed.trans (append_cons _ _ _)
    · rw [hrequests, hfinished, hframes, flatten_append, ← written_end hnone, ← haccepted, ht]
      rfl
    · rw [hrequests, hfinished, hframes,
        ← take_of_length_le (getElem?_eq_none_iff.mp hnone), ← hflushes, ht]
      rfl
  have hthere : t.worker = .completed n := by
    rw [ht]
    rfl
  unfold Stream
  rw [hthere]
  exact ⟨hwhole, hmem⟩

theorem check_good (hworker : s.worker = .checking n)
    (hactive : s.activeEntry n = some (pub, entry)) :
    Good encoding limits (s.check n pub entry) := by
  have hplace : s.worker.At n := .inl hworker
  have hat := hgood.active hplace.entry_eq hactive
  have hpart := hgood.part_at hplace
  unfold check
  split
  · split_ifs
    · exact failEntry_good hgood hplace hactive _
    · have ht := s.progress_append n pub entry { entry.progress with stage := .writing } true
        (.writing n)
      exact progress_good hgood hat hpart (hgood.unfinished hpart) ht rfl (by simp) rfl
        (append_nil _).symm (.inl ⟨n, rfl⟩)
  · rename_i hnone
    split_ifs
    · exact failEntry_good hgood hplace hactive _
    · exact complete_good hgood hplace hactive hnone rfl

theorem write_good (hworker : s.worker = .writing n)
    (hactive : s.activeEntry n = some (pub, entry)) {count : ℕ}
    (hwrite : s.write n pub entry count = some t) : t.Good encoding limits := by
  have hplace : s.worker.At n := .inr (.inl hworker)
  have hat := hgood.active hplace.entry_eq hactive
  have hpart := hgood.part_at hplace
  unfold write at hwrite
  split at hwrite
  · rename_i line hline
    split_ifs at hwrite with hcount
    rw [hat.good.current] at hline
    have hstage : entry.progress.stage ≠ .complete := fun h ↦
      hgood.unfinished hpart (hat.complete.mp h)
    refine progress_good hgood hat hpart (hgood.unfinished hpart) (some.inj hwrite).symm rfl
      hstage rfl ?_ (.inl ⟨n, rfl⟩)
    unfold written
    simp only [hline, getD_some]
    rw [take_add, append_assoc]
  · cases hwrite

theorem endLine_good (hworker : s.worker = .writing n)
    (hactive : s.activeEntry n = some (pub, entry)) (hend : s.endLine n pub entry = some t) :
    t.Good encoding limits := by
  have hplace : s.worker.At n := .inr (.inl hworker)
  have hat := hgood.active hplace.entry_eq hactive
  have hpart := hgood.part_at hplace
  unfold endLine at hend
  split at hend
  · rename_i line hline
    split_ifs at hend with hbyte
    rw [hat.good.current] at hline
    cases hend
    have ht := s.progress_append n pub entry { entry.progress with stage := .flushing } true
      (.flushing n)
    exact progress_good hgood hat hpart (hgood.unfinished hpart) ht rfl (by simp) rfl
      (append_nil _).symm (.inr (.inr ⟨⟨n, rfl⟩, line, hline, hbyte⟩))
  · cases hend

/-- A flush ends a frame. -/
theorem flush_good (hworker : s.worker = .flushing n)
    (hactive : s.activeEntry n = some (pub, entry)) (ht : t = s.flush n pub entry) :
    t.Good encoding limits := by
  have hplace : s.worker.At n := .inr (.inr hworker)
  have hat := hgood.active hplace.entry_eq hactive
  have hpart := hgood.part_at hplace
  obtain ⟨haccepted, hflushes, hline⟩ := hpart.at hat
  obtain ⟨line, hline, hbyte⟩ := hline hworker
  have hlt := (List.getElem?_eq_some_iff.mp hat.found).1
  obtain ⟨hadvance, hvalid, -, hframes⟩ := Cursor.remaining_advance hat.good.valid
  have hunfinished := hgood.unfinished hpart
  have hstage : entry.progress.stage ≠ .complete := fun h ↦ hunfinished (hat.complete.mp h)
  have hreported : pub.signal.stage ≠ .complete := fun h ↦
    hunfinished ((hgood.publications n pub hat.found).complete.mp h)
  have hpubs : t.publications = s.publications.set n { pub with
      place := .active ⟨entry.cursor.advance,
        { entry.progress with frame := entry.progress.frame + 1, byte := 0 }, entry.maxLine⟩ } := by
    rw [ht]
    rfl
  have hrequests : t.requests = s.requests := requests_put hat.found hpubs rfl
  have hfinished : t.finished = s.finished := by
    rw [ht]
    rfl
  have hnot : n ∉ t.finished := by
    rw [hfinished]
    exact hunfinished
  have htake : (expansion encoding pub.cycles).take (entry.progress.frame + 1) =
      (expansion encoding pub.cycles).take entry.progress.frame ++ [line] := by
    rw [take_add_one, hline]
    rfl
  refine hgood.continued hat hpubs rfl rfl rfl (by rw [ht]; rfl) (by rw [ht]; rfl)
    (by rw [ht]; rfl) (by rw [ht]; rfl) (by rw [ht]; rfl) (fun m _ ↦ by rw [hfinished])
    ⟨hvalid, ?_, hframes.trans hat.good.frames, hat.good.maxLine⟩ (iff_of_false hstage hnot)
    hat.signal (iff_of_false hreported hnot) ?_
  · rw [hadvance, hat.good.remaining, tail_drop]
  · have hnext : t.Partial encoding n := by
      refine ⟨?_, _, _, by rw [hpubs, getElem?_set_self hlt], rfl, ?_, ?_, fun h ↦ ?_⟩
      · rw [ht]
        exact hpart.committed
      · rw [hrequests, hfinished, written_start _ rfl, ← written_line hline hbyte, ← haccepted, ht]
        rfl
      · rw [hrequests, hfinished]
        simp only [htake]
        rw [← append_assoc, marks_concat, ← hflushes, append_assoc, ← htake,
          flatten_append, ← written_line hline hbyte, ← haccepted, ht]
        rfl
      · rw [ht] at h
        cases h
    have hthere : t.worker = .checking n := by
      rw [ht]
      rfl
    unfold Stream
    rw [hthere]
    exact hnext

end

/-- What holds of an entry of the queue. -/
structure Queued (encoding : Json → List UInt8) (s : State) (n : ℕ) (pub : Publication)
    (entry : Entry) : Prop where
  found : s.publications[n]? = some pub
  committed : n ∈ s.committed
  finished : n ∉ s.finished
  good : entry.Good encoding pub.cycles
  progress : entry.progress = ⟨.queued, 0, 0⟩
  worker : s.worker.entry ≠ some n

theorem Good.queued (hgood : s.Good encoding limits)
    (hqueued : s.queuedEntry n = some (pub, entry)) : Queued encoding s n pub entry := by
  obtain ⟨found, hfound, hentry⟩ := bind_eq_some_iff.mp hqueued
  have hplace : found = pub ∧ found.place = .queued entry := by
    cases hat : found.place <;> simp only [hat, reduceCtorEq] at hentry
    cases hentry
    exact ⟨rfl, rfl⟩
  obtain ⟨rfl, hplace⟩ := hplace
  have hold := (hgood.publications n found hfound).place
  unfold Publication.PlaceGood at hold
  simp only [hplace] at hold
  obtain ⟨hcommitted, -, hfinished, hgoodEntry, hprogress⟩ := hold
  refine ⟨hfound, hcommitted, hfinished, hgoodEntry, hprogress, fun h ↦ ?_⟩
  obtain ⟨other, active, hother, hactive⟩ := hgood.ordered.worker n h
  rw [← some.inj (hfound.symm.trans hother), hplace] at hactive
  cases hactive

theorem receive_good (hgood : s.Good encoding limits) (hworker : s.worker = .receiving)
    {rest : List ℕ} (hqueue : s.queue = n :: rest)
    (hqueued : s.queuedEntry n = some (pub, entry))
    (ht : t = { s.put n { pub with place := .active entry } with
      queue := rest, worker := .checking n }) : t.Good encoding limits := by
  have hwhole : s.Whole encoding := by
    have hstream := hgood.stream
    unfold Stream at hstream
    simpa only [hworker] using hstream
  have hcommitted : s.committed = s.finished ++ n :: rest := by
    rw [hwhole.committed, hqueue]
  have hat := hgood.queued hqueued
  have hlt := (List.getElem?_eq_some_iff.mp hat.found).1
  have hpubs : t.publications = s.publications.set n { pub with place := .active entry } := by
    rw [ht]
    rfl
  have hrequests : t.requests = s.requests := requests_put hat.found hpubs rfl
  have hnodup := hgood.ordered.queueNodup
  rw [hqueue, nodup_cons] at hnodup
  have hthere : t.worker = .checking n := by rw [ht]
  have hfinished : t.finished = s.finished := by
    rw [ht]
    rfl
  refine hgood.worked hat.found hpubs ⟨?_, ?_⟩ (fun pool ↦ by rw [ht]; rfl) (by rw [ht]; rfl)
    (fun m _ ↦ by rw [hfinished]) (fun m hm ↦ ?_) (by rw [ht]; exact hnodup.1)
    (by rw [ht]; exact hnodup.2) (fun m hm ↦ ?_) (fun _ ↦ ⟨entry, rfl⟩)
    (iff_of_false ?_ (by simp [hthere])) (by simp [hthere]) ?_
  · unfold Publication.PlaceGood
    simp only [hthere, hfinished]
    refine ⟨?_, rfl, hat.good, iff_of_false (by simp [hat.progress]) hat.finished, ?_⟩
    · rw [ht]
      exact hat.committed
    · rw [hat.progress]
      exact fun h ↦ absurd h (by simp [Stage.terminal])
  · rw [hfinished]
    exact (hgood.publications n pub hat.found).complete
  · rw [ht, hqueue]
    simp [hm]
  · rw [hthere, hworker]
    simp [Worker.entry, Ne.symm hm]
  · rw [ht]
    change ¬ s.closed = true
    rw [hgood.ordered.closed, hworker]
    simp
  · have hpart : t.Partial encoding n := by
      refine ⟨?_, _, entry, by rw [hpubs, getElem?_set_self hlt], rfl, ?_, ?_, fun h ↦ ?_⟩
      · rw [ht]
        exact hcommitted
      · rw [hrequests, hfinished, written_start _ (by rw [hat.progress]), hat.progress, ht]
        simpa [put] using hwhole.accepted
      · rw [hrequests, hfinished, hat.progress, ht]
        simpa [put] using hwhole.flushes
      · rw [hthere] at h
        cases h
    unfold Stream
    rw [hthere]
    exact hpart

/-- The publication that the worker gives up is gone, and the worker goes on. -/
theorem Good.gaveUp (hgood : s.Good encoding limits) (hpub : s.publications[n]? = some pub)
    {signal : Progress} {queue : List ℕ}
    (ht : t = { s.discard n { pub with signal } with worker, queue })
    (hterminal : signal.stage.terminal = true)
    (hcomplete : signal.stage = .complete ↔ n ∈ s.finished)
    (hqueue : ∀ m, m ≠ n → (m ∈ queue ↔ m ∈ s.queue)) (hgone : n ∉ queue) (hnodup : queue.Nodup)
    (hentry : worker.entry = none) (hheld : ∀ m, m ≠ n → s.worker.entry ≠ some m)
    (hclosed : s.closed = true ↔ worker = .draining ∨ worker = .ended)
    (hended : worker = .ended → queue = [])
    (hstream : t.requests = s.requests → t.Stream encoding) :
    t.Good encoding limits := by
  have hpubs : t.publications = s.publications.set n
      { pub with place := .gone, charge := fun _ ↦ 0, signal } := by
    rw [ht]
    rfl
  have hthere : t.worker = worker := by rw [ht]
  refine hgood.worked hpub hpubs ⟨fun _ ↦ hterminal, ?_⟩ (fun pool ↦ ?_) (by rw [ht]; rfl)
    (fun m _ ↦ by rw [ht]; rfl) (fun m hm ↦ by rw [ht]; exact hqueue m hm) (by rw [ht]; exact hgone)
    (by rw [ht]; exact hnodup) (fun m hm ↦ ?_) (fun h ↦ ?_) (by rw [ht]; exact hclosed)
    (by rw [ht]; exact hended) (hstream (requests_put hpub hpubs rfl))
  · rw [ht]
    exact hcomplete
  · rw [ht]
    exact Nat.add_zero _
  · rw [hthere, hentry]
    exact iff_of_false (by simp) (hheld m hm)
  · rw [hthere, hentry] at h
    cases h

/-- A covered stream stays covered. -/
theorem Covered.of_eq (hcovered : s.Covered encoding) (hrequests : t.requests = s.requests)
    (hcommitted : t.committed = s.committed) (hfinished : t.finished = s.finished)
    (haccepted : t.accepted = s.accepted) (hflushes : t.flushes = s.flushes) :
    t.Covered encoding where
  committed := by
    rw [hcommitted, hfinished]
    exact hcovered.committed
  accepted := by
    rw [hrequests, hcommitted, haccepted]
    exact hcovered.accepted
  finished := by
    rw [hrequests, hfinished, haccepted]
    exact hcovered.finished
  flushes := by
    rw [hrequests, hfinished, hflushes]
    exact hcovered.flushes

theorem release_good (hgood : s.Good encoding limits) (hworker : s.worker = .completed n)
    (hactive : s.activeEntry n = some (pub, entry))
    (ht : t = { s.dropEntry n pub entry with worker := .receiving }) : t.Good encoding limits := by
  have hat := hgood.active (by rw [hworker]; rfl) hactive
  have hstream : s.Whole encoding ∧ n ∈ s.finished := by
    have hstream := hgood.stream
    unfold Stream at hstream
    simpa only [hworker] using hstream
  have hstage := hat.complete.mpr hstream.2
  have hsignal := hat.signal (by rw [hstage]; rfl)
  have hdrop : s.dropEntry n pub entry = s.discard n pub := by
    unfold dropEntry
    rw [hstage]
    rfl
  rw [hdrop] at ht
  have hthere : t.worker = .receiving := by rw [ht]
  have hgone : t = { s.discard n { pub with signal := pub.signal } with
      worker := .receiving, queue := s.queue } := ht
  refine hgood.gaveUp hat.found hgone ?_ ?_ (fun _ _ ↦ Iff.rfl) hat.queue
    hgood.ordered.queueNodup rfl (fun m hm ↦ ?_) ?_ (by simp) fun hrequests ↦ ?_
  · rw [hsignal, hstage]
    rfl
  · exact (hgood.publications n pub hat.found).complete
  · rw [hworker]
    exact fun h ↦ hm (some.inj h).symm
  · rw [hgood.ordered.closed, hworker]
    simp
  · unfold Stream
    rw [hthere]
    refine ⟨?_, ?_, ?_⟩
    · rw [ht]
      exact hstream.1.committed
    · rw [hrequests, ht]
      exact hstream.1.accepted
    · rw [hrequests, ht]
      exact hstream.1.flushes

/-- What the ticket of a dropped entry reads. -/
theorem dropEntry_eq (s : State) (n : ℕ) (pub : Publication) (entry : Entry)
    (hsignal : entry.progress.stage.terminal = true → pub.signal.stage = entry.progress.stage) :
    ∃ signal : Progress, s.dropEntry n pub entry = s.discard n { pub with signal } ∧
      signal.stage.terminal = true ∧
      (signal.stage = .complete → entry.progress.stage = .complete) := by
  unfold dropEntry
  split_ifs with hterminal
  · refine ⟨pub.signal, rfl, ?_, fun h ↦ ?_⟩
    · rw [hsignal hterminal]
      exact hterminal
    · rw [← hsignal hterminal]
      exact h
  · exact ⟨_, rfl, rfl, fun h ↦ by cases h⟩

section

variable (hgood : s.Good encoding limits)
include hgood

/-- The worker drops its entry on its way out. -/
theorem unwindEntry_good (hworker : s.worker = .unwinding (some n))
    (hactive : s.activeEntry n = some (pub, entry))
    (ht : t = { s.dropEntry n pub entry with worker := .unwinding none }) :
    t.Good encoding limits := by
  have hat := hgood.active (by rw [hworker]; rfl) hactive
  have hpart : s.Partial encoding n := by
    have hstream := hgood.stream
    unfold Stream at hstream
    simpa only [hworker] using hstream
  have hunfinished := hgood.unfinished hpart
  obtain ⟨signal, hdrop, hterminal, hcomplete⟩ := s.dropEntry_eq n pub entry hat.signal
  rw [hdrop] at ht
  have hgone : t = { s.discard n { pub with signal } with
      worker := .unwinding none, queue := s.queue } := ht
  refine hgood.gaveUp hat.found hgone hterminal ?_ (fun _ _ ↦ Iff.rfl) hat.queue
    hgood.ordered.queueNodup rfl (fun m hm ↦ ?_) ?_ (by simp) fun hrequests ↦ ?_
  · exact iff_of_false (fun h ↦ hunfinished (hat.complete.mp (hcomplete h))) hunfinished
  · rw [hworker]
    exact fun h ↦ hm (some.inj h).symm
  · rw [hgood.ordered.closed, hworker]
    simp
  · have hthere : t.worker = .unwinding none := by rw [ht]
    unfold Stream
    rw [hthere]
    exact hpart.covered.of_eq hrequests (by rw [ht]; rfl) (by rw [ht]; rfl) (by rw [ht]; rfl)
      (by rw [ht]; rfl)

/-- The end of the queue drops an entry. -/
theorem drain_good (hworker : s.worker = .draining) {rest : List ℕ} (hqueue : s.queue = n :: rest)
    (hqueued : s.queuedEntry n = some (pub, entry))
    (ht : t = { s.dropEntry n pub entry with queue := rest }) : t.Good encoding limits := by
  have hat := hgood.queued hqueued
  have hnodup := hgood.ordered.queueNodup
  rw [hqueue, nodup_cons] at hnodup
  rw [dropEntry_queued hat.progress] at ht
  have hgone : t = { s.discard n { pub with signal := ⟨.failed .brokenPipe, 0, 0⟩ } with
      worker := .draining, queue := rest } := by
    rw [ht, ← hworker]
    rfl
  refine hgood.gaveUp hat.found hgone rfl (iff_of_false (by simp) hat.finished) (fun m hm ↦ ?_)
    hnodup.1 hnodup.2 rfl (fun m _ ↦ ?_) ?_ (by simp) fun hrequests ↦ ?_
  · rw [hqueue]
    simp [hm]
  · rw [hworker]
    simp [Worker.entry]
  · rw [hgood.ordered.closed, hworker]
  · have hthere : t.worker = .draining := by rw [hgone]
    unfold Stream
    rw [hthere]
    exact hgood.stream.covered.of_eq hrequests (by rw [ht]; rfl) (by rw [ht]; rfl)
      (by rw [ht]; rfl) (by rw [ht]; rfl)

/-- A step of the worker that leaves its entry. -/
theorem Good.turned {closed sender : Bool} (hentry : worker.entry = s.worker.entry)
    (hclosed : closed = true ↔ worker = .draining ∨ worker = .ended)
    (hended : worker = .ended → s.queue = [])
    (hstream : Stream encoding { s with worker, closed, sender }) :
    Good encoding limits { s with worker, closed, sender } := by
  refine ⟨⟨hgood.ordered.known, hgood.ordered.nodup, hgood.ordered.queueNodup,
    hgood.ordered.queue, fun m hm ↦ hgood.ordered.worker m (hentry ▸ hm), hclosed, hended⟩,
    fun m other hother ↦ ?_, hstream, hgood.credits⟩
  refine Agrees.good (s := s) ⟨Iff.rfl, Iff.rfl, Iff.rfl, ?_⟩ (hgood.publications m other hother)
  rw [hentry]

/-- The worker goes out with the entry it holds. -/
theorem abort_good (hworker : s.worker = .writing n ∨ s.worker = .flushing n) :
    Good encoding limits { s with worker := .unwinding (some n) } := by
  have hplace : s.worker.At n := by
    rcases hworker with h | h
    · exact .inr (.inl h)
    · exact .inr (.inr h)
  obtain ⟨hcommitted, pub, entry, hpub, hactive, haccepted, hflushes, -⟩ := hgood.part_at hplace
  refine hgood.turned hplace.entry_eq.symm ?_ (by simp) ?_
  · rw [hgood.ordered.closed]
    rcases hworker with h | h <;> simp [h]
  · exact ⟨hcommitted, pub, entry, hpub, hactive, haccepted, hflushes, fun h ↦ by cases h⟩

theorem stop_good (hworker : s.worker = .receiving) :
    Good encoding limits { s with worker := .unwinding none } := by
  refine hgood.turned (by rw [hworker]; rfl) ?_ (by simp) ?_
  · rw [hgood.ordered.closed, hworker]
    simp
  · have hcovered := hgood.stream.covered
    exact ⟨hcovered.committed, hcovered.accepted, hcovered.finished, hcovered.flushes⟩

theorem unwind_good (hunwind : s.unwind = some t) : t.Good encoding limits := by
  have hcovered := hgood.stream.covered
  unfold unwind at hunwind
  split at hunwind
  · rename_i held hworker
    obtain ⟨⟨pub, entry⟩, hactive, ht⟩ := map_eq_some_iff.mp hunwind
    exact unwindEntry_good hgood hworker hactive ht.symm
  · rename_i hworker
    cases hunwind
    refine hgood.turned (by rw [hworker]; rfl) (by simp) (by simp) ?_
    exact ⟨hcovered.committed, hcovered.accepted, hcovered.finished, hcovered.flushes⟩
  · rename_i hworker
    split at hunwind
    · rename_i hqueue
      cases hunwind
      refine hgood.turned (by rw [hworker]; rfl) ?_ (fun _ ↦ hqueue) ?_
      · rw [hgood.ordered.closed, hworker]
        simp
      · exact ⟨hcovered.committed, hcovered.accepted, hcovered.finished, hcovered.flushes⟩
    · rename_i head rest hqueue
      obtain ⟨⟨pub, entry⟩, hqueued, ht⟩ := map_eq_some_iff.mp hunwind
      exact drain_good hgood hworker hqueue hqueued ht.symm
  · cases hunwind

end

end State

end ObsMcp.Stdio
