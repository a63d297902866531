import ObsMcp.Stdio.Streams

/-!
# Reservations and commits keep the writer good

The steps of the callers. A step of a reservation replaces one publication that is neither in the
queue nor with the worker (`Good.replaced`), whether it takes credits, refuses or drops. A commit
puts the publication behind the other ones, or fails its ticket when the queue is gone
(`commit_good`).
-/

namespace ObsMcp.Stdio

open Foundations List

namespace State

variable {encoding : Json → List UInt8} {limits : Limits} {s t : State} {n : ℕ}
  {pub later : Publication} {entry : Entry}

/-! ### Reservations -/

/-- The publication is in the queue or with the worker. -/
def Owned : Place → Prop
  | .queued _ => True
  | .active _ => True
  | _ => False

section

variable (hgood : s.Good encoding limits) (hpub : s.publications[n]? = some pub)
  (howned : ¬ Owned pub.place)
include hgood hpub howned

/-- A publication outside of the queue and the worker is replaced, and the session stays. -/
theorem Good.replaced (hnew : later.Good encoding s n) (hcycles : later.cycles = pub.cycles)
    {available : Pool → ℕ}
    (hcharge : ∀ pool, available pool + later.charge pool = s.available pool + pub.charge pool) :
    Good encoding limits { s.put n later with available } := by
  have hne : ∀ {m : ℕ} {other : Publication} {place : Place}, s.publications[m]? = some other →
      other.place = place → Owned place → n ≠ m := by
    rintro m other place hother rfl hplace rfl
    rw [Option.some.inj (hpub.symm.trans hother)] at howned
    exact howned hplace
  have hrequests : requests { s.put n later with available } = s.requests :=
    requests_put hpub rfl hcycles
  have hset : ∀ {m : ℕ}, n ≠ m →
      (s.publications.set n later)[m]? = s.publications[m]? := fun h ↦ getElem?_set_ne h
  refine ⟨⟨?_, hgood.ordered.nodup, hgood.ordered.queueNodup, fun m hm ↦ ?_, fun m hm ↦ ?_,
    hgood.ordered.closed, hgood.ordered.ended⟩,
    publications_put hgood rfl ⟨hnew.place, hnew.complete⟩
      fun _ _ ↦ ⟨Iff.rfl, Iff.rfl, Iff.rfl, Iff.rfl⟩, ?_, credits_put hgood hpub rfl hcharge⟩
  · intro m hm
    have := hgood.ordered.known m hm
    simpa [put] using this
  · obtain ⟨other, entry, hother, hplace⟩ := hgood.ordered.queue m hm
    exact ⟨other, entry, (hset (hne hother hplace trivial)).trans hother, hplace⟩
  · obtain ⟨other, entry, hother, hplace⟩ := hgood.ordered.worker m hm
    exact ⟨other, entry, (hset (hne hother hplace trivial)).trans hother, hplace⟩
  · have hpart : ∀ m, s.Partial encoding m →
        Partial encoding { s.put n later with available } m := by
      rintro m ⟨hcommitted, other, entry, hother, hplace, haccepted, hflushes⟩
      refine ⟨hcommitted, other, entry, (hset (hne hother hplace trivial)).trans hother, hplace,
        ?_, ?_⟩
      · rw [hrequests]
        exact haccepted
      · rw [hrequests]
        exact hflushes
    have hwhole : s.Whole encoding → Whole encoding { s.put n later with available } := by
      rintro ⟨hcommitted, haccepted, hflushes⟩
      refine ⟨hcommitted, ?_, ?_⟩ <;> rw [hrequests]
      · exact haccepted
      · exact hflushes
    have hcovered : s.Covered encoding → Covered encoding { s.put n later with available } := by
      rintro ⟨hcommitted, haccepted, hfinished, hflushes⟩
      refine ⟨hcommitted, ?_, ?_, ?_⟩ <;> rw [hrequests]
      · exact haccepted
      · exact hfinished
      · exact hflushes
    exact hgood.stream.transfer rfl hwhole hpart hcovered fun _ h ↦ h

/-- A step of a reservation that takes no credits. -/
theorem Good.placed (hcycles : later.cycles = pub.cycles) (hnew : later.Good encoding s n)
    (hcharge : later.charge = pub.charge) : Good encoding limits (s.put n later) :=
  hgood.replaced hpub howned hnew hcycles fun pool ↦ by rw [hcharge]

/-- A publication that is not committed goes, with its credits. -/
theorem Good.discarded (hcommitted : n ∉ s.committed) : Good encoding limits (s.discard n pub) := by
  have hnew : Publication.Good encoding s n { pub with place := .gone, charge := fun _ ↦ 0 } :=
    ⟨fun h ↦ absurd h hcommitted, (hgood.publications n pub hpub).complete⟩
  exact hgood.replaced hpub howned hnew rfl fun _ ↦ Nat.add_zero _

/-- Credits of one pool are taken, or the reservation is refused. -/
theorem Good.acquired (hcommitted : n ∉ s.committed) (pool : Pool) (count : ℕ) {next : Place}
    (hnext : ∀ charge : Pool → ℕ,
      Publication.PlaceGood encoding s n { pub with place := next, charge }) :
    Good encoding limits (s.acquire n pub pool count next) := by
  unfold acquire
  split_ifs with hfits
  · have hnew : Publication.Good encoding s n { pub with
        place := next
        charge := fun p ↦ if p = pool then pub.charge p + count else pub.charge p } :=
      ⟨hnext _, (hgood.publications n pub hpub).complete⟩
    refine hgood.replaced hpub howned hnew rfl fun p ↦ ?_
    simp only
    split_ifs with hp
    · subst hp
      omega
    · rfl
  · exact hgood.discarded hpub howned hcommitted

end

theorem start_good (hgood : s.Good encoding limits) {cycles : List Cycle}
    (hstart : s.start cycles = some t) : t.Good encoding limits := by
  unfold start at hstart
  split_ifs at hstart with hitem
  cases hstart
  have hknown : ∀ m ∈ s.committed, m < s.requests.length := by
    simpa [requests] using hgood.ordered.known
  have hfinished : ∀ m ∈ s.finished, m < s.requests.length := fun m hm ↦
    hknown m (hgood.stream.covered.committed.subset hm)
  have hkept : ∀ {m : ℕ} {other : Publication}, s.publications[m]? = some other →
      ∀ more : List Publication, (s.publications ++ more)[m]? = some other := by
    intro m other hother more
    exact getElem?_append_of_some hother
  refine ⟨⟨?_, hgood.ordered.nodup, hgood.ordered.queueNodup, fun m hm ↦ ?_, fun m hm ↦ ?_,
    hgood.ordered.closed, hgood.ordered.ended⟩, fun m other hother ↦ ?_, ?_, fun pool ↦ ?_⟩
  · intro m hm
    have := hgood.ordered.known m hm
    rw [length_append]
    omega
  · obtain ⟨other, entry, hother, hplace⟩ := hgood.ordered.queue m hm
    exact ⟨other, entry, hkept hother _, hplace⟩
  · obtain ⟨other, entry, hother, hplace⟩ := hgood.ordered.worker m hm
    exact ⟨other, entry, hkept hother _, hplace⟩
  · rw [getElem?_append] at hother
    split_ifs at hother with hlt
    · exact Agrees.good (s := s) ⟨Iff.rfl, Iff.rfl, Iff.rfl, Iff.rfl⟩
        (hgood.publications m other hother)
    · obtain rfl := mem_singleton.mp (mem_of_getElem? hother)
      have hnew : m ∉ s.committed := fun h ↦ hlt (hgood.ordered.known m h)
      exact ⟨hnew, iff_of_false (by simp) fun h ↦
        hnew (hgood.stream.covered.committed.subset h)⟩
  · refine hgood.stream.transfer rfl ?_ ?_ ?_ fun _ h ↦ h
    · rintro ⟨hcommitted, haccepted, hflushes⟩
      refine ⟨hcommitted, ?_, ?_⟩ <;>
        rw [requests_append (s := s) rfl, framesOf_requests hfinished]
      · exact haccepted
      · exact hflushes
    · rintro m ⟨hcommitted, other, entry, hother, hplace, haccepted, hflushes⟩
      refine ⟨hcommitted, other, entry, hkept hother _, hplace, ?_, ?_⟩ <;>
        rw [requests_append (s := s) rfl, framesOf_requests hfinished]
      · exact haccepted
      · exact hflushes
    · rintro ⟨hcommitted, haccepted, hwritten, hflushes⟩
      refine ⟨hcommitted, ?_, ?_, ?_⟩ <;> rw [requests_append (s := s) rfl]
      · rw [framesOf_requests hknown]
        exact haccepted
      · rw [framesOf_requests hfinished]
        exact hwritten
      · rw [framesOf_requests hfinished]
        exact hflushes
  · have hcredits := hgood.credits pool
    simp only [map_append, sum_append, map_cons, map_nil, sum_cons,
      sum_nil]
    split_ifs with hpool
    · subst hpool
      omega
    · omega

theorem proceed_good (hgood : s.Good encoding limits) (hpub : s.publications[n]? = some pub)
    {fits : Bool} (hproceed : s.proceed encoding limits n pub fits = some t) :
    t.Good encoding limits := by
  have hplace := (hgood.publications n pub hpub).place
  have hcomplete := (hgood.publications n pub hpub).complete
  unfold Publication.PlaceGood at hplace
  unfold proceed at hproceed
  cases hat : pub.place with
  | opened =>
    simp only [hat, Option.some.injEq] at hproceed hplace
    have howned : ¬ Owned pub.place := by simp [hat, Owned]
    subst hproceed
    split_ifs
    · exact hgood.placed hpub howned rfl ⟨hplace, hcomplete⟩ rfl
    · exact hgood.discarded hpub howned hplace
  | permitted =>
    simp only [hat] at hproceed hplace
    have howned : ¬ Owned pub.place := by simp [hat, Owned]
    split at hproceed
    · rename_i tally hplan
      cases hproceed
      have hplanned := planned_of_plan hplan
      refine hgood.placed hpub howned rfl ⟨?_, hcomplete⟩ rfl
      unfold Publication.PlaceGood
      by_cases hone : tally.frames = 1
      · simp only [hone, if_true]
        exact ⟨hplace, hplanned⟩
      · simp only [hone, if_false]
        exact ⟨hplace, hplanned⟩
    · cases hproceed
      exact hgood.discarded hpub howned hplace
  | planned tally =>
    simp only [hat, Option.some.injEq] at hproceed hplace
    have howned : ¬ Owned pub.place := by simp [hat, Owned]
    subst hproceed
    split_ifs
    · exact hgood.discarded hpub howned hplace.1
    · exact hgood.acquired hpub howned hplace.1 _ _ fun _ ↦ hplace
  | entriesTaken tally =>
    simp only [hat, Option.some.injEq] at hproceed hplace
    subst hproceed
    exact hgood.acquired hpub (by simp [hat, Owned]) hplace.1 _ _ fun _ ↦ hplace
  | templated tally =>
    simp only [hat, Option.some.injEq] at hproceed hplace
    subst hproceed
    exact hgood.acquired hpub (by simp [hat, Owned]) hplace.1 _ _ fun _ ↦ hplace
  | charged tally =>
    simp only [hat] at hproceed hplace
    have howned : ¬ Owned pub.place := by simp [hat, Owned]
    split at hproceed
    · rename_i encoded hpayload
      split_ifs at hproceed
      · cases hproceed
        obtain ⟨hvalid, hremaining⟩ := payload_expansion hplace.2 hpayload
        have hentry : Entry.Good encoding pub.cycles
            ⟨⟨encoded, 0, 0, 0, tally.frames⟩, ⟨.queued, 0, 0⟩, tally.maximum⟩ :=
          ⟨hvalid, hremaining, hplace.2.frames, hplace.2.maximum⟩
        refine hgood.placed hpub howned rfl ⟨⟨hplace.1, hentry, rfl⟩, iff_of_false (by simp) ?_⟩ rfl
        exact fun h ↦ hplace.1 (hgood.stream.covered.committed.subset h)
      · cases hproceed
        exact hgood.discarded hpub howned hplace.1
    · cases hproceed
      exact hgood.discarded hpub howned hplace.1
  | reserved entry => simp [hat] at hproceed
  | queued entry => simp [hat] at hproceed
  | active entry => simp [hat] at hproceed
  | gone => simp [hat] at hproceed

/-- An entry that was never with the worker fails when it is dropped. -/
theorem dropEntry_queued (hprogress : entry.progress = ⟨.queued, 0, 0⟩) :
    s.dropEntry n pub entry =
      s.discard n { pub with signal := ⟨.failed .brokenPipe, 0, 0⟩ } := by
  unfold dropEntry
  rw [hprogress]
  rfl

/-- The drop of a reservation. -/
theorem dropEntry_good (hgood : s.Good encoding limits) (hpub : s.publications[n]? = some pub)
    (hplace : pub.place = .reserved entry) : Good encoding limits (s.dropEntry n pub entry) := by
  have hold := (hgood.publications n pub hpub).place
  unfold Publication.PlaceGood at hold
  simp only [hplace] at hold
  obtain ⟨hcommitted, -, hprogress⟩ := hold
  have hfinished : n ∉ s.finished := fun h ↦
    hcommitted (hgood.stream.covered.committed.subset h)
  rw [dropEntry_queued hprogress]
  have hnew : Publication.Good encoding s n
      { pub with place := .gone, charge := fun _ ↦ 0, signal := ⟨.failed .brokenPipe, 0, 0⟩ } :=
    ⟨fun h ↦ absurd h hcommitted, iff_of_false (by simp) hfinished⟩
  exact hgood.replaced hpub (by simp [hplace, Owned]) hnew rfl fun _ ↦ Nat.add_zero _

/-! ### Commits -/

/-- A new commit is behind the others. -/
theorem Covered.commit (hcovered : s.Covered encoding)
    (hrequests : t.requests = s.requests) (hcommitted : t.committed = s.committed ++ [n])
    (hfinished : t.finished = s.finished) (haccepted : t.accepted = s.accepted)
    (hflushes : t.flushes = s.flushes) : t.Covered encoding where
  committed := by
    rw [hcommitted, hfinished]
    exact hcovered.committed.trans (prefix_append _ _)
  accepted := by
    rw [hrequests, hcommitted, haccepted, framesOf_append, flatten_append]
    exact hcovered.accepted.trans (prefix_append _ _)
  finished := by
    rw [hrequests, hfinished, haccepted]
    exact hcovered.finished
  flushes := by
    rw [hrequests, hfinished, hflushes]
    exact hcovered.flushes

theorem agrees_commit {m : ℕ} (hm : m ≠ n) (hcommitted : t.committed = s.committed ++ [n])
    (hqueue : t.queue = s.queue ∨ t.queue = s.queue ++ [n]) (hfinished : t.finished = s.finished)
    (hworker : t.worker = s.worker) : Agrees s t m where
  committed := by simp [hcommitted, hm]
  queue := by
    rcases hqueue with hqueue | hqueue
    · rw [hqueue]
    · simp [hqueue, hm]
  finished := by rw [hfinished]
  worker := by rw [hworker]

/-- What a commit finds: a reservation that is not in the history. -/
structure Reserved (encoding : Json → List UInt8) (s : State) (n : ℕ) (pub : Publication)
    (entry : Entry) : Prop where
  committed : n ∉ s.committed
  finished : n ∉ s.finished
  good : entry.Good encoding pub.cycles
  progress : entry.progress = ⟨.queued, 0, 0⟩
  nodup : (s.committed ++ [n]).Nodup
  known : ∀ m ∈ s.committed ++ [n], m < s.publications.length
  others : ∀ {m : ℕ} {other : Publication}, s.publications[m]? = some other →
    Owned other.place → n ≠ m

section

variable (hgood : s.Good encoding limits) (hpub : s.publications[n]? = some pub)
include hgood hpub

theorem Good.reserved (hplace : pub.place = .reserved entry) : Reserved encoding s n pub entry := by
  have hold := (hgood.publications n pub hpub).place
  unfold Publication.PlaceGood at hold
  simp only [hplace] at hold
  obtain ⟨hcommitted, hentry, hprogress⟩ := hold
  refine ⟨hcommitted, fun h ↦ hcommitted (hgood.stream.covered.committed.subset h), hentry,
    hprogress, ?_, fun m hm ↦ ?_, fun {m other} hother howned ↦ ?_⟩
  · refine nodup_append.mpr ⟨hgood.ordered.nodup, nodup_singleton n, fun a ha b hb ↦ ?_⟩
    rw [mem_singleton.mp hb]
    exact fun h ↦ hcommitted (h ▸ ha)
  · rcases mem_append.mp hm with hm | hm
    · exact hgood.ordered.known m hm
    · rw [mem_singleton.mp hm]
      exact (List.getElem?_eq_some_iff.mp hpub).1
  · rintro rfl
    rw [← Option.some.inj (hpub.symm.trans hother), hplace] at howned
    exact howned

/-- A commit to a queue that is gone: the ticket is failed at once. -/
theorem commit_closed_good
    (hreserved : Reserved encoding s n pub entry)
    (hended : s.worker = .ended)
    (ht : t = dropEntry { s with committed := s.committed ++ [n] } n pub entry) :
    t.Good encoding limits := by
  have hqueue := hgood.ordered.ended hended
  rw [dropEntry_queued hreserved.progress] at ht
  have hrequests : t.requests = s.requests :=
    requests_put hpub (congrArg State.publications ht) rfl
  refine ⟨⟨?_, ?_, ?_, fun m hm ↦ ?_, fun m hm ↦ ?_, ?_, ?_⟩, ?_, ?_, ?_⟩
  · intro m hm
    rw [ht] at hm ⊢
    simpa [discard, put] using hreserved.known m hm
  · rw [ht]
    exact hreserved.nodup
  · rw [ht]
    exact hgood.ordered.queueNodup
  · rw [ht] at hm
    change m ∈ s.queue at hm
    rw [hqueue] at hm
    cases hm
  · rw [ht] at hm
    change s.worker.entry = some m at hm
    rw [hended] at hm
    cases hm
  · rw [ht]
    exact hgood.ordered.closed
  · rw [ht]
    exact hgood.ordered.ended
  · refine publications_put hgood (congrArg State.publications ht) ⟨fun _ ↦ rfl, ?_⟩ fun m hm ↦
      agrees_commit hm (by rw [ht]; rfl) (.inl (by rw [ht]; rfl)) (by rw [ht]; rfl)
        (by rw [ht]; rfl)
    rw [ht]
    exact iff_of_false (by simp) hreserved.finished
  · have hcovered : t.Covered encoding := hgood.stream.covered.commit hrequests
      (by rw [ht]; rfl) (by rw [ht]; rfl) (by rw [ht]; rfl) (by rw [ht]; rfl)
    have hworker : t.worker = .ended := by
      rw [ht]
      exact hended
    unfold Stream
    rw [hworker]
    exact hcovered
  · refine credits_put hgood hpub (congrArg State.publications ht) fun pool ↦ ?_
    rw [ht]
    exact Nat.add_zero _

/-- A commit to the queue. -/
theorem commit_open_good
    (hreserved : Reserved encoding s n pub entry)
    (ht : t = { s with
      publications := s.publications.set n { pub with place := .queued entry }
      committed := s.committed ++ [n]
      queue := s.queue ++ [n] })
    (hclosed : ¬ s.closed = true) : t.Good encoding limits := by
  have hlt := (List.getElem?_eq_some_iff.mp hpub).1
  have hrequests : t.requests = s.requests := requests_put hpub (congrArg State.publications ht) rfl
  have hset : ∀ {m : ℕ} {other : Publication}, s.publications[m]? = some other →
      Owned other.place → t.publications[m]? = some other := by
    intro m other hother howned
    rw [ht]
    exact (getElem?_set_ne (hreserved.others hother howned)).trans hother
  have hqueued : n ∉ s.queue := by
    intro h
    obtain ⟨other, queued, hother, hplace⟩ := hgood.ordered.queue n h
    exact hreserved.others hother (by rw [hplace]; trivial) rfl
  refine ⟨⟨?_, ?_, ?_, fun m hm ↦ ?_, fun m hm ↦ ?_, ?_, fun h ↦ ?_⟩, ?_, ?_, ?_⟩
  · intro m hm
    rw [ht] at hm ⊢
    simpa using hreserved.known m hm
  · rw [ht]
    exact hreserved.nodup
  · rw [ht]
    refine nodup_append.mpr ⟨hgood.ordered.queueNodup, nodup_singleton n, ?_⟩
    intro a ha b hb
    rw [mem_singleton.mp hb]
    exact fun h ↦ hqueued (h ▸ ha)
  · rw [ht] at hm
    rcases mem_append.mp hm with hm | hm
    · obtain ⟨other, queued, hother, hplace⟩ := hgood.ordered.queue m hm
      exact ⟨other, queued, hset hother (by rw [hplace]; trivial), hplace⟩
    · rw [mem_singleton.mp hm, ht]
      exact ⟨_, entry, getElem?_set_self hlt, rfl⟩
  · rw [ht] at hm
    obtain ⟨other, active, hother, hplace⟩ := hgood.ordered.worker m hm
    exact ⟨other, active, hset hother (by rw [hplace]; trivial), hplace⟩
  · rw [ht]
    exact hgood.ordered.closed
  · rw [ht] at h
    exact absurd (hgood.ordered.closed.mpr (.inr h)) hclosed
  · refine publications_put hgood (congrArg State.publications ht) ⟨?_, ?_⟩ fun m hm ↦
      agrees_commit hm (by rw [ht]) (.inr (by rw [ht])) (by rw [ht]) (by rw [ht])
    · rw [ht]
      exact ⟨mem_append_right _ (mem_singleton_self n),
        mem_append_right _ (mem_singleton_self n), hreserved.finished, hreserved.good,
        hreserved.progress⟩
    · rw [ht]
      exact (hgood.publications n pub hpub).complete
  · refine hgood.stream.transfer (by rw [ht]) (fun hwhole ↦ ?_) (fun m hpart ↦ ?_)
      (fun hcovered ↦ ?_) (by rw [ht]; exact fun _ h ↦ h)
    · obtain ⟨hcommitted, haccepted, hflushes⟩ := hwhole
      refine ⟨?_, ?_, ?_⟩
      · rw [ht]
        simp only [hcommitted, append_assoc]
      · rw [hrequests, ht]
        exact haccepted
      · rw [hrequests, ht]
        exact hflushes
    · obtain ⟨hcommitted, other, active, hother, hplace, haccepted, hflushes⟩ := hpart
      refine ⟨?_, other, active, hset hother (by rw [hplace]; trivial), hplace, ?_, ?_⟩
      · rw [ht]
        simp only [hcommitted, append_assoc, cons_append]
      · rw [hrequests, ht]
        exact haccepted
      · rw [hrequests, ht]
        exact hflushes
    · exact hcovered.commit hrequests (by rw [ht]) (by rw [ht]) (by rw [ht]) (by rw [ht])
  · exact credits_put hgood hpub (congrArg State.publications ht) fun pool ↦ by rw [ht]

theorem commit_good (hcommit : s.commit n pub = some t) : t.Good encoding limits := by
  unfold commit at hcommit
  cases hplace : pub.place <;> simp only [hplace, reduceCtorEq] at hcommit
  case reserved entry =>
    have hreserved := hgood.reserved hpub hplace
    split_ifs at hcommit with hdraining hclosed
    · cases hcommit
      have hended := (hgood.ordered.closed.mp hclosed).resolve_left hdraining
      exact commit_closed_good hgood hpub hreserved hended rfl
    · exact commit_open_good hgood hpub hreserved (Option.some.inj hcommit).symm hclosed

end

end State

end ObsMcp.Stdio
