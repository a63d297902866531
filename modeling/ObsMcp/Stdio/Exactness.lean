import ObsMcp.Stdio.Worker

/-!
# The standard output publishes exactly what is committed

The law of the writer over every run of its callers and its worker. Every step keeps the writer good
(`act_good`); a worker that has stopped writes nothing (`act_frozen`) and comes to its end
(`ended_of_stopped`). `publication_exactness` collects what follows for the bytes, the tickets and
the pools.
-/

namespace ObsMcp.Stdio

open Foundations List Option

namespace State

variable {encoding : Json → List UInt8} {limits : Limits} {s t : State} {n : ℕ}
  {pub later : Publication} {entry : Entry}

/-! ### Runs -/

theorem initial_good : (initial limits).Good encoding limits where
  ordered := by
    refine ⟨by simp [initial], nodup_nil, nodup_nil, by simp [initial],
      by simp [initial, Worker.entry], by simp [initial], by simp [initial]⟩
  publications n pub hpub := by simp [initial] at hpub
  stream := ⟨rfl, rfl, rfl⟩
  credits pool := rfl

variable {label : Label} {fits : Bool} {run : List (Label × State)}

theorem act_good (hgood : s.Good encoding limits) (hact : s.act encoding limits label = some t) :
    t.Good encoding limits := by
  cases label with
  | reserve cycles => exact start_good hgood hact
  | proceed n fits =>
    obtain ⟨pub, hpub, hproceed⟩ := bind_eq_some_iff.mp hact
    exact proceed_good hgood hpub hproceed
  | drop n =>
    obtain ⟨pub, hpub, hdrop⟩ := bind_eq_some_iff.mp hact
    cases hplace : pub.place <;> simp only [hplace, reduceCtorEq] at hdrop
    cases hdrop
    exact dropEntry_good hgood hpub hplace
  | commit n =>
    obtain ⟨pub, hpub, hcommit⟩ := bind_eq_some_iff.mp hact
    exact commit_good hgood hpub hcommit
  | receive =>
    simp only [act] at hact
    split at hact
    · rename_i head rest hworker hqueue
      obtain ⟨⟨pub, entry⟩, hqueued, ht⟩ := map_eq_some_iff.mp hact
      exact receive_good hgood hworker hqueue hqueued ht.symm
    · cases hact
  | check =>
    simp only [act] at hact
    split at hact
    · rename_i held hworker
      obtain ⟨⟨pub, entry⟩, hactive, rfl⟩ := map_eq_some_iff.mp hact
      exact check_good hgood hworker hactive
    · cases hact
  | write count =>
    simp only [act] at hact
    split at hact
    · rename_i held hworker
      obtain ⟨⟨pub, entry⟩, hactive, hwrite⟩ := bind_eq_some_iff.mp hact
      exact write_good hgood hworker hactive hwrite
    · cases hact
  | endLine =>
    simp only [act] at hact
    split at hact
    · rename_i held hworker
      obtain ⟨⟨pub, entry⟩, hactive, hend⟩ := bind_eq_some_iff.mp hact
      exact endLine_good hgood hworker hactive hend
    · cases hact
  | flush =>
    simp only [act] at hact
    split at hact
    · rename_i held hworker
      obtain ⟨⟨pub, entry⟩, hactive, ht⟩ := map_eq_some_iff.mp hact
      exact flush_good hgood hworker hactive ht.symm
    · cases hact
  | fail code =>
    simp only [act] at hact
    split at hact
    · rename_i held hworker
      obtain ⟨⟨pub, entry⟩, hactive, rfl⟩ := map_eq_some_iff.mp hact
      exact failEntry_good hgood (.inr (.inl hworker)) hactive _
    · rename_i held hworker
      obtain ⟨⟨pub, entry⟩, hactive, rfl⟩ := map_eq_some_iff.mp hact
      exact failEntry_good hgood (.inr (.inr hworker)) hactive _
    · cases hact
  | release =>
    simp only [act] at hact
    split at hact
    · rename_i held hworker
      obtain ⟨⟨pub, entry⟩, hactive, ht⟩ := map_eq_some_iff.mp hact
      exact release_good hgood hworker hactive ht.symm
    · cases hact
  | abort =>
    simp only [act] at hact
    split at hact
    · rename_i hworker
      cases hact
      exact stop_good hgood hworker
    · rename_i held hworker
      cases hact
      exact abort_good hgood (.inl hworker)
    · rename_i held hworker
      cases hact
      exact abort_good hgood (.inr hworker)
    · cases hact
  | unwind => exact unwind_good hgood hact
  | finish =>
    simp only [act] at hact
    split_ifs at hact with hfinish
    cases hact
    exact stop_good hgood hfinish.1
  | dropOutput =>
    cases hact
    exact hgood.turned rfl hgood.ordered.closed hgood.ordered.ended
      (hgood.stream.transfer rfl (fun h ↦ ⟨h.committed, h.accepted, h.flushes⟩)
        (fun m h ↦ ⟨h.committed, h.active⟩)
        (fun h ↦ ⟨h.committed, h.accepted, h.finished, h.flushes⟩) fun _ h ↦ h)

theorem good_of_reachable (hs : (machine encoding limits).Reachable s) : s.Good encoding limits :=
  Machine.invariant_of_step (Good encoding limits)
    (fun u (hu : u = initial limits) ↦ hu ▸ initial_good)
    (fun _ _ _ _ hgood hstep ↦ act_good hgood hstep) hs

/-! ### After a failure -/

/-- What a step of a stopped worker, or of a caller, leaves. -/
structure Frozen (s t : State) : Prop where
  accepted : t.accepted = s.accepted
  finished : t.finished = s.finished
  worker : s.worker.Stopped → t.worker.Stopped

theorem dropEntry_frozen (s : State) (n : ℕ) (pub : Publication) (entry : Entry) :
    Frozen s (s.dropEntry n pub entry) := by
  unfold dropEntry
  split_ifs <;> exact ⟨rfl, rfl, id⟩

theorem acquire_frozen (s : State) (n : ℕ) (pub : Publication) (pool : Pool) (count : ℕ)
    (next : Place) : Frozen s (s.acquire n pub pool count next) := by
  unfold acquire
  split_ifs <;> exact ⟨rfl, rfl, id⟩

theorem proceed_frozen (hproceed : s.proceed encoding limits n pub fits = some t) : Frozen s t := by
  unfold proceed at hproceed
  cases hplace : pub.place <;> simp only [hplace, reduceCtorEq] at hproceed
  case opened =>
    cases hproceed
    split_ifs <;> exact ⟨rfl, rfl, id⟩
  case permitted =>
    split at hproceed <;> obtain rfl := some.inj hproceed <;> exact ⟨rfl, rfl, id⟩
  case planned tally =>
    cases hproceed
    split_ifs
    · exact ⟨rfl, rfl, id⟩
    · exact acquire_frozen ..
  case entriesTaken tally =>
    cases hproceed
    exact acquire_frozen ..
  case templated tally =>
    cases hproceed
    exact acquire_frozen ..
  case charged tally =>
    split at hproceed
    · split_ifs at hproceed <;> obtain rfl := some.inj hproceed <;> exact ⟨rfl, rfl, id⟩
    · cases hproceed
      exact ⟨rfl, rfl, id⟩

theorem commit_frozen (hcommit : s.commit n pub = some t) : Frozen s t := by
  unfold commit at hcommit
  cases hplace : pub.place <;> simp only [hplace, reduceCtorEq] at hcommit
  case reserved entry =>
    split_ifs at hcommit
    · cases hcommit
      obtain ⟨haccepted, hfinished, hworker⟩ :=
        dropEntry_frozen { s with committed := s.committed ++ [n] } n pub entry
      exact ⟨haccepted, hfinished, hworker⟩
    · cases hcommit
      exact ⟨rfl, rfl, id⟩

theorem unwind_frozen (hunwind : s.unwind = some t) : Frozen s t := by
  unfold unwind at hunwind
  split at hunwind
  · obtain ⟨⟨pub, entry⟩, -, rfl⟩ := map_eq_some_iff.mp hunwind
    obtain ⟨haccepted, hfinished, -⟩ := dropEntry_frozen s _ pub entry
    exact ⟨haccepted, hfinished, fun _ ↦ trivial⟩
  · cases hunwind
    exact ⟨rfl, rfl, fun _ ↦ trivial⟩
  · split at hunwind
    · cases hunwind
      exact ⟨rfl, rfl, fun _ ↦ trivial⟩
    · obtain ⟨⟨pub, entry⟩, -, rfl⟩ := map_eq_some_iff.mp hunwind
      obtain ⟨haccepted, hfinished, hworker⟩ := dropEntry_frozen s _ pub entry
      exact ⟨haccepted, hfinished, hworker⟩
  · cases hunwind

/-- A stopped worker writes nothing. -/
theorem act_frozen (hstopped : s.worker.Stopped) (hact : s.act encoding limits label = some t) :
    Frozen s t := by
  cases label with
  | reserve cycles =>
    change s.start cycles = some t at hact
    unfold start at hact
    split_ifs at hact
    cases hact
    exact ⟨rfl, rfl, id⟩
  | proceed n fits =>
    obtain ⟨pub, -, hproceed⟩ := bind_eq_some_iff.mp hact
    exact proceed_frozen hproceed
  | drop n =>
    obtain ⟨pub, -, hdrop⟩ := bind_eq_some_iff.mp hact
    cases hplace : pub.place <;> simp only [hplace, reduceCtorEq] at hdrop
    cases hdrop
    exact dropEntry_frozen ..
  | commit n =>
    obtain ⟨pub, -, hcommit⟩ := bind_eq_some_iff.mp hact
    exact commit_frozen hcommit
  | unwind => exact unwind_frozen hact
  | dropOutput =>
    cases hact
    exact ⟨rfl, rfl, id⟩
  | _ =>
    cases hworker : s.worker with
    | unwinding held => simp [act, hworker] at hact
    | draining => simp [act, hworker] at hact
    | ended => simp [act, hworker] at hact
    | _ =>
      rw [hworker] at hstopped
      exact hstopped.elim

theorem frozen_of_run (hrun : (machine encoding limits).Run s run) (hstopped : s.worker.Stopped) :
    Frozen s (Machine.last s run) := by
  induction hrun with
  | nil s => exact ⟨rfl, rfl, id⟩
  | cons hstep _ ih =>
    obtain ⟨haccepted, hfinished, hworker⟩ := act_frozen hstopped hstep
    obtain ⟨hlater, hmore, hend⟩ := ih (hworker hstopped)
    exact ⟨hlater.trans haccepted, hmore.trans hfinished, fun h ↦ hend (hworker h)⟩

/-- The end of the queue is reached. -/
theorem drained (hgood : s.Good encoding limits) (hworker : s.worker = .draining) :
    ∃ run : List (Label × State), (machine encoding limits).Run s run ∧
      (∀ entry ∈ run, entry.1 = .unwind) ∧ (Machine.last s run).worker = .ended := by
  obtain ⟨length, hlength⟩ : ∃ length, s.queue.length = length := ⟨_, rfl⟩
  induction length generalizing s with
  | zero =>
    have hqueue := eq_nil_of_length_eq_zero hlength
    refine ⟨[(.unwind, { s with worker := .ended })], .cons ?_ (.nil _), by simp, rfl⟩
    change s.unwind = _
    simp [unwind, hworker, hqueue]
  | succ length ih =>
    obtain ⟨head, rest, hqueue⟩ := exists_cons_of_length_eq_add_one hlength
    obtain ⟨pub, entry, hpub, hplace⟩ := hgood.ordered.queue head (by simp [hqueue])
    have hstep : s.unwind = some { s.dropEntry head pub entry with queue := rest } := by
      simp [unwind, hworker, hqueue, queuedEntry, hpub, hplace]
    have hnext := unwind_good hgood hstep
    have hdraining : (s.dropEntry head pub entry).worker = .draining := by
      rw [← hworker]
      unfold dropEntry
      split_ifs <;> rfl
    obtain ⟨run, hrun, hlabels, hended⟩ := ih hnext hdraining (by
      rw [hqueue, length_cons] at hlength
      exact Nat.succ.inj hlength)
    exact ⟨(.unwind, _) :: run, .cons hstep hrun, forall_mem_cons.mpr ⟨rfl, hlabels⟩, hended⟩

/-- A worker that has stopped comes to its end, on its own. -/
theorem ended_of_stopped (hgood : s.Good encoding limits) (hstopped : s.worker.Stopped) :
    ∃ run : List (Label × State), (machine encoding limits).Run s run ∧
      (∀ entry ∈ run, entry.1 = .unwind) ∧ (Machine.last s run).worker = .ended := by
  have hempty : ∀ {u : State}, u.Good encoding limits → u.worker = .unwinding none →
      ∃ run : List (Label × State), (machine encoding limits).Run u run ∧
        (∀ entry ∈ run, entry.1 = .unwind) ∧ (Machine.last u run).worker = .ended := by
    intro u hu hworker
    have hstep : u.unwind = some { u with closed := true, worker := .draining } := by
      simp [unwind, hworker]
    obtain ⟨run, hrun, hlabels, hended⟩ := drained (unwind_good hu hstep) rfl
    exact ⟨(.unwind, _) :: run, .cons hstep hrun, forall_mem_cons.mpr ⟨rfl, hlabels⟩, hended⟩
  cases hworker : s.worker with
  | unwinding held =>
    cases held with
    | none => exact hempty hgood hworker
    | some n =>
      obtain ⟨pub, entry, hpub, hplace⟩ := hgood.ordered.worker n (by rw [hworker]; rfl)
      have hstep : s.unwind = some { s.dropEntry n pub entry with worker := .unwinding none } := by
        simp [unwind, hworker, activeEntry, hpub, hplace]
      obtain ⟨run, hrun, hlabels, hended⟩ := hempty (unwind_good hgood hstep) rfl
      exact ⟨(.unwind, _) :: run, .cons hstep hrun, forall_mem_cons.mpr ⟨rfl, hlabels⟩, hended⟩
  | draining => exact drained hgood hworker
  | ended => exact ⟨[], .nil s, by simp, hworker⟩
  | receiving => simp [hworker, Worker.Stopped] at hstopped
  | checking n => simp [hworker, Worker.Stopped] at hstopped
  | writing n => simp [hworker, Worker.Stopped] at hstopped
  | flushing n => simp [hworker, Worker.Stopped] at hstopped
  | completed n => simp [hworker, Worker.Stopped] at hstopped

/-- At the end of the worker every committed ticket is complete or failed. -/
theorem Good.settled (hgood : s.Good encoding limits) (hended : s.worker = .ended)
    (hcommitted : n ∈ s.committed) :
    ∃ pub : Publication, s.publications[n]? = some pub ∧ pub.signal.stage.terminal = true := by
  have hlt := hgood.ordered.known n hcommitted
  refine ⟨s.publications[n], getElem?_eq_getElem hlt, ?_⟩
  have hplace := (hgood.publications n _ (getElem?_eq_getElem hlt)).place
  unfold Publication.PlaceGood at hplace
  cases hat : (s.publications[n]).place <;> simp only [hat] at hplace
  case opened => exact absurd hcommitted hplace
  case permitted => exact absurd hcommitted hplace
  case queued entry =>
    rw [hgood.ordered.ended hended] at hplace
    cases hplace.2.1
  case active entry =>
    rw [hended] at hplace
    cases hplace.2.1
  case gone => exact hplace hcommitted
  all_goals exact absurd hcommitted hplace.1

/-! ### Refusals -/

/-- A step of a reservation replaces its publication, and leaves no charge when it refuses. -/
theorem proceed_own (hproceed : s.proceed encoding limits n pub fits = some t) :
    ∃ later : Publication, t.publications = s.publications.set n later ∧
      (later.place = .gone → later.charge = fun _ ↦ 0) := by
  have hacquire : ∀ (pool : Pool) (count : ℕ) (next : Place), next ≠ .gone →
      ∃ later : Publication,
        (s.acquire n pub pool count next).publications = s.publications.set n later ∧
          (later.place = .gone → later.charge = fun _ ↦ 0) := by
    intro pool count next hnext
    unfold acquire
    split_ifs
    · exact ⟨_, rfl, fun h ↦ absurd h hnext⟩
    · exact ⟨_, rfl, fun _ ↦ rfl⟩
  unfold proceed at hproceed
  cases hplace : pub.place <;> simp only [hplace, reduceCtorEq] at hproceed
  case opened =>
    cases hproceed
    split_ifs
    · exact ⟨_, rfl, fun h ↦ by cases h⟩
    · exact ⟨_, rfl, fun _ ↦ rfl⟩
  case permitted =>
    split at hproceed <;> cases hproceed
    · refine ⟨_, rfl, fun h ↦ ?_⟩
      simp only at h
      split_ifs at h
    · exact ⟨_, rfl, fun _ ↦ rfl⟩
  case planned tally =>
    cases hproceed
    split_ifs
    · exact ⟨_, rfl, fun _ ↦ rfl⟩
    · exact hacquire _ _ _ (by simp)
  case entriesTaken tally =>
    cases hproceed
    exact hacquire _ _ _ (by simp)
  case templated tally =>
    cases hproceed
    exact hacquire _ _ _ (by simp)
  case charged tally =>
    split at hproceed
    · split_ifs at hproceed <;> cases hproceed
      · exact ⟨_, rfl, fun h ↦ by cases h⟩
      · exact ⟨_, rfl, fun _ ↦ rfl⟩
    · cases hproceed
      exact ⟨_, rfl, fun _ ↦ rfl⟩

/-- One publication more, without a charge once it is gone. -/
def OneMore (publications : List Publication) (t : State) : Prop :=
  ∃ later : Publication, t.publications = publications ++ [later] ∧
    (later.place = .gone → later.charge = fun _ ↦ 0)

theorem oneMore_of_proceeds {publications : List Publication}
    (hrun : (machine encoding limits).Run s run) (hs : OneMore publications s)
    (hlabels : ∀ entry ∈ run, ∃ fits, entry.1 = .proceed publications.length fits) :
    OneMore publications (Machine.last s run) := by
  induction hrun with
  | nil s => exact hs
  | @cons s t label rest hstep _ ih =>
    obtain ⟨later, hpubs, -⟩ := hs
    obtain ⟨fits, hlabel⟩ := hlabels _ mem_cons_self
    simp only at hlabel
    subst hlabel
    obtain ⟨pub, -, hproceed⟩ := bind_eq_some_iff.mp hstep
    obtain ⟨next, hnext, hcharge⟩ := proceed_own hproceed
    refine ih ⟨next, ?_, hcharge⟩ fun entry hentry ↦ hlabels entry (mem_cons_of_mem _ hentry)
    rw [hnext, hpubs, set_append_right _ _ (Nat.le_refl _)]
    simp

end State

/-! ### Exactness -/

section Exactness

variable (encoding : Json → List UInt8) (limits : Limits)

/-- All bytes of a publication are accepted, behind those of the commits before it, and every frame
was flushed when its last byte was accepted. -/
def Published (s : State) (n : ℕ) : Prop :=
  ∃ before after : List ℕ, s.committed = before ++ n :: after ∧
    (framesOf encoding s.requests (before ++ [n])).flatten <+: s.accepted ∧
    marks (framesOf encoding s.requests (before ++ [n])) <+: s.flushes

/-- Stdout publication exactness, in every run of the callers and of the worker. The accepted bytes
are the first ones of the expansions in the order of the commits, a ticket reads complete only when
its publication is published, and the credits of every pool and the charges make up its limit. A
worker that has stopped comes to its end, where every committed ticket is complete or failed; it
accepts no byte and completes no ticket any more. A refused reservation leaves the pools as they
were. -/
theorem publication_exactness :
    (∀ s : State, (machine encoding limits).Reachable s →
      s.accepted <+: (framesOf encoding s.requests s.committed).flatten ∧
      (∀ (n : ℕ) (pub : Publication), s.publications[n]? = some pub →
        pub.signal.stage = .complete → Published encoding s n) ∧
      (∀ pool, s.available pool + (s.publications.map fun pub ↦ pub.charge pool).sum =
        limits.pool pool) ∧
      (s.worker = .ended → ∀ n ∈ s.committed, ∃ pub : Publication,
        s.publications[n]? = some pub ∧
          (pub.signal.stage = .complete ∨ ∃ kind, pub.signal.stage = .failed kind)) ∧
      (s.worker.Stopped → ∃ run : List (Label × State), (machine encoding limits).Run s run ∧
        (∀ entry ∈ run, entry.1 = .unwind) ∧ (Machine.last s run).worker = .ended)) ∧
    (∀ (s : State) (run : List (Label × State)), (machine encoding limits).Reachable s →
      (machine encoding limits).Run s run → s.worker.Stopped →
      (Machine.last s run).worker.Stopped ∧ (Machine.last s run).accepted = s.accepted ∧
      ∀ (n : ℕ) (pub later : Publication), s.publications[n]? = some pub →
        (Machine.last s run).publications[n]? = some later →
        later.signal.stage = .complete → pub.signal.stage = .complete) ∧
    ∀ (s next : State) (cycles : List Cycle) (run : List (Label × State)),
      (machine encoding limits).Reachable s →
      (machine encoding limits).Run s ((.reserve cycles, next) :: run) →
      (∀ entry ∈ run, ∃ fits, entry.1 = .proceed s.publications.length fits) →
      (∃ pub : Publication,
        (Machine.last next run).publications[s.publications.length]? = some pub ∧
          pub.place = .gone) →
      (Machine.last next run).available = s.available := by
  refine ⟨fun s hs ↦ ?_, fun s run hs hrun hstopped ↦ ?_,
    fun s next cycles run hs hrun hlabels hgone ↦ ?_⟩
  · have hgood := State.good_of_reachable hs
    have hcovered := hgood.stream.covered
    refine ⟨hcovered.accepted, fun n pub hpub hcomplete ↦ ?_, hgood.credits, fun hended n hn ↦ ?_,
      State.ended_of_stopped hgood⟩
    · obtain ⟨before, after, hsplit⟩ :=
        append_of_mem ((hgood.publications n pub hpub).complete.mp hcomplete)
      obtain ⟨rest, hrest⟩ := hcovered.committed
      have hfinished : s.finished = (before ++ [n]) ++ after := by
        rw [hsplit, append_assoc, singleton_append]
      refine ⟨before, after ++ rest, ?_, ?_, ?_⟩
      · rw [← hrest, hsplit, append_assoc, cons_append]
      · refine List.IsPrefix.trans ?_ hcovered.finished
        rw [hfinished, framesOf_append (before ++ [n]), flatten_append]
        exact prefix_append _ _
      · refine List.IsPrefix.trans ?_ hcovered.flushes
        rw [hfinished, framesOf_append (before ++ [n])]
        exact marks_append _ _
    · obtain ⟨pub, hpub, hterminal⟩ := hgood.settled hended hn
      refine ⟨pub, hpub, ?_⟩
      cases hstage : pub.signal.stage with
      | complete => exact .inl rfl
      | failed kind => exact .inr ⟨kind, rfl⟩
      | queued => simp [hstage, Stage.terminal] at hterminal
      | writing => simp [hstage, Stage.terminal] at hterminal
      | flushing => simp [hstage, Stage.terminal] at hterminal
  · obtain ⟨haccepted, hfinished, hworker⟩ := State.frozen_of_run hrun hstopped
    refine ⟨hworker hstopped, haccepted, fun n pub later hpub hlater hcomplete ↦ ?_⟩
    have hlast := State.good_of_reachable (hrun.reachable hs)
    have hmem := (hlast.publications n later hlater).complete.mp hcomplete
    rw [hfinished] at hmem
    exact ((State.good_of_reachable hs).publications n pub hpub).complete.mpr hmem
  · obtain ⟨⟩ | ⟨hstep, hrest⟩ := hrun
    have hgood := State.good_of_reachable hs
    have hlast := State.good_of_reachable (hrest.reachable (hs.step hstep))
    have hnext : State.OneMore s.publications next := by
      change s.start cycles = some next at hstep
      unfold State.start at hstep
      split_ifs at hstep
      obtain rfl := some.inj hstep
      exact ⟨_, rfl, fun h ↦ by cases h⟩
    obtain ⟨later, hpubs, hcharge⟩ := State.oneMore_of_proceeds hrest hnext hlabels
    obtain ⟨pub, hpub, hplace⟩ := hgone
    rw [hpubs, getElem?_append_right (Nat.le_refl _), Nat.sub_self,
      getElem?_cons_zero, Option.some.injEq] at hpub
    subst hpub
    funext pool
    have hbefore := hgood.credits pool
    have hafter := hlast.credits pool
    rw [hpubs, map_append, sum_append, map_singleton, hcharge hplace] at hafter
    simp only [sum_cons, sum_nil] at hafter
    omega

end Exactness

end ObsMcp.Stdio
