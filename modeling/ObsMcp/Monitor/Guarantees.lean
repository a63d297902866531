import ObsMcp.Monitor.Evolution

/-!
# What a take monitor guarantees

Over every run of `monitor`, from any start and in any order of calls: at most one ticket of each
kind is held (`Sane`), a picture whose ticket was issued before a pause, a change of the program
scene or a stop changes nothing (`retired_of_run`), nothing changes after the cleanup
(`final_of_run`), and the time goes neither back nor, during a pause, on (`now_of_step`), so that
the logs are in the order of their times. `monitor_guarantees` states them together.
-/

namespace ObsMcp.Monitor

open Foundations Machine List

variable {num : Numerics} {core : Core num} {world other : World num} {call : Call}

/-! ### Times in order -/

/-- Times in order, none of them in the future. -/
def Chronicle (now : ℚ) (times : List ℚ) : Prop :=
  times.Pairwise (· ≤ ·) ∧ ∀ time ∈ times, time ≤ now

/-- Entries of a present time that is no earlier. -/
theorem Chronicle.append {α : Type} {time : α → ℚ} {before after : ℚ} {entries more : List α}
    (hchronicle : Chronicle before (entries.map time)) (hlater : before ≤ after)
    (hmore : ∀ entry ∈ more, time entry = after) :
    Chronicle after ((entries ++ more).map time) := by
  obtain ⟨hsorted, hpast⟩ := hchronicle
  have hnew : ∀ t ∈ more.map time, t = after := by
    intro t ht
    obtain ⟨entry, hentry, rfl⟩ := mem_map.mp ht
    exact hmore entry hentry
  rw [map_append]
  constructor
  · refine pairwise_append.mpr ⟨hsorted, ?_, fun a ha b hb ↦ ?_⟩
    · exact pairwise_of_forall_mem_list fun a ha b hb ↦ by rw [hnew a ha, hnew b hb]
    · rw [hnew b hb]
      exact (hpast a ha).trans hlater
  · intro t ht
    rcases mem_append.mp ht with ht | ht
    · exact (hpast t ht).trans hlater
    · exact (hnew t ht).le

/-! ### One step -/

/-- What holds of the monitor and of its tickets between two calls, and of the times it logged. -/
structure Sane (world : World num) : Prop where
  inv : Inv world.core
  held : Held world.core world.held
  events : Chronicle world.now (world.core.events.map Event.atSeconds)
  warnings : Chronicle world.now (world.core.warnings.map Warning.atSeconds)
  chapters : Chronicle world.now (world.core.chapters.map Chapter.atSeconds)

/-- A call is made at the latest reading or after it. -/
theorem clock_le (hadmits : world.Admits call) : world.clock ≤ call.reading.getD world.clock := by
  cases hreading : call.reading with
  | none => exact le_rfl
  | some nowMs => exact hadmits.1 nowMs hreading

/-- The present of a call is the time after it. -/
theorem now_after (hinv : Inv world.core) (call : Call) :
    (world.after call).now = world.core.now (call.reading.getD world.clock) := by
  have hadvances := call_advances hinv call world.clock
  rw [World.now, World.after, Core.now, hadvances.elapsed, Core.now]

/-- Time never goes back, and during a pause it stands still. -/
theorem now_of_step (hinv : Inv world.core) (hadmits : world.Admits call) :
    world.now ≤ (world.after call).now ∧
      (world.core.isPaused = true → (world.after call).now = world.now) := by
  rw [now_after hinv]
  constructor
  · exact now_le_of_elapsed (elapsed_mono world.core (clock_le hadmits))
  · intro hpaused
    rw [World.now, Core.now, Core.now, elapsed_of_paused hpaused]

theorem Sane.after (hsane : Sane world) (hadmits : world.Admits call) :
    Sane (world.after call) := by
  have hadvances := call_advances hsane.inv call world.clock
  have hlater := (now_of_step hsane.inv hadmits).1
  have hnow := now_after hsane.inv call
  obtain ⟨events, hevents, hatevents⟩ := hadvances.appends.events
  obtain ⟨warnings, hwarnings, hatwarnings⟩ := hadvances.appends.warnings
  obtain ⟨chapters, hchapters, hatchapters⟩ := hadvances.appends.chapters
  rw [← hnow] at hatevents hatwarnings hatchapters
  refine ⟨hadvances.inv, ?_, ?_, ?_, ?_⟩
  · by_cases hcall : call.ticketing = false
    · have hevolves := hsane.held.evolves (call_evolves hsane.inv hcall world.clock)
      cases call <;> first | exact hevolves | cases hcall
    · cases call with
      | beginSample kind => exact hsane.held.beginSample kind
      | drop ticket => exact hsane.held.drop hadmits.2
      | finishSample ticket nowMs observation =>
        exact hsane.held.finishSample hsane.inv hadmits.2 observation
      | _ => exact absurd rfl hcall
  · show Chronicle _ ((world.core.call call).events.map Event.atSeconds)
    rw [hevents]
    exact hsane.events.append hlater hatevents
  · show Chronicle _ ((world.core.call call).warnings.map Warning.atSeconds)
    rw [hwarnings]
    exact hsane.warnings.append hlater hatwarnings
  · show Chronicle _ ((world.core.call call).chapters.map Chapter.atSeconds)
    rw [hchapters]
    exact hsane.chapters.append hlater hatchapters

/-- Every reachable monitor is sane. -/
theorem sane_of_reachable (hreachable : (monitor num).Reachable world) : Sane world := by
  refine invariant_of_step Sane ?_ ?_ hreachable
  · rintro _ ⟨identity, startedAtMs, startedAt, options, rfl⟩
    have hempty : ∀ now, Chronicle now [] := fun _ ↦
      ⟨List.Pairwise.nil, fun _ htime ↦ absurd htime not_mem_nil⟩
    refine ⟨⟨⟨fun _ ↦ rfl, fun _ ↦ rfl⟩, Nat.lt_succ_self (identity + 1)⟩,
      ⟨fun _ hticket ↦ absurd hticket not_mem_nil, List.Pairwise.nil, fun _ ↦ rfl⟩,
      hempty _, hempty _, hempty _⟩
  · rintro world call _ - hsane ⟨hadmits, rfl⟩
    exact hsane.after hadmits

/-- At most one ticket of a kind is held. -/
theorem Held.length_le_one {held : List SampleTicket} (hheld : Held core held)
    (kind : SampleKind) : (held.filter fun ticket ↦ ticket.kind = kind).length ≤ 1 := by
  have hdistinct := hheld.distinct.filter fun ticket ↦ decide (ticket.kind = kind)
  have hkind : ∀ ticket ∈ held.filter fun ticket ↦ decide (ticket.kind = kind),
      ticket.kind = kind := fun ticket hticket ↦ of_decide_eq_true (mem_filter.mp hticket).2
  revert hdistinct hkind
  cases held.filter fun ticket ↦ decide (ticket.kind = kind) with
  | nil => exact fun _ _ ↦ Nat.zero_le 1
  | cons first rest =>
    cases rest with
    | nil => exact fun _ _ ↦ le_rfl
    | cons second rest =>
      intro hdistinct hkind
      have hne := ((pairwise_cons.mp hdistinct).1 second mem_cons_self).1
      exact absurd ((hkind first mem_cons_self).trans
        (hkind second (mem_cons_of_mem _ mem_cons_self)).symm) hne

/-! ### Retired tickets -/

/-- A change of the program scene, a pause that begins, or a stop. -/
def Disrupts (core : Core num) : Call → Prop
  | .onEvent _ event data => event = "CurrentProgramSceneChanged" ∨
      (event = "RecordStateChanged" ∧
        Core.field data "outputState" = some "OBS_WEBSOCKET_OUTPUT_PAUSED" ∧
          core.pausedSince = none)
  | .beginStop _ => True
  | _ => False

/-- A ticket whose picture may no longer count. -/
def Retired (ticket : SampleTicket) (core : Core num) : Prop :=
  core.stoppedAtMs.isSome = true ∨ ticket.pictureHistory < core.pictureHistory

variable {data : Json} {nowMs : ℤ} {ticket : SampleTicket}

/-- A pause that begins starts a new picture history. -/
theorem onRecordState_history
    (hpaused : Core.field data "outputState" = some "OBS_WEBSOCKET_OUTPUT_PAUSED")
    (hnone : core.pausedSince = none) :
    (core.onRecordState nowMs data).pictureHistory = core.next := by
  have hpath : Writes nowMs core (core.notePath data) := core.notePath_writes data
  have hsince : (core.notePath data).pausedSince.isNone = true := by
    rw [hpath.clock.pausedSince, hnone]
    rfl
  rw [Core.onRecordState, (Core.warnStopped_writes _ nowMs data).tickets.pictureHistory,
    Core.onOutputState, if_pos hpaused, Core.pause, if_pos hsince]
  exact hpath.tickets.allocated

/-- A change of the program scene starts a new picture history. -/
theorem onProgramScene_history : (core.onProgramScene nowMs data).pictureHistory = core.next := by
  have hwrites : Writes nowMs core (core.noteScene data) := core.noteScene_writes data
  exact hwrites.tickets.allocated

/-- An event that is handled leaves the picture history of its handler. -/
theorem onEvent_history {next : Core num} {event detail : String}
    (hlistening : core.listening = true) (hmeters : event ≠ "InputVolumeMeters")
    (hhandled : core.handleEvent nowMs event data = some (next, detail)) :
    (core.onEvent nowMs event data).pictureHistory = next.pictureHistory := by
  have hheard : ¬core.listening = false := by
    rw [hlistening]
    exact Bool.false_ne_true.symm
  rw [Core.onEvent, if_neg hheard, if_neg hmeters, hhandled]
  exact (next.log_writes nowMs event (some detail)).tickets.pictureHistory

/-- Whatever disrupts retires the tickets of the present history. -/
theorem retired_of_disrupts (hinv : Inv core) (hdisrupts : Disrupts core call)
    (hticket : ticket.pictureHistory ≤ core.pictureHistory) : Retired ticket (core.call call) := by
  cases call with
  | onEvent nowMs event data =>
    by_cases hlistening : core.listening = true
    · refine Or.inr ((hticket.trans_lt hinv.history).trans_eq ?_)
      rcases hdisrupts with rfl | ⟨rfl, hpaused, hnone⟩
      · have hhandled : core.handleEvent nowMs "CurrentProgramSceneChanged" data =
            some (core.onProgramScene nowMs data,
              stringOrEmpty num (data.get "sceneName")) := by
          rw [Core.handleEvent, if_neg (by decide), if_pos rfl]
        exact ((onEvent_history hlistening (by decide) hhandled).trans
          onProgramScene_history).symm
      · have hhandled : core.handleEvent nowMs "RecordStateChanged" data =
            some (core.onRecordState nowMs data,
              stringOrEmpty num (data.get "outputState")) := by
          rw [Core.handleEvent, if_neg (by decide), if_neg (by decide), if_pos rfl]
        exact ((onEvent_history hlistening (by decide) hhandled).trans
          (onRecordState_history hpaused hnone)).symm
    · refine Or.inl ?_
      show (core.onEvent nowMs event data).stoppedAtMs.isSome = true
      rw [Core.onEvent, if_pos (Bool.not_eq_true _ ▸ hlistening)]
      exact Option.isSome_iff_ne_none.mpr fun hnone ↦ hlistening (hinv.listening.mpr hnone)
  | beginStop nowMs =>
    refine Or.inl ?_
    show (core.beginStop nowMs).2.stoppedAtMs.isSome = true
    rw [Core.beginStop]
    split_ifs with hstopped
    · exact hstopped
    · rfl
  | _ => exact hdisrupts.elim

/-- A call leaves retired tickets retired. -/
theorem Retired.persists (hretired : Retired ticket core) (hinv : Inv core) (call : Call) :
    Retired ticket (core.call call) := by
  have hadvances := call_advances hinv call 0
  rcases hretired with hstopped | hold
  · obtain ⟨stop, hstop⟩ := Option.isSome_iff_exists.mp hstopped
    exact Or.inl (by rw [hadvances.stopped stop hstop]; rfl)
  · exact Or.inr (hold.trans_le hadvances.history)

/-- A sample may be begun at any moment, and a cleanup tried. -/
theorem admits_of_reading {call : Call} (hreading : call.reading = none)
    (hcall : call.ticketing = false ∨ ∃ kind, call = .beginSample kind) : world.Admits call := by
  refine ⟨fun nowMs hsome ↦ ?_, ?_⟩
  · rw [hreading] at hsome
    cases hsome
  · rcases hcall with hcall | ⟨kind, rfl⟩
    · cases call <;> trivial
    · trivial

/-- A picture ticket that was issued before a disruption of the run retires at it for good. -/
theorem retired_of_run (hreachable : (monitor num).Reachable world)
    (hissued : (world.core.beginSample .picture).1 = some ticket) {run before after}
    {state : World num} (hrun : (monitor num).Run (world.after (.beginSample .picture)) run)
    (hsplit : run = before ++ (call, state) :: after)
    (hdisrupts : Disrupts (last (world.after (.beginSample .picture)) before).core call) :
    ticket.kind = .picture ∧
      Retired ticket (last (world.after (.beginSample .picture)) run).core := by
  have hstart : (monitor num).Reachable (world.after (.beginSample .picture)) :=
    hreachable.step ⟨admits_of_reading rfl (Or.inr ⟨_, rfl⟩), rfl⟩
  have hticket : ticket.kind = .picture ∧
      ticket.pictureHistory = (world.after (.beginSample .picture)).core.pictureHistory := by
    show _ ∧ _ = (world.core.beginSample .picture).2.pictureHistory
    rw [Core.beginSample] at hissued ⊢
    split_ifs at hissued ⊢
    cases hissued
    exact ⟨rfl, rfl⟩
  obtain ⟨hbefore, ⟨hadmits, rfl⟩, hafter⟩ := hrun.split hsplit
  have hmiddle := hbefore.reachable hstart
  have holder : ticket.pictureHistory ≤
      (last (world.after (.beginSample .picture)) before).core.pictureHistory := by
    refine (Run.keeps (fun state ↦ (monitor num).Reachable state ∧
      ticket.pictureHistory ≤ state.core.pictureHistory) ?_ hbefore ⟨hstart, hticket.2.le⟩).2
    rintro state call _ ⟨hstate, hle⟩ ⟨hadmits, rfl⟩
    have hadvances := call_advances (sane_of_reachable hstate).inv call 0
    exact ⟨hstate.step ⟨hadmits, rfl⟩, hle.trans hadvances.history⟩
  have hretired := retired_of_disrupts (sane_of_reachable hmiddle).inv hdisrupts holder
  refine ⟨hticket.1, ?_⟩
  have hend := Run.keeps (fun state ↦ (monitor num).Reachable state ∧ Retired ticket state.core)
    ?_ hafter ⟨hmiddle.step ⟨hadmits, rfl⟩, hretired⟩
  · have hlast : last (world.after (.beginSample .picture)) run =
        last ((last (world.after (.beginSample .picture)) before).after call) after := by
      rw [hsplit, last_append]
      rfl
    rw [hlast]
    exact hend.2
  · rintro state call _ ⟨hstate, hold⟩ ⟨hadmits, rfl⟩
    exact ⟨hstate.step ⟨hadmits, rfl⟩, hold.persists (sane_of_reachable hstate).inv call⟩

/-! ### After the cleanup -/

/-- Nothing that was seen or logged changes, chapters apart. -/
structure Final (core next : Core num) : Prop where
  pictures : SamePictures core next
  events : next.events = core.events
  warnings : next.warnings = core.warnings

/-- No call changes a monitor that was cleaned up, except that chapters may be marked. -/
theorem final_of_call (hsane : Sane world) (hstopped : world.core.phase = .stopped)
    (hadmits : world.Admits call) :
    (world.core.call call).phase = .stopped ∧ Final world.core (world.core.call call) := by
  have hdeaf : world.core.listening = false := by
    rw [Core.listening, hstopped]
    rfl
  have hend : world.core.stoppedAtMs.isSome = true :=
    Option.isSome_iff_ne_none.mpr fun hnone ↦
      absurd (hsane.inv.listening.mpr hnone) (by rw [hdeaf]; exact Bool.false_ne_true)
  have hnone : world.held = [] := hsane.held.cleaned hstopped
  have hself : ∀ core : Core num, Final core core := fun core ↦ ⟨.refl core, rfl, rfl⟩
  have hsame : world.core.call call = world.core → (world.core.call call).phase = .stopped ∧
      Final world.core (world.core.call call) := by
    intro heq
    rw [heq]
    exact ⟨hstopped, hself _⟩
  cases call with
  | completeSetup nowMs supportsPpm =>
    refine hsame ?_
    show (world.core.completeSetup nowMs supportsPpm).2 = _
    rw [Core.completeSetup, if_pos (by rw [hstopped]; decide)]
  | loadTracks recorded tracks => exact hsame (by simp [Core.call, Core.loadTracks, hdeaf])
  | tracksUnknown nowMs message => exact hsame (by simp [Core.call, Core.tracksUnknown, hdeaf])
  | loadProgramScene response => exact hsame (by simp [Core.call, Core.loadProgramScene, hdeaf])
  | onEvent nowMs event data => exact hsame (by simp [Core.call, Core.onEvent, hdeaf])
  | onDisconnect nowMs => exact hsame (by simp [Core.call, Core.onDisconnect, hdeaf])
  | beginSample kind => exact hsame (by simp [Core.call, Core.beginSample, hstopped])
  | finishSample ticket nowMs observation =>
    have hforeign : ticket.owner ≠ world.core.sampleOwner :=
      hadmits.2.resolve_left (by rw [hnone]; exact not_mem_nil)
    exact hsame (by simp [Core.call, Core.finishSample, hforeign.symm])
  | drop ticket =>
    have hheld : ticket ∈ world.held := hadmits.2
    rw [hnone] at hheld
    exact absurd hheld not_mem_nil
  | observeStats nowMs stats => exact hsame (by simp [Core.call, Core.observeStats, hstopped])
  | observePicture nowMs luma => exact hsame (by simp [Core.call, Core.observePicture, hend])
  | mark nowMs name => exact ⟨hstopped, ⟨rfl, rfl, rfl, rfl, rfl, rfl⟩, rfl, rfl⟩
  | expectStop => exact ⟨hstopped, ⟨rfl, rfl, rfl, rfl, rfl, rfl⟩, rfl, rfl⟩
  | beginStopExpectation => exact ⟨hstopped, ⟨rfl, rfl, rfl, rfl, rfl, rfl⟩, rfl, rfl⟩
  | rollbackStopExpectation previous =>
    exact ⟨hstopped, ⟨rfl, rfl, rfl, rfl, rfl, rfl⟩, rfl, rfl⟩
  | beginStop nowMs => exact hsame (by simp [Core.call, Core.beginStop, hend])
  | finishCleanup => exact hsame (by simp [Core.call, Core.finishCleanup, hstopped])
  | summary nowMs => exact ⟨hstopped, hself _⟩

/-- No run changes a monitor that was cleaned up. -/
theorem final_of_run (hreachable : (monitor num).Reachable world)
    (hstopped : world.core.phase = .stopped) {run : List (Call × World num)}
    (hrun : (monitor num).Run world run) : Final world.core (last world run).core := by
  refine (Run.keeps (fun state ↦ (monitor num).Reachable state ∧
    state.core.phase = .stopped ∧ Final world.core state.core) ?_ hrun
    ⟨hreachable, hstopped, ⟨.refl _, rfl, rfl⟩⟩).2.2
  rintro state call _ ⟨hstate, hphase, hfinal⟩ ⟨hadmits, rfl⟩
  obtain ⟨hphase', hstep⟩ := final_of_call (sane_of_reachable hstate) hphase hadmits
  exact ⟨hstate.step ⟨hadmits, rfl⟩, hphase', hfinal.pictures.trans hstep.pictures,
    hstep.events.trans hfinal.events, hstep.warnings.trans hfinal.warnings⟩

/-- A cleanup succeeds only when no ticket is held, and leaves the monitor stopped. -/
theorem cleanup_ok (hsane : Sane world) (hok : world.core.finishCleanup.1 = .ok ()) :
    world.held = [] ∧ world.core.finishCleanup.2.phase = .stopped := by
  rw [Core.finishCleanup] at hok ⊢
  split_ifs at hok ⊢ with hstopped hstopping hpending
  · exact ⟨hsane.held.cleaned hstopped, hstopped⟩
  · exact ⟨hsane.held.eq_nil (Bool.not_eq_true _ ▸ hpending), rfl⟩

/-! ### Every run -/

/-- Over every run of a take monitor: at most one ticket of each kind is held; a picture ticket
issued before a change of the program scene, the beginning of a pause or a stop changes no picture
when it is finished after it; a cleanup succeeds only when no ticket is held, and afterwards no call
changes stills, blanks, counted frames, events or warnings; the time never goes back, stands still
during a pause, and events, warnings and chapters are in the order of their times. -/
theorem monitor_guarantees (num : Numerics) :
    (∀ world, (monitor num).Reachable world → ∀ kind,
      (world.held.filter fun ticket ↦ ticket.kind = kind).length ≤ 1) ∧
    (∀ world, (monitor num).Reachable world → ∀ ticket,
      (world.core.beginSample .picture).1 = some ticket → ∀ run,
        (monitor num).Run (world.after (.beginSample .picture)) run →
          (∃ before call state after, run = before ++ (call, state) :: after ∧
            Disrupts (last (world.after (.beginSample .picture)) before).core call) →
          ∀ nowMs observation,
            let core := (last (world.after (.beginSample .picture)) run).core
            SamePictures core (core.finishSample ticket nowMs observation).2) ∧
    (∀ world, (monitor num).Reachable world → world.core.finishCleanup.1 = .ok () →
      world.held = [] ∧ ∀ run, (monitor num).Run (world.after .finishCleanup) run →
        Final (world.after .finishCleanup).core (last (world.after .finishCleanup) run).core) ∧
    (∀ world call other, (monitor num).Reachable world → (monitor num).step world call other →
      world.now ≤ other.now ∧ (world.core.isPaused = true → other.now = world.now)) ∧
    (∀ world, (monitor num).Reachable world →
      (world.core.events.map Event.atSeconds).Pairwise (· ≤ ·) ∧
        (world.core.warnings.map Warning.atSeconds).Pairwise (· ≤ ·) ∧
          (world.core.chapters.map Chapter.atSeconds).Pairwise (· ≤ ·)) := by
  refine ⟨fun world hreachable kind ↦ ?_, ?_, ?_, ?_, fun world hreachable ↦ ?_⟩
  · exact (sane_of_reachable hreachable).held.length_le_one kind
  · rintro world hreachable ticket hissued run hrun ⟨before, call, state, after, hsplit, hdisrupts⟩
      nowMs observation
    obtain ⟨hkind, hretired⟩ := retired_of_run hreachable hissued hrun hsplit hdisrupts
    exact Core.finishSample_retired hkind (hretired.imp_right ne_of_lt) observation
  · intro world hreachable hok
    obtain ⟨hnone, hstopped⟩ := cleanup_ok (sane_of_reachable hreachable) hok
    refine ⟨hnone, fun run hrun ↦ final_of_run ?_ hstopped hrun⟩
    exact hreachable.step ⟨admits_of_reading rfl (Or.inl rfl), rfl⟩
  · rintro world call _ hreachable ⟨hadmits, rfl⟩
    exact now_of_step (sane_of_reachable hreachable).inv hadmits
  · have hsane := sane_of_reachable hreachable
    exact ⟨hsane.events.1, hsane.warnings.1, hsane.chapters.1⟩

end ObsMcp.Monitor
