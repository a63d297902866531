import ObsMcp.Monitor.Core
import ObsMcp.Foundations.Machine

/-!
# Calls of the take monitor

`monitor` is the monitor as its callers use it: any method may be called at any moment, with clock
readings that never decrease, and the tickets issued so far are held until they are finished or
dropped.

Most calls only write. `Writes` says that a call appends entries of one time to the logs and leaves
the clock, the phase, the tickets, the pictures and the options alone; it is proved once for each
such method and composes. `Appends` is the part about the logs, which all methods share.
-/

namespace ObsMcp.Monitor

open Foundations List

variable {num : Numerics} {core next last : Core num} {time : ℚ} {nowMs : ℤ}

/-! ### The machine -/

inductive Call
  | completeSetup (nowMs : ℤ) (supportsPpm : Bool)
  | loadTracks (recorded : List ℕ) (tracks : List (String × Members))
  | tracksUnknown (nowMs : ℤ) (message : String)
  | loadProgramScene (response : Json)
  | onEvent (nowMs : ℤ) (event : String) (data : Json)
  | onDisconnect (nowMs : ℤ)
  | beginSample (kind : SampleKind)
  | finishSample (ticket : SampleTicket) (nowMs : ℤ) (observation : SampleObservation)
  | drop (ticket : SampleTicket)
  | observeStats (nowMs : ℤ) (stats : Json)
  | observePicture (nowMs : ℤ) (luma : List UInt8)
  | mark (nowMs : ℤ) (name : String)
  | expectStop
  | beginStopExpectation
  | rollbackStopExpectation (previous : Bool)
  | beginStop (nowMs : ℤ)
  | finishCleanup
  | summary (nowMs : ℤ)

/-- The clock reading that a call is made with. -/
def Call.reading : Call → Option ℤ
  | .completeSetup nowMs _ | .tracksUnknown nowMs _ | .onEvent nowMs _ _ | .onDisconnect nowMs
  | .finishSample _ nowMs _ | .observeStats nowMs _ | .observePicture nowMs _ | .mark nowMs _
  | .beginStop nowMs | .summary nowMs => some nowMs
  | .loadTracks _ _ | .loadProgramScene _ | .beginSample _ | .drop _ | .expectStop
  | .beginStopExpectation | .rollbackStopExpectation _ | .finishCleanup => none

/-- What a call leaves of the monitor. -/
def Core.call (core : Core num) : Call → Core num
  | .completeSetup nowMs supportsPpm => (core.completeSetup nowMs supportsPpm).2
  | .loadTracks recorded tracks => core.loadTracks recorded tracks
  | .tracksUnknown nowMs message => core.tracksUnknown nowMs message
  | .loadProgramScene response => core.loadProgramScene response
  | .onEvent nowMs event data => core.onEvent nowMs event data
  | .onDisconnect nowMs => core.onDisconnect nowMs
  | .beginSample kind => (core.beginSample kind).2
  | .finishSample ticket nowMs observation => (core.finishSample ticket nowMs observation).2
  | .drop ticket => core.dropTicket ticket
  | .observeStats nowMs stats => core.observeStats nowMs stats
  | .observePicture nowMs luma => core.observePicture nowMs luma
  | .mark nowMs name => core.mark nowMs name
  | .expectStop => core.expectStop
  | .beginStopExpectation => core.beginStopExpectation.2
  | .rollbackStopExpectation previous => core.rollbackStopExpectation previous
  | .beginStop nowMs => (core.beginStop nowMs).2
  | .finishCleanup => core.finishCleanup.2
  | .summary _ => core

/-- A monitor, the tickets that are held outside and the latest clock reading. -/
structure World (num : Numerics) where
  core : Core num
  held : List SampleTicket
  clock : ℤ

namespace World

/-- The tickets held after a call. -/
def heldAfter (world : World num) : Call → List SampleTicket
  | .beginSample kind => (world.core.beginSample kind).1.toList ++ world.held
  | .finishSample ticket _ _ | .drop ticket => world.held.erase ticket
  | _ => world.held

def after (world : World num) (call : Call) : World num :=
  ⟨world.core.call call, world.heldAfter call, call.reading.getD world.clock⟩

/-- The readings never decrease, and a ticket that is finished or dropped is held; the tickets of
another monitor may be offered too. -/
def Admits (world : World num) (call : Call) : Prop :=
  (∀ nowMs, call.reading = some nowMs → world.clock ≤ nowMs) ∧
    match call with
    | .finishSample ticket _ _ => ticket ∈ world.held ∨ ticket.owner ≠ world.core.sampleOwner
    | .drop ticket => ticket ∈ world.held
    | _ => True

def now (world : World num) : ℚ :=
  world.core.now world.clock

end World

/-- The monitors of all takes, from `new` on. -/
def monitor (num : Numerics) : Machine (World num) Call where
  initial world := ∃ identity startedAtMs startedAt options,
    world = ⟨Core.new num identity startedAtMs startedAt options, [], startedAtMs⟩
  step world call other := world.Admits call ∧ other = world.after call

/-! ### Entries in the logs -/

/-- Entries of one time are appended to the logs. -/
structure Appends (time : ℚ) (core next : Core num) : Prop where
  events : ∃ entries, next.events = core.events ++ entries ∧ ∀ e ∈ entries, e.atSeconds = time
  warnings : ∃ entries, next.warnings = core.warnings ++ entries ∧
    ∀ w ∈ entries, w.atSeconds = time
  chapters : ∃ entries, next.chapters = core.chapters ++ entries ∧
    ∀ c ∈ entries, c.atSeconds = time

/-- A list appended twice. -/
theorem exists_append_trans {α : Type} {p : α → Prop} {xs ys zs : List α}
    (hfirst : ∃ entries, ys = xs ++ entries ∧ ∀ e ∈ entries, p e)
    (hsecond : ∃ entries, zs = ys ++ entries ∧ ∀ e ∈ entries, p e) :
    ∃ entries, zs = xs ++ entries ∧ ∀ e ∈ entries, p e := by
  obtain ⟨us, rfl, hus⟩ := hfirst
  obtain ⟨vs, rfl, hvs⟩ := hsecond
  exact ⟨us ++ vs, append_assoc _ _ _, forall_mem_append.mpr ⟨hus, hvs⟩⟩

/-- Nothing appended to a list. -/
theorem exists_append_nil {α : Type} {p : α → Prop} (xs : List α) :
    ∃ entries, xs = xs ++ entries ∧ ∀ e ∈ entries, p e :=
  ⟨[], (append_nil _).symm, fun _ he ↦ absurd he not_mem_nil⟩

/-- The logs of two monitors are equal. -/
theorem Appends.of_eq (hevents : next.events = core.events)
    (hwarnings : next.warnings = core.warnings) (hchapters : next.chapters = core.chapters) :
    Appends time core next :=
  ⟨hevents ▸ exists_append_nil _, hwarnings ▸ exists_append_nil _, hchapters ▸ exists_append_nil _⟩

theorem Appends.refl (core : Core num) : Appends time core core :=
  .of_eq rfl rfl rfl

theorem Appends.trans (hfirst : Appends time core next) (hsecond : Appends time next last) :
    Appends time core last :=
  ⟨exists_append_trans hfirst.events hsecond.events,
    exists_append_trans hfirst.warnings hsecond.warnings,
    exists_append_trans hfirst.chapters hsecond.chapters⟩

/-- The readings that time is computed from. -/
structure SameClock (core next : Core num) : Prop where
  startedAtMs : next.startedAtMs = core.startedAtMs
  stoppedAtMs : next.stoppedAtMs = core.stoppedAtMs
  pausedMs : next.pausedMs = core.pausedMs
  pausedSince : next.pausedSince = core.pausedSince

/-- The phase and everything that the tickets depend on. -/
structure SameTickets (core next : Core num) : Prop where
  sampleOwner : next.sampleOwner = core.sampleOwner
  pictureHistory : next.pictureHistory = core.pictureHistory
  busy : next.busy = core.busy
  flags : next.flags = core.flags
  allocated : next.next = core.next

/-- The pictures and what was found in them. -/
structure SamePictures (core next : Core num) : Prop where
  tracker : next.tracker = core.tracker
  stills : next.stills = core.stills
  blanks : next.blanks = core.blanks
  blankSince : next.blankSince = core.blankSince
  blankRun : next.blankRun = core.blankRun
  framesSampled : next.framesSampled = core.framesSampled

theorem SameClock.refl (core : Core num) : SameClock core core := ⟨rfl, rfl, rfl, rfl⟩

theorem SameTickets.refl (core : Core num) : SameTickets core core := ⟨rfl, rfl, rfl, rfl, rfl⟩

theorem SamePictures.refl (core : Core num) : SamePictures core core :=
  ⟨rfl, rfl, rfl, rfl, rfl, rfl⟩

theorem SameClock.trans (hfirst : SameClock core next) (hsecond : SameClock next last) :
    SameClock core last :=
  ⟨hsecond.1.trans hfirst.1, hsecond.2.trans hfirst.2, hsecond.3.trans hfirst.3,
    hsecond.4.trans hfirst.4⟩

theorem SameTickets.trans (hfirst : SameTickets core next) (hsecond : SameTickets next last) :
    SameTickets core last :=
  ⟨hsecond.1.trans hfirst.1, hsecond.2.trans hfirst.2, hsecond.3.trans hfirst.3,
    hsecond.4.trans hfirst.4, hsecond.5.trans hfirst.5⟩

theorem SamePictures.trans (hfirst : SamePictures core next) (hsecond : SamePictures next last) :
    SamePictures core last :=
  ⟨hsecond.1.trans hfirst.1, hsecond.2.trans hfirst.2, hsecond.3.trans hfirst.3,
    hsecond.4.trans hfirst.4, hsecond.5.trans hfirst.5, hsecond.6.trans hfirst.6⟩

/-- Equal readings give equal times. -/
theorem SameClock.elapsed_eq (hclock : SameClock core next) (nowMs : ℤ) :
    next.elapsed nowMs = core.elapsed nowMs := by
  simp only [Core.elapsed, hclock.startedAtMs, hclock.stoppedAtMs, hclock.pausedMs,
    hclock.pausedSince]

/-- Equal readings give equal times. -/
theorem SameClock.now_eq (hclock : SameClock core next) (nowMs : ℤ) :
    next.now nowMs = core.now nowMs := by
  rw [Core.now, hclock.elapsed_eq, Core.now]

/-- A call that logs at a reading and changes neither clock, phase nor tickets. -/
structure Logs (nowMs : ℤ) (core next : Core num) : Prop where
  appends : Appends (core.now nowMs) core next
  clock : SameClock core next
  phase : next.phase = core.phase
  tickets : SameTickets core next

theorem Logs.trans (hfirst : Logs nowMs core next) (hsecond : Logs nowMs next last) :
    Logs nowMs core last :=
  ⟨hfirst.appends.trans (hfirst.clock.now_eq nowMs ▸ hsecond.appends),
    hfirst.clock.trans hsecond.clock, hsecond.phase.trans hfirst.phase,
    hfirst.tickets.trans hsecond.tickets⟩

/-- A call that writes at a reading and changes neither clock, phase, tickets, pictures nor
options. -/
structure Writes (nowMs : ℤ) (core next : Core num) : Prop where
  appends : Appends (core.now nowMs) core next
  clock : SameClock core next
  phase : next.phase = core.phase
  tickets : SameTickets core next
  pictures : SamePictures core next
  options : next.options = core.options

theorem Writes.refl (core : Core num) : Writes nowMs core core :=
  ⟨.refl core, .refl core, rfl, .refl core, .refl core, rfl⟩

theorem Writes.logs (hwrites : Writes nowMs core next) : Logs nowMs core next :=
  ⟨hwrites.appends, hwrites.clock, hwrites.phase, hwrites.tickets⟩

theorem Writes.trans (hfirst : Writes nowMs core next) (hsecond : Writes nowMs next last) :
    Writes nowMs core last :=
  have hlogs := hfirst.logs.trans hsecond.logs
  ⟨hlogs.appends, hlogs.clock, hlogs.phase, hlogs.tickets,
    hfirst.pictures.trans hsecond.pictures, hsecond.options.trans hfirst.options⟩

/-- A loop of calls that write. -/
theorem Writes.foldl {α : Type} {f : Core num → α → Core num}
    (hturn : ∀ core x, Writes nowMs core (f core x)) (xs : List α) (core : Core num) :
    Writes nowMs core (xs.foldl f core) := by
  induction xs generalizing core with
  | nil => exact .refl core
  | cons x xs ih => exact (hturn core x).trans (ih (f core x))

/-! ### The calls that write -/

namespace Core

theorem log_writes (core : Core num) (nowMs : ℤ) (event : String) (detail : Option String) :
    Writes nowMs core (core.log nowMs event detail) := by
  rw [log]
  split_ifs
  · refine ⟨⟨⟨[_], rfl, ?_⟩, exists_append_nil _, exists_append_nil _⟩, ⟨rfl, rfl, rfl, rfl⟩, rfl,
      ⟨rfl, rfl, rfl, rfl, rfl⟩, ⟨rfl, rfl, rfl, rfl, rfl, rfl⟩, rfl⟩
    intro e he
    rw [mem_singleton.mp he]
  · exact .refl core

theorem warn_writes (core : Core num) (nowMs : ℤ) (kind : WarningKind) (message : String) :
    Writes nowMs core (core.warn nowMs kind message) := by
  rw [warn]
  split_ifs
  · refine ⟨⟨exists_append_nil _, ⟨[_], rfl, ?_⟩, exists_append_nil _⟩, ⟨rfl, rfl, rfl, rfl⟩, rfl,
      ⟨rfl, rfl, rfl, rfl, rfl⟩, ⟨rfl, rfl, rfl, rfl, rfl, rfl⟩, rfl⟩
    intro w hw
    rw [mem_singleton.mp hw]
  · exact .refl core

theorem mark_writes (core : Core num) (nowMs : ℤ) (name : String) :
    Writes nowMs core (core.mark nowMs name) := by
  refine ⟨⟨exists_append_nil _, exists_append_nil _, ⟨[_], rfl, ?_⟩⟩, ⟨rfl, rfl, rfl, rfl⟩, rfl,
    ⟨rfl, rfl, rfl, rfl, rfl⟩, ⟨rfl, rfl, rfl, rfl, rfl, rfl⟩, rfl⟩
  intro c hc
  rw [mem_singleton.mp hc]

/-- Everything that the logs, the clock, the phase and the tickets consist of. -/
def outline (core : Core num) :=
  ((core.events, core.warnings, core.chapters), core.phase,
    (core.startedAtMs, core.stoppedAtMs, core.pausedMs, core.pausedSince),
    core.sampleOwner, core.pictureHistory, core.busy, core.flags, core.next)

/-- The outline, the pictures and the options. -/
def view (core : Core num) :=
  (core.outline, core.tracker, core.stills, core.blanks, core.blankSince, core.blankRun,
    core.framesSampled, core.options)

/-- A monitor of the same outline. -/
theorem logs_of_outline (houtline : next.outline = core.outline) : Logs nowMs core next := by
  simp only [outline, Prod.mk.injEq] at houtline
  obtain ⟨⟨hevents, hwarnings, hchapters⟩, hphase, ⟨h1, h2, h3, h4⟩, t1, t2, t3, t4, t5⟩ :=
    houtline
  exact ⟨.of_eq hevents hwarnings hchapters, ⟨h1, h2, h3, h4⟩, hphase, ⟨t1, t2, t3, t4, t5⟩⟩

/-- A monitor of the same outline and with the same pictures. -/
theorem writes_of_view (hview : next.view = core.view) : Writes nowMs core next := by
  obtain ⟨houtline, hpictures⟩ := Prod.mk.inj hview
  simp only [Prod.mk.injEq] at hpictures
  obtain ⟨p1, p2, p3, p4, p5, p6, hoptions⟩ := hpictures
  have hlogs : Logs nowMs core next := logs_of_outline houtline
  exact ⟨hlogs.appends, hlogs.clock, hlogs.phase, hlogs.tickets, ⟨p1, p2, p3, p4, p5, p6⟩, hoptions⟩

/-- A call that writes after a change of nothing of that. -/
theorem writes_after_view (hwrites : Writes nowMs next last) (hview : next.view = core.view) :
    Writes nowMs core last :=
  (writes_of_view hview).trans hwrites

section

variable (core : Core num)

theorem loadTracks_writes (recorded : List ℕ) (tracks : List (String × Members)) :
    Writes nowMs core (core.loadTracks recorded tracks) := by
  rw [loadTracks]
  split_ifs
  · exact writes_of_view rfl
  · exact .refl core

theorem loadProgramScene_writes (response : Json) :
    Writes nowMs core (core.loadProgramScene response) := by
  rw [loadProgramScene]
  split_ifs
  · exact writes_of_view rfl
  · exact .refl core

theorem tracksUnknown_writes (nowMs : ℤ) (message : String) :
    Writes nowMs core (core.tracksUnknown nowMs message) := by
  rw [tracksUnknown]
  split_ifs
  · exact core.log_writes nowMs _ _
  · exact .refl core

theorem onDisconnect_writes (nowMs : ℤ) : Writes nowMs core (core.onDisconnect nowMs) := by
  rw [onDisconnect]
  split_ifs
  · exact core.warn_writes nowMs _ _
  · exact .refl core

theorem onTracksChanged_writes (data : Json) : Writes nowMs core (core.onTracksChanged data) := by
  rw [onTracksChanged]
  split
  · exact writes_of_view rfl
  · exact .refl core

theorem notePath_writes (data : Json) : Writes nowMs core (core.notePath data) := by
  rw [notePath]
  split
  · exact writes_of_view rfl
  · exact .refl core

theorem noteScene_writes (data : Json) : Writes nowMs core (core.noteScene data) := by
  rw [noteScene]
  split
  · exact writes_of_view rfl
  · exact .refl core

theorem warnStopped_writes (nowMs : ℤ) (data : Json) :
    Writes nowMs core (core.warnStopped nowMs data) := by
  rw [warnStopped]
  split_ifs
  · exact core.warn_writes nowMs _ _
  · exact .refl core

/-- A frame warning writes when what it remembers is nothing that matters here. -/
theorem frameWarning_writes (nowMs : ℤ) (skipped : num.Count) (remembered : Option ℤ)
    {remember : Core num → Core num} (hremember : (remember core).view = core.view)
    (message : String) :
    Writes nowMs core (core.frameWarning nowMs skipped remembered remember message) := by
  rw [frameWarning]
  split_ifs
  · exact .refl core
  · exact (writes_of_view hremember).trans ((remember core).warn_writes nowMs _ _)

theorem observeStats_writes (nowMs : ℤ) (stats : Json) :
    Writes nowMs core (core.observeStats nowMs stats) := by
  rw [observeStats]
  split_ifs
  · exact .refl core
  · split
    · exact writes_of_view rfl
    · dsimp only
      split_ifs
      · exact writes_of_view rfl
      · refine Writes.trans ?_ (frameWarning_writes _ nowMs _ _ rfl _)
        refine writes_after_view (frameWarning_writes _ nowMs _ _ rfl _) ?_
        rfl

theorem onMeter_writes (nowMs : ℤ) (input : Json) :
    Writes nowMs core (onMeter nowMs core input) := by
  rw [onMeter]
  split
  · dsimp only
    split_ifs
    · refine Writes.trans ?_ (warn_writes _ nowMs _ _)
      exact writes_after_view (log_writes _ nowMs _ _) rfl
    · exact writes_after_view (log_writes _ nowMs _ _) rfl
    · exact writes_after_view (log_writes _ nowMs _ _) rfl
    · exact writes_of_view rfl
  · exact .refl core

theorem onMeters_writes (nowMs : ℤ) (data : Json) :
    Writes nowMs core (core.onMeters nowMs data) := by
  rw [onMeters]
  split_ifs
  · exact .refl core
  · split
    · exact .refl core
    · exact Writes.foldl (fun core input ↦ core.onMeter_writes nowMs input) _ core

end

end Core

end ObsMcp.Monitor
