import ObsMcp.Monitor.Calls

/-!
# What the calls of a take monitor do

Between two calls the monitor satisfies `Inv`: it has stopped exactly when it listens no longer, and
its picture history is an identity already allocated. `Advances` is what every call does to a
monitor with the invariant (`call_advances`): it writes entries of the present time, leaves that
time where it is, never takes a stop back and never returns to an older picture history. `Evolves`
adds, for the calls that neither issue nor end a ticket, that the tickets stay what they are.

The tickets held outside satisfy `Held`, of which every call keeps its part. `finishSample_retired`
is the reason for the three identities: a ticket of an older picture history, or of the time before
the stop, changes no picture.
-/

namespace ObsMcp.Monitor

open Foundations Option List

variable {num : Numerics} {core next last : Core num} {nowMs : ℤ}

/-! ### Time -/

/-- Rounding keeps the order of instants. -/
theorem round_mono (rounding : Rounding) : Monotone (round rounding) := by
  intro a b hab
  have hcents : hundredths rounding a ≤ hundredths rounding b := Int.floor_le_floor
    (rounding.mono (add_le_add_left (rounding.mono (by linarith)) _))
  have hcast : (hundredths rounding a : ℚ) ≤ hundredths rounding b := by exact_mod_cast hcents
  exact rounding.mono (by linarith)

/-- More recorded milliseconds are no earlier time. -/
theorem now_le_of_elapsed {before after : ℤ} (hle : core.elapsed before ≤ next.elapsed after) :
    core.now before ≤ next.now after := by
  refine round_mono _ (num.rounding.mono ?_)
  have hcast : (core.elapsed before : ℚ) ≤ next.elapsed after := by exact_mod_cast hle
  linarith

/-- A later reading is no earlier time. -/
theorem elapsed_mono (core : Core num) {a b : ℤ} (hab : a ≤ b) :
    core.elapsed a ≤ core.elapsed b := by
  simp only [Core.elapsed]
  cases core.stoppedAtMs <;> cases core.pausedSince <;> simp <;> omega

/-- Time stands still during a pause. -/
theorem elapsed_of_paused (hpaused : core.isPaused = true) (a b : ℤ) :
    core.elapsed a = core.elapsed b := by
  obtain ⟨since, hsince⟩ := isSome_iff_exists.mp hpaused
  simp only [Core.elapsed, hsince, map_some, getD_some]
  omega

/-- The milliseconds that a time is computed from. -/
def Core.millis (core : Core num) (nowMs : ℤ) : List ℤ :=
  [core.startedAtMs, core.pausedMs, core.stoppedAtMs.getD nowMs, core.pausedSince.getD nowMs]

/-- Whole milliseconds are not rounded. -/
theorem doubles_elapsed (hmillis : ∀ ms ∈ core.millis nowMs, |ms| ≤ 2 ^ 50) :
    core.doubles nowMs = core.elapsed nowMs := by
  have hwhole {k : ℤ} (hk : -(5 * 2 ^ 50) ≤ k ∧ k ≤ 5 * 2 ^ 50) : num.rounding.nearest k = k :=
    num.rounding.whole k ((abs_le.mpr hk).trans_lt (by norm_num))
  simp only [Core.millis, forall_mem_cons, abs_le] at hmillis
  obtain ⟨hstart, hpaused, hstop, hsince, -⟩ := hmillis
  rw [Core.doubles, Core.elapsed, hwhole (by omega), hwhole (k := core.startedAtMs) (by omega),
    ← Int.cast_sub, hwhole (by omega)]
  cases hpause : core.pausedSince with
  | none =>
    rw [map_none, getD_none, add_zero, hwhole (by omega), ← Int.cast_sub,
      hwhole (by omega), map_none, getD_none, add_zero]
  | some since =>
    rw [hpause, getD_some] at hsince
    rw [map_some, getD_some, hwhole (k := since) (by omega), ← Int.cast_sub,
      hwhole (by omega), ← Int.cast_add, hwhole (by omega), ← Int.cast_sub, hwhole (by omega),
      map_some, getD_some]

/-! ### What every call does -/

/-- The invariant between calls. -/
structure Inv (core : Core num) : Prop where
  listening : core.listening = true ↔ core.stoppedAtMs = none
  history : core.pictureHistory < core.next

/-- What every call at a reading makes of a monitor with the invariant. -/
structure Advances (nowMs : ℤ) (core next : Core num) : Prop where
  appends : Appends (core.now nowMs) core next
  elapsed : next.elapsed nowMs = core.elapsed nowMs
  stopped : ∀ stop, core.stoppedAtMs = some stop → next.stoppedAtMs = some stop
  history : core.pictureHistory ≤ next.pictureHistory
  inv : Inv next

/-- What a call that neither issues nor ends a ticket makes of it: the tickets stay what they are,
and no cleanup is done while one is held. -/
structure Evolves (nowMs : ℤ) (core next : Core num) : Prop where
  advances : Advances nowMs core next
  sampleOwner : next.sampleOwner = core.sampleOwner
  busy : next.busy = core.busy
  flags : next.flags = core.flags
  allocated : core.next ≤ next.next
  cleaned : next.phase = .stopped → core.phase = .stopped ∨ core.samplesPending = false

theorem Advances.trans (hfirst : Advances nowMs core next) (hsecond : Advances nowMs next last) :
    Advances nowMs core last := by
  have hnow : next.now nowMs = core.now nowMs := by
    rw [Core.now, hfirst.elapsed, Core.now]
  exact ⟨hfirst.appends.trans (hnow ▸ hsecond.appends), hsecond.elapsed.trans hfirst.elapsed,
    fun stop hstop ↦ hsecond.stopped stop (hfirst.stopped stop hstop),
    hfirst.history.trans hsecond.history, hsecond.inv⟩

theorem Evolves.trans (hfirst : Evolves nowMs core next) (hsecond : Evolves nowMs next last) :
    Evolves nowMs core last := by
  refine ⟨hfirst.advances.trans hsecond.advances, hsecond.sampleOwner.trans hfirst.sampleOwner,
    hsecond.busy.trans hfirst.busy, hsecond.flags.trans hfirst.flags,
    hfirst.allocated.trans hsecond.allocated, fun hstopped ↦ ?_⟩
  rcases hsecond.cleaned hstopped with hnext | hnone
  · exact hfirst.cleaned hnext
  · refine Or.inr ?_
    rwa [Core.samplesPending, Core.slotBusy, Core.slotBusy, hfirst.busy, hfirst.flags] at hnone

/-- A call that logs keeps the invariant. -/
theorem Logs.evolves (hlogs : Logs nowMs core next) (hinv : Inv core) :
    Evolves nowMs core next := by
  refine ⟨⟨hlogs.appends, hlogs.clock.elapsed_eq nowMs,
    fun stop hstop ↦ hlogs.clock.stoppedAtMs.trans hstop, hlogs.tickets.pictureHistory.ge, ?_, ?_⟩,
    hlogs.tickets.sampleOwner, hlogs.tickets.busy, hlogs.tickets.flags, hlogs.tickets.allocated.ge,
    fun hstopped ↦ Or.inl (hlogs.phase ▸ hstopped)⟩
  · rw [Core.listening, hlogs.phase, hlogs.clock.stoppedAtMs]
    exact hinv.listening
  · rw [hlogs.tickets.pictureHistory, hlogs.tickets.allocated]
    exact hinv.history

/-- A call that writes keeps the invariant. -/
theorem Writes.evolves (hwrites : Writes nowMs core next) (hinv : Inv core) :
    Evolves nowMs core next :=
  hwrites.logs.evolves hinv

theorem Evolves.refl (hinv : Inv core) : Evolves nowMs core core :=
  (Writes.refl core).evolves hinv

namespace Core

section

variable (hinv : Inv core)
include hinv

/-- Closing the still stretch begins a new picture history. -/
theorem closeStill_evolves (time : ℚ) : Evolves nowMs core (core.closeStill time) :=
  ⟨⟨.of_eq rfl rfl rfl, rfl, fun _ hstop ↦ hstop, hinv.history.le, hinv.listening,
    Nat.lt_succ_self core.next⟩, rfl, rfl, rfl, Nat.le_succ core.next, Or.inl⟩

theorem pause_evolves (hrunning : core.stoppedAtMs = none) :
    Evolves nowMs core (core.pause nowMs) := by
  rw [pause]
  split_ifs with hnone
  · have hclosed : Evolves nowMs core (core.closeStill (core.now nowMs)) :=
      closeStill_evolves hinv (core.now nowMs)
    have hsince : core.pausedSince = none := isNone_iff_eq_none.mp hnone
    refine ⟨⟨.of_eq rfl rfl rfl, ?_, fun _ hstop ↦ hstop, hclosed.advances.history,
      hclosed.advances.inv.listening, hclosed.advances.inv.history⟩, rfl, rfl, rfl,
      hclosed.allocated, Or.inl⟩
    simp [elapsed, closeStill, hrunning, hsince]
  · exact .refl hinv

theorem resume_evolves (hrunning : core.stoppedAtMs = none) :
    Evolves nowMs core (core.resume nowMs) := by
  rw [resume]
  split
  · rename_i since hsince
    refine ⟨⟨.of_eq rfl rfl rfl, ?_, fun _ hstop ↦ hstop, le_rfl, hinv.listening, hinv.history⟩,
      rfl, rfl, rfl, le_rfl, Or.inl⟩
    simp [elapsed, hrunning, hsince]
  · exact .refl hinv

theorem onProgramScene_evolves (data : Json) :
    Evolves nowMs core (core.onProgramScene nowMs data) := by
  have hwrites : Writes nowMs core (core.noteScene data) := core.noteScene_writes data
  have hnamed := hwrites.evolves hinv
  exact hnamed.trans (closeStill_evolves hnamed.advances.inv _)

theorem onRecordState_evolves (hrunning : core.stoppedAtMs = none) (data : Json) :
    Evolves nowMs core (core.onRecordState nowMs data) := by
  have hwrites : Writes nowMs core (core.notePath data) := core.notePath_writes data
  have hnamed := hwrites.evolves hinv
  have hstill : (core.notePath data).stoppedAtMs = none :=
    hwrites.clock.stoppedAtMs.trans hrunning
  have hstate : Evolves nowMs (core.notePath data)
      ((core.notePath data).onOutputState nowMs (field data "outputState")) := by
    rw [onOutputState]
    split_ifs
    · exact pause_evolves hnamed.advances.inv hstill
    · exact resume_evolves hnamed.advances.inv hstill
    · exact .refl hnamed.advances.inv
  exact (hnamed.trans hstate).trans
    ((warnStopped_writes _ nowMs data).evolves hstate.advances.inv)

theorem handleEvent_evolves (hrunning : core.stoppedAtMs = none) {event : String} {data : Json}
    {detail : String} (hevent : core.handleEvent nowMs event data = some (next, detail)) :
    Evolves nowMs core next := by
  rw [handleEvent] at hevent
  split_ifs at hevent
  all_goals obtain ⟨rfl, -⟩ := Prod.mk.inj (some.inj hevent)
  · exact (core.onTracksChanged_writes data).evolves hinv
  · exact onProgramScene_evolves hinv data
  · exact onRecordState_evolves hinv hrunning data
  all_goals exact .refl hinv

theorem onEvent_evolves (event : String) (data : Json) :
    Evolves nowMs core (core.onEvent nowMs event data) := by
  rw [onEvent]
  split_ifs with hdeaf hmeters
  · exact .refl hinv
  · exact (core.onMeters_writes nowMs data).evolves hinv
  · have hrunning := hinv.listening.mp (Bool.not_eq_false _ ▸ hdeaf)
    split
    · exact .refl hinv
    · rename_i handled detail hevent
      have hhandled := handleEvent_evolves hinv hrunning hevent
      exact hhandled.trans ((log_writes _ nowMs _ _).evolves hhandled.advances.inv)

theorem completeSetup_evolves (supportsPpm : Bool) :
    Evolves nowMs core (core.completeSetup nowMs supportsPpm).2 := by
  by_cases hphase : core.phase = .starting
  · have hlistening : core.listening = true := by rw [listening, hphase]; rfl
    have hrunning : Evolves nowMs core
        { core with phase := .running, pictureChecks := supportsPpm } :=
      ⟨⟨.of_eq rfl rfl rfl, rfl, fun _ hstop ↦ hstop, le_rfl,
        ⟨fun _ ↦ hinv.listening.mp hlistening, fun _ ↦ rfl⟩, hinv.history⟩, rfl, rfl, rfl, le_rfl,
        fun h ↦ (nomatch h)⟩
    rw [completeSetup, if_neg (not_not.mpr hphase)]
    cases supportsPpm with
    | true => exact hrunning
    | false => exact hrunning.trans ((log_writes _ nowMs _ _).evolves hrunning.advances.inv)
  · rw [completeSetup, if_pos hphase]
    exact .refl hinv

theorem beginStop_evolves : Evolves nowMs core (core.beginStop nowMs).2 := by
  rw [beginStop]
  split_ifs with hstopped
  · exact .refl hinv
  · have hnone : core.stoppedAtMs = none := by simpa using hstopped
    refine ⟨⟨.of_eq rfl rfl rfl, ?_, ?_, le_rfl, ⟨?_, hinv.history⟩⟩, rfl, rfl, rfl, le_rfl,
      fun h ↦ by cases h⟩
    · simp [elapsed, hnone]
    · intro stop hstop
      rw [hnone] at hstop
      cases hstop
    · exact ⟨fun hlistening ↦ absurd hlistening Bool.false_ne_true, fun h ↦ by cases h⟩

end

theorem closeBlank_logs (core : Core num) (nowMs : ℤ) (time : ℚ) :
    Logs nowMs core (core.closeBlank time) := by
  rw [closeBlank]
  split
  · exact logs_of_outline rfl
  · exact logs_of_outline rfl

theorem finishCleanup_evolves (hinv : Inv core) : Evolves nowMs core core.finishCleanup.2 := by
  rw [finishCleanup]
  split_ifs with hstopped hstopping hpending
  · exact .refl hinv
  · exact .refl hinv
  · exact .refl hinv
  · have hstill : Evolves nowMs core (core.closeStill (core.now (core.stoppedAtMs.getD 0))) :=
      closeStill_evolves hinv (core.now (core.stoppedAtMs.getD 0))
    have hblank := hstill.trans ((closeBlank_logs _ nowMs
      (core.now (core.stoppedAtMs.getD 0))).evolves hstill.advances.inv)
    have hdeaf : core.listening = false := by
      rw [listening, not_not.mp hstopping]
      rfl
    have hsome : core.stoppedAtMs ≠ none := fun hnone ↦
      absurd (hinv.listening.mpr hnone) (by rw [hdeaf]; decide)
    obtain ⟨stop, hstop⟩ := ne_none_iff_exists'.mp hsome
    have happends := hblank.advances.appends
    refine ⟨⟨⟨happends.events, happends.warnings, happends.chapters⟩, hblank.advances.elapsed,
      hblank.advances.stopped, hblank.advances.history, ⟨?_, hblank.advances.inv.history⟩⟩,
      hblank.sampleOwner, hblank.busy, hblank.flags, hblank.allocated,
      fun _ ↦ Or.inr (Bool.not_eq_true _ ▸ hpending)⟩
    constructor
    · exact fun hlistening ↦ absurd hlistening Bool.false_ne_true
    · intro hnone
      exact absurd hnone (by rw [hblank.advances.stopped stop hstop]; exact some_ne_none stop)

/-! ### Samples -/

theorem observeBlank_logs (core : Core num) (nowMs : ℤ) (time : ℚ) (luma : List UInt8) :
    Logs nowMs core (core.observeBlank nowMs time luma) := by
  rw [observeBlank]
  split_ifs
  · dsimp only
    split_ifs
    · refine Logs.trans ?_ (warn_writes _ nowMs _ _).logs
      exact logs_of_outline rfl
    · exact logs_of_outline rfl
  · refine Logs.trans ?_ (closeBlank_logs _ nowMs time)
    exact logs_of_outline rfl

theorem observePicture_logs (core : Core num) (nowMs : ℤ) (luma : List UInt8) :
    Logs nowMs core (core.observePicture nowMs luma) := by
  rw [observePicture]
  split_ifs
  · exact logs_of_outline rfl
  · have hcounted : Logs nowMs core
        { core with framesSampled := saturatingSucc core.framesSampled } := logs_of_outline rfl
    have hblank := hcounted.trans (observeBlank_logs _ nowMs (core.now nowMs) luma)
    exact hblank.trans (logs_of_outline rfl)

theorem beginSample_advances (hinv : Inv core) (kind : SampleKind) :
    Advances nowMs core (core.beginSample kind).2 := by
  rw [beginSample]
  split_ifs
  · exact (Evolves.refl hinv).advances
  · exact (Evolves.refl hinv).advances
  · exact ⟨.of_eq rfl rfl rfl, rfl, fun _ hstop ↦ hstop, le_rfl, hinv.listening,
      hinv.history.trans (Nat.lt_succ_self core.next)⟩

theorem dropTicket_advances (hinv : Inv core) (ticket : SampleTicket) :
    Advances nowMs core (core.dropTicket ticket) :=
  ⟨.of_eq rfl rfl rfl, rfl, fun _ hstop ↦ hstop, le_rfl, hinv.listening, hinv.history⟩

/-- Finishing a ticket drops it and then logs, or does nothing at all. -/
theorem finishSample_logs (core : Core num) (ticket : SampleTicket) (nowMs : ℤ)
    (observation : SampleObservation) :
    (core.sampleOwner ≠ ticket.owner ∧ (core.finishSample ticket nowMs observation).2 = core) ∨
      Logs nowMs (core.dropTicket ticket) (core.finishSample ticket nowMs observation).2 := by
  rw [finishSample]
  split_ifs with howner hrefused
  · exact Or.inl ⟨howner, rfl⟩
  · exact Or.inr (logs_of_outline rfl)
  · refine Or.inr ?_
    dsimp only
    split
    · exact (observeStats_writes _ nowMs _).logs
    · exact observePicture_logs _ nowMs _
    · exact logs_of_outline rfl
    · exact logs_of_outline rfl

/-- A ticket of an older picture history, or of the time before the stop, changes no picture. -/
theorem finishSample_retired {ticket : SampleTicket} (hkind : ticket.kind = .picture)
    (hretired : core.stoppedAtMs.isSome = true ∨ ticket.pictureHistory ≠ core.pictureHistory)
    (observation : SampleObservation) :
    SamePictures core (core.finishSample ticket nowMs observation).2 := by
  have hdropped : SamePictures core (core.dropTicket ticket) := ⟨rfl, rfl, rfl, rfl, rfl, rfl⟩
  rw [finishSample]
  split_ifs with howner hrefused
  · exact .refl core
  · exact hdropped
  · have hcurrent : core.pictureHistory = ticket.pictureHistory := by
      by_contra hold
      exact hrefused (Or.inr ⟨hkind, hold⟩)
    have hstopped : core.stoppedAtMs.isSome = true :=
      hretired.resolve_right (not_not.mpr hcurrent.symm)
    have hquiet : ∀ luma, (core.dropTicket ticket).observePicture nowMs luma =
        core.dropTicket ticket := by
      intro luma
      rw [observePicture, if_pos]
      rw [Bool.or_eq_true]
      exact Or.inl hstopped
    dsimp only
    rw [hkind]
    cases observation with
    | stats stats => exact hdropped
    | picture luma =>
      dsimp only
      rw [hquiet]
      exact hdropped
    | failed => exact hdropped

end Core

/-! ### Every call -/

/-- The calls that issue or end a ticket. -/
def Call.ticketing : Call → Bool
  | .beginSample _ | .finishSample _ _ _ | .drop _ => true
  | _ => false

theorem call_evolves (hinv : Inv core) {call : Call} (hcall : call.ticketing = false)
    (clock : ℤ) : Evolves (call.reading.getD clock) core (core.call call) := by
  cases call with
  | completeSetup nowMs supportsPpm => exact Core.completeSetup_evolves hinv supportsPpm
  | loadTracks recorded tracks => exact (core.loadTracks_writes recorded tracks).evolves hinv
  | tracksUnknown nowMs message => exact (core.tracksUnknown_writes nowMs message).evolves hinv
  | loadProgramScene response => exact (core.loadProgramScene_writes response).evolves hinv
  | onEvent nowMs event data => exact Core.onEvent_evolves hinv event data
  | onDisconnect nowMs => exact (core.onDisconnect_writes nowMs).evolves hinv
  | beginSample kind => cases hcall
  | finishSample ticket nowMs observation => cases hcall
  | drop ticket => cases hcall
  | observeStats nowMs stats => exact (core.observeStats_writes nowMs stats).evolves hinv
  | observePicture nowMs luma => exact (core.observePicture_logs nowMs luma).evolves hinv
  | mark nowMs name => exact (core.mark_writes nowMs name).evolves hinv
  | expectStop =>
    have hwrites : Writes clock core core.expectStop := Core.writes_of_view rfl
    exact hwrites.evolves hinv
  | beginStopExpectation =>
    have hwrites : Writes clock core core.beginStopExpectation.2 := Core.writes_of_view rfl
    exact hwrites.evolves hinv
  | rollbackStopExpectation previous =>
    have hwrites : Writes clock core (core.rollbackStopExpectation previous) :=
      Core.writes_of_view rfl
    exact hwrites.evolves hinv
  | beginStop nowMs => exact Core.beginStop_evolves hinv
  | finishCleanup => exact Core.finishCleanup_evolves hinv
  | summary nowMs => exact .refl hinv

theorem call_advances (hinv : Inv core) (call : Call) (clock : ℤ) :
    Advances (call.reading.getD clock) core (core.call call) := by
  by_cases hcall : call.ticketing = false
  · exact (call_evolves hinv hcall clock).advances
  · cases call with
    | beginSample kind => exact Core.beginSample_advances hinv kind
    | drop ticket => exact Core.dropTicket_advances hinv ticket
    | finishSample ticket nowMs observation =>
      rcases core.finishSample_logs ticket nowMs observation with ⟨-, hsame⟩ | hlogs
      · show Advances nowMs core (core.finishSample ticket nowMs observation).2
        rw [hsame]
        exact (Evolves.refl hinv).advances
      · have hdropped : Advances nowMs core (core.dropTicket ticket) :=
          Core.dropTicket_advances hinv ticket
        exact hdropped.trans (hlogs.evolves hdropped.inv).advances
    | _ => exact absurd rfl hcall

/-! ### Tickets -/

/-- The tickets held outside: each is of this monitor, its flag is set and is the one its slot
remembers, and no two are of one kind. None is held after the cleanup. -/
structure Held (core : Core num) (held : List SampleTicket) : Prop where
  own : ∀ ticket ∈ held, ticket.owner = core.sampleOwner ∧ core.flags ticket.active = true ∧
    core.busy ticket.kind = some ticket.active ∧ ticket.active < core.next
  distinct : held.Pairwise (fun a b ↦ a.kind ≠ b.kind ∧ a.active ≠ b.active)
  cleaned : core.phase = .stopped → held = []

variable {held : List SampleTicket} {ticket : SampleTicket}

section

variable (hheld : Held core held)
include hheld

/-- The slot of a held ticket is busy. -/
theorem Held.slotBusy (hticket : ticket ∈ held) : core.slotBusy ticket.kind = true := by
  obtain ⟨-, hflag, hslot, -⟩ := hheld.own ticket hticket
  rw [Core.slotBusy, hslot]
  exact hflag

/-- No ticket is held when no slot is busy. -/
theorem Held.eq_nil (hpending : core.samplesPending = false) : held = [] := by
  rw [Core.samplesPending, Bool.or_eq_false_iff] at hpending
  refine eq_nil_iff_forall_not_mem.mpr fun ticket hticket ↦ ?_
  have hbusy := hheld.slotBusy hticket
  cases hkind : ticket.kind with
  | stats => exact absurd (hkind ▸ hbusy) (by rw [hpending.1]; decide)
  | picture => exact absurd (hkind ▸ hbusy) (by rw [hpending.2]; decide)

/-- Other calls leave the tickets what they are. -/
theorem Held.evolves (hevolves : Evolves nowMs core next) : Held next held := by
  refine ⟨fun ticket hticket ↦ ?_, hheld.distinct, fun hstopped ↦ ?_⟩
  · obtain ⟨howner, hflag, hslot, hlt⟩ := hheld.own ticket hticket
    rw [hevolves.sampleOwner, hevolves.flags, hevolves.busy]
    exact ⟨howner, hflag, hslot, hlt.trans_le hevolves.allocated⟩
  · rcases hevolves.cleaned hstopped with hphase | hpending
    · exact hheld.cleaned hphase
    · exact hheld.eq_nil hpending

/-- A ticket is issued for a kind of which none is held. -/
theorem Held.beginSample (kind : SampleKind) :
    Held (core.beginSample kind).2 ((core.beginSample kind).1.toList ++ held) := by
  rw [Core.beginSample]
  split_ifs with hrefused hbusy
  · exact hheld
  · exact hheld
  · have hfree : ∀ ticket ∈ held, ticket.kind ≠ kind := by
      rintro ticket hticket rfl
      exact hbusy (hheld.slotBusy hticket)
    refine ⟨fun ticket hticket ↦ ?_, ?_, fun hstopped ↦ ?_⟩
    · rcases mem_cons.mp hticket with rfl | hticket
      · exact ⟨rfl, if_pos rfl, if_pos rfl, Nat.lt_succ_self _⟩
      · obtain ⟨howner, hflag, hslot, hlt⟩ := hheld.own ticket hticket
        refine ⟨howner, ?_, ?_, hlt.trans (Nat.lt_succ_self _)⟩
        · exact (if_neg hlt.ne).trans hflag
        · exact (if_neg (hfree ticket hticket)).trans hslot
    · refine pairwise_cons.mpr ⟨fun ticket hticket ↦ ?_, hheld.distinct⟩
      exact ⟨(hfree ticket hticket).symm, (hheld.own ticket hticket).2.2.2.ne'⟩
    · have hrunning : core.phase = .running := not_not.mp (not_or.mp hrefused).1
      exact absurd (hrunning.symm.trans hstopped) (by decide)

/-- A ticket that is dropped leaves the others what they are. -/
theorem Held.drop (hticket : ticket ∈ held) :
    Held (core.dropTicket ticket) (held.erase ticket) := by
  have hnodup : held.Nodup := hheld.distinct.imp fun hne heq ↦ hne.1 (congrArg _ heq)
  refine ⟨fun other hother ↦ ?_, hheld.distinct.sublist erase_sublist, fun hstopped ↦ ?_⟩
  · obtain ⟨hne, hmem⟩ := hnodup.mem_erase_iff.mp hother
    obtain ⟨howner, hflag, hslot, hlt⟩ := hheld.own other hmem
    have hactive : other.active ≠ ticket.active := by
      have : Std.Symm (fun a b : SampleTicket ↦ a.kind ≠ b.kind ∧ a.active ≠ b.active) :=
        ⟨fun _ _ h ↦ ⟨h.1.symm, h.2.symm⟩⟩
      exact (hheld.distinct.forall hmem hticket hne).2
    exact ⟨howner, (if_neg hactive).trans hflag, hslot, hlt⟩
  · rw [hheld.cleaned hstopped, erase_nil]

/-- A ticket that is finished leaves the others what they are. -/
theorem Held.finishSample (hinv : Inv core)
    (hticket : ticket ∈ held ∨ ticket.owner ≠ core.sampleOwner) (observation : SampleObservation) :
    Held (core.finishSample ticket nowMs observation).2 (held.erase ticket) := by
  by_cases hmem : ticket ∈ held
  · rcases core.finishSample_logs ticket nowMs observation with ⟨hforeign, -⟩ | hlogs
    · exact absurd (hheld.own ticket hmem).1.symm hforeign
    · have hdropped : Advances nowMs core (core.dropTicket ticket) :=
        Core.dropTicket_advances hinv ticket
      exact (hheld.drop hmem).evolves (hlogs.evolves hdropped.inv)
  · have hforeign := hticket.resolve_left hmem
    rw [erase_of_not_mem hmem, Core.finishSample, if_pos hforeign.symm]
    exact hheld

end

end ObsMcp.Monitor
