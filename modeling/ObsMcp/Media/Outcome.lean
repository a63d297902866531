import ObsMcp.Media.Driver

/-!
# What the result of a media process says

`drive_outcome` states what a returned result says about the run that led to it. A success means
that the child exited successfully, that the captured pipes were read to their end, that nothing
failed, and that the sink was fed everything that was read, in order. An error is the first failure
of the run, or the exit of the child when nothing failed; it carries a cleanup issue whenever the
exit was not observed or a pipe was closed before its end. No signal is sent to a child that was
reaped, and no unwrapped option is empty.

`Sound` is the invariant behind it: it reads the variables of the loop against the trace.
-/

namespace ObsMcp.Media

open Foundations List Option

variable {σ out : Type} {sink : StdoutSink σ out} {diagnostics : Diagnostics} {deadline : ℕ}
  {captured : Bool} {start : σ}

/-! ### Reading a trace -/

/-- The events that a successful run does not have. -/
def Event.fails : Event → Bool
  | .cancelled | .deadlinePassed | .drainTimedOut | .waitFailed | .readFailed _ | .sinkFailed _
  | .closed _ | .failed _ => true
  | _ => false

/-- The sink after it was fed everything that was read, from the oldest chunk on. -/
def replay (sink : StdoutSink σ out) (start : σ) : List Event → Except String σ
  | [] => .ok start
  | .data .stdout bytes :: earlier => do sink.consume (← replay sink start earlier) bytes
  | .data .stderr bytes :: earlier => do sink.consumeStderr (← replay sink start earlier) bytes
  | _ :: earlier => replay sink start earlier

/-- The oldest failure of a trace has the kind and the message of an error. -/
def FirstFailure (trace : List Event) (error : MediaError) : Prop :=
  ∃ later first earlier, trace = later ++ Event.failed first :: earlier ∧
    (∀ other, Event.failed other ∉ earlier) ∧ first.kind = error.kind ∧
      first.message = error.message

/-- No signal was sent after an exit was observed. -/
def Quiet (trace : List Event) : Prop :=
  ∀ later status earlier, trace = later ++ Event.exited status :: earlier →
    ∀ signal, Event.signalled signal ∉ later

section Traces

variable {trace : List Event} {error : MediaError}

theorem FirstFailure.append (hfirst : FirstFailure trace error) (newer : List Event) :
    FirstFailure (newer ++ trace) error := by
  obtain ⟨later, first, earlier, rfl, hearlier, hkind, hmessage⟩ := hfirst
  exact ⟨newer ++ later, first, earlier, by simp, hearlier, hkind, hmessage⟩

theorem FirstFailure.withCleanup (hfirst : FirstFailure trace error) (issue : String) :
    FirstFailure trace (error.withCleanup issue) :=
  hfirst

theorem firstFailure_of_clean (hclean : ∀ other, Event.failed other ∉ trace)
    (newer : List Event) : FirstFailure (newer ++ Event.failed error :: trace) error :=
  ⟨newer, error, trace, rfl, hclean, rfl, rfl⟩

theorem Quiet.cons_of_ne (hquiet : Quiet trace) {event : Event}
    (hevent : ∀ signal, event ≠ .signalled signal) : Quiet (event :: trace) := by
  intro later status earlier htrace signal hmem
  cases later with
  | nil => cases hmem
  | cons first later =>
    cases htrace
    rcases mem_cons.mp hmem with rfl | hmem
    · exact hevent signal rfl
    · exact hquiet later status earlier rfl signal hmem

theorem Quiet.append (hquiet : Quiet trace) {newer : List Event}
    (hnewer : ∀ signal, Event.signalled signal ∉ newer) : Quiet (newer ++ trace) := by
  induction newer with
  | nil => exact hquiet
  | cons event newer ih =>
    have hrest : Quiet (newer ++ trace) :=
      ih fun signal hmem ↦ hnewer signal (mem_cons_of_mem event hmem)
    refine hrest.cons_of_ne fun signal hevent ↦ hnewer signal ?_
    rw [hevent]
    exact mem_cons_self

/-- Before the exit any signals may be sent. -/
theorem quiet_of_alive (halive : ∀ status, Event.exited status ∉ trace) : Quiet trace := by
  rintro later status earlier rfl
  exact absurd (by simp) (halive status)

end Traces

/-! ### The invariant -/

section Invariant

variable (sink diagnostics captured start)

/-- What the variables of the loop say about the trace. -/
structure Driver.Sound (driver : Driver σ) (trace : List Event) : Prop where
  quiet : Quiet trace
  alive : driver.status = none → ∀ status, Event.exited status ∉ trace
  exited : ∀ status, driver.status = some status → Event.exited status ∈ trace
  clean : driver.failure = none → (∀ event ∈ trace, event.fails = false) ∧
    replay sink start trace = .ok driver.sink ∧
      (driver.stderr = false → Event.ended .stderr ∈ trace) ∧
        (captured = true → driver.stdout = false → Event.ended .stdout ∈ trace)
  first : ∀ error, driver.failure = some error → FirstFailure trace error
  closed : ∀ pipe, Event.closed pipe ∈ trace →
    ∃ error, driver.failure = some error ∧ error.cleanupIssue ≠ none
  killing : driver.killAt ≠ none → driver.failure ≠ none
  exiting : driver.exitUntil ≠ none → driver.failure ≠ none

/-- What a success says about the trace. -/
structure Succeeded (output : out) (trace : List Event) : Prop where
  exited : ∃ status, Event.exited status ∈ trace ∧ status.success = true
  stderr : Event.ended .stderr ∈ trace
  stdout : captured = true → Event.ended .stdout ∈ trace
  clean : ∀ event ∈ trace, event.fails = false
  consumed : ∃ last, replay sink start trace = .ok last ∧ sink.finish last = .ok output

/-- What a result says about the trace. -/
structure Concluded (result : Except MediaError out) (trace : List Event) : Prop where
  quiet : Quiet trace
  success : ∀ output, result = .ok output → Succeeded sink captured start output trace
  primary : ∀ error, result = .error error → FirstFailure trace error ∨
    (∀ other, Event.failed other ∉ trace) ∧ ∃ status tail, Event.exited status ∈ trace ∧
      status.success = false ∧ error = diagnostics.decodeFailure status tail
  cleanup : (∀ status, Event.exited status ∉ trace) ∨ (∃ pipe, Event.closed pipe ∈ trace) →
    ∃ error, result = .error error ∧ error.cleanupIssue ≠ none

/-- The invariant of the loop. -/
def State.Sound (s : State σ out) : Prop :=
  match s.phase with
  | .running driver => driver.Sound sink captured start s.trace
  | .returned result => Concluded sink diagnostics captured start result s.trace
  | .panicked => False

end Invariant

section Steps

variable {driver : Driver σ} {trace : List Event} {s t : State σ out}

theorem Driver.Sound.no_failure (hsound : driver.Sound sink captured start trace)
    (hnone : driver.failure = none) (other : MediaError) : Event.failed other ∉ trace := by
  intro hmem
  have hfails := (hsound.clean hnone).1 _ hmem
  cases hfails

variable {error : MediaError} {now : ℕ}

/-- The invariant of a loop that has a failure. -/
theorem Driver.sound_of_failure (hfailure : driver.failure = some error) (hquiet : Quiet trace)
    (halive : driver.status = none → ∀ status, Event.exited status ∉ trace)
    (hexited : ∀ status, driver.status = some status → Event.exited status ∈ trace)
    (hfirst : FirstFailure trace error)
    (hclosed : ∀ pipe, Event.closed pipe ∈ trace → error.cleanupIssue ≠ none) :
    driver.Sound sink captured start trace where
  quiet := hquiet
  alive := halive
  exited := hexited
  clean hnone := by cases hfailure.symm.trans hnone
  first found hfound := by
    cases hfailure.symm.trans hfound
    exact hfirst
  closed pipe hmem := ⟨error, hfailure, hclosed pipe hmem⟩
  killing _ hnone := by cases hfailure.symm.trans hnone
  exiting _ hnone := by cases hfailure.symm.trans hnone

/-- A pipe closed before its end has left a cleanup issue in the failure. -/
theorem Driver.Sound.issue_of_closed (hsound : driver.Sound sink captured start trace)
    (hfailure : driver.failure = some error) {pipe : Pipe} (hmem : Event.closed pipe ∈ trace) :
    error.cleanupIssue ≠ none := by
  obtain ⟨found, hfound, hissue⟩ := hsound.closed pipe hmem
  cases hfailure.symm.trans hfound
  exact hissue

/-- The error that the loop has, or takes when it has none, with the event that is its cause. -/
theorem Driver.Sound.first_getD (hsound : driver.Sound sink captured start trace)
    (error : MediaError) (newer : List Event) {cause : Event}
    (hcause : ∀ other, cause ≠ .failed other) :
    FirstFailure (newer ++ Event.failed error :: cause :: trace) (driver.failure.getD error) := by
  cases hfailure : driver.failure with
  | none =>
    refine firstFailure_of_clean (fun other hmem ↦ ?_) newer
    rcases mem_cons.mp hmem with hmem | hmem
    · exact hcause other hmem.symm
    · exact hsound.no_failure hfailure other hmem
  | some found =>
    have hfirst := (hsound.first found hfailure).append (newer ++ [Event.failed error, cause])
    simpa using hfirst

/-- An error of an unobserved exit: it has a cleanup issue. -/
theorem concluded_of_alive (hfirst : FirstFailure trace error)
    (halive : ∀ status, Event.exited status ∉ trace) (issue : String) :
    Concluded sink diagnostics captured start (.error (error.withCleanup issue)) trace := by
  refine ⟨quiet_of_alive halive, (fun _ hok ↦ by cases hok), ?_, fun _ ↦ ?_⟩
  · intro found hfound
    cases hfound
    exact .inl (hfirst.withCleanup issue)
  · exact ⟨_, rfl, by simp [MediaError.withCleanup]⟩

section

variable (hsound : driver.Sound sink captured start trace)
include hsound

/-- Asking the child to end keeps the invariant. Assumes: a failure is recorded. -/
theorem halt_sound (hfailure : driver.failure = some error) (now : ℕ) (helper : Helper) :
    State.Sound sink diagnostics captured start
      (driver.halt now helper trace : State σ out) := by
  unfold Driver.halt
  split_ifs with hstatus
  · exact hsound
  · have hnone : driver.status = none := by simpa using hstatus
    have hsignals : ∀ event ∈ helper.signals.map Event.signalled,
        ∃ signal, event = .signalled signal := by
      intro event hmem
      obtain ⟨signal, -, rfl⟩ := mem_map.mp hmem
      exact ⟨signal, rfl⟩
    have halive : ∀ status, Event.exited status ∉ helper.signals.map Event.signalled ++ trace := by
      intro status hmem
      rcases mem_append.mp hmem with hmem | hmem
      · obtain ⟨_, hevent⟩ := hsignals _ hmem
        cases hevent
      · exact hsound.alive hnone status hmem
    have hfirst := (hsound.first error hfailure).append (helper.signals.map Event.signalled)
    simp only [hfailure]
    split
    · refine Driver.sound_of_failure rfl (quiet_of_alive halive) (fun _ ↦ halive) ?_ hfirst ?_
      · intro status hsome
        cases hnone.symm.trans hsome
      · intro pipe hmem
        rcases mem_append.mp hmem with hmem | hmem
        · obtain ⟨_, hevent⟩ := hsignals _ hmem
          cases hevent
        · exact hsound.issue_of_closed hfailure hmem
    · rename_i issue found _ hfound
      cases hfound
      exact concluded_of_alive hfirst halive issue
    · rename_i hfound
      cases hfound

/-- The invariant of a loop that has a failure after some more events, none of them an exit or a
signal. -/
theorem Driver.Sound.advance {next : Driver σ} (newer : List Event) {later : List Event}
    (hlater : newer ++ trace = later) (hstatus : next.status = driver.status)
    (hfailure : next.failure = some error) (hexits : ∀ status, Event.exited status ∉ newer)
    (hsignals : ∀ signal, Event.signalled signal ∉ newer) (hfirst : FirstFailure later error)
    (hclosed : ∀ pipe, Event.closed pipe ∈ later → error.cleanupIssue ≠ none) :
    next.Sound sink captured start later := by
  subst hlater
  refine Driver.sound_of_failure hfailure (hsound.quiet.append hsignals) ?_ ?_ hfirst hclosed
  · intro hnone status hmem
    rcases mem_append.mp hmem with hmem | hmem
    · exact hexits status hmem
    · exact hsound.alive (hstatus.symm.trans hnone) status hmem
  · intro status hsome
    exact mem_append_right newer (hsound.exited status (hstatus.symm.trans hsome))

/-- The result of a driver that is done. -/
theorem conclude_sound (hdone : driver.done = true)
    (hconclude : driver.conclude sink diagnostics trace = some t) :
    t.Sound sink diagnostics captured start := by
  simp only [Driver.done, Bool.and_eq_true, Bool.not_eq_true'] at hdone
  obtain ⟨⟨-, hstderr⟩, hstdout⟩ := hdone
  unfold Driver.conclude at hconclude
  cases hstatus : driver.status with
  | none => simp [hstatus] at hconclude
  | some status =>
    have hexited := hsound.exited status hstatus
    have hunobserved : ¬ ∀ status, Event.exited status ∉ trace :=
      fun hnone ↦ hnone status hexited
    cases hfailure : driver.failure with
    | some error =>
      simp only [hstatus, hfailure, Option.some.injEq] at hconclude
      subst hconclude
      refine ⟨hsound.quiet, (fun _ hok ↦ by cases hok), ?_, ?_⟩
      · intro found hfound
        cases hfound
        exact .inl (hsound.first error hfailure)
      · rintro (hnone | ⟨pipe, hmem⟩)
        · exact absurd hnone hunobserved
        · exact ⟨error, rfl, hsound.issue_of_closed hfailure hmem⟩
    | none =>
      obtain ⟨hclean, hreplay, hended, hcaptured⟩ := hsound.clean hfailure
      have hopen : ¬ ∃ pipe, Event.closed pipe ∈ trace := by
        rintro ⟨pipe, hmem⟩
        obtain ⟨_, hsome, -⟩ := hsound.closed pipe hmem
        cases hfailure.symm.trans hsome
      simp only [hstatus, hfailure] at hconclude
      split_ifs at hconclude with hsuccess
      · split at hconclude
        · rename_i output hfinish
          cases hconclude
          refine ⟨hsound.quiet, ?_, (fun _ herror ↦ by cases herror), ?_⟩
          · intro found hfound
            cases hfound
            exact ⟨⟨status, hexited, hsuccess⟩, hended hstderr,
              fun hcapture ↦ hcaptured hcapture hstdout, hclean, _, hreplay, hfinish⟩
          · rintro (hnone | hmem)
            · exact absurd hnone hunobserved
            · exact absurd hmem hopen
        · rename_i message _
          cases hconclude
          refine ⟨hsound.quiet.cons_of_ne (by simp), (fun _ hok ↦ by cases hok), ?_, ?_⟩
          · intro found hfound
            cases hfound
            exact .inl (firstFailure_of_clean (hsound.no_failure hfailure) [])
          · rintro (hnone | ⟨pipe, hmem⟩)
            · exact absurd (mem_cons_of_mem _ hexited) (hnone status)
            · exact absurd ⟨pipe, by simpa using hmem⟩ hopen
      · cases hconclude
        refine ⟨hsound.quiet, (fun _ hok ↦ by cases hok), ?_, ?_⟩
        · intro found hfound
          cases hfound
          exact .inr ⟨hsound.no_failure hfailure, status, driver.tail, hexited,
            by simpa using hsuccess, rfl⟩
        · rintro (hnone | hmem)
          · exact absurd hnone hunobserved
          · exact absurd hmem hopen

/-- A first failure that stops the child. -/
theorem stop_sound {event : Event} (hevent : event = .cancelled ∨ event = .deadlinePassed)
    {helper : Helper} (hstop : driver.stop error event now helper trace = some t) :
    t.Sound sink diagnostics captured start := by
  unfold Driver.stop at hstop
  split_ifs at hstop with hnone
  have hfailure : driver.failure = none := by simpa using hnone
  cases hstop
  have hclean : ∀ other, Event.failed other ∉ event :: trace := by
    intro other hmem
    rcases mem_cons.mp hmem with hmem | hmem
    · rcases hevent with rfl | rfl <;> cases hmem
    · exact hsound.no_failure hfailure other hmem
  refine halt_sound ?_ rfl now helper
  refine hsound.advance [.failed error, event] rfl rfl rfl ?_ ?_ ?_ ?_
  · rcases hevent with rfl | rfl <;> simp
  · rcases hevent with rfl | rfl <;> simp
  · exact firstFailure_of_clean hclean []
  · intro pipe hmem
    have hold : Event.closed pipe ∈ trace := by
      rcases hevent with rfl | rfl <;> simpa using hmem
    obtain ⟨_, hsome, -⟩ := hsound.closed pipe hold
    cases hfailure.symm.trans hsome

/-- The kill timer. The failure that set it is there to take the cleanup issue. -/
theorem killTimer_sound {confirmed : Bool} (hkill : driver.killTimer now confirmed trace = some t) :
    t.Sound sink diagnostics captured start := by
  unfold Driver.killTimer at hkill
  split_ifs at hkill with henabled hconfirmed
  all_goals
    obtain ⟨htimer, hnone⟩ := Bool.and_eq_true_iff.mp henabled
    have hstatus : driver.status = none := by simpa using hnone
    have hset : driver.killAt ≠ none := by
      intro hkillAt
      simp [hkillAt] at htimer
    obtain ⟨error, hfailure⟩ := ne_none_iff_exists'.mp (hsound.killing hset)
    have halive : ∀ status, Event.exited status ∉ Event.signalled .kill :: trace := by
      intro status hmem
      exact hsound.alive hstatus status (by simpa using hmem)
    have hfirst : FirstFailure (Event.signalled .kill :: trace) error :=
      (hsound.first error hfailure).append [Event.signalled .kill]
    have hexited : ∀ status, driver.status = some status →
        Event.exited status ∈ Event.signalled .kill :: trace := by
      intro status hsome
      cases hstatus.symm.trans hsome
  · cases hkill
    refine Driver.sound_of_failure hfailure (quiet_of_alive halive) (fun _ ↦ halive) hexited
      hfirst ?_
    intro pipe hmem
    exact hsound.issue_of_closed hfailure (by simpa using hmem)
  · simp only [hfailure, Option.some.injEq] at hkill
    subst hkill
    refine Driver.sound_of_failure rfl (quiet_of_alive halive) (fun _ ↦ halive) hexited
      (hfirst.withCleanup _) ?_
    intro pipe _
    simp [MediaError.withCleanup]

/-- The exit timer. -/
theorem exitTimer_sound (hexit : driver.exitTimer now trace = some t) :
    t.Sound sink diagnostics captured start := by
  unfold Driver.exitTimer at hexit
  split_ifs at hexit with henabled
  obtain ⟨htimer, hnone⟩ := Bool.and_eq_true_iff.mp henabled
  have hstatus : driver.status = none := by simpa using hnone
  have hset : driver.exitUntil ≠ none := by
    intro hexitUntil
    simp [hexitUntil] at htimer
  obtain ⟨error, hfailure⟩ := ne_none_iff_exists'.mp (hsound.exiting hset)
  simp only [hfailure, Option.some.injEq] at hexit
  subst hexit
  exact concluded_of_alive (hsound.first error hfailure) (hsound.alive hstatus) _

/-- The drain timer. -/
theorem drainTimer_sound (hdrain : driver.drainTimer diagnostics now trace = some t) :
    t.Sound sink diagnostics captured start := by
  unfold Driver.drainTimer at hdrain
  simp only [ite_none_right_eq_some] at hdrain
  obtain ⟨-, hdrain⟩ := hdrain
  cases hdrain
  set closed := ([Pipe.stderr, .stdout].filter driver.isOpen).map Event.closed with hclosed
  have hpipes : ∀ event ∈ closed, ∃ pipe, event = .closed pipe := by
    intro event hmem
    obtain ⟨pipe, -, rfl⟩ := mem_map.mp hmem
    exact ⟨pipe, rfl⟩
  have hfirst : FirstFailure (closed ++ .failed (driver.drainFailure diagnostics) ::
      .drainTimedOut :: trace) (driver.failure.getD (driver.drainFailure diagnostics)) :=
    hsound.first_getD _ closed (by simp)
  refine hsound.advance (closed ++ [.failed (driver.drainFailure diagnostics), .drainTimedOut])
    (by simp) rfl rfl ?_ ?_ (hfirst.withCleanup _) (fun _ _ ↦ by simp [MediaError.withCleanup])
  · intro status hmem
    rcases mem_append.mp hmem with hmem | hmem
    · obtain ⟨_, hevent⟩ := hpipes _ hmem
      cases hevent
    · simp at hmem
  · intro signal hmem
    rcases mem_append.mp hmem with hmem | hmem
    · obtain ⟨_, hevent⟩ := hpipes _ hmem
      cases hevent
    · simp at hmem

/-- The exit of the child. -/
theorem exit_sound {status : ExitStatus} (hexit : driver.exit now status trace = some t) :
    t.Sound sink diagnostics captured start := by
  unfold Driver.exit at hexit
  split_ifs at hexit
  cases hexit
  refine ⟨hsound.quiet.cons_of_ne (by simp), (fun hnone ↦ by cases hnone), ?_, ?_, ?_, ?_,
    (fun hkill ↦ absurd rfl hkill), (fun hexits ↦ absurd rfl hexits)⟩
  · intro found hfound
    cases hfound
    exact mem_cons_self
  · intro hnone
    obtain ⟨hclean, hreplay, hended, hcaptured⟩ := hsound.clean hnone
    refine ⟨?_, hreplay, ?_, ?_⟩
    · intro event hmem
      rcases mem_cons.mp hmem with rfl | hmem
      · rfl
      · exact hclean event hmem
    · intro hstderr
      exact mem_cons_of_mem _ (hended hstderr)
    · intro hcapture hstdout
      exact mem_cons_of_mem _ (hcaptured hcapture hstdout)
  · intro error hfailure
    exact (hsound.first error hfailure).append [Event.exited status]
  · intro pipe hmem
    exact hsound.closed pipe (by simpa using hmem)

/-- A failed wait. -/
theorem waitError_sound (hwait : driver.waitError trace = some t) :
    t.Sound sink diagnostics captured start := by
  unfold Driver.waitError at hwait
  split_ifs at hwait with hnone
  have hstatus : driver.status = none := by simpa using hnone
  cases hwait
  have hfirst : FirstFailure (.failed cleanupUnconfirmed :: .waitFailed :: trace)
      (driver.failure.getD cleanupUnconfirmed) :=
    hsound.first_getD cleanupUnconfirmed [] (by simp)
  refine concluded_of_alive hfirst (fun status hmem ↦ ?_) _
  exact hsound.alive hstatus status (by simpa using hmem)

/-- The tail has no part in the invariant. -/
theorem Driver.Sound.retail (tail : List UInt16) :
    { driver with tail := tail }.Sound sink captured start trace :=
  ⟨hsound.quiet, hsound.alive, hsound.exited, hsound.clean, hsound.first, hsound.closed,
    hsound.killing, hsound.exiting⟩

theorem Driver.Sound.note (pipe : Pipe) (bytes : List UInt8) :
    (driver.note diagnostics pipe bytes).Sound sink captured start trace := by
  cases pipe with
  | stdout => exact hsound
  | stderr => exact hsound.retail _

end

/-- A replay of one more chunk. -/
theorem replay_data (hreplay : replay sink start trace = .ok driver.sink) (pipe : Pipe)
    (bytes : List UInt8) :
    replay sink start (.data pipe bytes :: trace) = driver.feed sink pipe bytes := by
  cases pipe with
  | stdout =>
    simp only [replay, hreplay]
    rfl
  | stderr =>
    simp only [replay, hreplay]
    rfl

section

variable (hsound : driver.Sound sink captured start trace)
include hsound

/-- A chunk for the sink. -/
theorem consume_sound (pipe : Pipe) (bytes : List UInt8) (now : ℕ) (helper : Helper) :
    State.Sound sink diagnostics captured start
      (driver.consume sink pipe bytes now helper trace : State σ out) := by
  unfold Driver.consume
  simp only
  split_ifs with hfailed
  · obtain ⟨error, hfailure⟩ := isSome_iff_exists.mp hfailed
    refine hsound.advance [.data pipe bytes] rfl rfl hfailure (by simp) (by simp)
      ((hsound.first error hfailure).append [.data pipe bytes]) ?_
    intro closed hmem
    exact hsound.issue_of_closed hfailure (by simpa using hmem)
  · have hfailure : driver.failure = none := by simpa using hfailed
    obtain ⟨hclean, hreplay, hended, hcaptured⟩ := hsound.clean hfailure
    have hopen : ∀ closed, Event.closed closed ∉ trace := by
      intro closed hmem
      cases hclean _ hmem
    split
    · rename_i next hfeed
      refine ⟨hsound.quiet.cons_of_ne (by simp), ?_, ?_, fun _ ↦ ⟨?_, ?_, ?_, ?_⟩, ?_, ?_,
        hsound.killing, hsound.exiting⟩
      · intro hnone status hmem
        exact hsound.alive hnone status (by simpa using hmem)
      · intro status hsome
        exact mem_cons_of_mem _ (hsound.exited status hsome)
      · intro event hmem
        rcases mem_cons.mp hmem with rfl | hmem
        · rfl
        · exact hclean event hmem
      · exact (replay_data hreplay pipe bytes).trans hfeed
      · intro hstderr
        exact mem_cons_of_mem _ (hended hstderr)
      · intro hcapture hstdout
        exact mem_cons_of_mem _ (hcaptured hcapture hstdout)
      · intro error hsome
        cases hfailure.symm.trans hsome
      · intro closed hmem
        exact absurd (by simpa using hmem) (hopen closed)
    · rename_i message hfeed
      refine halt_sound ?_ rfl now helper
      refine hsound.advance [.failed (.new .output message), .sinkFailed message, .data pipe bytes]
        rfl rfl rfl (by simp) (by simp) ?_ ?_
      · refine firstFailure_of_clean (fun other hmem ↦ ?_) []
        exact hsound.no_failure hfailure other (by simpa using hmem)
      · intro closed hmem
        exact absurd (by simpa using hmem) (hopen closed)

/-- The end of a pipe. -/
theorem ended_sound (pipe : Pipe) :
    (driver.close pipe).Sound sink captured start (.ended pipe :: trace) := by
  have hstatus : (driver.close pipe).status = driver.status := by
    cases pipe <;> rfl
  have hkept : (driver.close pipe).failure = driver.failure := by
    cases pipe <;> rfl
  cases hfailure : driver.failure with
  | some error =>
    refine hsound.advance [.ended pipe] rfl hstatus (hkept.trans hfailure) (by simp) (by simp)
      ((hsound.first error hfailure).append [.ended pipe]) ?_
    intro closed hmem
    exact hsound.issue_of_closed hfailure (by simpa using hmem)
  | none =>
    obtain ⟨hclean, hreplay, hended, hcaptured⟩ := hsound.clean hfailure
    have hnone := hkept.trans hfailure
    refine ⟨hsound.quiet.cons_of_ne (by simp), ?_, ?_, fun _ ↦ ⟨?_, ?_, ?_, ?_⟩, ?_, ?_, ?_, ?_⟩
    · intro halive status hmem
      exact hsound.alive (hstatus.symm.trans halive) status (by simpa using hmem)
    · intro status hsome
      exact mem_cons_of_mem _ (hsound.exited status (hstatus.symm.trans hsome))
    · intro event hmem
      rcases mem_cons.mp hmem with rfl | hmem
      · rfl
      · exact hclean event hmem
    · cases pipe <;> exact hreplay
    · intro hstderr
      cases pipe with
      | stdout => exact mem_cons_of_mem _ (hended hstderr)
      | stderr => exact mem_cons_self
    · intro hcapture hstdout
      cases pipe with
      | stdout => exact mem_cons_self
      | stderr => exact mem_cons_of_mem _ (hcaptured hcapture hstdout)
    · intro error hsome
      cases hnone.symm.trans hsome
    · intro closed hmem
      cases hclean (.closed closed) (by simpa using hmem)
    · intro hkill
      rw [hkept]
      exact hsound.killing (by cases pipe <;> exact hkill)
    · intro hexit
      rw [hkept]
      exact hsound.exiting (by cases pipe <;> exact hexit)

/-- A failed read. -/
theorem readError_sound (pipe : Pipe) (now : ℕ) (helper : Helper) :
    State.Sound sink diagnostics captured start
      (driver.readError pipe now helper trace : State σ out) := by
  let next (text : String) : Driver σ := { driver.close pipe with
    failure := some ((driver.failure.getD cleanupUnconfirmed).withCleanup text) }
  have hstatus : ∀ text, (next text).status = driver.status := by
    cases pipe <;> exact fun _ ↦ rfl
  have hfirst : FirstFailure ([.closed pipe] ++ .failed cleanupUnconfirmed :: .readFailed pipe ::
      trace) (driver.failure.getD cleanupUnconfirmed) :=
    hsound.first_getD cleanupUnconfirmed _ (by simp)
  have hfailed : ∀ text, (next text).Sound sink captured start
      (.closed pipe :: .failed cleanupUnconfirmed :: .readFailed pipe :: trace) := fun text ↦
    hsound.advance [.closed pipe, .failed cleanupUnconfirmed, .readFailed pipe] rfl (hstatus text)
      rfl (by simp) (by simp) (hfirst.withCleanup _) (fun _ _ ↦ by simp [MediaError.withCleanup])
  unfold Driver.readError
  simp only
  split_ifs
  · exact hfailed _
  · exact halt_sound (hfailed _) rfl now helper

/-- A read. -/
theorem read_sound {pipe : Pipe} {result : Except Unit (List UInt8)} {helper : Helper}
    (hread : driver.read sink diagnostics pipe result now helper trace = some t) :
    t.Sound sink diagnostics captured start := by
  unfold Driver.read at hread
  split_ifs at hread
  split at hread
  · cases hread
    exact ended_sound hsound pipe
  · cases hread
    exact consume_sound (hsound.note pipe _) pipe _ now helper
  · cases hread
    exact readError_sound hsound pipe now helper

/-- A turn of the loop. -/
theorem turn_sound {label : Label}
    (hturn : driver.turn sink diagnostics deadline trace label = some t) :
    t.Sound sink diagnostics captured start := by
  unfold Driver.turn at hturn
  cases label with
  | conclude =>
    simp only [ite_none_right_eq_some] at hturn
    exact conclude_sound hsound hturn.1 hturn.2
  | cancel now helper =>
    simp only [ite_none_left_eq_some] at hturn
    exact stop_sound hsound (.inl rfl) hturn.2
  | deadline now helper =>
    simp only [ite_none_left_eq_some] at hturn
    exact stop_sound hsound (.inr rfl) hturn.2
  | killTimer now confirmed =>
    simp only [ite_none_left_eq_some] at hturn
    exact killTimer_sound hsound hturn.2
  | exitTimer now =>
    simp only [ite_none_left_eq_some] at hturn
    exact exitTimer_sound hsound hturn.2
  | drainTimer now =>
    simp only [ite_none_left_eq_some] at hturn
    exact drainTimer_sound hsound hturn.2
  | exit now status =>
    simp only [ite_none_left_eq_some] at hturn
    exact exit_sound hsound hturn.2
  | waitError =>
    simp only [ite_none_left_eq_some] at hturn
    exact waitError_sound hsound hturn.2
  | read pipe result now helper =>
    simp only [ite_none_left_eq_some] at hturn
    exact read_sound hsound hturn.2

end

end Steps

/-! ### Whole runs -/

theorem new_sound : (Driver.new captured start).Sound sink captured start [] where
  quiet := quiet_of_alive (by simp)
  alive _ := by simp
  exited _ hsome := by cases hsome
  clean _ := ⟨by simp, rfl, (fun hstderr ↦ by cases hstderr), fun hcapture hstdout ↦ by
    cases hcapture.symm.trans hstdout⟩
  first _ hsome := by cases hsome
  closed _ hmem := by cases hmem
  killing hkill := absurd rfl hkill
  exiting hexit := absurd rfl hexit

theorem reachable_sound {s : State σ out}
    (hs : (drive sink diagnostics deadline captured start).Reachable s) :
    s.Sound sink diagnostics captured start := by
  refine Machine.invariant_of_step (State.Sound sink diagnostics captured start) ?_ ?_ hs
  · rintro s rfl
    exact new_sound
  · intro s label t _ hsound hstep
    change s.act sink diagnostics deadline label = some t at hstep
    unfold State.act at hstep
    unfold State.Sound at hsound
    split at hstep
    · rename_i driver hphase
      rw [hphase] at hsound
      exact turn_sound hsound hstep
    · cases hstep

end ObsMcp.Media
