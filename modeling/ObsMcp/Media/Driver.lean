import ObsMcp.Foundations.Machine

/-!
# The driver of a media process

`drive` of `media_verification.rs` owns a child process and the pipes it captures, reads the pipes
into a sink, and answers when the child is reaped and the pipes are closed. Its loop waits for seven
things at once: a cancellation, the deadline, the kill timer, the exit timer, the drain timer, the
exit of the child, and a read. `drive` here is the machine of that loop; a label says which of them
comes next and what it brings, and every enabled one may come.

A failure is recorded once. What goes wrong afterwards adds a cleanup issue to it. Where the source
unwraps an option, the machine goes to `panicked` when there is none.

The `trace` of a state lists what happened so far, the newest first.
-/

namespace ObsMcp.Media

open Foundations

/-! ### Errors, pipes, the sink -/

inductive ErrorKind
  | cancelled | timedOut | spawn | decode | output | cleanup | invalidOptions | actor
  deriving DecidableEq

structure MediaError where
  kind : ErrorKind
  message : String
  cleanupIssue : Option String
  deriving DecidableEq

namespace MediaError

def new (kind : ErrorKind) (message : String) : MediaError :=
  ⟨kind, message, none⟩

def withCleanup (error : MediaError) (issue : String) : MediaError :=
  { error with cleanupIssue := some issue }

end MediaError

inductive Pipe
  | stdout | stderr
  deriving DecidableEq

inductive Signal
  | term | kill
  deriving DecidableEq

structure ExitStatus where
  code : Option Int32
  signal : Option Int32
  deriving DecidableEq

def ExitStatus.success (status : ExitStatus) : Bool :=
  status.code == some 0

/-- The parser of the output: what it makes of a chunk of either pipe, and its result. -/
structure StdoutSink (σ out : Type) where
  consume : σ → List UInt8 → Except String σ
  consumeStderr : σ → List UInt8 → Except String σ
  finish : σ → Except String out

/-- The texts of the diagnostics: the code units a chunk is shown with, the text of the retained
units, and the name of the signal that ended a child. -/
structure Diagnostics where
  units : List UInt8 → List UInt16
  text : List UInt16 → String
  signalName : Option Int32 → String

/-- The milliseconds of `TERM_GRACE`, `EXIT_WAIT_LIMIT` and `STDERR_DRAIN_GRACE`, and the units of
`STDERR_TAIL_UNITS`. -/
def termGrace : ℕ := 500

def exitWaitLimit : ℕ := 2000

def stderrDrainGrace : ℕ := 500

def stderrTailUnits : ℕ := 4000

namespace Diagnostics

variable (diagnostics : Diagnostics)

/-- The tail keeps the newest units. -/
def append (tail : List UInt16) (chunk : List UInt8) : List UInt16 :=
  let units := tail ++ diagnostics.units chunk
  units.drop (units.length - stderrTailUnits)

def decodeFailure (status : ExitStatus) (tail : List UInt16) : MediaError :=
  let closedBy := match status.code with
    | some code => toString code
    | none => diagnostics.signalName status.signal
  .new .decode s!"Media decode failed ({closedBy}): {diagnostics.text tail}"

end Diagnostics

def cleanupUnconfirmed : MediaError :=
  .new .cleanup "Media verification cleanup unconfirmed"

/-- What becomes of the helper that sends TERM: it was not spawned, it exited, or it was stuck, so
that the child is killed at once and the exit of the helper confirmed or not. Where there are no
signals there is no helper, and the child is killed. -/
inductive Helper
  | killed
  | notSpawned
  | exited
  | stuck (confirmed : Bool)

namespace Helper

/-- The signals of `terminate_direct`, the newest first. -/
def signals : Helper → List Signal
  | killed => [.kill]
  | notSpawned => []
  | exited => [.term]
  | stuck _ => [.kill, .term]

def issue : Helper → Option String
  | stuck false => some "SIGTERM helper exit could not be confirmed"
  | _ => none

end Helper

/-! ### The loop -/

/-- What happens to the process and the driver. `failed` is a failure with the error it stands for;
`closed` is a pipe that the driver closes before its end, other than for a failure of the sink. -/
inductive Event
  | cancelled | deadlinePassed | drainTimedOut | waitFailed
  | signalled (signal : Signal)
  | exited (status : ExitStatus)
  | data (pipe : Pipe) (bytes : List UInt8)
  | ended (pipe : Pipe)
  | readFailed (pipe : Pipe)
  | sinkFailed (message : String)
  | closed (pipe : Pipe)
  | failed (error : MediaError)
  deriving DecidableEq

/-- The variables of the loop. A pipe is `true` while it is read. -/
structure Driver (σ : Type) where
  status : Option ExitStatus
  stderr : Bool
  stdout : Bool
  sink : σ
  tail : List UInt16
  failure : Option MediaError
  killAt : Option ℕ
  drainUntil : Option ℕ
  exitUntil : Option ℕ

inductive Phase (σ out : Type)
  | running (driver : Driver σ)
  | returned (result : Except MediaError out)
  | panicked

structure State (σ out : Type) where
  phase : Phase σ out
  trace : List Event

/-- What comes next, with the time. -/
inductive Label
  | conclude
  | cancel (now : ℕ) (helper : Helper)
  | deadline (now : ℕ) (helper : Helper)
  | killTimer (now : ℕ) (confirmed : Bool)
  | exitTimer (now : ℕ)
  | drainTimer (now : ℕ)
  | exit (now : ℕ) (status : ExitStatus)
  | waitError
  | read (pipe : Pipe) (result : Except Unit (List UInt8)) (now : ℕ) (helper : Helper)

section Loop

variable {σ out : Type} (sink : StdoutSink σ out) (diagnostics : Diagnostics) (deadline : ℕ)

namespace Driver

variable (driver : Driver σ)

def isOpen (pipe : Pipe) : Bool :=
  match pipe with
  | .stdout => driver.stdout
  | .stderr => driver.stderr

/-- The pipe is taken and dropped. -/
def close (pipe : Pipe) : Driver σ :=
  match pipe with
  | .stdout => { driver with stdout := false }
  | .stderr => { driver with stderr := false }

/-- The child is reaped and no pipe is read. -/
def done : Bool :=
  driver.status.isSome && !driver.stderr && !driver.stdout

/-- A child that has not exited is asked to end and gets a time at which it is killed. -/
def halt (now : ℕ) (helper : Helper) (trace : List Event) : State σ out :=
  if driver.status.isSome then ⟨.running driver, trace⟩
  else
    let trace := helper.signals.map .signalled ++ trace
    match helper.issue, driver.failure with
    | none, _ => ⟨.running { driver with killAt := some (now + termGrace) }, trace⟩
    | some issue, some error => ⟨.returned (.error (error.withCleanup issue)), trace⟩
    | some _, none => ⟨.panicked, trace⟩

/-- The result of a driver that is done. -/
def conclude (trace : List Event) : Option (State σ out) :=
  match driver.status with
  | none => none
  | some status =>
    match driver.failure with
    | some error => some ⟨.returned (.error error), trace⟩
    | none =>
      if status.success then
        match sink.finish driver.sink with
        | .ok output => some ⟨.returned (.ok output), trace⟩
        | .error message =>
          let error := MediaError.new .output message
          some ⟨.returned (.error error), .failed error :: trace⟩
      else some ⟨.returned (.error (diagnostics.decodeFailure status driver.tail)), trace⟩

/-- A cancellation, or the deadline, when nothing failed before. -/
def stop (error : MediaError) (event : Event) (now : ℕ) (helper : Helper) (trace : List Event) :
    Option (State σ out) :=
  if driver.failure.isNone then
    some ({ driver with failure := some error }.halt now helper (.failed error :: event :: trace))
  else none

def killTimer (now : ℕ) (confirmed : Bool) (trace : List Event) : Option (State σ out) :=
  if driver.killAt.any (· ≤ now) && driver.status.isNone then
    let driver := { driver with killAt := none, exitUntil := some (now + exitWaitLimit) }
    let trace := .signalled .kill :: trace
    if confirmed then some ⟨.running driver, trace⟩
    else
      match driver.failure with
      | some error => some ⟨.running { driver with
          failure := some (error.withCleanup "direct child kill could not be confirmed") }, trace⟩
      | none => some ⟨.panicked, trace⟩
  else none

def exitTimer (now : ℕ) (trace : List Event) : Option (State σ out) :=
  if driver.exitUntil.any (· ≤ now) && driver.status.isNone then
    match driver.failure with
    | some error => some ⟨.returned (.error (error.withCleanup
        "direct child exit could not be confirmed within cleanup deadline")), trace⟩
    | none => some ⟨.panicked, trace⟩
  else none

/-- The failure of a pipe that stayed open, when nothing failed before. -/
def drainFailure : MediaError :=
  match driver.status.filter (fun status ↦ !status.success) with
  | some status => diagnostics.decodeFailure status driver.tail
  | none => cleanupUnconfirmed

def drainTimer (now : ℕ) (trace : List Event) : Option (State σ out) :=
  if driver.drainUntil.any (· ≤ now) && (driver.stderr || driver.stdout) then
    let issue := if driver.stdout then "media stdout pipe did not close after direct child exit"
      else "stderr pipe did not close after direct child exit"
    let error := driver.drainFailure diagnostics
    let closed := ([Pipe.stderr, .stdout].filter driver.isOpen).map Event.closed
    some ⟨.running { driver with
      stderr := false
      stdout := false
      failure := some ((driver.failure.getD error).withCleanup issue) },
      closed ++ .failed error :: .drainTimedOut :: trace⟩
  else none

def exit (now : ℕ) (status : ExitStatus) (trace : List Event) : Option (State σ out) :=
  if driver.status.isNone then
    some ⟨.running { driver with
      status := some status
      killAt := none
      exitUntil := none
      drainUntil := some (now + stderrDrainGrace) }, .exited status :: trace⟩
  else none

def waitError (trace : List Event) : Option (State σ out) :=
  if driver.status.isNone then
    some ⟨.returned (.error ((driver.failure.getD cleanupUnconfirmed).withCleanup
      "direct child wait failed")), .failed cleanupUnconfirmed :: .waitFailed :: trace⟩
  else none

/-- What the sink makes of a chunk. -/
def feed (pipe : Pipe) (bytes : List UInt8) : Except String σ :=
  match pipe with
  | .stdout => sink.consume driver.sink bytes
  | .stderr => sink.consumeStderr driver.sink bytes

/-- The sink gets a chunk when nothing failed. A failure of the sink closes stdout. -/
def consume (pipe : Pipe) (bytes : List UInt8) (now : ℕ) (helper : Helper) (trace : List Event) :
    State σ out :=
  let trace := .data pipe bytes :: trace
  if driver.failure.isSome then ⟨.running driver, trace⟩
  else
    match driver.feed sink pipe bytes with
    | .ok next => ⟨.running { driver with sink := next }, trace⟩
    | .error message =>
      let error := MediaError.new .output message
      { driver with failure := some error, stdout := false }.halt now helper
        (.failed error :: .sinkFailed message :: trace)

/-- The tail keeps a chunk of stderr. -/
def note (pipe : Pipe) (bytes : List UInt8) : Driver σ :=
  match pipe with
  | .stdout => driver
  | .stderr => { driver with tail := diagnostics.append driver.tail bytes }

/-- A read failed: its pipe is closed, and the child is asked to end unless that was done before. -/
def readError (pipe : Pipe) (now : ℕ) (helper : Helper) (trace : List Event) : State σ out :=
  let issue := match pipe with
    | .stdout => "stdout read failed"
    | .stderr => "stderr read failed"
  let stopping := driver.failure.isSome
  let next := { driver.close pipe with
    failure := some ((driver.failure.getD cleanupUnconfirmed).withCleanup issue) }
  let trace := .closed pipe :: .failed cleanupUnconfirmed :: .readFailed pipe :: trace
  if stopping then ⟨.running next, trace⟩ else next.halt now helper trace

def read (pipe : Pipe) (result : Except Unit (List UInt8)) (now : ℕ) (helper : Helper)
    (trace : List Event) : Option (State σ out) :=
  if driver.isOpen pipe then
    match result with
    | .ok [] => some ⟨.running (driver.close pipe), .ended pipe :: trace⟩
    | .ok bytes =>
      some ((driver.note diagnostics pipe bytes).consume sink pipe bytes now helper trace)
    | .error () => some (driver.readError pipe now helper trace)
  else none

/-- One turn of the loop: the result of a driver that is done, else one of the branches. -/
def turn (trace : List Event) : Label → Option (State σ out)
  | .conclude => if driver.done then driver.conclude sink diagnostics trace else none
  | .cancel now helper =>
    if driver.done then none
    else driver.stop (.new .cancelled "Media verification cancelled") .cancelled now helper trace
  | .deadline now helper =>
    if driver.done || decide (now < deadline) then none
    else
      driver.stop (.new .timedOut "Media verification timed out") .deadlinePassed now helper trace
  | .killTimer now confirmed => if driver.done then none else driver.killTimer now confirmed trace
  | .exitTimer now => if driver.done then none else driver.exitTimer now trace
  | .drainTimer now => if driver.done then none else driver.drainTimer diagnostics now trace
  | .exit now status => if driver.done then none else driver.exit now status trace
  | .waitError => if driver.done then none else driver.waitError trace
  | .read pipe result now helper =>
    if driver.done then none else driver.read sink diagnostics pipe result now helper trace

end Driver

/-- The driver of a new child. Its stdout is a pipe when it is captured. -/
def Driver.new (captured : Bool) (start : σ) : Driver σ where
  status := none
  stderr := true
  stdout := captured
  sink := start
  tail := []
  failure := none
  killAt := none
  drainUntil := none
  exitUntil := none

def State.act (s : State σ out) (label : Label) : Option (State σ out) :=
  match s.phase with
  | .running driver => driver.turn sink diagnostics deadline s.trace label
  | _ => none

/-- The runs of `drive`. -/
def drive (captured : Bool) (start : σ) : Machine (State σ out) Label where
  initial s := s = ⟨.running (.new captured start), []⟩
  step s label t := s.act sink diagnostics deadline label = some t

end Loop

end ObsMcp.Media
