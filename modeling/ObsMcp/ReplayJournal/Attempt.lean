import ObsMcp.Foundations.Json
import ObsMcp.Foundations.Machine
import ObsMcp.Receipts.Identity

/-!
# Verified replay saves

`execute` of `replay_save.rs` with its journal, over one state directory. A run first scans the
history of the directory, claims it by creating the `active` directory, and writes its `started`
record. Then it saves the replay and checks what was saved. At the end it writes its `result` record
and removes `active`.

`State.act` is one step of one run: a step on the files, an entry of the scan, a reply the run waits
for, or a dispatch of the save. A step on the files can be refused, and it can report an error after
it has taken effect; a run can stop at any point. The runs interleave freely.

The history of a run is in `created`, `removed`, `dispatched`, `confirmed` and `evidence`.
-/

namespace ObsMcp.ReplayJournal

open Foundations
open Receipts (utf8 isAsciiHexDigit)

def maxRecord : ℕ := 32 * 1024

def maxHistory : ℕ := 1024

def validId (value : String) : Bool :=
  (utf8 value).length == 36 && (utf8 value).zipIdx.all fun (byte, index) ↦
    if [8, 13, 18, 23].contains index then byte == 45 else isAsciiHexDigit byte

/-! ### Records -/

/-- The two records of a run. -/
inductive Stage
  | started
  | result
  deriving DecidableEq

/-- The facts of a run. `verified` is its status. -/
structure Facts where
  verified : Bool
  requestAccepted : Json
  saveEventObserved : Bool
  newPathObserved : Bool
  fileStableDuringVerification : Bool
  strictDecode : Bool
  file : Option Json

def Facts.new : Facts :=
  ⟨false, .bool false, false, false, false, false, none⟩

/-- What is written into a record. -/
inductive Body
  | pending
  | facts (facts : Facts)

/-- A record on disk. It has no body before it is written, `synced` is set when its bytes are
durable, and `linked` when its name is. -/
structure Record where
  operationId : String
  stage : Stage
  endpointHash : String
  body : Option Body
  synced : Bool
  linked : Bool

/-- The directory: the run that has created `active`, when it is there, and the records. -/
structure Files where
  active : Option ℕ
  activeLinked : Bool
  records : List Record

namespace Files

def taken (files : Files) (operationId : String) (stage : Stage) : Bool :=
  files.records.any fun record ↦ record.operationId == operationId && record.stage == stage

def create (files : Files) (operationId : String) (stage : Stage) (endpointHash : String) : Files :=
  { files with
    records := files.records ++ [⟨operationId, stage, endpointHash, none, false, false⟩] }

/-- The body of an open record is written. -/
def fill (files : Files) (place : ℕ) (body : Body) (synced : Bool) : Files :=
  { files with
    records := files.records.modify place fun record ↦
      { record with body := some body, synced } }

/-- The directory is synced. -/
def link (files : Files) : Files :=
  { files with
    activeLinked := files.activeLinked || files.active.isSome
    records := files.records.map fun record ↦ { record with linked := true } }

end Files

/-! ### The scan of the history -/

def hasText (value : Json) (text : String) : Bool :=
  value.asStr == some text

/-- `read_record`, from what the file holds. -/
def readRecord (read : Except String Json) : Except String Json := do
  let record ← read
  if (record.index "version").beq (.number (.posInt 1)) &&
      hasText (record.index "kind") "replay-verification" &&
      (record.index "operationId").asStr.any validId &&
      (record.index "endpointHash").asStr.isSome &&
      hasText (record.index "requestAttribution") "unverified" then
    .ok record
  else .error "Replay verification history is invalid"

/-- An entry of the directory, with what its file and the result file of its operation hold. -/
structure Entry where
  name : String
  content : Except String Json
  terminal : Except String Json

/-- The end of an attempt on the same endpoint. -/
def checkTerminal (record : Json) (terminal : Except String Json) : Except String Unit :=
  match readRecord terminal with
  | .error _ => .error <|
      "Unfinished or corrupt replay file evidence blocks another verified save; " ++
        "no replay was dispatched"
  | .ok terminal =>
    if (terminal.index "operationId").beq (record.index "operationId") &&
        (terminal.index "endpointHash").beq (record.index "endpointHash") &&
        (hasText (terminal.index "status") "verified" ||
          hasText (terminal.index "status") "unverified") then
      .ok ()
    else .error "Replay terminal evidence does not match its original attempt"

/-- The check of one entry of the history. -/
def checkEntry (endpoint : String) (entry : Entry) : Except String Unit :=
  if entry.name = "active" then
    .error <| "An unfinished replay verification is retained; " ++
      "inspect its journal, do not replay the save"
  else do
    let record ← readRecord entry.content
    let operation := (record.index "operationId").asStr.getD ""
    let status := record.index "status"
    let started := entry.name == s!"{operation}.started.json"
    let terminal := entry.name == s!"{operation}.result.json"
    if (!started && !terminal) || (started && !hasText status "pending") ||
        (terminal && !hasText status "verified" && !hasText status "unverified") then
      .error "Replay journal filename or status is invalid"
    else if entry.name.endsWith ".started.json" &&
        hasText (record.index "endpointHash") endpoint then
      checkTerminal record entry.terminal
    else .ok ()

/-! ### Runs -/

/-- The steps of `Journal::write`: the check of the directories, the creation of the file, the write
into it, the sync of the directory, and the second check. -/
inductive WriteStep
  | check
  | create
  | fill (place : ℕ)
  | link (place : ℕ)
  | recheck (place : ℕ)

/-- The path a run has observed, with what it read before the save. -/
structure Observed where
  previous : String
  baseline : List String
  path : String

/-- Where the workflow of `execute` is, with its local values. -/
inductive Work
  | status
  | previous
  | baseline (previous : String)
  | subscribe (previous : String) (baseline : List String)
  | admitting (previous : String) (baseline : List String)
  | transport (previous : String) (baseline : List String)
  | receipt (previous : String) (baseline : List String)
  | candidate (previous : String) (baseline : List String)
  | snapshot (observed : Observed)
  | verify (observed : Observed)
  | reread (observed : Observed)
  | confirm (observed : Observed) (second : String)
  | finish (observed : Observed) (second : String)

inductive Phase
  | starting
  | scanning (count : ℕ)
  | claiming
  | identifying
  | writing (stage : Stage) (step : WriteStep)
  | working (work : Work)
  | discarding
  | releasing (place : ℕ)
  | finishing (place : ℕ)
  | reported
  | stopped

/-- A run of `execute`. `armed` is that of its subscription and `held` says that it retains a
verified snapshot. -/
structure Run where
  id : String
  endpoint : String
  phase : Phase
  facts : Facts
  issue : Option String
  cleanupUnconfirmed : Bool
  armed : Bool
  held : Bool
  created : Bool
  removed : Bool
  dispatched : ℕ
  confirmed : Bool
  evidence : Option (Observed × String)

namespace Run

def new (id endpoint : String) : Run where
  id
  endpoint
  phase := .starting
  facts := .new
  issue := none
  cleanupUnconfirmed := false
  armed := false
  held := false
  created := false
  removed := false
  dispatched := 0
  confirmed := false
  evidence := none

/-- The end of a run without a completed journal. -/
def refuse (run : Run) (message : String) : Run :=
  { run with
    phase := .reported
    issue := some message
    facts := { run.facts with verified := false, file := none } }

/-- The end of the workflow when no snapshot is held. An unconfirmed cleanup leaves the journal
unfinished. -/
def wrap (run : Run) : Run :=
  if run.cleanupUnconfirmed then
    { run with
      phase := .reported
      issue := some ((run.issue.getD "Replay helper cleanup is unconfirmed") ++
        "; private snapshot and unfinished verification journal retained because cleanup is " ++
        "unconfirmed") }
  else { run with phase := .writing .result .check }

/-- The end of the workflow. -/
def settle (run : Run) : Run :=
  if run.held then { run with phase := .discarding } else run.wrap

/-- The workflow ends with an issue. -/
def fail (run : Run) (message : String) (cleanupUnconfirmed : Bool) : Run :=
  settle { run with
    issue := some message
    cleanupUnconfirmed := run.cleanupUnconfirmed || cleanupUnconfirmed }

end Run

/-- A reply the workflow waits for. -/
inductive Reply
  | done
  | observed (event : Bool)
  | value (value : Json)
  | names (names : List String)
  | path (path : String)

/-- The next step of the workflow with its reply. -/
def Run.work (run : Run) (work : Work) (reply : Reply) : Option Run :=
  match work, reply with
  | .status, .value reply =>
    if (reply.index "outputActive").beq (.bool true) then
      some { run with phase := .working .previous }
    else some (run.fail "Replay buffer must already be active; this workflow never starts it" false)
  | .previous, .value reply =>
    match (reply.index "savedReplayPath").asStr.filter (·.utf8ByteSize ≤ 4096) with
    | some previous => some { run with phase := .working (.baseline previous) }
    | none => some (run.fail "Previous replay path is unavailable" false)
  | .baseline previous, .names names =>
    some { run with phase := .working (.subscribe previous names) }
  | .subscribe previous baseline, .done =>
    some { run with phase := .working (.admitting previous baseline) }
  | .admitting previous baseline, .done =>
    some { run with phase := .working (.transport previous baseline) }
  | .transport previous baseline, .observed event =>
    some { run with
      phase := .working (.receipt previous baseline)
      facts := { run.facts with saveEventObserved := event } }
  | .receipt previous baseline, .value receipt =>
    let accepted := receipt.index "requestAccepted"
    let run := { run with facts := { run.facts with requestAccepted := accepted } }
    if accepted.beq (.bool true) then
      some { run with phase := .working (.candidate previous baseline) }
    else
      some (run.fail ("Replay save was rejected, not dispatched, or has an Unknown " ++
        "acknowledgement; no retry or verified file is granted") false)
  | .candidate previous baseline, .path path =>
    let run := { run with facts := { run.facts with saveEventObserved := true } }
    if path = previous then
      some (run.fail ("Replay saved path did not change from the previous replay; " ++
        "freshness is unverified") false)
    else some { run with phase := .working (.snapshot ⟨previous, baseline, path⟩) }
  | .snapshot observed, .done =>
    if observed.baseline.contains observed.path then
      some (run.fail ("Replay filename already existed before the save attempt; " ++
        "overwrite freshness is unverified") false)
    else
      some { run with
        phase := .working (.verify observed)
        facts := { run.facts with newPathObserved := true } }
  | .verify observed, .done =>
    some { run with
      phase := .working (.reread observed)
      facts := { run.facts with strictDecode := true }
      held := true }
  | .reread observed, .value reply =>
    match (reply.index "savedReplayPath").asStr with
    | some second =>
      if second = observed.path then
        some { run with phase := .working (.confirm observed second) }
      else some (run.fail "Current replay filename disagrees with the saved event" false)
    | none => some (run.fail "Current replay filename disagrees with the saved event" false)
  | .confirm observed second, .done =>
    some { run with phase := .working (.finish observed second), confirmed := true }
  | .finish observed second, .value file =>
    some (Run.settle { run with
      facts := { run.facts with
        verified := true
        fileStableDuringVerification := true
        file := some file }
      held := false
      evidence := some (observed, second) })
  | _, _ => none

/-- A wait of the workflow fails. The snapshot is given away before the last check. -/
def Run.workFails (run : Run) (work : Work) (message : String) (cleanupUnconfirmed : Bool) : Run :=
  match work with
  | .finish _ _ => { run with held := false }.fail message cleanupUnconfirmed
  | _ => run.fail message cleanupUnconfirmed

/-- What becomes of a step on the files: it is done, it is refused, or it reports an error and is
done nevertheless. -/
inductive Io
  | done
  | refused
  | uncertain
  deriving DecidableEq

structure State where
  files : Files
  runs : List Run

inductive Label
  | spawn (id endpoint : String)
  | stop (r : ℕ)
  | entry (r : ℕ) (entry : Entry)
  | scanned (r : ℕ)
  | io (r : ℕ) (outcome : Io)
  | dispatch (r : ℕ)
  | reply (r : ℕ) (reply : Reply)
  | fails (r : ℕ) (message : String) (cleanupUnconfirmed : Bool)

section Steps

variable (encodedLength : Body → ℕ)

def Run.body (run : Run) : Stage → Body
  | .started => .pending
  | .result => .facts run.facts

/-- A step of `Journal::write`, for one of the two records. -/
def Run.write (files : Files) (run : Run) (stage : Stage) (outcome : Io) :
    WriteStep → Files × Run
  | .check =>
    if outcome = .done then (files, { run with phase := .writing stage .create })
    else (files, run.refuse "Replay journal namespace identity changed")
  | .create =>
    if maxRecord < encodedLength (run.body stage) then
      (files, run.refuse "Replay journal result exceeds its byte limit")
    else if outcome = .refused || files.taken run.id stage then
      (files, run.refuse "Replay journal publication refused")
    else
      let created := files.create run.id stage run.endpoint
      if outcome = .done then
        (created, { run with phase := .writing stage (.fill files.records.length) })
      else (created, run.refuse "Replay journal publication refused")
  | .fill place =>
    match outcome with
    | .done =>
      (files.fill place (run.body stage) true, { run with phase := .writing stage (.link place) })
    | .refused => (files, run.refuse "Replay journal publication is uncertain")
    | .uncertain =>
      (files.fill place (run.body stage) false,
        run.refuse "Replay journal publication is uncertain")
  | .link place =>
    match outcome with
    | .done => (files.link, { run with phase := .writing stage (.recheck place) })
    | .refused => (files, run.refuse "Replay journal directory sync failed")
    | .uncertain => (files.link, run.refuse "Replay journal directory sync failed")
  | .recheck place =>
    if outcome = .done then
      match stage with
      | .started => (files, { run with phase := .working .status })
      | .result => (files, { run with phase := .releasing place })
    else (files, run.refuse "Replay journal namespace identity changed")

/-- The next step of a run on the files. -/
def Run.io (files : Files) (r : ℕ) (run : Run) (outcome : Io) : Option (Files × Run) :=
  match run.phase with
  | .starting =>
    if !validId run.id then some (files, run.refuse "Invalid replay operation identity")
    else if outcome = .done then some (files, { run with phase := .scanning 0 })
    else some (files, run.refuse "Replay verification journal cannot be created")
  | .claiming =>
    let refused := run.refuse ("Another replay verification owns this namespace or an " ++
      "interrupted owner is retained")
    if outcome = .refused || files.active.isSome then some (files, refused)
    else
      let claimed := { files with active := some r, activeLinked := false }
      if outcome = .done then
        some (claimed, { run with phase := .identifying, created := true })
      else some (claimed, { refused with created := true })
  | .identifying =>
    if outcome = .done then some (files, { run with phase := .writing .started .check })
    else some (files, run.refuse "Replay verification journal identity is unavailable")
  | .writing stage step => some (run.write encodedLength files stage outcome step)
  | .discarding =>
    if outcome = .done then some (files, { run with held := false }.wrap) else none
  | .releasing place =>
    match outcome with
    | .done =>
      some ({ files with active := none },
        { run with phase := .finishing place, removed := true })
    | .refused => some (files, run.refuse "Replay active journal cleanup is unconfirmed")
    | .uncertain =>
      some ({ files with active := none },
        { run.refuse "Replay active journal cleanup is unconfirmed" with removed := true })
  | .finishing _ =>
    if outcome = .done then some (files.link, { run with phase := .reported })
    else some (files, run.refuse "Replay journal completion sync is uncertain")
  | _ => none

/-- An entry of the scan. -/
def Run.scan (run : Run) (entry : Entry) : Option Run :=
  match run.phase with
  | .scanning count =>
    if maxHistory < count + 1 then
      some (run.refuse "Replay verification history capacity reached")
    else
      match checkEntry run.endpoint entry with
      | .ok () => some { run with phase := .scanning (count + 1) }
      | .error message => some (run.refuse message)
  | _ => none

/-- The end of the scan. -/
def Run.scanned (run : Run) : Option Run :=
  match run.phase with
  | .scanning count =>
    if maxHistory < count + 3 then
      some (run.refuse "Replay verification history lacks capacity for a complete attempt")
    else some { run with phase := .claiming }
  | _ => none

/-- The guard of the transport arms the subscription and the save is dispatched. An armed
subscription refuses. -/
def Run.dispatch (run : Run) : Option Run :=
  match run.phase with
  | .working (.transport _ _) =>
    if run.armed then none
    else some { run with armed := true, dispatched := run.dispatched + 1 }
  | _ => none

def Run.reply (run : Run) (reply : Reply) : Option Run :=
  match run.phase with
  | .working work => run.work work reply
  | _ => none

/-- A wait of the workflow, or the removal of the snapshot, fails. -/
def Run.fails (run : Run) (message : String) (cleanupUnconfirmed : Bool) : Option Run :=
  match run.phase with
  | .working work => some (run.workFails work message cleanupUnconfirmed)
  | .discarding =>
    some (Run.wrap { run with
      issue := some (match run.issue with
        | some primary => primary ++ "; " ++ message
        | none => message)
      held := false
      cleanupUnconfirmed := run.cleanupUnconfirmed || cleanupUnconfirmed })
  | _ => none

/-- The process stops. -/
def Run.stop (run : Run) : Option Run :=
  match run.phase with
  | .reported => none
  | _ => some { run with phase := .stopped }

namespace State

/-- A step of one run. -/
def move (s : State) (r : ℕ) (step : Run → Option (Files × Run)) : Option State :=
  ((s.runs[r]?).bind step).map fun (files, run) ↦ ⟨files, s.runs.set r run⟩

def act (s : State) : Label → Option State
  | .spawn id endpoint => some { s with runs := s.runs ++ [.new id endpoint] }
  | .stop r => s.move r fun run ↦ run.stop.map (s.files, ·)
  | .entry r entry => s.move r fun run ↦ (run.scan entry).map (s.files, ·)
  | .scanned r => s.move r fun run ↦ run.scanned.map (s.files, ·)
  | .io r outcome => s.move r fun run ↦ run.io encodedLength s.files r outcome
  | .dispatch r => s.move r fun run ↦ run.dispatch.map (s.files, ·)
  | .reply r reply => s.move r fun run ↦ (run.reply reply).map (s.files, ·)
  | .fails r message cleanupUnconfirmed =>
    s.move r fun run ↦ (run.fails message cleanupUnconfirmed).map (s.files, ·)

end State

/-- The runs of `execute` over a directory that holds some records and is not claimed. -/
def attempts : Machine State Label where
  initial s := s.files.active = none ∧ s.runs = []
  step s label t := s.act encodedLength label = some t

end Steps

end ObsMcp.ReplayJournal
