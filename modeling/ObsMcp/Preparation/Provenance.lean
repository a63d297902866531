import Mathlib.Data.List.ModifyLast
import ObsMcp.Foundations.Checked
import ObsMcp.Foundations.Json
import ObsMcp.Receipts.Identity

/-!
# The preparation journal

The provenance record of `preparation_journal.rs`. Every field of a preparation has one optional
preparation attempt and a list of recovery attempts, and an attempt is the list of the steps that
were written down for it. `validate` re-derives from these lists whether a loaded record is legal,
the five operations extend a record by one step, and `successor` is the check in front of every
write of the file: it compares the stored record with the next one.

`status` reads the last step of an attempt and panics on an attempt without steps, so what reads a
status answers in `Except Fault`. An operation is a computation on a mutable record: it answers with
the record it leaves behind, also when it fails.

The digest of SHA-256 and the encoding of a JSON value as text are parameters (`Digests`): the
record only compares digests.
-/

namespace ObsMcp.Preparation

open Foundations

def maxRecoveryAttempts : ℕ := 64

def maxRevision : ℕ := 9007199254740991

/-- What is written down about one attempt. -/
inductive Step
  | intent
  | possibleDispatch
  | accepted
  | notDispatched
  | rejected
  | unknown
  | observedBefore
  deriving DecidableEq

inductive ProvenanceError
  | invalid
  | transition
  | limit
  deriving DecidableEq

/-- How a call can fail: with an error it returns, or with a panic. -/
inductive Fault
  | error (error : ProvenanceError)
  | panic
  deriving DecidableEq

structure Fence where
  generation : ℕ
  evidenceRevision : ℕ
  deriving DecidableEq

def Fence.valid (fence : Fence) : Bool :=
  fence.generation ≤ maxRevision && fence.evidenceRevision ≤ maxRevision

structure Attempt where
  fence : Fence
  steps : List Step
  deriving DecidableEq

namespace Attempt

/-- The last step of an attempt; an attempt without steps panics. -/
def status (attempt : Attempt) : Except Fault Step :=
  match attempt.steps.getLast? with
  | some step => .ok step
  | none => .error .panic

/-- The step lists of an attempt to write a value. -/
def stepsValid : List Step → Bool
  | [.intent] => true
  | [.intent, .possibleDispatch] => true
  | [.intent, .notDispatched] => true
  | [.intent, .possibleDispatch, .accepted] => true
  | [.intent, .possibleDispatch, .notDispatched] => true
  | [.intent, .possibleDispatch, .rejected] => true
  | [.intent, .possibleDispatch, .unknown] => true
  | _ => false

def valid (attempt : Attempt) (recovery : Bool) : Bool :=
  attempt.fence.valid &&
    (stepsValid attempt.steps || (recovery && attempt.steps == [.observedBefore]))

/-- The attempt with one more step. -/
def push (next : Step) (attempt : Attempt) : Attempt :=
  { attempt with steps := attempt.steps ++ [next] }

end Attempt

/-- The statuses that leave open whether a request reached OBS. -/
def Step.unsettled : Step → Bool
  | .possibleDispatch | .unknown => true
  | _ => false

/-- The statuses after which a recovery may be tried again. -/
def Step.retryable : Step → Bool
  | .notDispatched | .rejected => true
  | _ => false

/-- The statuses that restore a field. -/
def Step.restores : Step → Bool
  | .accepted | .observedBefore => true
  | _ => false

structure FieldProvenance where
  preparation : Option Attempt
  recovery : List Attempt
  deriving DecidableEq

namespace FieldProvenance

variable (field : FieldProvenance)

def preparationStatus : Except Fault (Option Step) :=
  match field.preparation with
  | none => .ok none
  | some attempt => some <$> attempt.status

def recoveryStatus : Except Fault (Option Step) :=
  match field.recovery.getLast? with
  | none => .ok none
  | some attempt => some <$> attempt.status

def ownsRestore : Except Fault Bool := do
  return (← field.preparationStatus) == some .accepted

def restored : Except Fault Bool := do
  return (← field.recoveryStatus).any Step.restores

/-- A status of the field leaves open whether a request reached OBS. -/
def uncertain : Except Fault Bool := do
  if (← field.preparationStatus).any Step.unsettled then
    return true
  return (← field.recoveryStatus).any Step.unsettled

/-- The field with one more recovery attempt. -/
def pushRecovery (attempt : Attempt) (field : FieldProvenance) : FieldProvenance :=
  { field with recovery := field.recovery ++ [attempt] }

/-- The field with one more step of its preparation, or of its last recovery. -/
def pushStep (recovery : Bool) (next : Step) (field : FieldProvenance) : FieldProvenance :=
  if recovery then
    { field with recovery := field.recovery.modifyLast (Attempt.push next) }
  else
    { field with preparation := field.preparation.map (Attempt.push next) }

end FieldProvenance

structure Provenance where
  codec : String
  endpointHash : String
  subjectHash : String
  revision : ℕ
  completed : Bool
  fields : List FieldProvenance
  deriving DecidableEq

/-- The functions outside the crate: the printed SHA-256 digest of a text and the encoding of a
JSON value. -/
structure Digests where
  sha256 : List UInt8 → String
  toVec : Json → List UInt8

namespace Digests

variable (digests : Digests)

def hash (domain : String) (bytes : List UInt8) : String :=
  digests.sha256 (Receipts.utf8 domain ++ bytes)

def endpointHash (endpoint : String) : String :=
  digests.hash "obs-mcp-endpoint-v1\x00" (Receipts.utf8 endpoint)

def subjectHash (subject : Json) : String :=
  digests.hash "obs-mcp-preparation-subject-v2\x00" (digests.toVec subject)

end Digests

namespace Provenance

def new (digests : Digests) (endpoint : String) (subject : Json) (count : ℕ) : Provenance where
  codec := "obs-mcp-preparation-v2"
  endpointHash := digests.endpointHash endpoint
  subjectHash := digests.subjectHash subject
  revision := 0
  completed := false
  fields := List.replicate count ⟨none, []⟩

def uncertain (record : Provenance) : Except Fault Bool :=
  record.fields.anyM FieldProvenance.uncertain

/-! ### Validation -/

/-- The sum, or the refusal of a record whose counts overflow. -/
def countSteps (events : ℕ) (attempt : Attempt) : Except Fault ℕ :=
  match checkedAdd events attempt.steps.length with
  | some sum => .ok sum
  | none => .error (.error .invalid)

/-- What `validate` carries from field to field. -/
structure Scan where
  events : ℕ
  preparationStopped : Bool
  recoveryStopped : Bool

/-- Refuses a record when a condition holds. -/
def refuse (error : ProvenanceError) (condition : Bool) : Except Fault Unit :=
  if condition then .error (.error error) else .ok ()

/-- One turn of the loop of `validate`. -/
def scanField (scan : Scan) (field : FieldProvenance) : Except Fault Scan := do
  refuse .invalid (scan.preparationStopped && field.preparation.isSome)
  let preparationStopped :=
    scan.preparationStopped || (← field.preparationStatus) != some .accepted
  refuse .invalid (scan.recoveryStopped && !field.recovery.isEmpty)
  let recoveryStopped := scan.recoveryStopped || !(← field.restored)
  refuse .invalid
    ((← field.preparationStatus).any Step.unsettled && !field.recovery.isEmpty)
  let events ← field.preparation.toList.foldlM countSteps scan.events
  let events ← field.recovery.foldlM countSteps events
  refuse .invalid
    (field.preparation.any (fun attempt ↦ !attempt.valid false) ||
      decide (maxRecoveryAttempts < field.recovery.length) ||
      field.recovery.any (fun attempt ↦ !attempt.valid true))
  (field.recovery.take (field.recovery.length - 1)).forM
    (fun attempt ↦ do refuse .invalid (!(← attempt.status).retryable))
  refuse .invalid
    (!(← field.ownsRestore) &&
      field.recovery.any (fun attempt ↦ attempt.steps != [.observedBefore]))
  return ⟨events, preparationStopped, recoveryStopped⟩

variable (record : Provenance)

/-- `all(restored)`, then `uncertain`, for a completed record. -/
def finished : Except Fault Bool := do
  if !(← record.fields.allM FieldProvenance.restored) then
    return false
  return !(← record.uncertain)

def validate (digests : Digests) (endpoint : String) (subject : Json)
    (count : ℕ) : Except Fault Unit := do
  refuse .invalid
    (record.codec != "obs-mcp-preparation-v2" ||
      record.endpointHash != digests.endpointHash endpoint ||
      record.subjectHash != digests.subjectHash subject ||
      decide (maxRevision < record.revision) || record.fields.length != count)
  let scan ← record.fields.foldlM scanField ⟨record.completed.toNat, false, false⟩
  refuse .invalid (scan.events != record.revision)
  if record.completed then
    refuse .invalid (!(← record.finished))

/-! ### Operations -/

/-- A call on a mutable record. -/
abbrev Call := EStateM Fault Provenance Unit

def bump : Call := fun record ↦
  if record.completed then .error (.error .transition) record
  else
    match (checkedAdd record.revision 1).filter (fun revision ↦ revision ≤ maxRevision) with
    | none => .error (.error .limit) record
    | some revision => .ok () { record with revision }

/-- The checks of an operation, then the new revision, then the change of the fields. -/
def checked (guard : Provenance → Except Fault Unit) (edit : Provenance → Provenance) : Call := do
  match guard (← get) with
  | .error fault => throw fault
  | .ok () =>
    bump
    modify edit

variable (index : ℕ)

/-- The record with one field changed. -/
def editField (edit : FieldProvenance → FieldProvenance) (record : Provenance) : Provenance :=
  { record with fields := record.fields.modify index edit }

/-- Some field was already tried to be recovered. -/
def recovering : Bool :=
  record.fields.any (fun field ↦ !field.recovery.isEmpty)

def beginPreparationGuard (fence : Fence) (record : Provenance) :
    Except Fault Unit := do
  refuse .transition (!fence.valid || record.recovering)
  refuse .transition
    (← (record.fields.take index).anyM (fun field ↦ (!·) <$> field.ownsRestore))
  refuse .transition
    (match record.fields[index]? with
    | none => true
    | some field => field.preparation.isSome || !field.recovery.isEmpty)

def beginPreparation (fence : Fence) : Call :=
  checked (beginPreparationGuard index fence)
    (editField index (fun field ↦ { field with preparation := some ⟨fence, [.intent]⟩ }))

/-- The field at an index, or the refusal of the index. -/
def getField : Except Fault FieldProvenance :=
  match record.fields[index]? with
  | none => .error (.error .transition)
  | some field => .ok field

def beginRecoveryGuard (fence : Fence) (record : Provenance) : Except Fault Unit := do
  refuse .transition (← record.uncertain)
  refuse .transition (!fence.valid)
  refuse .transition
    (← (record.fields.take index).anyM (fun field ↦ (!·) <$> field.restored))
  let field ← record.getField index
  refuse .transition (!(← field.ownsRestore))
  refuse .transition (maxRecoveryAttempts ≤ field.recovery.length)
  refuse .transition ((← field.recoveryStatus).any (fun status ↦ !status.retryable))

def beginRecovery (fence : Fence) : Call :=
  checked (beginRecoveryGuard index fence)
    (editField index (FieldProvenance.pushRecovery ⟨fence, [.intent]⟩))

/-- The steps that may follow a status. -/
def follows : Step → Step → Bool
  | .intent, .possibleDispatch => true
  | .intent, .notDispatched => true
  | .possibleDispatch, .accepted => true
  | .possibleDispatch, .notDispatched => true
  | .possibleDispatch, .rejected => true
  | .possibleDispatch, .unknown => true
  | _, _ => false

def advanceGuard (recovery : Bool) (next : Step) (record : Provenance) :
    Except Fault Unit := do
  refuse .transition (!recovery && record.recovering)
  let field ← record.getField index
  match if recovery then field.recovery.getLast? else field.preparation with
  | none => .error (.error .transition)
  | some attempt => refuse .transition (!follows (← attempt.status) next)

def advance (recovery : Bool) (next : Step) : Call :=
  checked (advanceGuard index recovery next)
    (editField index (FieldProvenance.pushStep recovery next))

def observedBeforeGuard (fence : Fence) (record : Provenance) :
    Except Fault Unit := do
  refuse .transition (!fence.valid)
  refuse .transition
    (← (record.fields.take index).anyM (fun field ↦ (!·) <$> field.restored))
  let field ← record.getField index
  refuse .transition ((← field.preparationStatus).any Step.unsettled)
  refuse .transition ((← field.recoveryStatus).any (fun status ↦ !status.retryable))
  refuse .transition (maxRecoveryAttempts ≤ field.recovery.length)

def observedBefore (index : ℕ) (fence : Fence) : Call :=
  checked (observedBeforeGuard index fence)
    (editField index (FieldProvenance.pushRecovery ⟨fence, [.observedBefore]⟩))

def completeGuard : Except Fault Unit := do
  refuse .transition (← record.uncertain)
  refuse .transition (!(← record.fields.allM FieldProvenance.restored))

def complete : Call :=
  checked completeGuard (fun record ↦ { record with completed := true })

/-! ### The check of the next record -/

/-- The number of steps of a record, when it fits 64 bits. -/
def events : Option ℕ :=
  record.fields.foldlM
    (fun total field ↦ do
      let total ← checkedAdd total ((field.preparation.map (·.steps.length)).getD 0)
      field.recovery.foldlM (fun total attempt ↦ checkedAdd total attempt.steps.length) total)
    record.completed.toNat

def attemptExtension : Option Attempt → Option Attempt → Bool
  | none, none => true
  | none, some new => new.steps == [.intent] || new.steps == [.observedBefore]
  | some old, some new =>
    old == new ||
      (old.fence == new.fence && new.steps.length == old.steps.length + 1 &&
        old.steps.isPrefixOf new.steps)
  | some _, none => false

/-- One turn of the loop of `successor`: whether the field is a candidate, or the refusal. -/
def successorField (recovering : Bool) (field next : FieldProvenance) : Except Fault Bool := do
  if field = next then
    return false
  refuse .transition (field.preparation != next.preparation && recovering)
  refuse .transition
    (!attemptExtension field.preparation next.preparation ||
      decide (next.recovery.length < field.recovery.length) ||
      decide (field.recovery.length + 1 < next.recovery.length))
  refuse .transition
    ((field.recovery.zip next.recovery).any
      (fun pair ↦ !attemptExtension (some pair.1) (some pair.2)))
  refuse .transition
    (next.recovery.length == field.recovery.length + 1 &&
      next.recovery.getLast?.any (fun attempt ↦ !attempt.valid true))
  return true

/-- The number of candidates among the fields. -/
def candidates (recovering : Bool) : List (FieldProvenance × FieldProvenance) → Except Fault ℕ
  | [] => .ok 0
  | (field, next) :: rest => do
    let candidate ← successorField recovering field next
    return candidate.toNat + (← candidates recovering rest)

/-- The revision after the one of a record, when it fits 64 bits. -/
def nextRevision : Except Fault ℕ :=
  match checkedAdd record.revision 1 with
  | none => .error (.error .limit)
  | some revision => .ok revision

def successor (record next : Provenance) : Except Fault Unit := do
  refuse .transition
    (record.events != some record.revision || next.events != some next.revision)
  if record = next then
    return
  refuse .transition
    (record.completed || record.codec != next.codec ||
      record.endpointHash != next.endpointHash || record.subjectHash != next.subjectHash ||
      record.fields.length != next.fields.length)
  refuse .transition (next.revision != (← record.nextRevision))
  let candidates ← candidates record.recovering (record.fields.zip next.fields)
  if next.completed then
    refuse .transition (candidates != 0)
    refuse .transition (!(← next.finished))
  else
    refuse .transition (candidates != 1)

end Provenance

end ObsMcp.Preparation
