import ObsMcp.Receipts.Identity

/-!
# Request receipts

The three receipt versions of `operation_store.rs` that follow one request: the version 1
`OperationReceipt` of a stage or record operation, the version 2 `GenericReceipt` of a single
request and the version 3 `RestoreReceipt` of a restore batch. A receipt is a record that passed its
validator, so a value of a receipt type cannot be malformed; `checkedBy` is the constructor the
source calls `checked`.

`GenericReceipt.updated` and `RestoreReceipt.updated` are the transition tables of
`BackendStore::update_generic` and `update_restore`. Their spec lemmas
`GenericReceipt.updated_eq_ok` and `RestoreReceipt.updated_eq_ok` say what an accepted update can
be: it leaves `prepared` or `dispatching`, so every later phase is final
(`GenericReceipt.updated_final`, `RestoreReceipt.updated_final`).
-/

namespace ObsMcp.Receipts

/-! ### Validated records -/

/-- The fields that identify a receipt in its store: who wrote it, for which endpoint and when. -/
structure Stamp where
  operationId : String
  endpointHash : String
  generation : ℕ
  createdAt : String
  updatedAt : String
  deriving DecidableEq

/-- The identity check that receipt versions 2 to 5 share. -/
def Stamp.valid (stamp : Stamp) : Bool :=
  validUuid stamp.operationId && validHash stamp.endpointHash
    && decide (stamp.generation ≤ maxSafeInteger)
    && validTimestamp stamp.createdAt && validTimestamp stamp.updatedAt
    && !textLt stamp.updatedAt stamp.createdAt

variable {utc : String} {ρ : Type} {stamp : Stamp} {record : ρ}

/-- A valid stamp stays valid when it is updated. Assumes: a valid timestamp not before the
creation. -/
theorem Stamp.valid_update (hvalid : stamp.valid = true) (hutc : validTimestamp utc = true)
    (horder : textLt utc stamp.createdAt = false) :
    ({ stamp with updatedAt := utc } : Stamp).valid = true := by
  simp only [Stamp.valid, Bool.and_eq_true, Bool.not_eq_true'] at hvalid ⊢
  obtain ⟨⟨⟨hidentity, hcreated⟩, -⟩, -⟩ := hvalid
  exact ⟨⟨⟨hidentity, hcreated⟩, hutc⟩, horder⟩

theorem Stamp.validTimestamp_created (hvalid : stamp.valid = true) :
    validTimestamp stamp.createdAt = true := by
  simp only [Stamp.valid, Bool.and_eq_true] at hvalid
  exact hvalid.1.1.2

/-- A stamp that was last updated when it was created. -/
theorem Stamp.created_eq (htime : stamp.updatedAt = stamp.createdAt) :
    ({ stamp with updatedAt := stamp.createdAt } : Stamp) = stamp := by
  cases stamp
  simp_all

/-- Accept a record that passes its validator. -/
def checkedBy {ρ : Type} (valid : ρ → Bool) (record : ρ) :
    Except StoreError {record : ρ // valid record = true} :=
  if hvalid : valid record = true then .ok ⟨record, hvalid⟩ else .error .invalidReceipt

theorem checkedBy_eq_ok {valid : ρ → Bool} {receipt : {record : ρ // valid record = true}} :
    checkedBy valid record = .ok receipt ↔ record = receipt.1 := by
  obtain ⟨stored, hstored⟩ := receipt
  unfold checkedBy
  split_ifs with hvalid
  · simp [Subtype.ext_iff]
  · simp only [false_iff]
    rintro rfl
    exact hvalid hstored

theorem checkedBy_eq_error {valid : ρ → Bool} {error : StoreError}
    (herror : checkedBy valid record = .error error) : error = .invalidReceipt := by
  unfold checkedBy at herror
  split_ifs at herror
  injection herror with herror
  exact herror.symm

theorem checkedBy_of_valid {valid : ρ → Bool} (hvalid : valid record = true) :
    checkedBy valid record = .ok ⟨record, hvalid⟩ :=
  checkedBy_eq_ok.mpr rfl

/-! ### Version 1: stage and record operations -/

inductive OperationKind
  | stageScene
  | takeScene
  | recordStart
  | recordStop
  deriving DecidableEq

inductive Phase
  | prepared
  | dispatching
  | accepted
  | observed
  | notDispatched
  | unknown
  deriving DecidableEq

def Phase.isUncertain : Phase → Bool
  | .dispatching | .accepted | .unknown => true
  | _ => false

structure OperationRecord extends Stamp where
  version : ℕ
  kind : OperationKind
  collectionHash : Option String
  sceneUuid : Option String
  stageId : Option String
  takeId : Option String
  phase : Phase
  requestDispatched : Option Bool
  requestAccepted : Option Bool
  postconditionObserved : Bool
  renderedComposition : String
  deriving DecidableEq

/-- The version 1 validator. Unlike the later versions it accepts an update time before the
creation time, and any disposition with any phase. -/
def OperationRecord.valid (record : OperationRecord) : Bool :=
  record.version == 1 && validUuid record.operationId && validHash record.endpointHash
    && record.collectionHash.all validHash && record.stageId.all validUuid
    && record.sceneUuid.all boundedIdentity && record.takeId.all boundedIdentity
    && decide (record.generation ≤ maxSafeInteger)
    && validTimestamp record.createdAt && validTimestamp record.updatedAt
    && record.renderedComposition == "unverified"

abbrev OperationReceipt := {record : OperationRecord // record.valid = true}

def OperationReceipt.checked : OperationRecord → Except StoreError OperationReceipt :=
  checkedBy OperationRecord.valid

structure PrepareDetails where
  sceneCollection : Option String
  sceneUuid : Option String
  stageId : Option String
  takeId : Option String

/-- A version 1 update. `none` keeps the old value; `some none` records uncertainty. -/
structure OperationUpdate where
  phase : Phase
  requestDispatched : Option (Option Bool)
  requestAccepted : Option (Option Bool)
  postconditionObserved : Option Bool

/-- The record an update writes over a receipt. -/
def OperationRecord.apply (record : OperationRecord) (update : OperationUpdate) (utc : String) :
    OperationRecord :=
  { record with
    phase := update.phase
    updatedAt := utc
    requestDispatched := update.requestDispatched.getD record.requestDispatched
    requestAccepted := update.requestAccepted.getD record.requestAccepted
    postconditionObserved := update.postconditionObserved.getD record.postconditionObserved }

/-! ### Version 2: single requests -/

/-- The closed list of request kinds a generic receipt can name. -/
inductive GenericKind
  | opaqueRequest
  | opaqueBatch
  | vendorRequest
  | hotkeyName
  | hotkeySequence
  | manualRecordStart
  | manualRecordToggle
  | namedOutputStart
  | namedOutputStop
  | namedOutputToggle
  | manualRecordStop
  | streamStart
  | virtualCamStart
  | replayBufferStart
  | streamToggle
  | virtualCamToggle
  | replayBufferToggle
  | streamStop
  | virtualCamStop
  | replayBufferStop
  | studioModeEnabled
  | inputPropertiesDialog
  | inputFiltersDialog
  | inputInteractDialog
  | videoMixProjector
  | sourceProjector
  | recordPause
  | recordResume
  | recordPauseToggle
  | recordFileSplit
  | recordChapter
  | broadcastCustomEvent
  | currentSceneTransitionSettings
  | createSourceFilter
  | sourceFilterSettings
  | inputPropertiesButton
  | saveSourceScreenshot
  | createInput
  | inputSettings
  | sceneItemTransform
  | persistentData
  | currentSceneCollection
  | createSceneCollection
  | currentProfile
  | createProfile
  | removeProfile
  | streamServiceSettings
  | recordDirectory
  | outputSettings
  | videoSettings
  | profileParameter
  | mediaInputCursor
  | mediaInputCursorOffset
  | mediaInputAction
  | inputAudioTracks
  | inputMuteToggle
  | inputVolume
  | streamCaption
  | saveReplayBuffer
  | createScene
  | removeScene
  | removeSceneItem
  | removeSourceFilter
  | sourceFilterName
  | sourceFilterIndex
  | removeInput
  | inputName
  | duplicateSceneItem
  | sceneName
  | createSceneItem
  | sceneItemEnabled
  | currentProgramScene
  | currentPreviewScene
  | triggerStudioModeTransition
  | currentSceneTransition
  | sceneSceneTransitionOverride
  | tBarPosition
  | currentSceneTransitionDuration
  | inputMute
  | inputAudioBalance
  | inputAudioSyncOffset
  | inputAudioMonitorType
  | inputDeinterlaceFieldOrder
  | inputDeinterlaceMode
  | sceneItemIndex
  | sceneItemLocked
  | sceneItemBlendMode
  | sourceFilterEnabled
  deriving DecidableEq

inductive GenericPhase
  | prepared
  | dispatching
  | accepted
  | rejected
  | notDispatched
  | unknown
  deriving DecidableEq

structure GenericRecord extends Stamp where
  version : ℕ
  kind : String
  requestType : GenericKind
  phase : GenericPhase
  requestDispatched : Option Bool
  requestAccepted : Option Bool
  postconditionObserved : Bool
  renderedComposition : String
  deriving DecidableEq

/-- What a generic phase says about dispatch and acceptance. -/
def GenericPhase.disposition : GenericPhase → Option Bool × Option Bool
  | .prepared | .notDispatched => (some false, none)
  | .dispatching | .unknown => (none, none)
  | .accepted => (some true, some true)
  | .rejected => (some true, some false)

def GenericRecord.valid (record : GenericRecord) : Bool :=
  record.version == 2 && record.kind == "request" && record.toStamp.valid
    && ((record.requestDispatched, record.requestAccepted) == record.phase.disposition)
    && !record.postconditionObserved && record.renderedComposition == "unverified"

abbrev GenericReceipt := {record : GenericRecord // record.valid = true}

def GenericReceipt.checked : GenericRecord → Except StoreError GenericReceipt :=
  checkedBy GenericRecord.valid

def GenericReceipt.blocking (receipt : GenericReceipt) : Bool :=
  match receipt.1.phase with
  | .dispatching | .unknown => true
  | _ => false

/-- The phase changes a generic receipt accepts. -/
def GenericPhase.next : GenericPhase → GenericPhase → Bool
  | .prepared, .dispatching | .prepared, .notDispatched => true
  | .dispatching, .accepted | .dispatching, .rejected
  | .dispatching, .notDispatched | .dispatching, .unknown => true
  | _, _ => false

/-- The update of a generic receipt that is the stored one. -/
def GenericReceipt.updated (receipt : GenericReceipt) (phase : GenericPhase) (utc : String) :
    Except StoreError GenericReceipt :=
  if receipt.1.phase.next phase then
    GenericReceipt.checked { receipt.1 with
      phase := phase
      updatedAt := utc
      requestDispatched := phase.disposition.1
      requestAccepted := phase.disposition.2 }
  else .error .conflict

/-- Inversion of a generic update: the phase change is in the table, the receipt keeps its
identity and takes the new phase. -/
theorem GenericReceipt.updated_eq_ok {receipt updated : GenericReceipt} {phase : GenericPhase}
    (hupdated : receipt.updated phase utc = .ok updated) :
    receipt.1.phase.next phase = true ∧ updated.1.phase = phase ∧
      updated.1.operationId = receipt.1.operationId ∧
        updated.1.endpointHash = receipt.1.endpointHash := by
  unfold GenericReceipt.updated at hupdated
  split_ifs at hupdated with hnext
  · have hrecord := checkedBy_eq_ok.mp hupdated
    rw [← hrecord]
    exact ⟨hnext, rfl, rfl, rfl⟩

/-- The phases a generic receipt never leaves. -/
def GenericPhase.final : GenericPhase → Bool
  | .accepted | .rejected | .notDispatched | .unknown => true
  | .prepared | .dispatching => false

theorem GenericReceipt.updated_final {receipt : GenericReceipt}
    (hfinal : receipt.1.phase.final = true) (phase : GenericPhase) (utc : String) :
    receipt.updated phase utc = .error .conflict := by
  have hnext : receipt.1.phase.next phase = false := by
    revert hfinal
    cases receipt.1.phase <;> cases phase <;> decide
  simp [GenericReceipt.updated, hnext]

/-! ### Version 3: restore batches -/

inductive RestorePhase
  | prepared
  | dispatching
  | acknowledged
  | notDispatched
  | unknown
  deriving DecidableEq

structure RestoreCounts where
  successful : ℕ
  failed : ℕ
  deriving DecidableEq

structure RestoreRecord extends Stamp where
  version : ℕ
  kind : String
  phase : RestorePhase
  executionType : ℕ
  haltOnFailure : Bool
  requestCount : ℕ
  requestDispatched : Option Bool
  batchAcknowledged : Option Bool
  successfulRequests : Option ℕ
  failedRequests : Option ℕ
  postconditionObserved : Bool
  renderedComposition : String
  deriving DecidableEq

/-- `u64::checked_add`. -/
def checkedAdd (first second : ℕ) : Option ℕ :=
  if first + second < 2 ^ 64 then some (first + second) else none

def RestorePhase.disposition : RestorePhase → Option Bool × Option Bool
  | .prepared | .notDispatched => (some false, none)
  | .dispatching | .unknown => (none, none)
  | .acknowledged => (some true, some true)

/-- The counted results agree with the phase: an acknowledged batch accounts for every request. -/
def RestoreRecord.countsAgree (record : RestoreRecord) : Bool :=
  match record.phase with
  | .acknowledged =>
    match record.successfulRequests, record.failedRequests with
    | some yes, some no => checkedAdd yes no == some record.requestCount
    | _, _ => false
  | _ => record.successfulRequests.isNone && record.failedRequests.isNone

def RestoreRecord.valid (record : RestoreRecord) : Bool :=
  record.version == 3 && record.kind == "manual-restore-batch" && record.executionType == 0
    && !record.haltOnFailure && record.requestCount != 0
    && decide (record.requestCount ≤ maxSafeInteger) && record.countsAgree
    && ((record.requestDispatched, record.batchAcknowledged) == record.phase.disposition)
    && record.toStamp.valid && !record.postconditionObserved
    && record.renderedComposition == "unverified"

abbrev RestoreReceipt := {record : RestoreRecord // record.valid = true}

def RestoreReceipt.checked : RestoreRecord → Except StoreError RestoreReceipt :=
  checkedBy RestoreRecord.valid

def RestoreReceipt.blocking (receipt : RestoreReceipt) : Bool :=
  match receipt.1.phase with
  | .dispatching | .unknown => true
  | _ => false

def RestorePhase.next : RestorePhase → RestorePhase → Bool
  | .prepared, .dispatching | .prepared, .notDispatched => true
  | .dispatching, .acknowledged | .dispatching, .notDispatched | .dispatching, .unknown => true
  | _, _ => false

/-- The update of a restore receipt that is the stored one. -/
def RestoreReceipt.updated (receipt : RestoreReceipt) (phase : RestorePhase)
    (counts : Option RestoreCounts) (utc : String) : Except StoreError RestoreReceipt :=
  if receipt.1.phase.next phase then
    RestoreReceipt.checked { receipt.1 with
      phase := phase
      updatedAt := utc
      successfulRequests := counts.map RestoreCounts.successful
      failedRequests := counts.map RestoreCounts.failed
      requestDispatched := phase.disposition.1
      batchAcknowledged := phase.disposition.2 }
  else .error .conflict

/-- Inversion of a restore update: the phase change is in the table, the receipt keeps its
identity and takes the new phase. -/
theorem RestoreReceipt.updated_eq_ok {receipt updated : RestoreReceipt} {phase : RestorePhase}
    {counts : Option RestoreCounts} (hupdated : receipt.updated phase counts utc = .ok updated) :
    receipt.1.phase.next phase = true ∧ updated.1.phase = phase ∧
      updated.1.operationId = receipt.1.operationId ∧
        updated.1.endpointHash = receipt.1.endpointHash := by
  unfold RestoreReceipt.updated at hupdated
  split_ifs at hupdated with hnext
  · have hrecord := checkedBy_eq_ok.mp hupdated
    rw [← hrecord]
    exact ⟨hnext, rfl, rfl, rfl⟩

/-- The phases a restore receipt never leaves. -/
def RestorePhase.final : RestorePhase → Bool
  | .acknowledged | .notDispatched | .unknown => true
  | .prepared | .dispatching => false

theorem RestoreReceipt.updated_final {receipt : RestoreReceipt}
    (hfinal : receipt.1.phase.final = true) (phase : RestorePhase) (counts : Option RestoreCounts)
    (utc : String) : receipt.updated phase counts utc = .error .conflict := by
  have hnext : receipt.1.phase.next phase = false := by
    revert hfinal
    cases receipt.1.phase <;> cases phase <;> decide
  simp [RestoreReceipt.updated, hnext]

end ObsMcp.Receipts
