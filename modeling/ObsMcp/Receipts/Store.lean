import ObsMcp.Receipts.Apply
import ObsMcp.Receipts.Capture

/-!
# The receipt store

The durable journal of `operation_store.rs`: a directory with one file per receipt. A `ReceiptFile`
is a file of the directory with the receipt it holds, or with none when it does not parse; the
round trip of a receipt through its JSON text is taken as the identity. `BackendStore` is the
directory together with the endpoint it serves and the flag of the read namespace that the source
calls `poisoned`.

A call of the file system can fail at any time. What it answers is an argument of the operations:
`Option IoError` for a read and `Publish` for a write, which fails before the rename, is durable, or
fails after the rename and leaves the file behind. `IoError` lists the refusals such a call can
cause; `InventoryLimit` is none of them.

Two spec lemmas carry every later invariant: `BackendStore.publishNew_cases` for the five `prepare`
functions and `BackendStore.publishUpdate_cases` for the five `update` functions. Each says that the
directory is unchanged or gained, respectively rewrote, exactly one receipt.
-/

namespace ObsMcp.Receipts

open List

/-! ### Receipts of any version -/

inductive StoredReceipt
  | v1 (receipt : OperationReceipt)
  | generic (receipt : GenericReceipt)
  | restore (receipt : RestoreReceipt)
  | apply (receipt : ApplyReceipt)
  | capture (receipt : CaptureReceipt)
  deriving DecidableEq

namespace StoredReceipt

def dispatching : StoredReceipt → Bool
  | .v1 receipt => receipt.1.phase == .dispatching
  | .generic receipt => receipt.1.phase == .dispatching
  | .restore receipt => receipt.1.phase == .dispatching
  | .apply receipt => receipt.dispatching
  | .capture receipt => receipt.dispatching

def knownLiveInFlight : StoredReceipt → Bool
  | .v1 receipt => receipt.1.phase == .dispatching || receipt.1.phase == .accepted
  | .generic receipt => receipt.1.phase == .dispatching
  | .restore receipt => receipt.1.phase == .dispatching
  | .apply receipt => receipt.live
  | .capture receipt => receipt.live

def stamp : StoredReceipt → Stamp
  | .v1 receipt => receipt.1.toStamp
  | .generic receipt => receipt.1.toStamp
  | .restore receipt => receipt.1.toStamp
  | .apply receipt => receipt.1.toStamp
  | .capture receipt => receipt.1.toStamp

def id (receipt : StoredReceipt) : String := receipt.stamp.operationId

def endpoint (receipt : StoredReceipt) : String := receipt.stamp.endpointHash

def blocking : StoredReceipt → Bool
  | .v1 receipt => receipt.1.phase.isUncertain
  | .generic receipt => receipt.blocking
  | .restore receipt => receipt.blocking
  | .apply receipt => receipt.blocking
  | .capture receipt => receipt.blocking

/-- The phase of the receipt is the one its version calls `Unknown`. -/
def unknown : StoredReceipt → Bool
  | .v1 receipt => receipt.1.phase == .unknown
  | .generic receipt => receipt.1.phase == .unknown
  | .restore receipt => receipt.1.phase == .unknown
  | .apply receipt => receipt.1.phase == .unknown
  | .capture receipt => receipt.1.phase == .unknown

/-- The versions after the first. -/
def isGenericV2 : StoredReceipt → Bool
  | .v1 _ => false
  | _ => true

variable {receipt : StoredReceipt}

/-- What is being sent blocks other effects. -/
theorem blocking_of_dispatching (hsent : receipt.dispatching = true) : receipt.blocking = true := by
  cases receipt with
  | v1 receipt => simp_all [dispatching, blocking, Phase.isUncertain]
  | generic receipt => simp_all [dispatching, blocking, GenericReceipt.blocking]
  | restore receipt => simp_all [dispatching, blocking, RestoreReceipt.blocking]
  | apply receipt =>
    simp only [dispatching, ApplyReceipt.dispatching, blocking, ApplyReceipt.blocking] at *
    split at hsent <;> simp_all
  | capture receipt =>
    simp_all [dispatching, CaptureReceipt.dispatching, blocking, CaptureReceipt.blocking]

/-- What is known to be live is not unknown. -/
theorem not_unknown_of_live (hlive : receipt.knownLiveInFlight = true) :
    receipt.unknown = false := by
  cases receipt with
  | v1 receipt =>
    simp only [knownLiveInFlight, Bool.or_eq_true, beq_iff_eq] at hlive
    rcases hlive with hphase | hphase <;> simp [unknown, hphase]
  | generic receipt => simp_all [knownLiveInFlight, unknown]
  | restore receipt => simp_all [knownLiveInFlight, unknown]
  | apply receipt =>
    simp only [knownLiveInFlight, ApplyReceipt.live, unknown] at *
    split at hlive <;> simp_all
  | capture receipt =>
    simp only [knownLiveInFlight, CaptureReceipt.live, unknown] at *
    split at hlive <;> simp_all

end StoredReceipt

/-! ### The directory -/

/-- A file of the receipt directory, without its extension. -/
structure ReceiptFile where
  name : String
  content : Option StoredReceipt

/-- The receipt of a file that is well formed: its name is an identifier and the receipt has it. -/
def ReceiptFile.receipt (file : ReceiptFile) : Option StoredReceipt :=
  if validUuid file.name then file.content.filter fun receipt ↦ receipt.id == file.name else none

/-- The receipt directory of an endpoint, whose files have distinct names, and the flag of its read
namespace. -/
structure BackendStore where
  endpointHash : String
  files : List ReceiptFile
  viewPoisoned : Bool
  distinct : (files.map ReceiptFile.name).Nodup

/-- The refusals that a call of the file system, or a check of its answer, can cause. -/
inductive IoError
  | unsafePath
  | missing
  | corrupt
  | receiptTooLarge
  | conflict
  | identityExhausted
  | unavailable

def IoError.toStoreError : IoError → StoreError
  | .unsafePath => .unsafePath
  | .missing => .missing
  | .corrupt => .corrupt
  | .receiptTooLarge => .receiptTooLarge
  | .conflict => .conflict
  | .identityExhausted => .identityExhausted
  | .unavailable => .unavailable

/-- What becomes of a write: it is durable, it fails before the file is renamed into place, or it
fails after. -/
inductive Publish
  | durable
  | failed (error : IoError)
  | uncertain

structure Admission where
  blocking : Bool
  genericV2Present : Bool
  total : ℕ

namespace BackendStore

/-- The receipts of the endpoint, after the whole bounded directory was read. The source also sorts
them for display. -/
def inventory (store : BackendStore) (fault : Option IoError) :
    Except StoreError (List StoredReceipt) :=
  if store.viewPoisoned then .error .durabilityUncertain
  else
    match fault with
    | some error => .error error.toStoreError
    | none =>
      if store.files.length > maxReceipts then .error .inventoryLimit
      else if store.files.all fun file ↦ file.receipt.isSome then
        .ok ((store.files.filterMap ReceiptFile.receipt).filter fun receipt ↦
          receipt.endpoint == store.endpointHash)
      else .error .corrupt

def capacityUsed (store : BackendStore) (fault : Option IoError) : Except StoreError ℕ :=
  match fault with
  | some error => .error error.toStoreError
  | none =>
    if store.files.length > maxReceipts then .error .inventoryLimit
    else .ok store.files.length

def isDispatching (store : BackendStore) (id : String) (fault : Option IoError) :
    Except StoreError Bool :=
  (store.inventory fault).map fun inventory ↦
    inventory.any fun receipt ↦ receipt.id == id && receipt.dispatching

/-- The admission facts, with the receipts that block by a test. -/
def admissionBy (inventory : List StoredReceipt) (blocks : StoredReceipt → Bool) : Admission where
  blocking := inventory.any blocks
  genericV2Present := inventory.any StoredReceipt.isGenericV2
  total := inventory.length

def admissionExcept (store : BackendStore) (own : Option String) (fault : Option IoError) :
    Except StoreError Admission :=
  (store.inventory fault).map fun inventory ↦
    admissionBy inventory fun entry ↦ some entry.id != own && entry.blocking

def admission (store : BackendStore) (fault : Option IoError) : Except StoreError Admission :=
  store.admissionExcept none fault

/-- Admission of a public stop: the receipts of live loans that are known to be in flight do not
block it. -/
def admissionWithLiveIds (store : BackendStore) (own : Option String) (live : List String)
    (fault : Option IoError) : Except StoreError Admission :=
  match store.inventory fault with
  | .error error => .error error
  | .ok inventory =>
    if live.any fun id ↦ !inventory.any fun entry ↦ entry.id == id then .error .missing
    else if own.any fun own ↦ !inventory.any fun entry ↦ entry.id == own && entry.dispatching then
      .error .conflict
    else
      .ok (admissionBy inventory fun entry ↦
        entry.blocking && some entry.id != own
          && !(live.contains entry.id && entry.knownLiveInFlight))

/-- The file of a name. -/
def file (store : BackendStore) (name : String) : Option ReceiptFile :=
  store.files.find? fun file ↦ file.name == name

/-- `read_stored` of the file of an identifier. -/
def readStored (store : BackendStore) (id : String) (fault : Option IoError) :
    Except StoreError StoredReceipt :=
  match fault with
  | some error => .error error.toStoreError
  | none =>
    match store.file id with
    | none => .error .missing
    | some file =>
      match file.content with
      | none => .error .corrupt
      | some receipt => .ok receipt

/-- `BackendStore::read`, which reads version 1 receipts only. -/
def read (store : BackendStore) (id : String) (fault : Option IoError) :
    Except StoreError OperationReceipt :=
  if !validUuid id then .error .invalidIdentifier
  else
    match store.readStored id fault with
    | .error error => .error error
    | .ok (.v1 receipt) =>
      if receipt.1.operationId != id then .error .corrupt
      else if receipt.1.endpointHash != store.endpointHash then .error .endpointMismatch
      else .ok receipt
    | .ok _ => .error .corrupt

/-- The files with one more, or with the file of that name rewritten. -/
def filesWith (store : BackendStore) (id : String) (receipt : StoredReceipt) : List ReceiptFile :=
  if (store.file id).isSome then
    store.files.map fun file ↦
      if file.name == id then { file with content := some receipt } else file
  else store.files ++ [⟨id, some receipt⟩]

/-- Writing a file keeps the other names, and adds its own when it is new. -/
theorem filesWith_names (store : BackendStore) (id : String) (receipt : StoredReceipt) :
    (store.filesWith id receipt).map ReceiptFile.name =
      if (store.file id).isSome then store.files.map ReceiptFile.name
      else store.files.map ReceiptFile.name ++ [id] := by
  unfold filesWith
  split_ifs with hexists
  · rw [map_map]
    refine map_congr_left fun file _ ↦ ?_
    by_cases hname : file.name = id <;> simp [hname]
  · simp

theorem filesWith_nodup (store : BackendStore) (id : String) (receipt : StoredReceipt) :
    ((store.filesWith id receipt).map ReceiptFile.name).Nodup := by
  rw [filesWith_names]
  split_ifs with hexists
  · exact store.distinct
  · rw [nodup_append]
    refine ⟨store.distinct, by simp, ?_⟩
    intro name hname other hother hsame
    obtain ⟨file, hfile, rfl⟩ := mem_map.mp hname
    refine hexists (find?_isSome.mpr ⟨file, hfile, ?_⟩)
    simpa using hsame.trans (mem_singleton.mp hother)

/-- The directory with a file written. -/
def write (store : BackendStore) (id : String) (receipt : StoredReceipt) : BackendStore :=
  { store with
    files := store.filesWith id receipt
    distinct := store.filesWith_nodup id receipt }

/-- Write a receipt to its file, which must be there when it replaces one and must not when it is
new. -/
def persistValue (store : BackendStore) (id : String) (receipt : StoredReceipt) (replacing : Bool)
    (publish : Publish) : Except StoreError Unit × BackendStore :=
  match publish with
  | .failed error => (.error error.toStoreError, store)
  | .durable | .uncertain =>
    if (store.file id).isSome != replacing then
      (.error (if replacing then .missing else .conflict), store)
    else
      match publish with
      | .uncertain => (.error .durabilityUncertain, store.write id receipt)
      | _ => (.ok (), store.write id receipt)

/-! ### Preparing and updating receipts -/

/-- Write the receipt of a new operation, once its record passed the validator. -/
def publishNew {ρ : Type} (store : BackendStore) (id : String) (wrap : ρ → StoredReceipt)
    (receipt : Except StoreError ρ) (publish : Publish) : Except StoreError ρ × BackendStore :=
  match receipt with
  | .error error => (.error error, store)
  | .ok receipt =>
    match store.persistValue id (wrap receipt) false publish with
    | (.error error, store') => (.error error, store')
    | (.ok (), store') => (.ok receipt, store')

/-- Write the next version of a receipt that is the stored one. -/
def publishUpdate {ρ : Type} (store : BackendStore) (wrap : ρ → StoredReceipt) (receipt : ρ)
    (updated : Except StoreError ρ) (read : Option IoError) (publish : Publish) :
    Except StoreError ρ × BackendStore :=
  if (wrap receipt).endpoint != store.endpointHash then (.error .endpointMismatch, store)
  else
    match store.readStored (wrap receipt).id read with
    | .error error => (.error error, store)
    | .ok actual =>
      if actual != wrap receipt then (.error .conflict, store)
      else
        match updated with
        | .error error => (.error error, store)
        | .ok updated =>
          match store.persistValue (wrap updated).id (wrap updated) true publish with
          | (.error error, store') => (.error error, store')
          | (.ok (), store') => (.ok updated, store')

def prepare (hash : String → String) (store : BackendStore) (operationId : String)
    (kind : OperationKind) (generation : ℕ) (utc : String) (details : PrepareDetails)
    (publish : Publish) : Except StoreError OperationReceipt × BackendStore :=
  if !validUuid operationId then (.error .invalidIdentifier, store)
  else if !validTimestamp utc then (.error .invalidTimestamp, store)
  else
    store.publishNew operationId .v1 (OperationReceipt.checked {
      operationId := operationId
      endpointHash := store.endpointHash
      generation := generation
      createdAt := utc
      updatedAt := utc
      version := 1
      kind := kind
      collectionHash := details.sceneCollection.map hash
      sceneUuid := details.sceneUuid
      stageId := details.stageId
      takeId := details.takeId
      phase := .prepared
      requestDispatched := some false
      requestAccepted := none
      postconditionObserved := false
      renderedComposition := "unverified" }) publish

/-- The update of a version 1 receipt, which checks the time first and reads the stored receipt
through the version 1 reader. -/
def update (store : BackendStore) (receipt : OperationReceipt) (update : OperationUpdate)
    (utc : String) (read : Option IoError) (publish : Publish) :
    Except StoreError OperationReceipt × BackendStore :=
  if !validTimestamp utc then (.error .invalidTimestamp, store)
  else if receipt.1.endpointHash != store.endpointHash then (.error .endpointMismatch, store)
  else
    match store.read receipt.1.operationId read with
    | .error error => (.error error, store)
    | .ok actual =>
      if actual != receipt then (.error .conflict, store)
      else
        match OperationReceipt.checked (receipt.1.apply update utc) with
        | .error error => (.error error, store)
        | .ok updated =>
          match store.persistValue updated.1.operationId (.v1 updated) true publish with
          | (.error error, store') => (.error error, store')
          | (.ok (), store') => (.ok updated, store')

def prepareGeneric (store : BackendStore) (id : String) (kind : GenericKind) (generation : ℕ)
    (utc : String) (publish : Publish) : Except StoreError GenericReceipt × BackendStore :=
  store.publishNew id .generic (GenericReceipt.checked {
    operationId := id
    endpointHash := store.endpointHash
    generation := generation
    createdAt := utc
    updatedAt := utc
    version := 2
    kind := "request"
    requestType := kind
    phase := .prepared
    requestDispatched := some false
    requestAccepted := none
    postconditionObserved := false
    renderedComposition := "unverified" }) publish

def updateGeneric (store : BackendStore) (receipt : GenericReceipt) (phase : GenericPhase)
    (utc : String) (read : Option IoError) (publish : Publish) :
    Except StoreError GenericReceipt × BackendStore :=
  store.publishUpdate .generic receipt (receipt.updated phase utc) read publish

def prepareRestore (store : BackendStore) (id : String) (generation requestCount : ℕ)
    (utc : String) (publish : Publish) : Except StoreError RestoreReceipt × BackendStore :=
  store.publishNew id .restore (RestoreReceipt.checked {
    operationId := id
    endpointHash := store.endpointHash
    generation := generation
    createdAt := utc
    updatedAt := utc
    version := 3
    kind := "manual-restore-batch"
    phase := .prepared
    executionType := 0
    haltOnFailure := false
    requestCount := requestCount
    requestDispatched := some false
    batchAcknowledged := none
    successfulRequests := none
    failedRequests := none
    postconditionObserved := false
    renderedComposition := "unverified" }) publish

def updateRestore (store : BackendStore) (receipt : RestoreReceipt) (phase : RestorePhase)
    (counts : Option RestoreCounts) (utc : String) (read : Option IoError) (publish : Publish) :
    Except StoreError RestoreReceipt × BackendStore :=
  store.publishUpdate .restore receipt (receipt.updated phase counts utc) read publish

def prepareApply (store : BackendStore) (id : String) (generation creationCount : ℕ)
    (utc : String) (publish : Publish) : Except StoreError ApplyReceipt × BackendStore :=
  store.publishNew id .apply
    (ApplyReceipt.prepare id store.endpointHash generation creationCount utc) publish

def updateApply (store : BackendStore) (receipt : ApplyReceipt) (update : ApplyUpdate)
    (utc : String) (read : Option IoError) (publish : Publish) :
    Except StoreError ApplyReceipt × BackendStore :=
  store.publishUpdate .apply receipt (receipt.updated update utc) read publish

def prepareCapture (store : BackendStore) (id : String) (generation : ℕ) (plan : CapturePlan)
    (utc : String) (publish : Publish) : Except StoreError CaptureReceipt × BackendStore :=
  store.publishNew id .capture
    (CaptureReceipt.prepare id store.endpointHash generation plan utc) publish

def updateCapture (store : BackendStore) (receipt : CaptureReceipt) (update : CaptureUpdate)
    (utc : String) (read : Option IoError) (publish : Publish) :
    Except StoreError CaptureReceipt × BackendStore :=
  store.publishUpdate .capture receipt (receipt.updated update utc) read publish

/-! ### What an operation does to the directory -/

section Write

variable (store : BackendStore) (id : String) (receipt : StoredReceipt)

theorem write_length_of_new (hnew : store.file id = none) :
    (store.write id receipt).files.length = store.files.length + 1 := by
  simp [write, filesWith, hnew]

theorem write_length_of_old {file : ReceiptFile} (hold : store.file id = some file) :
    (store.write id receipt).files.length = store.files.length := by
  simp [write, filesWith, hold]

/-- Writing a file leaves the other files as they were. -/
theorem file_write_other {other : String} (hother : other ≠ id) :
    (store.write id receipt).file other = store.file other := by
  show (store.filesWith id receipt).find? (fun file ↦ file.name == other) =
    store.files.find? fun file ↦ file.name == other
  unfold filesWith
  split_ifs with hexists
  · generalize store.files = files
    induction files with
    | nil => rfl
    | cons head tail ih =>
      rw [map_cons, find?_cons, find?_cons, ih]
      by_cases hname : head.name = id
      · have hne : (id == other) = false := by simpa using hother.symm
        simp [hname, hne]
      · simp [hname]
  · have hne : (id == other) = false := by simpa using hother.symm
    simp [find?_append, hne]

/-- A written file holds the receipt. -/
theorem file_write_self : (store.write id receipt).file id = some ⟨id, some receipt⟩ := by
  show (store.filesWith id receipt).find? (fun file ↦ file.name == id) = some ⟨id, some receipt⟩
  unfold filesWith
  split_ifs with hexists
  · unfold file at hexists
    generalize store.files = files at hexists ⊢
    induction files with
    | nil => simp at hexists
    | cons head tail ih =>
      rw [map_cons, find?_cons]
      by_cases hname : head.name = id
      · simp [hname]
      · have htail : (tail.find? fun file ↦ file.name == id).isSome = true := by
          simpa [find?_cons, hname] using hexists
        have hne : (head.name == id) = false := by simpa using hname
        simp only [hne, Bool.false_eq_true, if_false]
        exact ih htail
  · have hnone : store.files.find? (fun file ↦ file.name == id) = none := by
      simpa [file] using hexists
    simp [find?_append, hnone]

end Write

variable {store : BackendStore}

variable {file : ReceiptFile} {ρ : Type} {fault : Option IoError} {id : String}

/-- A file of the directory is the one of its name. -/
theorem file_of_mem (hfile : file ∈ store.files) : store.file file.name = some file := by
  have hdistinct := store.distinct
  unfold BackendStore.file
  generalize store.files = files at hfile hdistinct ⊢
  induction files with
  | nil => cases hfile
  | cons head tail ih =>
    rw [map_cons, nodup_cons] at hdistinct
    rw [find?_cons]
    rcases mem_cons.mp hfile with rfl | hfile
    · simp
    · have hne : (head.name == file.name) = false := by
        rw [beq_eq_false_iff_ne]
        intro hsame
        exact hdistinct.1 (hsame ▸ mem_map_of_mem hfile)
      rw [hne]
      exact ih hfile hdistinct.2

theorem file_name {name : String} (hfile : store.file name = some file) : file.name = name := by
  have := find?_some hfile
  simpa using this

/-- What a write can come to: it is refused without a trace, or the file is there and the only
refusal is the one that says so. -/
theorem persistValue_cases (store : BackendStore) (id : String) (receipt : StoredReceipt)
    (replacing : Bool) (publish : Publish) :
    (∃ error, error ≠ .inventoryLimit ∧ error ≠ .durabilityUncertain ∧
        store.persistValue id receipt replacing publish = (.error error, store)) ∨
      (store.file id).isSome = replacing ∧
        (store.persistValue id receipt replacing publish = (.ok (), store.write id receipt) ∨
          store.persistValue id receipt replacing publish =
            (.error .durabilityUncertain, store.write id receipt)) := by
  cases publish with
  | failed error =>
    refine .inl ⟨error.toStoreError, ?_, ?_, rfl⟩ <;> cases error <;> decide
  | durable =>
    by_cases hexists : (store.file id).isSome = replacing
    · exact .inr ⟨hexists, .inl (by simp [persistValue, hexists])⟩
    · exact .inl ⟨if replacing then .missing else .conflict, by cases replacing <;> decide,
        by cases replacing <;> decide, by simp [persistValue, hexists]⟩
  | uncertain =>
    by_cases hexists : (store.file id).isSome = replacing
    · exact .inr ⟨hexists, .inr (by simp [persistValue, hexists])⟩
    · exact .inl ⟨if replacing then .missing else .conflict, by cases replacing <;> decide,
        by cases replacing <;> decide, by simp [persistValue, hexists]⟩

/-- What preparing a receipt can come to. Assumes: the only refusal of the record is
`InvalidReceipt`. -/
theorem publishNew_cases (store : BackendStore) (id : String) (wrap : ρ → StoredReceipt)
    {receipt : Except StoreError ρ} (publish : Publish)
    (hinvalid : ∀ error, receipt = .error error → error = .invalidReceipt) :
    (∃ error, error ≠ .inventoryLimit ∧ error ≠ .durabilityUncertain ∧
        store.publishNew id wrap receipt publish = (.error error, store)) ∨
      ∃ new, receipt = .ok new ∧ store.file id = none ∧
        (store.publishNew id wrap receipt publish = (.ok new, store.write id (wrap new)) ∨
          store.publishNew id wrap receipt publish =
            (.error .durabilityUncertain, store.write id (wrap new))) := by
  cases receipt with
  | error error =>
    obtain rfl := hinvalid error rfl
    exact .inl ⟨.invalidReceipt, by decide, by decide, rfl⟩
  | ok new =>
    rcases store.persistValue_cases id (wrap new) false publish with
      ⟨error, hlimit, huncertain, hpersist⟩ | ⟨hnew, hpersist⟩
    · exact .inl ⟨error, hlimit, huncertain, by simp [publishNew, hpersist]⟩
    · refine .inr ⟨new, rfl, by simpa using hnew, hpersist.imp (fun h ↦ ?_) fun h ↦ ?_⟩ <;>
        simp [publishNew, h]

theorem readStored_eq_ok {receipt : StoredReceipt}
    (hread : store.readStored id fault = .ok receipt) :
    store.file id = some ⟨id, some receipt⟩ := by
  unfold readStored at hread
  split at hread
  · cases hread
  · split at hread
    · cases hread
    · rename_i file hfile
      split at hread
      · cases hread
      · rename_i content hcontent
        injection hread with hcontent'
        rw [hfile, ← hcontent', ← hcontent, ← file_name hfile]

/-- What updating a receipt can come to. -/
theorem publishUpdate_cases (store : BackendStore) (wrap : ρ → StoredReceipt) (receipt : ρ)
    (updated : Except StoreError ρ) (read : Option IoError) (publish : Publish) :
    (∃ error, store.publishUpdate wrap receipt updated read publish = (.error error, store)) ∨
      ∃ new, updated = .ok new ∧
        store.file (wrap receipt).id = some ⟨(wrap receipt).id, some (wrap receipt)⟩ ∧
        (store.publishUpdate wrap receipt updated read publish =
            (.ok new, store.write (wrap new).id (wrap new)) ∨
          store.publishUpdate wrap receipt updated read publish =
            (.error .durabilityUncertain, store.write (wrap new).id (wrap new))) := by
  unfold publishUpdate
  by_cases hendpoint : ((wrap receipt).endpoint != store.endpointHash) = true
  · exact .inl ⟨.endpointMismatch, by simp [hendpoint]⟩
  · cases hread : store.readStored (wrap receipt).id read with
    | error error => exact .inl ⟨error, by simp [hendpoint]⟩
    | ok actual =>
      by_cases hstale : (actual != wrap receipt) = true
      · exact .inl ⟨.conflict, by simp [hendpoint, hstale]⟩
      · have hactual : actual = wrap receipt := by simpa using hstale
        cases updated with
        | error error => exact .inl ⟨error, by simp [hendpoint, hstale]⟩
        | ok new =>
          rcases store.persistValue_cases (wrap new).id (wrap new) true publish with
            ⟨error, -, -, hpersist⟩ | ⟨-, hpersist⟩
          · exact .inl ⟨error, by simp [hendpoint, hstale, hpersist]⟩
          · refine .inr ⟨new, rfl, ?_, hpersist.imp (fun h ↦ ?_) fun h ↦ ?_⟩
            · rw [readStored_eq_ok hread, hactual]
            · simp [hendpoint, hstale, h]
            · simp [hendpoint, hstale, h]

theorem read_eq_ok {receipt : OperationReceipt} (hread : store.read id fault = .ok receipt) :
    store.readStored id fault = .ok (.v1 receipt) := by
  unfold read at hread
  split_ifs at hread
  split at hread
  · cases hread
  · split_ifs at hread
    injection hread with hread
    rwa [← hread]
  · cases hread

/-- What updating a version 1 receipt can come to. -/
theorem update_cases (store : BackendStore) (receipt : OperationReceipt)
    (update : OperationUpdate) (utc : String) (read : Option IoError) (publish : Publish) :
    (∃ error, store.update receipt update utc read publish = (.error error, store)) ∨
      ∃ new, OperationReceipt.checked (receipt.1.apply update utc) = .ok new ∧
        store.file receipt.1.operationId = some ⟨receipt.1.operationId, some (.v1 receipt)⟩ ∧
        (store.update receipt update utc read publish =
            (.ok new, store.write new.1.operationId (.v1 new)) ∨
          store.update receipt update utc read publish =
            (.error .durabilityUncertain, store.write new.1.operationId (.v1 new))) := by
  unfold BackendStore.update
  by_cases htime : (!validTimestamp utc) = true
  · exact .inl ⟨.invalidTimestamp, by simp [htime]⟩
  · by_cases hendpoint : (receipt.1.endpointHash != store.endpointHash) = true
    · exact .inl ⟨.endpointMismatch, by simp [htime, hendpoint]⟩
    · cases hread : store.read receipt.1.operationId read with
      | error error => exact .inl ⟨error, by simp [htime, hendpoint]⟩
      | ok actual =>
        by_cases hstale : (actual != receipt) = true
        · exact .inl ⟨.conflict, by simp [htime, hendpoint, hstale]⟩
        · have hactual : actual = receipt := by simpa using hstale
          cases hchecked : OperationReceipt.checked (receipt.1.apply update utc) with
          | error error => exact .inl ⟨error, by simp [htime, hendpoint, hstale]⟩
          | ok new =>
            rcases store.persistValue_cases new.1.operationId (.v1 new) true publish with
              ⟨error, -, -, hpersist⟩ | ⟨-, hpersist⟩
            · exact .inl ⟨error, by simp [htime, hendpoint, hstale, hpersist]⟩
            · refine .inr ⟨new, rfl, ?_, hpersist.imp (fun h ↦ ?_) fun h ↦ ?_⟩
              · rw [readStored_eq_ok (read_eq_ok hread), hactual]
              · simp [htime, hendpoint, hstale, h]
              · simp [htime, hendpoint, hstale, h]

end BackendStore

end ObsMcp.Receipts
