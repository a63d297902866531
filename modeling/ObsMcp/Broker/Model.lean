import ObsMcp.Receipts.Store

/-!
# The receipt broker

`receipt_broker.rs`: one writer of the receipt store, shared through scopes. A scope has a kind, the
identifiers of the receipts it prepared and, for a Take, the reservation of one receipt for the
stop of its recording. Every operation below runs under the broker's lock, so it is one step of a
run; the answers of the file system it meets are its `BrokerIo`.

A port is the number of its scope. `State.apply` is the wrapper of every prepare and update: a
refusal that loses the proof of what is durable poisons the broker and its read view.
`DispatchFence::permits` is `State.permits`.

`State.Moves` says once what a step of the broker can do: `State.exec_moves` is the inversion that
the modules on reservations and on the dispatch fence build on.
-/

namespace ObsMcp.Broker

open Foundations Receipts

def maxScopes : ℕ := 34

inductive SafetyStopRequest
  | stream
  | virtualCam
  | replayBuffer
  deriving DecidableEq

inductive ScopeKind
  | take
  | stage
  | criticalRecord
  | generic (kind : GenericKind)
  | safetyStop (request : SafetyStopRequest)
  | manualRecordStop
  | restoreBatch
  | applyScene
  | captureWindow
  deriving DecidableEq

def ScopeKind.isPublicStop : ScopeKind → Bool
  | .safetyStop _ | .manualRecordStop => true
  | _ => false

/-- A scope with its port, the key of the source's map. The set of its receipt identifiers is a
list without duplicates. -/
structure Scope where
  port : ℕ
  kind : ScopeKind
  ids : List String
  stopReserved : Bool
  deriving DecidableEq

/-- The scope after it prepared a receipt. -/
def Scope.own (scope : Scope) (id : String) : Scope := { scope with ids := scope.ids.insert id }

/-- A Take whose stop was prepared starts another recording. -/
def Scope.restarting (scope : Scope) (kind : OperationKind) : Bool :=
  scope.kind == .take && kind == .recordStart && !scope.stopReserved

/-- Whether a scope holds a reservation after it prepared an operation, from whether it held one. -/
def Scope.keeps (scope : Scope) (kind : OperationKind) (reserved : Bool) : Bool :=
  if kind == .recordStop then false else scope.restarting kind || reserved

structure State where
  store : BackendStore
  scopes : List Scope
  next : ℕ
  poisoned : Bool

/-- The answers of the file system in one operation: of the inventory behind an admission, of the
one behind `is_dispatching`, of the capacity count, of the read before an update, of the write, and
of the inventory that a refusal is followed by. -/
structure BrokerIo where
  admission : Option IoError
  dispatching : Option IoError
  capacity : Option IoError
  read : Option IoError
  publish : Publish
  recheck : Option IoError

def safetyKind : SafetyStopRequest → GenericKind
  | .stream => .streamStop
  | .virtualCam => .virtualCamStop
  | .replayBuffer => .replayBufferStop

def scopeMatchesGeneric (scope : ScopeKind) (kind : GenericKind) : Bool :=
  match scope with
  | .generic expected => expected == kind
  | .safetyStop expected => safetyKind expected == kind
  | .manualRecordStop => kind == .manualRecordStop
  | _ => false

/-- The operations a version 1 receipt can be prepared for in a scope. -/
def scopeMatchesOperation (scope : ScopeKind) (kind : OperationKind) : Bool :=
  match scope, kind with
  | .take, .recordStart | .take, .recordStop => true
  | .criticalRecord, .recordStart | .criticalRecord, .recordStop => true
  | .stage, .stageScene | .stage, .takeScene => true
  | _, _ => false

namespace State

variable (state : State)

/-- The scope of a port. -/
def scopeOf (port : ℕ) : Option Scope :=
  state.scopes.find? fun scope ↦ scope.port == port

/-- The number of scopes that keep a receipt for a stop. -/
def reserved : ℕ := state.scopes.countP fun scope ↦ scope.stopReserved

/-- The identifiers of the receipts of all live scopes. -/
def liveIds : List String := state.scopes.flatMap fun scope ↦ scope.ids

/-- The broker after it lost the proof of what is durable. -/
def poison : State :=
  { state with poisoned := true, store := { state.store with viewPoisoned := true } }

/-- A scope changed in place. -/
def modify (port : ℕ) (change : Scope → Scope) : State :=
  { state with
    scopes := state.scopes.map fun scope ↦ if scope.port == port then change scope else scope }

def safetyAdmission (own : Option String) (fault : Option IoError) :
    Except StoreError Admission × State :=
  match state.store.admissionWithLiveIds own state.liveIds fault with
  | .ok admission => (.ok admission, state)
  | .error .conflict => (.error .conflict, state)
  | .error error => (.error error, state.poison)

/-- The new scope that an admitted request opens. -/
def openScope (kind : ScopeKind) : Except StoreError ℕ × State :=
  if state.next + 1 < 2 ^ 64 then
    (.ok (state.next + 1), { state with
      next := state.next + 1
      scopes := state.scopes ++
        [{ port := state.next + 1, kind := kind, ids := [], stopReserved := kind == .take }] })
  else (.error .identityExhausted, state)

/-- The last check of a new scope: a Take is the only one and leaves room for two receipts. -/
def reserveScope (kind : ScopeKind) (io : BrokerIo) : Except StoreError ℕ × State :=
  if kind = .take then
    if state.scopes.any fun scope ↦ scope.kind == .take then (.error .inventoryLimit, state)
    else
      match state.store.capacityUsed io.capacity with
      | .error error => (.error error, state)
      | .ok used =>
        if used + 2 > maxReceipts then (.error .inventoryLimit, state)
        else state.openScope kind
  else state.openScope kind

/-- `ReceiptBroker::scope`. -/
def scope (state : State) (kind : ScopeKind) (io : BrokerIo) : Except StoreError ℕ × State :=
  if state.poisoned then (.error .durabilityUncertain, state)
  else if state.scopes.length ≥ maxScopes then (.error .conflict, state)
  else if kind.isPublicStop then
    if state.scopes.any fun scope ↦ scope.kind.isPublicStop then (.error .conflict, state)
    else
      match state.safetyAdmission none io.admission with
      | (.error error, state') => (.error error, state')
      | (.ok admission, state') =>
        if admission.blocking then (.error .conflict, state') else state'.reserveScope kind io
  else
    match state.store.admission io.admission with
    | .error error => (.error error, state)
    | .ok admission =>
      if admission.blocking then (.error .conflict, state) else state.reserveScope kind io

/-- `DispatchFence::permits` of the fence of a port. -/
def permits (port : ℕ) (own : String) (io : BrokerIo) : Except StoreError Bool × State :=
  if state.poisoned then (.error .durabilityUncertain, state)
  else
    match state.scopeOf port with
    | none => (.error .conflict, state)
    | some scope =>
      if !scope.ids.contains own then (.error .conflict, state)
      else if scope.kind.isPublicStop then
        match state.safetyAdmission (some own) io.admission with
        | (.error error, state') => (.error error, state')
        | (.ok admission, state') => (.ok !admission.blocking, state')
      else
        match state.store.isDispatching own io.dispatching with
        | .error error => (.error error, state)
        | .ok false => (.ok false, state)
        | .ok true =>
          match state.store.admissionExcept (some own) io.admission with
          | .error error => (.error error, state)
          | .ok admission => (.ok !admission.blocking, state)

/-- `DispatchFence::admission` of the fence of a port. -/
def fenceAdmission (port : ℕ) (io : BrokerIo) : Except StoreError Admission × State :=
  if state.poisoned then (.error .durabilityUncertain, state)
  else
    match state.scopeOf port with
    | none => (.error .conflict, state)
    | some scope =>
      if scope.kind.isPublicStop then state.safetyAdmission none io.admission
      else (state.store.admission io.admission, state)

/-! ### Ports -/

/-- The refusals after which it is open what is durable. -/
def losesProof : StoreError → Bool
  | .durabilityUncertain | .unavailable | .unsafePath | .corrupt => true
  | _ => false

/-- Run an action of a port, and poison the broker when its refusal, or a new look at the inventory,
loses the proof of what is durable. -/
def apply {ρ : Type} (action : Except StoreError ρ × State) (io : BrokerIo) :
    Except StoreError ρ × State :=
  match action with
  | (.ok value, state) => (.ok value, state)
  | (.error error, state) =>
    if losesProof error || !(state.store.admission io.recheck).isOk then
      (.error error, state.poison)
    else (.error error, state)

/-- There is room for `extra` receipts beside the reservations, and for one more identifier in the
scope. -/
def room (scope : Scope) (extra : ℕ) (io : BrokerIo) : Except StoreError Unit :=
  match state.store.capacityUsed io.capacity with
  | .error error => .error error
  | .ok used =>
    if used + state.reserved + extra > maxReceipts then .error .inventoryLimit
    else if scope.ids.length ≥ maxReceipts then .error .inventoryLimit
    else .ok ()

/-- Record in the scope of a port what the store answered to a prepare. -/
def settle {ρ : Type} (port : ℕ) (change : Scope → Scope)
    (result : Except StoreError ρ × BackendStore) : Except StoreError ρ × State :=
  match result with
  | (.error error, store) => (.error error, { state with store := store })
  | (.ok receipt, store) => (.ok receipt, { state with store := store }.modify port change)

/-- `ReceiptPort::prepare`: version 1 receipts, with the reservation of a Take. -/
def prepare (hash : String → String) (state : State) (port : ℕ) (id : String)
    (kind : OperationKind) (generation : ℕ) (utc : String) (details : PrepareDetails)
    (io : BrokerIo) : Except StoreError OperationReceipt × State :=
  apply (match state.scopeOf port with
    | none => (.error .conflict, state)
    | some scope =>
      if !scopeMatchesOperation scope.kind kind then (.error .conflict, state)
      else if state.poisoned && kind != .recordStop then (.error .durabilityUncertain, state)
      else
        match state.room scope (1 - (kind == .recordStop && scope.stopReserved).toNat
            + (scope.restarting kind).toNat) io with
        | .error error => (.error error, state)
        | .ok () =>
          state.settle port
            (fun other ↦ { other.own id with
              stopReserved := scope.keeps kind other.stopReserved })
            (state.store.prepare hash id kind generation utc details io.publish)) io

/-- `ReceiptPort::update`. -/
def update (state : State) (port : ℕ) (receipt : OperationReceipt) (change : OperationUpdate)
    (utc : String) (io : BrokerIo) : Except StoreError OperationReceipt × State :=
  apply (
    if !(state.scopeOf port).any (fun scope ↦ scope.ids.contains receipt.1.operationId) then
      (.error .conflict, state)
    else
      match state.store.update receipt change utc io.read io.publish with
      | (result, store) => (result, { state with store := store })) io

/-- The prepare of a workflow receipt: Restore, Capture and Apply scopes differ in their kind and in
the receipt they write. -/
def prepareWorkflow {ρ : Type} (expected : ScopeKind) (state : State) (port : ℕ) (id : String)
    (write : BackendStore → Except StoreError ρ × BackendStore) (io : BrokerIo) :
    Except StoreError ρ × State :=
  apply (match state.scopeOf port with
    | none => (.error .conflict, state)
    | some scope =>
      if scope.kind != expected then (.error .conflict, state)
      else if state.poisoned then (.error .durabilityUncertain, state)
      else
        match state.room scope 1 io with
        | .error error => (.error error, state)
        | .ok () => state.settle port (fun scope ↦ scope.own id) (write state.store)) io

/-- The update of a receipt of version 2 to 5, in a scope that passes a test on its kind. -/
def updateScoped {ρ : Type} (expected : ScopeKind → Bool) (state : State) (port : ℕ)
    (id : String) (write : BackendStore → Except StoreError ρ × BackendStore) (io : BrokerIo) :
    Except StoreError ρ × State :=
  apply (
    if !(state.scopeOf port).any (fun scope ↦ expected scope.kind && scope.ids.contains id) then
      (.error .conflict, state)
    else
      match write state.store with
      | (result, store) => (result, { state with store := store })) io

/-- A public stop asks again whether anything blocks it before it prepares its receipt. -/
def askAgain (kind : ScopeKind) (io : BrokerIo) : Except StoreError Unit × State :=
  if kind.isPublicStop then
    match state.safetyAdmission none io.admission with
    | (.error error, state') => (.error error, state')
    | (.ok admission, state') => (if admission.blocking then .error .conflict else .ok (), state')
  else (.ok (), state)

/-- `ReceiptPort::prepare_generic`. -/
def prepareGeneric (state : State) (port : ℕ) (id : String) (kind : GenericKind)
    (generation : ℕ) (utc : String) (io : BrokerIo) : Except StoreError GenericReceipt × State :=
  apply (match state.scopeOf port with
    | none => (.error .conflict, state)
    | some scope =>
      if !scopeMatchesGeneric scope.kind kind then (.error .conflict, state)
      else if state.poisoned then (.error .durabilityUncertain, state)
      else
        match state.askAgain scope.kind io with
        | (.error error, state') => (.error error, state')
        | (.ok (), state') =>
          match state'.room scope 1 io with
          | .error error => (.error error, state')
          | .ok () =>
            state'.settle port (fun scope ↦ scope.own id)
              (state'.store.prepareGeneric id kind generation utc io.publish)) io

/-- `ReceiptPort::update_generic`. -/
def updateGeneric (state : State) (port : ℕ) (receipt : GenericReceipt) (phase : GenericPhase)
    (utc : String) (io : BrokerIo) : Except StoreError GenericReceipt × State :=
  updateScoped (fun kind ↦ scopeMatchesGeneric kind receipt.1.requestType) state port
    receipt.1.operationId (fun store ↦ store.updateGeneric receipt phase utc io.read io.publish) io

def prepareRestore (state : State) (port : ℕ) (id : String) (generation requestCount : ℕ)
    (utc : String) (io : BrokerIo) : Except StoreError RestoreReceipt × State :=
  prepareWorkflow .restoreBatch state port id
    (fun store ↦ store.prepareRestore id generation requestCount utc io.publish) io

def updateRestore (state : State) (port : ℕ) (receipt : RestoreReceipt) (phase : RestorePhase)
    (counts : Option RestoreCounts) (utc : String) (io : BrokerIo) :
    Except StoreError RestoreReceipt × State :=
  updateScoped (fun kind ↦ kind == .restoreBatch) state port receipt.1.operationId
    (fun store ↦ store.updateRestore receipt phase counts utc io.read io.publish) io

def prepareCapture (state : State) (port : ℕ) (id : String) (generation : ℕ) (plan : CapturePlan)
    (utc : String) (io : BrokerIo) : Except StoreError CaptureReceipt × State :=
  prepareWorkflow .captureWindow state port id
    (fun store ↦ store.prepareCapture id generation plan utc io.publish) io

def updateCapture (state : State) (port : ℕ) (receipt : CaptureReceipt) (change : CaptureUpdate)
    (utc : String) (io : BrokerIo) : Except StoreError CaptureReceipt × State :=
  updateScoped (fun kind ↦ kind == .captureWindow) state port receipt.1.operationId
    (fun store ↦ store.updateCapture receipt change utc io.read io.publish) io

def prepareApply (state : State) (port : ℕ) (id : String) (generation creationCount : ℕ)
    (utc : String) (io : BrokerIo) : Except StoreError ApplyReceipt × State :=
  prepareWorkflow .applyScene state port id
    (fun store ↦ store.prepareApply id generation creationCount utc io.publish) io

def updateApply (state : State) (port : ℕ) (receipt : ApplyReceipt) (change : ApplyUpdate)
    (utc : String) (io : BrokerIo) : Except StoreError ApplyReceipt × State :=
  updateScoped (fun kind ↦ kind == .applyScene) state port receipt.1.operationId
    (fun store ↦ store.updateApply receipt change utc io.read io.publish) io

/-- The drop of a port, which ends its scope. -/
def drop (port : ℕ) : State :=
  { state with scopes := state.scopes.filter fun scope ↦ scope.port != port }

/-- Another holder of the read view marks it uncertain. -/
def markUncertain : State :=
  { state with store := { state.store with viewPoisoned := true } }

end State

/-! ### Events -/

/-- The calls of the broker and of its ports, in any order and by any holder. -/
inductive Event
  | scope (kind : ScopeKind)
  | drop (port : ℕ)
  | prepare (port : ℕ) (id : String) (kind : OperationKind) (generation : ℕ) (utc : String)
      (details : PrepareDetails)
  | update (port : ℕ) (receipt : OperationReceipt) (change : OperationUpdate) (utc : String)
  | prepareGeneric (port : ℕ) (id : String) (kind : GenericKind) (generation : ℕ) (utc : String)
  | updateGeneric (port : ℕ) (receipt : GenericReceipt) (phase : GenericPhase) (utc : String)
  | prepareRestore (port : ℕ) (id : String) (generation requestCount : ℕ) (utc : String)
  | updateRestore (port : ℕ) (receipt : RestoreReceipt) (phase : RestorePhase)
      (counts : Option RestoreCounts) (utc : String)
  | prepareCapture (port : ℕ) (id : String) (generation : ℕ) (plan : CapturePlan) (utc : String)
  | updateCapture (port : ℕ) (receipt : CaptureReceipt) (change : CaptureUpdate) (utc : String)
  | prepareApply (port : ℕ) (id : String) (generation creationCount : ℕ) (utc : String)
  | updateApply (port : ℕ) (receipt : ApplyReceipt) (change : ApplyUpdate) (utc : String)
  | permits (port : ℕ) (own : String)
  | fenceAdmission (port : ℕ)
  | markUncertain

namespace Event

/-- The port of a prepare of a stop of the recording. -/
def stopPort : Event → Option ℕ
  | .prepare port _ .recordStop _ _ _ => some port
  | _ => none

/-- The receipt that an update is about. -/
def updatedId : Event → Option String
  | .update _ receipt _ _ => some receipt.1.operationId
  | .updateGeneric _ receipt _ _ => some receipt.1.operationId
  | .updateRestore _ receipt _ _ _ => some receipt.1.operationId
  | .updateCapture _ receipt _ _ => some receipt.1.operationId
  | .updateApply _ receipt _ _ => some receipt.1.operationId
  | _ => none

end Event

namespace State

/-- The state after a call. -/
def exec (hash : String → String) (state : State) (io : BrokerIo) : Event → State
  | .scope kind => (state.scope kind io).2
  | .drop port => state.drop port
  | .prepare port id kind generation utc details =>
    (state.prepare hash port id kind generation utc details io).2
  | .update port receipt change utc => (state.update port receipt change utc io).2
  | .prepareGeneric port id kind generation utc =>
    (state.prepareGeneric port id kind generation utc io).2
  | .updateGeneric port receipt phase utc => (state.updateGeneric port receipt phase utc io).2
  | .prepareRestore port id generation requestCount utc =>
    (state.prepareRestore port id generation requestCount utc io).2
  | .updateRestore port receipt phase counts utc =>
    (state.updateRestore port receipt phase counts utc io).2
  | .prepareCapture port id generation plan utc =>
    (state.prepareCapture port id generation plan utc io).2
  | .updateCapture port receipt change utc => (state.updateCapture port receipt change utc io).2
  | .prepareApply port id generation creationCount utc =>
    (state.prepareApply port id generation creationCount utc io).2
  | .updateApply port receipt change utc => (state.updateApply port receipt change utc io).2
  | .permits port own => (state.permits port own io).2
  | .fenceAdmission port => (state.fenceAdmission port io).2
  | .markUncertain => state.markUncertain

end State

/-- The broker of one endpoint as a transition system: it starts without scopes over any directory
that respects the limit on receipts, as an earlier broker leaves one behind, and each call is a
step, whatever the file system answers. -/
def brokerMachine (hash : String → String) : Machine State (Event × BrokerIo) where
  initial state := state.scopes = [] ∧ state.next = 0 ∧ state.poisoned = false ∧
    state.store.viewPoisoned = false ∧ state.store.files.length ≤ maxReceipts
  step state label next := next = state.exec hash label.2 label.1

/-! ### What a call can do -/

namespace State

/-- What a call can do to the broker. A prepare adds one file and one identifier within the limit,
an update rewrites one file, and a publication that is not known to be durable poisons the
broker. -/
inductive Moves (event : Event) (state : State) : State → Prop
  | stay : Moves event state state
  | poison {next : State} (hmoves : Moves event state next) : Moves event state next.poison
  | mark : Moves event state state.markUncertain
  | drop (port : ℕ) : Moves event state (state.drop port)
  | opened (kind : ScopeKind) (hclean : state.poisoned = false)
      (htake : kind = .take → (∀ scope ∈ state.scopes, scope.kind ≠ .take) ∧
        state.store.files.length + 2 ≤ maxReceipts)
      (hstop : kind.isPublicStop = true →
        ∀ scope ∈ state.scopes, scope.kind.isPublicStop = false) :
      Moves event state { state with
        next := state.next + 1
        scopes := state.scopes ++
          [{ port := state.next + 1, kind := kind, ids := [], stopReserved := kind == .take }] }
  | prepared (port : ℕ) (scope : Scope) (id : String) (receipt : StoredReceipt)
      (keep : Bool → Bool) (hscope : state.scopeOf port = some scope)
      (hnew : state.store.file id = none)
      (hroom : state.store.files.length + state.reserved + 1 + (keep scope.stopReserved).toNat ≤
        maxReceipts + scope.stopReserved.toNat)
      (hkeep : keep scope.stopReserved = true → scope.stopReserved = true ∨ scope.kind = .take)
      (hstop : scope.stopReserved = true → keep scope.stopReserved = false →
        event.stopPort = some port) :
      Moves event state ({ state with store := state.store.write id receipt }.modify port
        fun scope ↦ { scope.own id with stopReserved := keep scope.stopReserved })
  | uncertain (port : ℕ) (scope : Scope) (id : String) (receipt : StoredReceipt)
      (hscope : state.scopeOf port = some scope) (hnew : state.store.file id = none)
      (hroom : state.store.files.length + state.reserved + 1 ≤ maxReceipts ∨
        event.stopPort = some port ∧ scope.stopReserved = true ∧
          state.store.files.length + state.reserved ≤ maxReceipts) :
      Moves event state { state with store := state.store.write id receipt }.poison
  | updated (old new : StoredReceipt)
      (hfile : state.store.file old.id = some ⟨old.id, some old⟩) (hid : new.id = old.id)
      (hendpoint : new.endpoint = old.endpoint) (hevent : event.updatedId = some old.id) :
      Moves event state { state with store := state.store.write new.id new }

end State

end ObsMcp.Broker
