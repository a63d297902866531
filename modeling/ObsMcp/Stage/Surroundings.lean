import ObsMcp.Foundations.Json
import ObsMcp.Foundations.Program
import ObsMcp.Foundations.Text
import ObsMcp.Receipts.Store

/-!
# The surroundings of the stage workflow

`obs-stage-scene` inspects a scene, shows it in preview and publishes a token; `obs-take-scene`
consumes the token, inspects again and asks OBS for the transition. Both are flows over the requests
of this module: reads of OBS, clocks, connection and cancellation, the receipt store, the mutator,
and the token table of the machine itself, which survives a flow that is dropped.

`World.answers` says what a request does. Reads, clocks and the mutator answer anything, and the
receipt store may meanwhile be changed by others; a receipt is written by the store of
`ObsMcp.Receipts` with any fault, or refused. Every request is recorded with its reply in a trace,
newest first; a mutation is recorded when it is handed over, with the receipts stored at that time.
-/

namespace ObsMcp.Stage

open Foundations Receipts

/-! ### Data -/

structure ObservationError where
  reason : String
  message : String
  requestCode : Option ℕ

def ObservationError.new (reason message : String) : ObservationError :=
  ⟨reason, message, none⟩

/-- The read requests of the workflow. -/
inductive ReadRequest
  | sceneCollectionList
  | sceneList
  | videoSettings
  | inputList
  | sceneItemList
  | sceneItemTransform
  | groupSceneItemList
  | sourceScreenshot
  | studioModeEnabled
  | currentProgramScene
  | currentPreviewScene
  | inputSettings
  | sourceFilterList
  | inputMute
  | inputVolume
  | inputAudioTracks
  deriving DecidableEq

def ReadRequest.asStr : ReadRequest → String
  | sceneCollectionList => "GetSceneCollectionList"
  | sceneList => "GetSceneList"
  | videoSettings => "GetVideoSettings"
  | inputList => "GetInputList"
  | sceneItemList => "GetSceneItemList"
  | sceneItemTransform => "GetSceneItemTransform"
  | groupSceneItemList => "GetGroupSceneItemList"
  | sourceScreenshot => "GetSourceScreenshot"
  | studioModeEnabled => "GetStudioModeEnabled"
  | currentProgramScene => "GetCurrentProgramScene"
  | currentPreviewScene => "GetCurrentPreviewScene"
  | inputSettings => "GetInputSettings"
  | sourceFilterList => "GetSourceFilterList"
  | inputMute => "GetInputMute"
  | inputVolume => "GetInputVolume"
  | inputAudioTracks => "GetInputAudioTracks"

structure Target where
  sceneCollection : String
  sceneName : String
  canvasUuid : Option String

structure SceneIdentity where
  sceneName : String
  sceneUuid : String

/-- A scene with the digest of everything it depends on. -/
structure Subject where
  sceneUuid : String
  fingerprint : String
  sources : List String

structure Inspection where
  intended : Subject
  program : Subject
  preview : SceneIdentity
  generation : ℕ
  revision : ℕ

/-- What a stage token authorises. -/
structure Staged where
  target : Target
  generation : ℕ
  expiresAt : ℕ
  subject : String
  program : String
  sceneUuid : String

inductive Mutation
  | setPreview (sceneUuid : String)
  | transition
  deriving DecidableEq

/-- The outcomes of the control policy that stop an operation. -/
inductive Disposition
  | refused (message : String)
  | inputRequired (question : String)
  | cancelled

/-- What stops a workflow. -/
inductive Fault
  | evidence (error : ObservationError)
  | receipt (error : StoreError)
  | policy (disposition : Disposition)

inductive MutationError
  | notDispatched (error : ObservationError)
  | policy (disposition : Disposition)
  | rejected (code : ℕ) (message : String)
  | unknown (error : ObservationError)

/-- A reading of the clock. -/
structure ClockTime where
  utc : String
  epochMs : ℕ

/-- A call of one of the two tools. The identifiers are those the caller of the machine supplies. -/
inductive Call
  | stage (target : Target) (stageId operationId : String)
  | take (stageId operationId : String)

/-! ### Requests -/

/-- A request of a workflow: the adapters of OBS, the clocks and the receipt store, and the token
table of the machine. -/
inductive Request
  | admission (call : Call)
  | synchronize
  | sample
  | check
  | read (request : ReadRequest) (data : Json)
  | readObject (request : ReadRequest) (data : Json)
  | clock
  | late
  | cancelled
  | generations
  | lateVerification
  | wait
  | prepare (operationId : String) (kind : OperationKind) (generation : ℕ) (utc : String)
    (details : PrepareDetails)
  | update (receipt : OperationReceipt) (update : OperationUpdate) (utc : String)
  | mutate (mutation : Mutation) (generation revision : ℕ)
  | endpoint
  | clear (endpoint : String)
  | publish (stageId : String) (entry : Staged)
  | consume (stageId : String) (now : ℕ)
  | inspected (inspection : Inspection)
  | forever

/-- The replies of a request. `inspected` only marks the end of an inspection in the trace, and
`forever` has no reply. -/
@[reducible] def Request.Reply : Request → Type
  | admission _ => Except Fault Unit
  | synchronize => Except ObservationError Unit
  | sample => Except ObservationError (ℕ × ℕ)
  | check => Except ObservationError Unit
  | read _ _ => Except ObservationError Json
  | readObject _ _ => Except ObservationError Json
  | clock => ClockTime
  | late => Bool
  | cancelled => Bool
  | generations => Option ℕ × Option ℕ
  | lateVerification => Bool
  | wait => Unit
  | prepare _ _ _ _ _ => Except StoreError OperationReceipt
  | update _ _ _ => Except StoreError OperationReceipt
  | mutate _ _ _ => Except MutationError Unit
  | endpoint => Option String
  | clear _ => Unit
  | publish _ _ => Unit
  | consume _ _ => Option Staged
  | inspected _ => Unit
  | forever => Empty

/-- An entry of the trace. -/
inductive Event
  | called (call : Call)
  | handed (mutation : Mutation) (generation revision : ℕ) (store : BackendStore)
  | asked (request : Request) (reply : request.Reply)

/-- The machine, the receipt store and the trace, newest first. -/
structure World where
  tokens : List (String × Staged)
  endpointHash : Option String
  store : BackendStore
  trace : List Event

/-- The token of an identifier. -/
def token (tokens : List (String × Staged)) (stageId : String) : Option Staged :=
  (tokens.find? fun member ↦ member.1 = stageId).map Prod.snd

/-- The tokens without one identifier. -/
def without (tokens : List (String × Staged)) (stageId : String) : List (String × Staged) :=
  tokens.filter fun member ↦ member.1 ≠ stageId

/-- The tokens that have not expired. -/
def unexpired (tokens : List (String × Staged)) (now : ℕ) : List (String × Staged) :=
  tokens.filter fun member ↦ now < member.2.expiresAt

namespace World

/-- The world after a request that leaves the machine and the receipts alone. -/
def record (world : World) (request : Request) (reply : request.Reply) : World :=
  { world with trace := .asked request reply :: world.trace }

/-- The world after a call of the receipt store. -/
def stored (world : World) (store : BackendStore) (request : Request) (reply : request.Reply) :
    World :=
  { world.record request reply with store := store }

/-- What a request does and may reply. `hash` is the digest of a collection name. -/
def answers (hash : String → String) (world : World) :
    (request : Request) → request.Reply → World → Prop
  | .prepare operationId kind generation utc details, reply, next =>
    (∃ error, reply = .error error ∧ next = world.record (.prepare operationId kind generation utc
      details) reply) ∨
    ∃ publish, world.store.prepare hash operationId kind generation utc details publish =
      (reply, next.store) ∧ next = world.stored next.store (.prepare operationId kind generation utc
        details) reply
  | .update receipt update utc, reply, next =>
    (∃ error, reply = .error error ∧ next = world.record (.update receipt update utc) reply) ∨
    ∃ read publish, world.store.update receipt update utc read publish = (reply, next.store) ∧
      next = world.stored next.store (.update receipt update utc) reply
  | .mutate mutation generation revision, reply, next =>
    ∃ store, next = { world with
      store := store
      trace := .asked (.mutate mutation generation revision) reply ::
        .handed mutation generation revision world.store :: world.trace }
  | .endpoint, reply, next =>
    reply = world.endpointHash ∧ next = world.record .endpoint reply
  | .clear endpoint, reply, next =>
    next = { world.record (.clear endpoint) reply with
      tokens := []
      endpointHash := some endpoint }
  | .publish stageId entry, reply, next =>
    next = { world.record (.publish stageId entry) reply with
      tokens := (stageId, entry) :: without world.tokens stageId }
  | .consume stageId now, reply, next =>
    reply = token (unexpired world.tokens now) stageId ∧
      next = { world.record (.consume stageId now) reply with
        tokens := without (unexpired world.tokens now) stageId }
  | request, reply, next =>
    ∃ store, next = world.stored store request reply

end World

end ObsMcp.Stage
