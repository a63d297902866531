import ObsMcp.Foundations.Fallible
import ObsMcp.Foundations.Json

/-!
# Replies of the OBS socket

A request that was written to the socket is an active `Command`; at most one is active in each
`Lane`. The peer answers a single request with a frame of op 7 and a batch with a frame of op 9.
`response` reads such a frame for one command: the outcome of the command, nothing when the frame
is about another single request, or the `Invalidation` that closes the session.

`Command.Matches` says, in the words of the protocol and not of the reader, that a frame answers a
command: it names the request, has the shape of its kind, and gives the request type back, for a
batch in each of its results. A frame that gives an outcome matches (`matches_of_response`), and a
frame that names the command and does not match is refused (`response_error_of_not_matches`).
-/

namespace ObsMcp.Session

open Foundations

/-! ### Errors and replies -/

/-- Why a session was closed. -/
inductive Invalidation
  | shutdown | ownerDropped | actorStopped | disconnected | malformedMessage | eventOverflow
  | eventConsumerDropped | cancelledAfterDispatch | deadlineAfterDispatch | socketWriteFailed
  | responseIdentityMismatch | identityExhausted
  deriving DecidableEq

/-- Why a request was refused before its dispatch. -/
inductive BeforeDispatch
  | staleConnection
  | closed (reason : Invalidation)
  | invalidRequest
  | capacity
  | byteCapacity
  | deadline
  | cancelled
  | identityExhausted
  | guardRefused (reason : String)
  deriving DecidableEq

inductive RequestError
  | beforeDispatch (refusal : BeforeDispatch)
  | rejected (code : UInt64)
  | rejectedDetailed (code : UInt64) (comment : String)
  | unknown (reason : Invalidation)
  deriving DecidableEq

structure BatchResult where
  requestType : String
  ok : Bool
  code : UInt64
  comment : Option String
  responseData : Json

inductive ProjectionError
  | rawCapacity | textCapacity | workerCapacity | malformed | depth | deadline | cancelled | closed
  | workerFailed
  deriving DecidableEq

structure RawReadback where
  value : Json
  raw : String
  deadline : ℕ

inductive ReplyData
  | single (value : Json)
  | batch (results : List BatchResult)
  | transform (readback : Except ProjectionError RawReadback)

/-- What a caller gets to know about its request. -/
abbrev Outcome := Except RequestError ReplyData

namespace Outcome

/-- The caller is told that the request was not dispatched. -/
def notDispatched : Outcome → Prop
  | .error (.beforeDispatch _) => True
  | _ => False

/-- The peer answered the request: with its data, or with a rejection. -/
def Definite : Outcome → Prop
  | .ok _ | .error (.rejected _) | .error (.rejectedDetailed _ _) => True
  | _ => False

instance (outcome : Outcome) : Decidable outcome.notDispatched := by
  unfold notDispatched
  split <;> infer_instance

end Outcome

/-! ### Commands -/

/-- The closed vocabulary of observations. -/
inductive ReadRequest
  | sceneCollectionList | sceneList | videoSettings | inputList | inputKindList | sceneItemList
  | sceneItemTransform | groupSceneItemList | sourceScreenshot | studioModeEnabled
  | currentProgramScene | currentPreviewScene | recordStatus | streamStatus | replayBufferStatus
  | virtualCamStatus | outputList | outputStatus | inputSettings | sourceFilterList | inputMute
  | inputVolume | inputAudioTracks | recordDirectory | stats | profileParameter | version
  | hotkeyList | sourceActive | sceneItemId | sceneTransitionList | currentSceneTransition
  | persistentData | profileList | streamServiceSettings | sourceFilterKindList
  | sourceFilterDefaultSettings | sourceFilter | specialInputs | inputDefaultSettings
  | inputAudioBalance | inputAudioSyncOffset | inputAudioMonitorType | mediaInputStatus
  | lastReplayBufferReplay | outputSettings | monitorList | canvasList | inputDeinterlaceFieldOrder
  | inputDeinterlaceMode | sceneItemEnabled | sceneItemIndex | sceneItemLocked | sceneItemBlendMode
  | sceneItemSource | groupList | sceneSceneTransitionOverride | transitionKindList
  | currentSceneTransitionCursor
  deriving DecidableEq

def ReadRequest.asStr : ReadRequest → String
  | .sceneCollectionList => "GetSceneCollectionList"
  | .sceneList => "GetSceneList"
  | .videoSettings => "GetVideoSettings"
  | .inputList => "GetInputList"
  | .inputKindList => "GetInputKindList"
  | .sceneItemList => "GetSceneItemList"
  | .sceneItemTransform => "GetSceneItemTransform"
  | .groupSceneItemList => "GetGroupSceneItemList"
  | .sourceScreenshot => "GetSourceScreenshot"
  | .studioModeEnabled => "GetStudioModeEnabled"
  | .currentProgramScene => "GetCurrentProgramScene"
  | .currentPreviewScene => "GetCurrentPreviewScene"
  | .recordStatus => "GetRecordStatus"
  | .streamStatus => "GetStreamStatus"
  | .replayBufferStatus => "GetReplayBufferStatus"
  | .virtualCamStatus => "GetVirtualCamStatus"
  | .outputList => "GetOutputList"
  | .outputStatus => "GetOutputStatus"
  | .inputSettings => "GetInputSettings"
  | .sourceFilterList => "GetSourceFilterList"
  | .inputMute => "GetInputMute"
  | .inputVolume => "GetInputVolume"
  | .inputAudioTracks => "GetInputAudioTracks"
  | .recordDirectory => "GetRecordDirectory"
  | .stats => "GetStats"
  | .profileParameter => "GetProfileParameter"
  | .version => "GetVersion"
  | .hotkeyList => "GetHotkeyList"
  | .sourceActive => "GetSourceActive"
  | .sceneItemId => "GetSceneItemId"
  | .sceneTransitionList => "GetSceneTransitionList"
  | .currentSceneTransition => "GetCurrentSceneTransition"
  | .persistentData => "GetPersistentData"
  | .profileList => "GetProfileList"
  | .streamServiceSettings => "GetStreamServiceSettings"
  | .sourceFilterKindList => "GetSourceFilterKindList"
  | .sourceFilterDefaultSettings => "GetSourceFilterDefaultSettings"
  | .sourceFilter => "GetSourceFilter"
  | .specialInputs => "GetSpecialInputs"
  | .inputDefaultSettings => "GetInputDefaultSettings"
  | .inputAudioBalance => "GetInputAudioBalance"
  | .inputAudioSyncOffset => "GetInputAudioSyncOffset"
  | .inputAudioMonitorType => "GetInputAudioMonitorType"
  | .mediaInputStatus => "GetMediaInputStatus"
  | .lastReplayBufferReplay => "GetLastReplayBufferReplay"
  | .outputSettings => "GetOutputSettings"
  | .monitorList => "GetMonitorList"
  | .canvasList => "GetCanvasList"
  | .inputDeinterlaceFieldOrder => "GetInputDeinterlaceFieldOrder"
  | .inputDeinterlaceMode => "GetInputDeinterlaceMode"
  | .sceneItemEnabled => "GetSceneItemEnabled"
  | .sceneItemIndex => "GetSceneItemIndex"
  | .sceneItemLocked => "GetSceneItemLocked"
  | .sceneItemBlendMode => "GetSceneItemBlendMode"
  | .sceneItemSource => "GetSceneItemSource"
  | .groupList => "GetGroupList"
  | .sceneSceneTransitionOverride => "GetSceneSceneTransitionOverride"
  | .transitionKindList => "GetTransitionKindList"
  | .currentSceneTransitionCursor => "GetCurrentSceneTransitionCursor"

/-- The public requests that stop an output. -/
inductive SafetyStopRequest
  | stream | virtualCam | replayBuffer
  deriving DecidableEq

def SafetyStopRequest.requestType : SafetyStopRequest → String
  | .stream => "StopStream"
  | .virtualCam => "StopVirtualCam"
  | .replayBuffer => "StopReplayBuffer"

/-- The requests of an owned take. -/
inductive StopControl
  | stopRecord | recordStatus
  deriving DecidableEq

def StopControl.requestType : StopControl → String
  | .stopRecord => "StopRecord"
  | .recordStatus => "GetRecordStatus"

inductive CommandKind
  | single (requestType : String)
  | observation (request : ReadRequest)
  | reservedControl (control : StopControl)
  | safetyStop (request : SafetyStopRequest)
  | manualRecordStop
  | transform
  | batch (requestTypes : List String) (haltOnFailure : Bool)
  deriving DecidableEq

/-- The queues of a session, in the order of their slots. -/
inductive Lane
  | normal | ownedStop | safetyStop
  deriving DecidableEq

/-- The lanes in the order of their slots. -/
def Lane.all : List Lane :=
  [.normal, .ownedStop, .safetyStop]

theorem Lane.mem_all (lane : Lane) : lane ∈ Lane.all := by
  cases lane <;> decide

/-- The form of a request: one request of a type, or a batch of types. -/
inductive Shape
  | single (requestType : String)
  | batch (requestTypes : List String) (haltOnFailure : Bool)

namespace CommandKind

def lane : CommandKind → Lane
  | reservedControl _ => .ownedStop
  | safetyStop _ | manualRecordStop => .safetyStop
  | _ => .normal

def shape : CommandKind → Shape
  | single requestType => .single requestType
  | observation request => .single request.asStr
  | transform => .single "GetSceneItemTransform"
  | reservedControl control => .single control.requestType
  | safetyStop request => .single request.requestType
  | manualRecordStop => .single "StopRecord"
  | batch requestTypes haltOnFailure => .batch requestTypes haltOnFailure

def isObservation : CommandKind → Bool
  | observation _ => true
  | _ => false

end CommandKind

/-- A request on its way through the session. `caller` is the number of the call that made it; it
stands for the state word and the reply channel that the command shares with that call. -/
structure Command where
  caller : ℕ
  expected : ℕ
  kind : CommandKind
  requestId : String
  flushed : Bool
  deadline : ℕ
  deriving DecidableEq

/-! ### Reading a reply -/

/-- The data of a reply, an empty object when there is none. -/
def responseData (reply : Json) : Json :=
  ((reply.get "responseData").filter (fun value ↦ !value.isNull)).getD (.object [])

/-- The error that a status with a false result stands for. -/
def rejection (code : UInt64) : Option String → RequestError
  | some comment => .rejectedDetailed code comment
  | none => .rejected code

/-- What the owner of the projections answers when a transform is captured from a frame; it depends
on the state of that owner. -/
abbrev Capture := String → Json → ℕ → Except ProjectionError RawReadback

/-- The data of a successful reply in the form the command asked for. -/
def replyData (data : Json) (command : Command) (raw : String) (capture : Capture) : ReplyData :=
  if command.kind = .transform then
    .transform (capture raw (responseData data) command.deadline)
  else .single (responseData data)

/-- The outcome that the status of a reply stands for. -/
def statusOutcome (data : Json) (command : Command) (raw : String) (capture : Capture) :
    Except Invalidation Outcome :=
  let status := data.index "requestStatus"
  let comment := ((status.get "comment").bind Json.asStr).filter (fun value ↦ value ≠ "")
  match (status.index "code").asU64, (status.index "result").asBool with
  | some _, some true => .ok (.ok (replyData data command raw capture))
  | some code, some false =>
    if comment.any (fun value ↦ 64 * 1024 < value.utf8ByteSize) then .error .malformedMessage
    else .ok (.error (rejection code comment))
  | _, _ => .error .malformedMessage

/-- The part of `response` about one request of a type. -/
def singleResponse (data : Json) (command : Command) (requestType raw : String)
    (capture : Capture) : Except Invalidation (Option Outcome) :=
  if (data.index "requestId").asStr ≠ some command.requestId then .ok none
  else if (data.index "requestType").asStr ≠ some requestType then
    .error .responseIdentityMismatch
  else some <$> statusOutcome data command raw capture

/-- The number a text is the decimal form of. -/
def canonicalIndex (id : String) : Option ℕ :=
  id.toNat?.filter (fun index ↦ index < 2 ^ 64 && toString index == id)

/-- A status code: an unsigned integer, or a float that is one. -/
def statusCode (code : Json) : Option UInt64 :=
  code.asU64.or ((code.asF64.filter (fun n ↦
    n.isFinite && decide (0.0 ≤ n) && decide (n < 18446744073709551616.0) &&
      n - n.floor == 0.0)).map Float.toUInt64)

/-- One result of a batch, put at its index among the results read so far. -/
def batchItem (requestTypes : List String) (ordered : List (Option BatchResult)) (result : Json) :
    Except Invalidation (List (Option BatchResult)) :=
  let status := result.index "requestStatus"
  if !result.isObject || !status.isObject then .error .malformedMessage
  else
    match ((result.index "requestId").asStr.bind canonicalIndex).filter
        (fun index ↦ index < ordered.length) with
    | none => .error .responseIdentityMismatch
    | some index =>
      match (result.index "requestType").asStr with
      | none => .error .malformedMessage
      | some requestType =>
        if requestTypes[index]? ≠ some requestType || (ordered[index]?.join).isSome then
          .error .responseIdentityMismatch
        else
          match (status.index "result").asBool, statusCode (status.index "code") with
          | some ok, some code =>
            .ok (ordered.set index (some {
              requestType, ok, code
              comment := (status.index "comment").asStr
              responseData := responseData result }))
          | _, _ => .error .malformedMessage

/-- A batch that halts on a failure ends with it, and one without a failure is complete. -/
def haltMismatch (requestTypes : List String) (results : List BatchResult) : Bool :=
  match results.findIdx? (fun result ↦ !result.ok) with
  | some index => index + 1 ≠ results.length
  | none => results.length ≠ requestTypes.length

/-- The results of a batch in the order of its requests. -/
def orderedResults (requestTypes : List String) (results : List Json) (haltOnFailure : Bool) :
    Except Invalidation (List BatchResult) := do
  let ordered ← results.foldlM (batchItem requestTypes) (List.replicate results.length none)
  match ordered.mapM id with
  | none => .error .responseIdentityMismatch
  | some results =>
    if haltOnFailure && haltMismatch requestTypes results then .error .responseIdentityMismatch
    else .ok results

def batchResponse (data : Json) (requestId : String) (requestTypes : List String)
    (haltOnFailure : Bool) : Except Invalidation (List BatchResult) :=
  if (data.index "requestId").asStr ≠ some requestId then .error .responseIdentityMismatch
  else
    match (data.get "results").bind Json.asArray with
    | none => .error .malformedMessage
    | some results =>
      if results.isEmpty || requestTypes.length < results.length ||
          (!haltOnFailure && results.length ≠ requestTypes.length) then
        .error .responseIdentityMismatch
      else orderedResults requestTypes results haltOnFailure

/-- What a reply says about a command. -/
def response (data : Json) (command : Command) (batch : Bool) (raw : String) (capture : Capture) :
    Except Invalidation (Option Outcome) :=
  match command.kind.shape, batch with
  | .single requestType, false => singleResponse data command requestType raw capture
  | .batch requestTypes haltOnFailure, true =>
    (fun results ↦ some (.ok (.batch results))) <$>
      batchResponse data command.requestId requestTypes haltOnFailure
  | _, _ => .error .responseIdentityMismatch

/-! ### The frames that answer a command -/

/-- A result of a batch carries the number of one of its requests and gives its type back. -/
def ResultMatches (requestTypes : List String) (result : Json) : Prop :=
  ∃ index : ℕ, (result.index "requestId").asStr = some (toString index) ∧
    ∃ requestType, requestTypes[index]? = some requestType ∧
      (result.index "requestType").asStr = some requestType

/-- A frame answers a command: it names it, its shape is that of the command's kind, and the
request types are the command's own. -/
def Command.Matches (command : Command) (batch : Bool) (data : Json) : Prop :=
  (data.index "requestId").asStr = some command.requestId ∧
    match command.kind.shape with
    | .single requestType =>
      batch = false ∧ (data.index "requestType").asStr = some requestType
    | .batch requestTypes _ =>
      batch = true ∧ ∃ results, (data.get "results").bind Json.asArray = some results ∧
        ∀ result ∈ results, ResultMatches requestTypes result

section Reading

variable {data : Json} {command : Command} {batch : Bool} {requestType raw : String}
  {requestTypes : List String} {haltOnFailure : Bool} {capture : Capture} {outcome : Outcome}

theorem definite_rejection (code : UInt64) (comment : Option String) :
    Outcome.Definite (.error (rejection code comment)) := by
  cases comment <;> exact trivial

theorem definite_of_statusOutcome
    (hstatus : statusOutcome data command raw capture = .ok outcome) : outcome.Definite := by
  unfold statusOutcome at hstatus
  simp only at hstatus
  split at hstatus
  · cases hstatus
    exact trivial
  · split_ifs at hstatus
    cases hstatus
    exact definite_rejection _ _
  · cases hstatus

theorem of_singleResponse
    (hresponse : singleResponse data command requestType raw capture = .ok (some outcome)) :
    (data.index "requestId").asStr = some command.requestId ∧
      (data.index "requestType").asStr = some requestType ∧ outcome.Definite := by
  unfold singleResponse at hresponse
  split_ifs at hresponse with hid htype
  · simp at hresponse
  · rw [not_not] at hid htype
    obtain ⟨found, hstatus, hfound⟩ := map_eq_ok_iff.mp hresponse
    cases hfound
    exact ⟨hid, htype, definite_of_statusOutcome hstatus⟩

theorem singleResponse_ne_none (hid : (data.index "requestId").asStr = some command.requestId) :
    singleResponse data command requestType raw capture ≠ .ok none := by
  unfold singleResponse
  rw [if_neg (not_not_intro hid)]
  split_ifs
  · simp
  · intro hnone
    obtain ⟨found, -, hfound⟩ := map_eq_ok_iff.mp hnone
    simp at hfound

variable {next ordered : List (Option BatchResult)}

theorem of_batchItem {result : Json} (hitem : batchItem requestTypes ordered result = .ok next) :
    ResultMatches requestTypes result := by
  unfold batchItem at hitem
  simp only at hitem
  split_ifs at hitem
  split at hitem
  · cases hitem
  · rename_i index hindex
    obtain ⟨hparsed, -⟩ := Option.filter_eq_some_iff.mp hindex
    obtain ⟨id, hid, hcanonical⟩ := Option.bind_eq_some_iff.mp hparsed
    obtain ⟨-, hform⟩ := Option.filter_eq_some_iff.mp hcanonical
    simp only [Bool.and_eq_true, beq_iff_eq] at hform
    split at hitem
    · cases hitem
    · rename_i requestType htype
      split_ifs at hitem with hmismatch
      simp only [Bool.or_eq_true, decide_eq_true_eq, not_or, not_not] at hmismatch
      exact ⟨index, by rw [hid, hform.2], requestType, hmismatch.1, htype⟩

theorem of_batchItems {results : List Json}
    (hitems : results.foldlM (batchItem requestTypes) ordered = .ok next) :
    ∀ result ∈ results, ResultMatches requestTypes result := by
  induction results generalizing ordered with
  | nil => simp
  | cons result results ih =>
    rw [List.foldlM_cons] at hitems
    obtain ⟨following, hitem, hrest⟩ := bind_eq_ok_iff.mp hitems
    exact List.forall_mem_cons.mpr ⟨of_batchItem hitem, ih hrest⟩

theorem of_batchResponse {requestId : String} {answers : List BatchResult}
    (hresponse : batchResponse data requestId requestTypes haltOnFailure = .ok answers) :
    (data.index "requestId").asStr = some requestId ∧
      ∃ results, (data.get "results").bind Json.asArray = some results ∧
        ∀ result ∈ results, ResultMatches requestTypes result := by
  unfold batchResponse at hresponse
  split_ifs at hresponse with hid
  rw [not_not] at hid
  split at hresponse
  · cases hresponse
  · rename_i results hresults
    split_ifs at hresponse
    obtain ⟨ordered, hordered, -⟩ := bind_eq_ok_iff.mp hresponse
    exact ⟨hid, results, hresults, of_batchItems hordered⟩

/-- A frame that gives an outcome matches the command, and the outcome is definite. -/
theorem matches_of_response
    (hresponse : response data command batch raw capture = .ok (some outcome)) :
    command.Matches batch data ∧ outcome.Definite := by
  unfold response at hresponse
  unfold Command.Matches
  split at hresponse
  · rename_i hshape
    obtain ⟨hid, htype, hdefinite⟩ := of_singleResponse hresponse
    rw [hshape]
    exact ⟨⟨hid, rfl, htype⟩, hdefinite⟩
  · rename_i hshape
    obtain ⟨answers, hanswers, houtcome⟩ := map_eq_ok_iff.mp hresponse
    obtain ⟨hid, hresults⟩ := of_batchResponse hanswers
    cases houtcome
    rw [hshape]
    exact ⟨⟨hid, rfl, hresults⟩, trivial⟩
  · cases hresponse

/-- A frame that names a command decides it or closes the session. -/
theorem response_ne_none (hid : (data.index "requestId").asStr = some command.requestId) :
    response data command batch raw capture ≠ .ok none := by
  unfold response
  split
  · exact singleResponse_ne_none hid
  · intro hnone
    obtain ⟨answers, -, hanswers⟩ := map_eq_ok_iff.mp hnone
    simp at hanswers
  · simp

/-- A frame that names a command and does not match closes the session. -/
theorem response_error_of_not_matches
    (hid : (data.index "requestId").asStr = some command.requestId)
    (hmatches : ¬ command.Matches batch data) :
    ∃ reason, response data command batch raw capture = .error reason := by
  cases hresponse : response data command batch raw capture with
  | error reason => exact ⟨reason, rfl⟩
  | ok found =>
    cases found with
    | none => exact absurd hresponse (response_ne_none hid)
    | some outcome => exact absurd (matches_of_response hresponse).1 hmatches

end Reading

end ObsMcp.Session
