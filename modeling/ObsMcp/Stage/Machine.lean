import ObsMcp.Foundations.Checked
import ObsMcp.Stage.Inspection

/-!
# The stage machine

`stage` and `take` are the two workflows over the token table, `fail` what either of them does about
a fault, and `program` a whole call. The verification after a transition repeats until it succeeds
or its time is over; its number of turns is a parameter, and a call that needs more of them is one
that has not ended. `Reachable` are the worlds after any sequence of calls, each of which may end,
fail or be dropped at any of its requests.
-/

namespace ObsMcp.Stage

open Foundations Receipts

def STAGE_TTL_MS : ℕ := 10 * 60000

def VERIFICATION_MS : ℕ := 5000

/-- The epoch time some milliseconds later, when it fits 64 bits. -/
@[irreducible] def ClockTime.plus (time : ClockTime) (millis : ℕ) : Option ℕ :=
  Foundations.checkedAdd time.epochMs millis

theorem ClockTime.eq_of_plus {time : ClockTime} {millis sum : ℕ}
    (hplus : time.plus millis = some sum) : sum = time.epochMs + millis := by
  unfold ClockTime.plus at hplus
  exact eq_of_checkedAdd hplus

/-- The parts of the context that stay the same during a call. -/
structure Context where
  storeEndpoint : String
  readerEndpoint : String
  mutatorEndpoint : String
  screenshotMaxBytes : ℕ

structure Image where
  mimeType : String
  data : String
  sizeBytes : ℕ

/-- The report of a successful call. -/
inductive Success
  | staged (operationId stageId expiresAt : String) (target : Target) (sceneUuid : String)
    (generation : ℕ) (preview : SceneIdentity) (programSceneUuid : String)
    (sharedSources : List String) (requestDispatched : Bool) (requestAccepted : Option Bool)
    (image : Image)
  | verified (operationId : String) (target : Target) (sceneUuid verifiedAt : String)

/-- The report of a call that failed. -/
structure Failure where
  status : String
  requestDispatched : Bool
  requestAccepted : Option Bool
  reason : String
  message : String
  nextCheck : String
  operationId : Option String
  policy : Option Disposition
  receiptError : Option StoreError

def Context.validate (context : Context) : Work Unit := do
  Flow.require (context.storeEndpoint = context.readerEndpoint ∧
    context.storeEndpoint = context.mutatorEndpoint) (.receipt .endpointMismatch)
  Flow.require (1 ≤ context.screenshotMaxBytes ∧ context.screenshotMaxBytes ≤ 6 * 1024 * 1024)
    (.evidence (.new "evidence_unavailable" "Invalid screenshot byte limit"))

def checkDeadline : Work Unit := do
  let late ← Flow.request Request.late
  Flow.require (late = false)
    (.evidence (.new "observation_limit" "Stage operation deadline expired"))

def checkCancelled : Work Unit := do
  let cancelled ← Flow.request Request.cancelled
  Flow.require (cancelled = false)
    (.evidence (.new "cancelled" "Operation cancelled; inspect OBS before any further action"))

/-- Reader and mutator are both on the connection of the generation. -/
def checkConnected (generation : ℕ) (message : String) : Work Unit := do
  let generations ← Flow.request Request.generations
  Flow.require (generations = (some generation, some generation))
    (.evidence (.new "observation_invalidated" message))

def readObject (request : ReadRequest) (data : Json) : Work Json :=
  evidence (Flow.request (Request.readObject request data))

def prepare (operationId stageId : String) (kind : OperationKind) (target : Target)
    (inspection : Inspection) : Work Unit := do
  let time ← Flow.request Request.clock
  let receipt ← Flow.attempt .receipt (Flow.request (Request.prepare operationId kind
    inspection.generation time.utc ⟨some target.sceneCollection,
      some inspection.intended.sceneUuid, some stageId, none⟩))
  Flow.change fun tracking ↦ { tracking with receipt := some receipt }

def update (change : OperationUpdate) : Work Unit := do
  let tracking ← Flow.getOwn
  match tracking.receipt with
  | none => Flow.fail (.receipt .missing)
  | some receipt => do
    let time ← Flow.request Request.clock
    let updated ← Flow.attempt .receipt (Flow.request (Request.update receipt change time.utc))
    Flow.change fun tracking ↦ { tracking with receipt := some updated }

/-- The error of a rejected mutation. -/
def rejection (code : ℕ) (message : String) : ObservationError :=
  ⟨if code = 604 then "capability_unavailable" else "evidence_unavailable", message, some code⟩

/-- What follows the outcome of a mutation. -/
def settle : Except MutationError Unit → Work Unit
  | .ok () => do
    Flow.change fun tracking ↦ { tracking with accepted := some true }
    update ⟨.accepted, some (some true), some (some true), none⟩
  | .error (.notDispatched error) => do
    Flow.change fun tracking ↦ { tracking with dispatched := false }
    Flow.fail (.evidence error)
  | .error (.policy disposition) => do
    Flow.change fun tracking ↦ { tracking with dispatched := false }
    Flow.fail (.policy disposition)
  | .error (.rejected code message) => do
    Flow.change fun tracking ↦ { tracking with accepted := some false }
    Flow.fail (.evidence (rejection code message))
  | .error (.unknown error) => Flow.fail (.evidence error)

def mutate (mutation : Mutation) (generation revision : ℕ) : Work Unit := do
  checkDeadline
  update ⟨.dispatching, some none, none, none⟩
  Flow.change fun tracking ↦ { tracking with dispatched := true }
  let outcome ← Flow.request (Request.mutate mutation generation revision)
  settle outcome

/-- The base64 data of an image URL. -/
def screenshotImage (response : Json) (maximum : ℕ) : Work Image := do
  let invalid : Fault := .evidence (.new "evidence_unavailable"
    "OBS returned invalid screenshot image data")
  match (response.get "imageData").bind Json.asStr with
  | none => Flow.fail invalid
  | some source =>
    match Text.splitOnce [','] source.toList with
    | none => Flow.fail invalid
    | some (header, data) =>
      let header := header.map Char.toLower
      let mimes := ["image/png", "image/jpeg", "image/webp"]
      match mimes.find? fun mime ↦ header = "data:".toList ++ mime.toList ++ ";base64".toList with
      | none => Flow.fail invalid
      | some mime => do
        Flow.require (data ≠ [] ∧ Text.size data % 4 = 0) invalid
        let digits := data.rdropWhile (· = '=')
        let padding := data.length - digits.length
        Flow.require (padding ≤ 2 ∧ digits.all (fun c ↦ c.isAlphanum || c = '+' || c = '/')) invalid
        let size := Text.size data / 4 * 3 - padding
        Flow.require (size ≤ maximum) (.evidence (.new "evidence_unavailable"
          s!"OBS screenshot is {size} bytes; limit is {maximum} bytes"))
        pure ⟨mime, String.ofList data, size⟩

/-! ### Stage -/

/-- The token that a stage call publishes. -/
def stagedEntry (target : Target) (after : Inspection) (expiresAt : ℕ) : Staged :=
  ⟨target, after.generation, expiresAt, after.intended.fingerprint, after.program.fingerprint,
    after.intended.sceneUuid⟩

/-- The subject and the program are unchanged, and the subject is in preview. -/
def Unchanged (before after : Inspection) : Prop :=
  before.generation = after.generation ∧
    before.intended.fingerprint = after.intended.fingerprint ∧
    before.program.fingerprint = after.program.fingerprint ∧
    after.preview.sceneUuid = before.intended.sceneUuid

instance (before after : Inspection) : Decidable (Unchanged before after) :=
  inferInstanceAs (Decidable (_ ∧ _))

/-- The scene in preview, its image, and the second inspection. -/
def showPreview (codec : Codec) (context : Context) (target : Target) (before : Inspection) :
    Work (Image × Inspection) := do
  if before.preview.sceneUuid ≠ before.intended.sceneUuid then
    mutate (.setPreview before.intended.sceneUuid) before.generation before.revision
  let screenshot ← readObject .sourceScreenshot (.object [("imageFormat", .string "png"),
    ("imageWidth", .number (.posInt 960)), ("sourceUuid", .string before.intended.sceneUuid)])
  let image ← screenshotImage screenshot context.screenshotMaxBytes
  let after ← inspect codec target
  pure (image, after)

def stage (codec : Codec) (context : Context) (target : Target) (stageId operationId : String) :
    Work Success := do
  target.validate
  context.validate
  Flow.attempt id (Flow.request (Request.admission (.stage target stageId operationId)))
  let endpoint ← Flow.request Request.endpoint
  Flow.require (endpoint.all (· = context.readerEndpoint))
    (.evidence (.new "stage_unavailable" "Stage workflow belongs to another OBS domain"))
  evidence (Flow.request Request.synchronize)
  Flow.request (Request.clear context.readerEndpoint)
  let before ← inspect codec target
  checkCancelled
  checkDeadline
  prepare operationId stageId .stageScene target before
  let (image, after) ← showPreview codec context target before
  Flow.require (Unchanged before after) (.evidence (.new "target_changed"
    "Subject or program changed while staging; inspect current preview before staging again"))
  let time ← Flow.request Request.clock
  let expiresAt ← orRefuse (time.plus STAGE_TTL_MS) "observation_limit"
    "Stage expiry exceeds supported clock range"
  let expiresUtc ← orRefuse (codec.utcText expiresAt) "observation_limit"
    "Stage expiry exceeds supported UTC range"
  update ⟨.observed, none, none, some true⟩
  Flow.request (Request.publish stageId (stagedEntry target after expiresAt))
  let tracking ← Flow.getOwn
  pure (.staged operationId stageId expiresUtc target after.intended.sceneUuid after.generation
    after.preview after.program.sceneUuid
    (after.intended.sources.filter (· ∈ after.program.sources)) tracking.dispatched
    tracking.accepted image)

/-! ### Take -/

/-- The token is not expired and the inspection shows what was staged. -/
def Fresh (entry : Staged) (before : Inspection) (time : ClockTime) : Prop :=
  time.epochMs < entry.expiresAt ∧ before.generation = entry.generation ∧
    before.intended.fingerprint = entry.subject ∧ before.program.fingerprint = entry.program ∧
    before.preview.sceneUuid = entry.sceneUuid

instance (entry : Staged) (before : Inspection) (time : ClockTime) :
    Decidable (Fresh entry before time) :=
  inferInstanceAs (Decidable (_ ∧ _))

/-- The turns of the verification that the scene reached program. -/
def verify (operationId : String) (entry : Staged) (verificationEnd : ℕ) : ℕ → Work Success
  | 0 => do
    let never ← Flow.request Request.forever
    nomatch never
  | turns + 1 => do
    checkCancelled
    checkDeadline
    let time ← Flow.request Request.clock
    let late ← Flow.request Request.lateVerification
    Flow.require (time.epochMs < verificationEnd ∧ late = false) (.evidence (.new
      "verification_timeout" "Intended scene was not observed on program within five seconds"))
    checkConnected entry.generation "Connection changed after transition dispatch"
    let collection ← readObject .sceneCollectionList .null
    let program ← readObject .currentProgramScene entry.target.canvas
    Flow.require ((collection.index "currentSceneCollectionName").asStr =
        some entry.target.sceneCollection)
      (.evidence (.new "target_changed" "Collection changed after transition dispatch"))
    if (program.index "currentProgramSceneUuid").asStr = some entry.sceneUuid ∧
        (program.index "currentProgramSceneName").asStr = some entry.target.sceneName then do
      let collectionAfter ← readObject .sceneCollectionList .null
      Flow.require ((collectionAfter.index "currentSceneCollectionName").asStr =
          some entry.target.sceneCollection)
        (.evidence (.new "target_changed" "Collection changed during program verification"))
      checkConnected entry.generation "Connection changed during verification"
      update ⟨.observed, none, none, some true⟩
      let time ← Flow.request Request.clock
      pure (.verified operationId entry.target entry.sceneUuid time.utc)
    else do
      Flow.request Request.wait
      verify operationId entry verificationEnd turns

/-- A take from the consumed token on. -/
def takeEntry (codec : Codec) (turns : ℕ) (stageId operationId : String) (entry : Staged) :
    Work Success := do
  checkConnected entry.generation "Connection changed since staging"
  let before ← inspect codec entry.target
  let time ← Flow.request Request.clock
  Flow.require (Fresh entry before time) (.evidence (.new "target_changed"
    "Program, preview or staged dependencies changed; stage and inspect again"))
  checkDeadline
  checkCancelled
  prepare operationId stageId .takeScene entry.target before
  mutate .transition entry.generation before.revision
  let time ← Flow.request Request.clock
  let verificationEnd ← orRefuse (time.plus VERIFICATION_MS) "verification_timeout"
    "Transition verification clock unavailable"
  verify operationId entry verificationEnd turns

def take (codec : Codec) (context : Context) (turns : ℕ) (stageId operationId : String) :
    Work Success := do
  let unavailable : Fault := .evidence (.new "stage_unavailable"
    "Stage expired, was already consumed, or belongs to another server; stage again")
  context.validate
  Flow.attempt id (Flow.request (Request.admission (.take stageId operationId)))
  let endpoint ← Flow.request Request.endpoint
  Flow.require (endpoint.all (· = context.readerEndpoint)) unavailable
  let time ← Flow.request Request.clock
  let entry ← Flow.request (Request.consume stageId time.epochMs)
  match entry with
  | none => Flow.fail unavailable
  | some entry => takeEntry codec turns stageId operationId entry

/-! ### Calls -/

/-- The reason and the message of a fault. -/
def Fault.report : Fault → String × String
  | .evidence error => (error.reason, error.message)
  | .receipt _ => ("receipt_unavailable",
      "Operation receipt could not be persisted or inspected; inspect obs-observe before any " ++
        "further production change")
  | .policy _ => ("policy_refused", "Control policy refused this operation")

def nextCheck (isTake dispatched : Bool) : String :=
  if isTake then
    if dispatched then
      "Read obs-observe and inspect program before any further transition; do not replay this " ++
        "stageId"
    else "Stage and inspect again"
  else "Read obs-observe and inspect preview before staging again"

/-- The last update of the receipt of a failed workflow. -/
def failureUpdate (tracking : Tracking) : OperationUpdate :=
  ⟨if tracking.dispatched then .unknown else .notDispatched,
    if tracking.accepted = some false then some (some true)
    else if tracking.dispatched then none else some (some false),
    some tracking.accepted, none⟩

/-- `fail`: the receipt is closed as far as the store allows, and the fault is reported. -/
def fail (isTake : Bool) (tracking : Tracking) (fault : Fault) :
    Program Request Request.Reply (Except Failure Success) :=
  let close : Work Unit :=
    if tracking.receipt.isSome then update (failureUpdate tracking) else pure ()
  (close tracking).bind fun (_, last) ↦ .done (.error {
    status := if last.dispatched then "unknown" else "blocked"
    requestDispatched := last.dispatched
    requestAccepted := last.accepted
    reason := fault.report.1
    message := fault.report.2
    nextCheck := nextCheck isTake last.dispatched
    operationId := last.receipt.map fun receipt ↦ receipt.1.operationId
    policy := match fault with
      | .policy disposition => some disposition
      | _ => none
    receiptError := match fault with
      | .receipt error => some error
      | _ => none })

def Call.isTake : Call → Bool
  | .stage _ _ _ => false
  | .take _ _ => true

def Call.work (codec : Codec) (context : Context) (turns : ℕ) : Call → Work Success
  | .stage target stageId operationId => Stage.stage codec context target stageId operationId
  | .take stageId operationId => Stage.take codec context turns stageId operationId

/-- A whole call. -/
def program (codec : Codec) (context : Context) (turns : ℕ) (call : Call) :
    Program Request Request.Reply (Except Failure Success) :=
  (call.work codec context turns ⟨none, false, none⟩).bind fun
    | (.ok success, _) => .done (.ok success)
    | (.error fault, tracking) => fail call.isTake tracking fault

/-- The world at the start of a call. -/
def World.begin (world : World) (call : Call) : World :=
  { world with trace := .called call :: world.trace }

/-- The worlds after any sequence of calls, with any changes of the receipts by others. -/
inductive Reachable (codec : Codec) : World → Prop
  | start (store : BackendStore) : Reachable codec ⟨[], none, store, []⟩
  | others {world : World} (store : BackendStore) (hworld : Reachable codec world) :
    Reachable codec { world with store := store }
  | call {world next : World} {result : Option (Except Failure Success)} (context : Context)
    (turns : ℕ) (call : Call) (hworld : Reachable codec world)
    (hrun : (program codec context turns call).Run (World.answers codec.hash) (world.begin call)
      result next) : Reachable codec next

end ObsMcp.Stage
