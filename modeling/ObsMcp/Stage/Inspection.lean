import ObsMcp.Stage.Surroundings

/-!
# The inspection of a scene

`inspect` reads what a scene and the program depend on, in one sample of OBS: the collection, the
scenes, the video settings and the inputs, and for each of the two scenes its items, nested scenes
and groups with their filters, transforms, settings and audio state, down to eight levels. Each of
the two is digested to a fingerprint, and whatever was read first is read again at the end.

`uses_inspectSample` says that an inspection only reads.
-/

namespace ObsMcp.Stage

open Foundations Receipts

open Foundations.Flow (Uses)

/-- What a workflow has done so far: its receipt, whether its request may have been sent and whether
it was accepted. -/
structure Tracking where
  receipt : Option OperationReceipt
  dispatched : Bool
  accepted : Option Bool

/-- The flows of the workflow. -/
abbrev Work (α : Type) := Flow Request Request.Reply Fault Tracking α

def refuse {α : Type} (reason message : String) : Work α :=
  Flow.fail (.evidence (.new reason message))

/-- A request that answers with evidence or with the error that withholds it. -/
def evidence {α : Type} (request : Work (Except ObservationError α)) : Work α :=
  Flow.attempt .evidence request

/-- A read in the current sample. -/
def readSample (request : ReadRequest) (data : Json) : Work Json :=
  evidence (Flow.request (Request.read request data))

def orRefuse {α : Type} (value : Option α) (reason message : String) : Work α :=
  match value with
  | some value => pure value
  | none => refuse reason message

/-! ### Evidence -/

/-- `identity`: a text of 1 to 256 UTF-16 units. -/
def identity (value : Json) : Work String :=
  orRefuse (value.asStr.filter boundedIdentity) "evidence_unavailable"
    "OBS did not report stable identity"

/-- `list`: objects, at most as many as allowed. -/
def list (value : Json) (maximum : ℕ) : Work (List Json) :=
  orRefuse (value.asArray.filter fun items ↦ items.length ≤ maximum && items.all Json.isObject)
    "evidence_unavailable" "OBS returned an incomplete or oversized inventory"

/-- `safe_integer`. -/
def safeInteger (value : Json) : Option Float :=
  value.asF64.filter fun x ↦ x.isFinite && x.floor == x && x.abs ≤ 9007199254740991.0

/-- `same_js_identity`. -/
def sameJsIdentity : Option Json → Option Json → Bool
  | none, none => true
  | some (.number a), some (.number b) => a.asF64 == b.asF64
  | some (.array _), _ | some (.object _), _ | _, some (.array _) | _, some (.object _) => false
  | some a, some b => a == b
  | _, _ => false

/-- `normalize_scene_item`: an input whose group flag is null is no group. -/
def normalizeSceneItem (item : Json) : Json :=
  match item with
  | .object members =>
    if (item.index "isGroup").isNull && Members.containsKey members "isGroup" &&
        (item.index "sourceType").asStr == some "OBS_SOURCE_TYPE_INPUT" &&
        (item.index "inputKind").asStr.any (· ≠ "") then
      .object (Members.insert members "isGroup" (.bool false))
    else item
  | _ => item

def Target.canvas (target : Target) : Json :=
  .object (target.canvasUuid.map fun canvas ↦ ("canvasUuid", Json.string canvas)).toList

def Target.validate (target : Target) : Work Unit := do
  let _ ← identity (.string target.sceneCollection)
  let _ ← identity (.string target.sceneName)
  match target.canvasUuid with
  | none => pure ()
  | some canvas => do
    let _ ← identity (.string canvas)
    pure ()

def SceneIdentity.toJson (scene : SceneIdentity) : Json :=
  .object [("sceneName", .string scene.sceneName), ("sceneUuid", .string scene.sceneUuid)]

structure SceneInventory where
  collection : String
  scenes : Json
  selected : SceneIdentity

structure FlatScene extends SceneInventory where
  video : Json
  inputs : List Json
  items : List Json

def FlatScene.toJson (scene : FlatScene) : Json :=
  .object [("collection", .string scene.collection), ("inputs", .array scene.inputs),
    ("items", .array scene.items), ("scenes", scene.scenes), ("selected", scene.selected.toJson),
    ("video", scene.video)]

/-- The identities of the listed scenes, which have to be given. -/
def sceneIds : List Json → Work (List String)
  | [] => pure []
  | scene :: scenes => do
    let _ ← identity (scene.index "sceneName")
    let id ← identity (scene.index "sceneUuid")
    let ids ← sceneIds scenes
    pure (id :: ids)

def sceneInventory (target : Target) : Work SceneInventory := do
  target.validate
  Flow.require target.canvasUuid.isNone (.evidence (.new "capability_unavailable"
    ("This workflow requires the default canvas: the pinned video-settings and transition " ++
      "contracts do not provide canvas-scoped operations")))
  let collectionReply ← readSample .sceneCollectionList .null
  let collection ← identity (collectionReply.index "currentSceneCollectionName")
  Flow.require (collection = target.sceneCollection)
    (.evidence (.new "target_changed" "Selected scene collection is not current"))
  let scenes ← readSample .sceneList target.canvas
  let inventory ← list (scenes.index "scenes") 256
  let ids ← sceneIds inventory
  Flow.require ids.Nodup (.evidence (.new "target_changed" "Duplicate scene identities"))
  match inventory.filter fun scene ↦ (scene.index "sceneName").asStr = some target.sceneName with
  | [selected] => do
    let sceneName ← identity (selected.index "sceneName")
    let sceneUuid ← identity (selected.index "sceneUuid")
    pure ⟨collection, scenes, ⟨sceneName, sceneUuid⟩⟩
  | _ => refuse "target_changed" "Selected scene is missing or ambiguous"

/-- The items of a scene have complete identities. -/
def checkItems : List Json → Work Unit
  | [] => pure ()
  | item :: items => do
    let _ ← identity (item.index "sourceName")
    let _ ← identity (item.index "sourceUuid")
    Flow.require ((safeInteger (item.index "sceneItemId")).any (0.0 ≤ ·) &&
        (item.index "isGroup").isBoolean)
      (.evidence (.new "evidence_unavailable" "Incomplete scene item identity"))
    checkItems items

/-- Two items have the same identifier. -/
def duplicateItems : List Json → Bool
  | [] => false
  | item :: items =>
    items.any (fun other ↦ sameJsIdentity (other.get "sceneItemId") (item.get "sceneItemId")) ||
      duplicateItems items

def flatScene (target : Target) : Work FlatScene := do
  let inventory ← sceneInventory target
  let video ← readSample .videoSettings target.canvas
  let inputReply ← readSample .inputList .null
  let inputs ← list (inputReply.index "inputs") 2048
  let itemReply ← readSample .sceneItemList
    (.object [("sceneUuid", .string inventory.selected.sceneUuid)])
  let listed ← list (itemReply.index "sceneItems") 128
  let items := listed.map normalizeSceneItem
  Flow.require (duplicateItems items = false)
    (.evidence (.new "target_changed" "Duplicate scene item identities"))
  checkItems items
  pure ⟨inventory, video, inputs, items⟩

/-! ### Dependencies -/

/-- What a walk through the dependencies of a scene has found. -/
structure Dependencies where
  sceneIds : List String
  inputs : List Json
  visited : List String
  sources : List String
  parts : List Json
  count : ℕ

def Dependencies.push (found : Dependencies) (part : Json) : Dependencies :=
  { found with parts := found.parts ++ [part] }

/-- The identifiers of the items of a scene are distinct integers. -/
def checkOccurrences (seen : List Int64) : List Json → Work Unit
  | [] => pure ()
  | item :: items => do
    let id ← orRefuse (safeInteger (item.index "sceneItemId")) "evidence_unavailable"
      "Incomplete occurrence state"
    Flow.require (id.toInt64 ∉ seen)
      (.evidence (.new "evidence_unavailable" "Duplicate occurrence identity"))
    checkOccurrences (id.toInt64 :: seen) items

/-- The audio state of an input, or that it has none of a kind. -/
def audioState (sourceUuid : String) : List ReadRequest → Dependencies → Work Dependencies
  | [], found => pure found
  | request :: requests, found => do
    let reply : Except ObservationError Json ← Flow.request
      (Request.read request (.object [("inputUuid", .string sourceUuid)]))
    match reply with
    | .ok state => audioState sourceUuid requests (found.push (.object
        [("sourceUuid", .string sourceUuid), ("state", state), ("type", .string request.asStr)]))
    | .error error => do
      evidence (Flow.request Request.check)
      Flow.require (error.requestCode = some 604) (.evidence error)
      audioState sourceUuid requests (found.push (.object [("capability", .string "unsupported"),
        ("sourceUuid", .string sourceUuid), ("type", .string request.asStr)]))

/-- A source that is neither a scene nor a group, read once. -/
def walkSource (item : Json) (sourceUuid : String) (found : Dependencies) : Work Dependencies :=
  if sourceUuid ∈ found.sources then pure found
  else
    match found.inputs.filter fun input ↦ (input.index "inputUuid").asStr = some sourceUuid &&
        input.index "inputName" == item.index "sourceName" with
    | [input] => do
      let found := { found with sources := found.sources ++ [sourceUuid] }
      let settings ← readSample .inputSettings (.object [("inputUuid", .string sourceUuid)])
      let filters ← readSample .sourceFilterList (.object [("sourceUuid", .string sourceUuid)])
      audioState sourceUuid [.inputMute, .inputVolume, .inputAudioTracks]
        (((found.push input).push settings).push filters)
    | _ => refuse "target_changed" "Source inventory and scene identity disagree"

/-- The items of a scene in order, given the walk of the next level. -/
def walkItems (walk : String → Bool → Dependencies → Work Dependencies) (uuid : String) :
    List Json → Dependencies → Work Dependencies
  | [], found => pure found
  | item :: items, found => do
    let found := { found with count := found.count + 1 }
    Flow.require (found.count ≤ 128)
      (.evidence (.new "observation_limit" "Staging dependency limit reached"))
    let sourceUuid ← identity (item.index "sourceUuid")
    let _ ← identity (item.index "sourceName")
    Flow.require ((item.index "sceneItemEnabled").isBoolean && (item.index "isGroup").isBoolean)
      (.evidence (.new "evidence_unavailable" "Incomplete occurrence state"))
    let transform ← readSample .sceneItemTransform (.object
      [("sceneItemId", item.index "sceneItemId"), ("sceneUuid", .string uuid)])
    let found := found.push transform
    let group := (item.index "isGroup").asBool = some true
    let found ← if group ∨ sourceUuid ∈ found.sceneIds then walk sourceUuid group found
      else walkSource item sourceUuid found
    walkItems walk uuid items found

/-- The walk through a scene or a group, with the levels left below it. -/
def walk : ℕ → String → Bool → Dependencies → Work Dependencies
  | 0, _, _, _ => refuse "evidence_unavailable"
      "Nested scene cycle, reuse or depth limit prevents staging"
  | levels + 1, uuid, group, found =>
    if uuid ∈ found.visited then refuse "evidence_unavailable"
      "Nested scene cycle, reuse or depth limit prevents staging"
    else do
      let found := { found with visited := uuid :: found.visited }
      let reply ← readSample (if group then .groupSceneItemList else .sceneItemList)
        (.object [("sceneUuid", .string uuid)])
      let listed ← list (reply.index "sceneItems") 128
      let items := listed.map normalizeSceneItem
      checkOccurrences [] items
      let found := found.push (.object [("items", .array items), ("uuid", .string uuid)])
      let filters ← readSample .sourceFilterList (.object [("sourceUuid", .string uuid)])
      walkItems (walk levels) uuid items (found.push filters)

mutual

/-- `normalize_private`: numbers as floats, with one zero. -/
def normalizePrivate : Json → Json
  | .number n => .number (.float
      (if n.asF64 == 0.0 then ⟨0.0, by decide⟩ else ⟨n.asF64, n.asF64_isFinite⟩))
  | .array items => .array (normalizePrivateItems items)
  | .object members => .object (normalizePrivateMembers members)
  | value => value

def normalizePrivateItems : List Json → List Json
  | [] => []
  | item :: items => normalizePrivate item :: normalizePrivateItems items

def normalizePrivateMembers : List (String × Json) → List (String × Json)
  | [] => []
  | (key, value) :: members => (key, normalizePrivate value) :: normalizePrivateMembers members

end

/-- The functions of texts and images that the workflow takes from elsewhere: the digest of a
document, the digest of a name, and the UTC text of a time. -/
structure Codec where
  digest : Json → String
  hash : String → String
  utcText : ℕ → Option String

/-- `private_fingerprint`. -/
def Codec.fingerprint (codec : Codec) (value : Json) : String :=
  codec.digest (normalizePrivate value)

/-- The identities of the scenes that nested items are looked up in. -/
def sceneUuids : List Json → Work (List String)
  | [] => pure []
  | scene :: scenes => do
    let id ← identity (scene.index "sceneUuid")
    let ids ← sceneUuids scenes
    pure (id :: ids)

def subject (codec : Codec) (target : Target) : Work Subject := do
  let root ← flatScene target
  let scenes ← list (root.scenes.index "scenes") 256
  let ids ← sceneUuids scenes
  let found ← walk 9 root.selected.sceneUuid false ⟨ids, root.inputs, [], [], [], 0⟩
  pure ⟨root.selected.sceneUuid, codec.fingerprint (.object
    [("collection", .string root.collection), ("parts", .array found.parts),
      ("scene", root.selected.toJson), ("video", root.video)]), found.sources⟩

/-- The listed scenes that a reply of OBS names, by name and, if given, by identity. -/
def namedScenes (scenes : List Json) (name : String) (uuid : Option Json) : List Json :=
  scenes.filter fun scene ↦ (scene.index "sceneName").asStr = some name &&
    uuid.all (scene.index "sceneUuid" == ·)

/-- Studio Mode is on. -/
def studioMode (reason message : String) : Work Unit := do
  let reply ← readSample .studioModeEnabled .null
  Flow.require ((reply.index "studioModeEnabled").asBool = some true)
    (.evidence (.new reason message))

/-- The inspection in one sample. -/
def inspectSample (codec : Codec) (target : Target) (generation revision : ℕ) :
    Work Inspection := do
  studioMode "capability_unavailable"
    "Enable Studio Mode explicitly before staging; this workflow never toggles it"
  let before ← flatScene target
  let programName ← identity (before.scenes.index "currentProgramSceneName")
  let preview ← readSample .currentPreviewScene target.canvas
  let previewName ← identity (preview.index "currentPreviewSceneName")
  let scenes ← list (before.scenes.index "scenes") 256
  match namedScenes scenes programName (before.scenes.get "currentProgramSceneUuid"),
      namedScenes scenes previewName (preview.get "currentPreviewSceneUuid") with
  | [_], [previewScene] => do
    let intended ← subject codec target
    let program ← subject codec { target with sceneName := programName }
    let after ← flatScene target
    Flow.require (codec.fingerprint before.toJson = codec.fingerprint after.toJson)
      (.evidence (.new "observation_invalidated" "Program or preview changed during inspection"))
    let previewAfter ← readSample .currentPreviewScene target.canvas
    Flow.require (codec.fingerprint preview = codec.fingerprint previewAfter)
      (.evidence (.new "observation_invalidated" "Program or preview changed during inspection"))
    studioMode "observation_invalidated" "Studio Mode changed during inspection"
    let previewUuid ← identity (previewScene.index "sceneUuid")
    pure ⟨intended, program, ⟨previewName, previewUuid⟩, generation, revision⟩
  | _, _ => refuse "evidence_unavailable" "Program/preview identities are missing or ambiguous"

/-- `Context::inspect`: the inspection in a new sample. -/
def inspect (codec : Codec) (target : Target) : Work Inspection := do
  evidence (Flow.request Request.synchronize)
  let (generation, revision) ← evidence (Flow.request Request.sample)
  let inspection ← inspectSample codec target generation revision
  Flow.request (Request.inspected inspection)
  pure inspection

/-! ### An inspection only reads -/

/-- A request of an inspection. -/
def Request.Reads : Request → Prop
  | .synchronize | .sample | .check | .read _ _ => True
  | _ => False

theorem uses_evidence {α : Type} {request : Work (Except ObservationError α)}
    (huses : request.Uses Request.Reads) : (evidence request).Uses Request.Reads :=
  huses.attempt

theorem uses_orRefuse {α : Type} (value : Option α) (reason message : String) :
    (orRefuse value reason message).Uses Request.Reads := by
  cases value with
  | none => exact Uses.fail _
  | some value => exact Uses.pure value

theorem uses_readSample (request : ReadRequest) (data : Json) :
    (readSample request data).Uses Request.Reads :=
  uses_evidence (Uses.request trivial)

theorem uses_identity (value : Json) : (identity value).Uses Request.Reads :=
  uses_orRefuse _ _ _

theorem uses_list (value : Json) (maximum : ℕ) : (list value maximum).Uses Request.Reads :=
  uses_orRefuse _ _ _

theorem uses_validate (target : Target) : target.validate.Uses Request.Reads := by
  unfold Target.validate
  refine (uses_identity _).bind fun _ ↦ (uses_identity _).bind fun _ ↦ ?_
  split
  · exact Uses.pure ()
  · exact (uses_identity _).bind fun _ ↦ Uses.pure ()

theorem uses_sceneIds (scenes : List Json) : (sceneIds scenes).Uses Request.Reads := by
  induction scenes with
  | nil => exact Uses.pure _
  | cons scene scenes ih =>
    exact (uses_identity _).bind fun _ ↦ (uses_identity _).bind fun _ ↦
      ih.bind fun _ ↦ Uses.pure _

theorem uses_sceneInventory (target : Target) : (sceneInventory target).Uses Request.Reads := by
  refine (uses_validate target).bind fun _ ↦ (Uses.require _ _).bind fun _ ↦
    (uses_readSample _ _).bind fun _ ↦ (uses_identity _).bind fun _ ↦
    (Uses.require _ _).bind fun _ ↦ (uses_readSample _ _).bind fun _ ↦
    (uses_list _ _).bind fun _ ↦ (uses_sceneIds _).bind fun _ ↦
    (Uses.require _ _).bind fun _ ↦ ?_
  split
  · exact (uses_identity _).bind fun _ ↦ (uses_identity _).bind fun _ ↦ Uses.pure _
  · exact Uses.fail _

theorem uses_checkItems (items : List Json) : (checkItems items).Uses Request.Reads := by
  induction items with
  | nil => exact Uses.pure _
  | cons item items ih =>
    exact (uses_identity _).bind fun _ ↦ (uses_identity _).bind fun _ ↦
      (Uses.require _ _).bind fun _ ↦ ih

theorem uses_flatScene (target : Target) : (flatScene target).Uses Request.Reads :=
  (uses_sceneInventory target).bind fun _ ↦ (uses_readSample _ _).bind fun _ ↦
    (uses_readSample _ _).bind fun _ ↦ (uses_list _ _).bind fun _ ↦
    (uses_readSample _ _).bind fun _ ↦ (uses_list _ _).bind fun _ ↦
    (Uses.require _ _).bind fun _ ↦ (uses_checkItems _).bind fun _ ↦ Uses.pure _

theorem uses_checkOccurrences (seen : List Int64) (items : List Json) :
    (checkOccurrences seen items).Uses Request.Reads := by
  induction items generalizing seen with
  | nil => exact Uses.pure _
  | cons item items ih =>
    exact (uses_orRefuse _ _ _).bind fun _ ↦ (Uses.require _ _).bind fun _ ↦ ih _

theorem uses_audioState (sourceUuid : String) (requests : List ReadRequest)
    (found : Dependencies) : (audioState sourceUuid requests found).Uses Request.Reads := by
  induction requests generalizing found with
  | nil => exact Uses.pure _
  | cons request requests ih =>
    refine Uses.bind (Uses.request trivial) fun reply ↦ ?_
    cases reply with
    | ok state => exact ih _
    | error error =>
      exact (uses_evidence (Uses.request trivial)).bind fun _ ↦
        (Uses.require _ _).bind fun _ ↦ ih _

theorem uses_walkSource (item : Json) (sourceUuid : String) (found : Dependencies) :
    (walkSource item sourceUuid found).Uses Request.Reads := by
  unfold walkSource
  split_ifs
  · exact Uses.pure _
  · split
    · exact (uses_readSample _ _).bind fun _ ↦ (uses_readSample _ _).bind fun _ ↦
        uses_audioState _ _ _
    · exact Uses.fail _

theorem uses_walkItems {next : String → Bool → Dependencies → Work Dependencies}
    (hnext : ∀ uuid group found, (next uuid group found).Uses Request.Reads) (uuid : String)
    (items : List Json) (found : Dependencies) :
    (walkItems next uuid items found).Uses Request.Reads := by
  induction items generalizing found with
  | nil => exact Uses.pure _
  | cons item items ih =>
    refine (Uses.require _ _).bind fun _ ↦ (uses_identity _).bind fun _ ↦
      (uses_identity _).bind fun _ ↦ (Uses.require _ _).bind fun _ ↦
      (uses_readSample _ _).bind fun _ ↦ ?_
    dsimp only
    split_ifs
    · exact (hnext _ _ _).bind fun _ ↦ ih _
    · exact (uses_walkSource _ _ _).bind fun _ ↦ ih _

theorem uses_walk (levels : ℕ) (uuid : String) (group : Bool) (found : Dependencies) :
    (walk levels uuid group found).Uses Request.Reads := by
  induction levels generalizing uuid group found with
  | zero => exact Uses.fail _
  | succ levels ih =>
    unfold walk
    split_ifs
    · exact Uses.fail _
    all_goals
      exact (uses_readSample _ _).bind fun _ ↦ (uses_list _ _).bind fun _ ↦
        (uses_checkOccurrences _ _).bind fun _ ↦ (uses_readSample _ _).bind fun _ ↦
        uses_walkItems ih _ _ _

theorem uses_sceneUuids (scenes : List Json) : (sceneUuids scenes).Uses Request.Reads := by
  induction scenes with
  | nil => exact Uses.pure _
  | cons scene scenes ih =>
    exact (uses_identity _).bind fun _ ↦ ih.bind fun _ ↦ Uses.pure _

theorem uses_subject (codec : Codec) (target : Target) :
    (subject codec target).Uses Request.Reads :=
  (uses_flatScene _).bind fun _ ↦ (uses_list _ _).bind fun _ ↦ (uses_sceneUuids _).bind fun _ ↦
    (uses_walk _ _ _ _).bind fun _ ↦ Uses.pure _

theorem uses_studioMode (reason message : String) :
    (studioMode reason message).Uses Request.Reads :=
  (uses_readSample _ _).bind fun _ ↦ Uses.require _ _

/-- An inspection in a sample only reads. -/
theorem uses_inspectSample (codec : Codec) (target : Target) (generation revision : ℕ) :
    (inspectSample codec target generation revision).Uses Request.Reads := by
  refine (uses_studioMode _ _).bind fun _ ↦ (uses_flatScene _).bind fun _ ↦
    (uses_identity _).bind fun _ ↦ (uses_readSample _ _).bind fun _ ↦
    (uses_identity _).bind fun _ ↦ (uses_list _ _).bind fun _ ↦ ?_
  split
  · exact (uses_subject _ _).bind fun _ ↦ (uses_subject _ _).bind fun _ ↦
      (uses_flatScene _).bind fun _ ↦ (Uses.require _ _).bind fun _ ↦
      (uses_readSample _ _).bind fun _ ↦ (Uses.require _ _).bind fun _ ↦
      (uses_studioMode _ _).bind fun _ ↦ (uses_identity _).bind fun _ ↦ Uses.pure _
  · exact Uses.fail _

end ObsMcp.Stage
