import ObsMcp.Scenes.Obs

/-!
# Apply Scene

`plan` compares a request with the current state of its scene and lists the actions that make the
state match: creations first, then per source the changes of its input and its item, then removals
and index moves. The tool runs in two stages: it performs the creations, plans again, and performs
the changes that `continuation` lets through.

`Obs.current` is the state as the tool reads it. The decimal digits of a floating-point number are a
parameter of the model, `Numerals`.
-/

namespace ObsMcp.Scenes

open Foundations

/-- The transform fields a request may set, in the order they are read. -/
def TRANSFORM : List String :=
  ["positionX", "positionY", "scaleX", "scaleY", "rotation", "alignment", "boundsType",
    "boundsWidth", "boundsHeight", "boundsAlignment", "cropLeft", "cropRight", "cropTop",
    "cropBottom"]

/-- `js_number`: the text of a number, the shortest decimal digits that read back as it. -/
structure Numerals where
  jsNumber : Finite64 → String

/-- The value of a nonempty list of decimal digits. -/
def digitsValue (digits : List Char) : Option ℕ :=
  if digits ≠ [] ∧ digits.all Char.isDigit then
    some (digits.foldl (fun value digit ↦ 10 * value + (digit.toNat - '0'.toNat)) 0)
  else none

/-- `parse::<u64>`. -/
def parseU64 (text : String) : Option UInt64 :=
  let digits :=
    match text.toList with
    | '+' :: digits => digits
    | digits => digits
  ((digitsValue digits).filter fun value ↦ value < 2 ^ 64).map UInt64.ofNat

/-- `parse::<i64>` of a text that is no `u64`, as a number. -/
def parseNegative (text : String) : Option Number :=
  match text.toList with
  | '-' :: digits =>
    match digitsValue digits with
    | none => none
    | some value =>
      if hvalue : 0 < value ∧ value ≤ 2 ^ 63 then
        some (.negInt (.ofInt (-value)) (by rw [Int64.toInt_ofInt_of_le] <;> omega))
      else if value = 0 then some (.posInt 0) else none
  | _ => none

/-- `source_number`: an integer when the text of the number is one. -/
def Numerals.sourceNumber (numerals : Numerals) (number : Finite64) : Number :=
  match parseU64 (numerals.jsNumber number) with
  | some value => .posInt value
  | none => (parseNegative (numerals.jsNumber number)).getD (.float number)

/-- A listed source as it is parsed: the settings have distinct keys, and the transform lists its
fields in the order of `TRANSFORM`. -/
structure SourceSpec where
  name : String
  kind : Option String
  settings : Option Members
  visible : Option Bool
  locked : Option Bool
  muted : Option Bool
  volumeDb : Option Finite64
  audioTracks : Option (List ℕ)
  fit : Bool
  transform : Members
  settings_distinct : ∀ members ∈ settings, (Members.keys members).Nodup
  settings_wellFormed : ∀ members ∈ settings, ∀ member ∈ members, member.2.WellFormed
  transform_fields : (Members.keys transform).Sublist TRANSFORM
  transform_wellFormed : ∀ member ∈ transform, member.2.WellFormed

structure Request where
  sceneName : String
  sources : List SourceSpec
  order : Bool
  removeOthers : Bool

/-- A source is to be fitted to the canvas. -/
def Request.needsCanvas (request : Request) : Bool :=
  request.sources.any SourceSpec.fit

structure Canvas where
  width : Finite64
  height : Finite64

structure Current where
  sceneExists : Bool
  sceneNames : List String
  inputKinds : String → Option String
  items : List ItemState
  inputs : List InputState
  video : Option Canvas

inductive Phase
  | create
  | change
  deriving DecidableEq

inductive Effect
  | createScene (sceneName : String)
  | createInput (sceneName inputName kind : String) (settings : Members) (enabled : Bool)
  | createItem (sceneName inputName : String) (enabled : Bool)
  | settingsOverlay (inputName : String) (settings : Members)
  | mute (inputName : String) (muted : Bool)
  | volumeDb (inputName : String) (db : Finite64)
  | audioTracks (inputName : String) (tracks : Members)
  | enabled (sceneName : String) (id : ℚ) (enabled : Bool)
  | locked (sceneName : String) (id : ℚ) (locked : Bool)
  | transform (sceneName : String) (id : ℚ) (transform : Members)
  | removeItem (sceneName : String) (id : ℚ)
  | index (sceneName : String) (id : ℚ) (index : ℕ)

/-- The request of an effect. -/
def Effect.request : Effect → ObsRequest
  | .createScene sceneName => .createScene sceneName
  | .createInput sceneName inputName kind settings visible =>
    .createInput sceneName inputName kind settings visible
  | .createItem sceneName inputName visible => .createSceneItem sceneName inputName visible
  | .settingsOverlay inputName settings => .setInputSettings inputName settings true
  | .mute inputName muted => .setInputMute inputName muted
  | .volumeDb inputName db => .setInputVolumeDb inputName db
  | .audioTracks inputName tracks => .setInputAudioTracks inputName tracks
  | .enabled sceneName id visible => .setSceneItemEnabled sceneName id visible
  | .locked sceneName id fixed => .setSceneItemLocked sceneName id fixed
  | .transform sceneName id fields => .setSceneItemTransform sceneName id fields
  | .removeItem sceneName id => .removeSceneItem sceneName id
  | .index sceneName id place => .setSceneItemIndex sceneName id place

structure Action where
  target : String
  change : String
  phase : Phase
  effect : Option Effect

/-- The line that describes an action. -/
def Action.description (action : Action) : String :=
  "- " ++ action.target ++ ": " ++ action.change ++
    (if action.effect.isSome then "" else " (once it exists)")

@[ext] structure Plan where
  actions : List Action
  errors : List String

def Plan.creations (plan : Plan) : List Action :=
  plan.actions.filter fun action ↦ action.phase = .create

/-- The requests of actions that have an effect. -/
def requests (actions : List Action) : List ObsRequest :=
  actions.filterMap fun action ↦ action.effect.map Effect.request

/-- An object of listed members. -/
def object (members : Members) : Members :=
  Members.overlay [] members

/-! ### The actions of one source -/

section Source

variable (numerals : Numerals) (scene : String) (current : Current) (source : SourceSpec)

/-- The kind a source asks for; an empty one counts as none. -/
def SourceSpec.wantedKind : Option String :=
  source.kind.filter fun kind ↦ ¬ kind.isEmpty

/-- The item of a source in the scene. -/
def Current.item (name : String) : Option ItemState :=
  current.items.find? fun item ↦ item.sourceName = name

/-- The input of a source. -/
def Current.input (name : String) : Option InputState :=
  current.inputs.find? fun input ↦ input.inputName = name

def itemActions : List Action :=
  if (current.item source.name).isNone then
    [⟨source.name, "add to the scene", .create,
      some (.createItem scene source.name (source.visible.getD true))⟩]
  else []

/-- The listed settings an input does not have. -/
def changedSettings (settings : Members) (input : InputState) : List String :=
  (settings.filter fun member ↦
    ¬ (input.inputSettings.get member.1).any (same member.2)).map Prod.fst

def settingsActions : List Action :=
  match source.settings, current.input source.name with
  | some settings, some input =>
    let changed := changedSettings settings input
    if changed.isEmpty then []
    else
      [⟨source.name, "settings (" ++ ", ".intercalate changed ++ ")", .change,
        some (.settingsOverlay source.name (object settings))⟩]
  | _, _ => []

def createInputActions (kind : String) : List Action :=
  [⟨source.name, "create " ++ kind ++ (if source.settings.isSome then " with settings" else ""),
    .create, some (.createInput scene source.name kind ((source.settings.map object).getD [])
      (source.visible.getD true))⟩]

def muteActions : List Action :=
  match source.muted with
  | none => []
  | some muted =>
    if (current.input source.name).all fun input ↦ input.muted ≠ some muted then
      [⟨source.name, if muted then "mute" else "unmute", .change,
        some (.mute source.name muted)⟩]
    else []

/-- The level of an input in decibels. -/
def levelDb (input : InputState) : Float :=
  match input.volumeMul with
  | none => 0.0
  | some mul => if 0.0 < mul.value then 20.0 * mul.value.log10 else -100.0

def volumeActions : List Action :=
  match source.volumeDb with
  | none => []
  | some wanted =>
    if (current.input source.name).all fun input ↦
        0.1 < (levelDb input - wanted.value).abs then
      [⟨source.name, "volume " ++ numerals.jsNumber wanted ++ " dB", .change,
        some (.volumeDb source.name wanted)⟩]
    else []

/-- The wanted state of the six audio tracks. -/
def wantedTracks (tracks : List ℕ) : Members :=
  ([1, 2, 3, 4, 5, 6] : List ℕ).map fun track ↦ (Nat.repr track, .bool (tracks.contains track))

/-- An input has a track switched on. -/
def hasTrack (input : InputState) (track : ℕ) : Bool :=
  (input.audioTracks.bind fun tracks ↦ tracks.get (Nat.repr track)).any (· == .bool true)

def trackActions : List Action :=
  match source.audioTracks with
  | none => []
  | some tracks =>
    if (current.input source.name).all fun input ↦
        ([1, 2, 3, 4, 5, 6] : List ℕ).any fun track ↦
          hasTrack input track ≠ tracks.contains track then
      [⟨source.name,
        if tracks.isEmpty then "no audio tracks"
        else "audio tracks " ++ ", ".intercalate (tracks.map Nat.repr), .change,
        some (.audioTracks source.name (wantedTracks tracks))⟩]
    else []

def enabledActions : List Action :=
  match source.visible, current.item source.name with
  | some visible, some item =>
    if item.enabled ≠ visible then
      [⟨source.name, if visible then "show" else "hide", .change,
        some (.enabled scene item.sceneItemId visible)⟩]
    else []
  | _, _ => []

def lockedActions : List Action :=
  match source.locked with
  | none => []
  | some locked =>
    if (current.item source.name).all fun item ↦ item.locked ≠ locked then
      [⟨source.name, if locked then "lock" else "unlock", .change,
        (current.item source.name).map fun item ↦ .locked scene item.sceneItemId locked⟩]
    else []

/-- The transform that fits a source to the canvas. -/
def fitTransform (video : Canvas) : Members :=
  [("boundsType", .string "OBS_BOUNDS_SCALE_INNER"),
    ("boundsWidth", .number (numerals.sourceNumber video.width)),
    ("boundsHeight", .number (numerals.sourceNumber video.height)),
    ("boundsAlignment", .number (.posInt 0)), ("alignment", .number (.posInt 5)),
    ("positionX", .number (.posInt 0)), ("positionY", .number (.posInt 0))]

/-- A listed member replaces the one of its key in place, or comes last. -/
def putMember : Members → String × Json → Members
  | [], member => [member]
  | old :: members, member =>
    if old.1 = member.1 then (old.1, member.2) :: members else old :: putMember members member

/-- The wanted transform: the one that fits the source to the canvas, with the listed fields over
it. -/
def wantedTransform : Members :=
  let fitted :=
    match current.video.filter fun _ ↦ source.fit with
    | some video => fitTransform numerals video
    | none => []
  source.transform.foldl putMember fitted

/-- The wanted transform fields an item does not have. -/
def changedTransform : List String :=
  ((wantedTransform numerals current source).filter fun member ↦
    (current.item source.name).all fun item ↦
      ¬ (item.transform.get member.1).any (sameTransformValue member.1 member.2)).map Prod.fst

def transformActions : List Action :=
  let changed := changedTransform numerals current source
  if changed.isEmpty then []
  else
    [⟨source.name,
      if source.fit ∧ changed.contains "boundsType" then "fit to the canvas"
      else "transform (" ++ ", ".intercalate changed ++ ")", .change,
      (current.item source.name).map fun item ↦
        .transform scene item.sceneItemId (object (wantedTransform numerals current source))⟩]

/-- The changes of a source that do not depend on whether its input exists. -/
def changeActions : List Action :=
  muteActions current source ++ volumeActions numerals current source ++
    trackActions current source ++ enabledActions scene current source ++
    lockedActions scene current source ++ transformActions numerals scene current source

/-- The actions of a source, or the error that keeps it from being planned. -/
def planSource : Except String (List Action) :=
  match current.inputKinds source.name with
  | some kind =>
    match source.wantedKind.filter fun wanted ↦ wanted ≠ kind with
    | some wanted =>
      .error (source.name ++ " is a " ++ kind ++ ", not a " ++ wanted ++ "; choose another name")
    | none =>
      .ok (itemActions scene current source ++ settingsActions current source ++
        changeActions numerals scene current source)
  | none =>
    match source.wantedKind with
    | none => .error (source.name ++ " does not exist; give its kind to create it")
    | some kind =>
      .ok (createInputActions scene source kind ++ changeActions numerals scene current source)

end Source

/-! ### The plan -/

section Plan

variable (numerals : Numerals) (request : Request) (current : Current)

def sceneActions : List Action :=
  if current.sceneExists then []
  else
    [⟨"scene " ++ request.sceneName, "create", .create, some (.createScene request.sceneName)⟩]

/-- The errors of the listed names, after those that were seen. -/
def nameErrors : List String → List SourceSpec → List String
  | _, [] => []
  | seen, source :: sources =>
    (if source.name ∈ seen then [source.name ++ " is listed more than once"] else []) ++
      (if source.name ∈ current.sceneNames ∨ source.name = request.sceneName then
        [source.name ++ " is a scene, not an input; nest scenes with obs-create-scene-item"]
      else []) ++ nameErrors (source.name :: seen) sources

/-- The items that belong to no listed source. -/
def otherItems : List ItemState :=
  current.items.filter fun item ↦ item.sourceName ∉ request.sources.map SourceSpec.name

def removeActions : List Action :=
  if request.removeOthers then
    (otherItems request current).map fun item ↦
      ⟨item.sourceName, "remove from the scene", .change,
        some (.removeItem request.sceneName item.sceneItemId)⟩
  else []

/-- The front items are the listed sources in their order. -/
def ordered : Bool :=
  let items := stack current.items
  let top := items.drop (items.length - request.sources.length)
  request.sources.zipIdx.all fun pair ↦
    (top[pair.2]?).any fun item ↦ item.sourceName = pair.1.name

def orderActions : List Action :=
  if request.order then
    if ¬ request.sources.all fun source ↦ (current.item source.name).isSome then
      [⟨"scene " ++ request.sceneName, "order the sources back to front as listed", .change, none⟩]
    else if ordered request current then []
    else
      let index :=
        (if request.removeOthers then request.sources.length else current.items.length) - 1
      request.sources.filterMap fun source ↦
        (current.item source.name).map fun item ↦
          ⟨source.name, "order (to the front, as listed)", .change,
            some (.index request.sceneName item.sceneItemId index)⟩
  else []

def plan : Plan where
  actions := sceneActions request current ++
    (request.sources.flatMap fun source ↦
      (planSource numerals request.sceneName current source).toOption.getD []) ++
    removeActions request current ++ orderActions request current
  errors := nameErrors request current [] request.sources ++
    request.sources.filterMap fun source ↦
      match planSource numerals request.sceneName current source with
      | .error error => some error
      | .ok _ => none

end Plan

/-! ### The second stage -/

/-- The result of a refused call. -/
def errorResult (text : String) : Json :=
  .object [("content", .array [.object [("text", .string text), ("type", .string "text")]]),
    ("isError", .bool true)]

def snapshotNote (snapshot : Option String) : List String :=
  (snapshot.map fun id ↦
    "Snapshot " ++ id ++ " holds the previous state of existing sources").toList

/-- What keeps a second plan from being applied: its errors, and every creation it still asks
for. -/
def Plan.problems (second : Plan) : List String :=
  second.errors ++ (second.actions.filter fun action ↦ action.phase = .create).map fun action ↦
    action.target ++ ": " ++ action.change ++ " is still needed; it was not retried"

def continuation (second : Plan) (creations : List Action) (snapshot : Option String) :
    Except Json (List Action) :=
  if second.problems.isEmpty then
    .ok (second.actions.filter fun action ↦ action.phase = .change ∧ action.effect.isSome)
  else
    .error (errorResult ("\n".intercalate (["Stopped before applying changes:"] ++
      second.problems.map (fun problem ↦ "- " ++ problem) ++
      (if creations.isEmpty then []
      else "Created before stopping:" :: creations.map Action.description) ++
      snapshotNote snapshot)))

/-- The state of the scene of a request as the tool reads it, on a canvas. -/
def Obs.current (obs : Obs) (canvas : Canvas) (request : Request) : Current where
  sceneExists := (obs.scenes.get request.sceneName).isSome
  sceneNames := obs.scenes.entries.map Prod.fst
  inputKinds name := (obs.inputs.get name).map Input.kind
  items := (obs.readItems request.sceneName).getD []
  inputs := obs.readInputs ((request.sources.map SourceSpec.name).filter fun name ↦
    (obs.inputs.get name).isSome)
  video := if request.needsCanvas then some canvas else none

end ObsMcp.Scenes
