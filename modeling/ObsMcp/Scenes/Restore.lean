import ObsMcp.Scenes.Obs

/-!
# Restore

`planRestore` compares a snapshot with the current state and lists the changes that bring the saved
state back: first the inputs, then the items of the scenes that still exist, then per scene the
index moves. Items that were added since stay where they are: in the target order of a scene
(`targetOrder`) the surviving items take each other's places, in their saved order.

The text of an item identifier, `display_number`, is a parameter.
-/

namespace ObsMcp.Scenes

open Foundations

/-- A saved state as it is loaded. Settings, tracks and transforms are objects; names and
identifiers may occur more than once. -/
structure Snapshot where
  inputs : List InputState
  items : List ItemState
  settings_wellFormed : ∀ input ∈ inputs, (Json.object input.inputSettings).WellFormed
  tracks_wellFormed : ∀ input ∈ inputs, ∀ tracks ∈ input.audioTracks,
    (Json.object tracks).WellFormed
  transforms_wellFormed : ∀ item ∈ items, (Json.object item.transform).WellFormed

inductive Mutation
  | inputSettings (inputName : String) (settings : Members)
  | inputMute (inputName : String) (muted : Bool)
  | inputVolume (inputName : String) (volume : Finite64)
  | inputAudioTracks (inputName : String) (tracks : Members)
  | itemTransform (sceneName : String) (itemId : ℚ) (transform : Members)
  | itemEnabled (sceneName : String) (itemId : ℚ) (enabled : Bool)
  | itemLocked (sceneName : String) (itemId : ℚ) (locked : Bool)
  | itemIndex (sceneName : String) (itemId : ℚ) (index : ℕ)

/-- The request of a mutation; settings replace the present ones. -/
def Mutation.request : Mutation → ObsRequest
  | .inputSettings inputName settings => .setInputSettings inputName settings false
  | .inputMute inputName muted => .setInputMute inputName muted
  | .inputVolume inputName volume => .setInputVolumeMul inputName volume
  | .inputAudioTracks inputName tracks => .setInputAudioTracks inputName tracks
  | .itemTransform sceneName itemId transform => .setSceneItemTransform sceneName itemId transform
  | .itemEnabled sceneName itemId visible => .setSceneItemEnabled sceneName itemId visible
  | .itemLocked sceneName itemId fixed => .setSceneItemLocked sceneName itemId fixed
  | .itemIndex sceneName itemId index => .setSceneItemIndex sceneName itemId index

structure RestoreChange where
  target : String
  field : String
  mutation : Mutation

structure RestorePlan where
  changes : List RestoreChange
  missing : List String

/-- `same_transform`: both transforms have the same fields, with the same values. -/
def sameTransform (a b : Members) : Bool :=
  (a.keys ++ b.keys).all fun key ↦
    match a.get key, b.get key with
    | some x, some y => sameTransformValue key x y
    | none, none => true
    | _, _ => false

/-- The values in the order of their first occurrences. -/
def unique (values : List String) : List String :=
  values.eraseDups

/-! ### Inputs -/

section Inputs

variable (saved : InputState) (current : InputState)

def inputTarget : String :=
  "input " ++ saved.inputName

def settingsChanges : List RestoreChange :=
  if same (.object saved.inputSettings) (.object current.inputSettings) then []
  else [⟨inputTarget saved, "settings", .inputSettings saved.inputName saved.inputSettings⟩]

def muteChanges : List RestoreChange :=
  match saved.muted with
  | none => []
  | some muted =>
    if some muted ≠ current.muted then
      [⟨inputTarget saved, if muted then "mute" else "unmute",
        .inputMute saved.inputName muted⟩]
    else []

def volumeChanges : List RestoreChange :=
  match saved.volumeMul with
  | none => []
  | some volume =>
    if current.volumeMul.all fun now ↦ 1e-6 ≤ (volume.value - now.value).abs then
      [⟨inputTarget saved, "volume", .inputVolume saved.inputName volume⟩]
    else []

def trackChanges : List RestoreChange :=
  match saved.audioTracks with
  | none => []
  | some tracks =>
    if current.audioTracks.all fun now ↦ ¬ same (.object tracks) (.object now) then
      [⟨inputTarget saved, "audio tracks", .inputAudioTracks saved.inputName tracks⟩]
    else []

/-- The changes of a saved input whose present state is known. -/
def inputChanges : List RestoreChange :=
  settingsChanges saved current ++ muteChanges saved current ++ volumeChanges saved current ++
    trackChanges saved current

end Inputs

/-! ### Items -/

section Items

variable (displayNumber : ℚ → String) (saved : ItemState) (current : ItemState)

def itemTarget (sceneName : String) (item : ItemState) : String :=
  sceneName ++ " › " ++ item.sourceName ++ " (#" ++ displayNumber item.sceneItemId ++ ")"

def transformChanges : List RestoreChange :=
  if sameTransform saved.transform current.transform then []
  else
    [⟨itemTarget displayNumber saved.sceneName saved, "transform",
      .itemTransform saved.sceneName saved.sceneItemId saved.transform⟩]

def enabledChanges : List RestoreChange :=
  if saved.enabled ≠ current.enabled then
    [⟨itemTarget displayNumber saved.sceneName saved, if saved.enabled then "show" else "hide",
      .itemEnabled saved.sceneName saved.sceneItemId saved.enabled⟩]
  else []

def lockedChanges : List RestoreChange :=
  if saved.locked ≠ current.locked then
    [⟨itemTarget displayNumber saved.sceneName saved, if saved.locked then "lock" else "unlock",
      .itemLocked saved.sceneName saved.sceneItemId saved.locked⟩]
  else []

/-- The changes of a saved item whose present state is known. -/
def itemChanges : List RestoreChange :=
  transformChanges displayNumber saved current ++ enabledChanges displayNumber saved current ++
    lockedChanges displayNumber saved current

end Items

/-! ### Order -/

/-- The saved items of a scene that are still there, in their saved order. -/
def survivors (snapshot : Snapshot) (scene : String) (now : List ItemState) : List ItemState :=
  stack (snapshot.items.filter fun saved ↦
    saved.sceneName = scene ∧ now.any fun current ↦ current.sceneItemId = saved.sceneItemId)

/-- The present items with the places of the surviving ones filled by the next survivors. There is a
next survivor at every such place, and it is among the present items. -/
def fillPlaces (surviving : ItemState → Bool) (now : List ItemState) :
    List ItemState → List ItemState → List ItemState
  | _, [] => []
  | [], current :: rest => current :: fillPlaces surviving now [] rest
  | wanted :: survivors, current :: rest =>
    if surviving current then
      (now.find? fun current ↦ current.sceneItemId = wanted.sceneItemId).getD current ::
        fillPlaces surviving now survivors rest
    else current :: fillPlaces surviving now (wanted :: survivors) rest

def targetOrder (snapshot : Snapshot) (scene : String) (now : List ItemState) : List ItemState :=
  fillPlaces
    (fun current ↦ (survivors snapshot scene now).any fun saved ↦
      saved.sceneItemId = current.sceneItemId)
    now (survivors snapshot scene now) now

def orderChanges (displayNumber : ℚ → String) (snapshot : Snapshot) (scene : String)
    (now : List ItemState) : List RestoreChange :=
  let target := targetOrder snapshot scene now
  if (target.zip now).any fun pair ↦ pair.1.sceneItemId ≠ pair.2.sceneItemId then
    target.zipIdx.map fun pair ↦
      ⟨itemTarget displayNumber scene pair.1, "order (to " ++ Nat.repr pair.2 ++ ")",
        .itemIndex scene pair.1.sceneItemId pair.2⟩
  else []

/-! ### The plan -/

section Plan

variable (displayNumber : ℚ → String) (obs : Obs) (snapshot : Snapshot)

def savedScenes : List String :=
  unique (snapshot.items.map ItemState.sceneName)

/-- The saved scenes that still exist. -/
def readable : List String :=
  (savedScenes snapshot).filter fun scene ↦ (obs.readItems scene).isSome

def currentItems : List ItemState :=
  (readable obs snapshot).flatMap fun scene ↦ (obs.readItems scene).getD []

def currentInputs : List InputState :=
  obs.readInputs (snapshot.inputs.map InputState.inputName)

/-- The present state of a saved input. -/
def currentInput (saved : InputState) : Option InputState :=
  (currentInputs obs snapshot).find? fun current ↦ current.inputName = saved.inputName

/-- The saved items of the scenes that still exist. -/
def readableItems : List ItemState :=
  snapshot.items.filter fun item ↦ item.sceneName ∈ readable obs snapshot

/-- The present state of a saved item. -/
def currentItem (saved : ItemState) : Option ItemState :=
  (currentItems obs snapshot).find? fun current ↦
    current.sceneName = saved.sceneName ∧ current.sceneItemId = saved.sceneItemId

/-- The present items of a scene from back to front. -/
def presentItems (scene : String) : List ItemState :=
  stack ((currentItems obs snapshot).filter fun item ↦ item.sceneName = scene)

/-- What of the snapshot is no longer there, and what was added since. -/
def missingNotes : List String :=
  (((savedScenes snapshot).filter fun scene ↦ (obs.readItems scene).isNone).map fun scene ↦
    "scene " ++ scene ++ " no longer exists; its items were not restored") ++
  ((snapshot.inputs.filter fun saved ↦ (currentInput obs snapshot saved).isNone).map fun saved ↦
    inputTarget saved ++ " no longer exists") ++
  (((readableItems obs snapshot).filter fun saved ↦
    (currentItem obs snapshot saved).isNone).map fun saved ↦
      itemTarget displayNumber saved.sceneName saved ++ " was removed") ++
  (readable obs snapshot).flatMap fun scene ↦
    ((currentItems obs snapshot).filter fun item ↦ item.sceneName = scene ∧
      item.sceneItemId ∉ (snapshot.items.filter fun saved ↦ saved.sceneName = scene).map
        ItemState.sceneItemId).map fun item ↦
          itemTarget displayNumber scene item ++ " was added since; it is left in place"

def planRestore : RestorePlan where
  changes :=
    (snapshot.inputs.flatMap fun saved ↦
      ((currentInput obs snapshot saved).map (inputChanges saved)).getD []) ++
    ((readableItems obs snapshot).flatMap fun saved ↦
      ((currentItem obs snapshot saved).map (itemChanges displayNumber saved)).getD []) ++
    (readable obs snapshot).flatMap fun scene ↦
      orderChanges displayNumber snapshot scene (presentItems obs snapshot scene)
  missing := missingNotes displayNumber obs snapshot

/-- The requests of changes. -/
def RestorePlan.requests (plan : RestorePlan) : List ObsRequest :=
  plan.changes.map fun change ↦ change.mutation.request

end Plan

end ObsMcp.Scenes
