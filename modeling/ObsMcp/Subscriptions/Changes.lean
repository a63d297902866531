import ObsMcp.Foundations.Fallible
import ObsMcp.Foundations.Percent
import ObsMcp.Subscriptions.Routing

/-!
# The changes of an event

`project` lists the changes that an event of the application makes to the resources: updates of a
URI, and changes of the list. The items of a scene have a URI with the percent-encoded name of the
scene, so different scenes have different URIs (`itemsUri_injective`), and every such URI has the
shape that `itemUri` tests (`itemUri_itemsUri`).

The projection without the scene items leaves out updates of that shape and nothing else
(`projectSelected_false`).
-/

namespace ObsMcp.Subscriptions

open Foundations List

def MAX_SCENE_NAME : ℕ := 64 * 1024

/-- A change of a resource, or of the list of them. -/
inductive Change
  | updated (uri : String)
  | listChanged
  deriving DecidableEq

/-- The bytes that stand for themselves in a component: ASCII letters and digits and some marks. -/
def unreserved (byte : UInt8) : Bool :=
  let n := byte.toNat
  ('0'.toNat ≤ n && n ≤ '9'.toNat) || ('A'.toNat ≤ n && n ≤ 'Z'.toNat) ||
    ('a'.toNat ≤ n && n ≤ 'z'.toNat) || ("-_.!~*'()".toList.map Char.toNat).contains n

def component (value : String) : String :=
  String.ofList (Percent.encode unreserved value.toByteArray.data.toList)

/-- The URI of the items of a scene. -/
def itemsUri (name : String) : String :=
  "obs://scene/" ++ component name ++ "/items"

def items (value : Option String) : Except Failure (Option Change) :=
  match value with
  | none => .ok none
  | some name =>
    if MAX_SCENE_NAME < name.utf8ByteSize then .error .capacity
    else .ok (some (.updated (itemsUri name)))

/-- The events that change the status. -/
def statusEvents : List String :=
  ["RecordStateChanged", "StreamStateChanged", "ReplayBufferStateChanged",
    "VirtualcamStateChanged", "CurrentProgramSceneChanged", "CurrentProfileChanged",
    "CurrentSceneCollectionChanged", "CurrentPreviewSceneChanged", "StudioModeStateChanged",
    "VideoSettingsChanged", "CanvasCreated", "CanvasRemoved", "SceneNameChanged"]

/-- The events that change the scenes. -/
def sceneEvents : List String :=
  ["SceneCreated", "SceneRemoved", "SceneNameChanged", "SceneListChanged",
    "CurrentProgramSceneChanged", "CurrentPreviewSceneChanged", "CurrentSceneCollectionChanged"]

/-- The events that change the items of a scene. -/
def itemEvents : List String :=
  ["SceneItemCreated", "SceneItemRemoved", "SceneItemListReindexed",
    "SceneItemEnableStateChanged", "SceneItemLockStateChanged"]

/-- The events that change the list of the resources. -/
def listEvents : List String :=
  ["SceneCreated", "SceneRemoved", "SceneNameChanged"]

/-- The items of the scene that a member of the data names, when they are asked for. -/
def namedItems (data : Json) (key : String) (asked : Bool) : Except Failure (Option Change) :=
  if asked then items ((data.get key).bind Json.asStr) else .ok none

/-- The changes of an event, with the updates of scene items or without them. -/
def projectSelected (event : String) (data : Json) (sceneItems : Bool) :
    Except Failure (List Change) := do
  let status := if event ∈ statusEvents then [Change.updated "obs://status"] else []
  let scenes := if event ∈ sceneEvents then [Change.updated "obs://scenes"] else []
  let current ← namedItems data "sceneName" (event ∈ itemEvents && sceneItems)
  let list := if event ∈ listEvents then [Change.listChanged] else []
  let old ← namedItems data "oldSceneName" (event = "SceneNameChanged" && sceneItems)
  return status ++ scenes ++ current.toList ++ list ++ old.toList

/-- All the changes of an event. -/
def project (event : String) (data : Json) : Except Failure (List Change) :=
  projectSelected event data true

/-! ### The URIs of scene items -/

set_option maxRecDepth 2000 in
theorem unreserved_plain (byte : UInt8) (hplain : unreserved byte = true) :
    byte.toNat < 128 ∧ byte.toNat ≠ '%'.toNat := by
  have hall : ∀ n < 256, unreserved (UInt8.ofNat n) = true → n < 128 ∧ n ≠ '%'.toNat := by decide
  have hlt : byte.toNat < 256 := byte.toNat_lt
  exact hall byte.toNat hlt (by rwa [UInt8.ofNat_toNat])

variable {first second : String} {change : Option Change} {data : Json}

theorem component_injective (hsame : component first = component second) : first = second := by
  have hencoded := String.ofList_injective hsame
  have hbytes := Percent.encode_injective unreserved_plain hencoded
  exact String.toByteArray_inj.mp (ByteArray.ext (Array.toList_inj.mp hbytes))

/-- Different scenes have different URIs of their items. -/
theorem itemsUri_injective (hsame : itemsUri first = itemsUri second) : first = second := by
  have hlist := congrArg String.toList hsame
  simp only [itemsUri, String.toList_append] at hlist
  have hmiddle := append_cancel_right hlist
  exact component_injective (String.toList_injective (append_cancel_left hmiddle))

/-- The test of the shape of a scene items URI. -/
def itemUri (uri : String) : Bool :=
  "obs://scene/".toList.isPrefixOf uri.toList && "/items".toList.isSuffixOf uri.toList

theorem itemUri_itemsUri (name : String) : itemUri (itemsUri name) = true := by
  unfold itemUri itemsUri
  rw [Bool.and_eq_true, isPrefixOf_iff_prefix, isSuffixOf_iff_suffix]
  simp only [String.toList_append, append_assoc]
  exact ⟨prefix_append _ _, ⟨_, append_assoc _ _ _⟩⟩

/-! ### The projection without the scene items -/

/-- The change updates a URI that has the shape of scene items. -/
def Change.ofItems : Change → Bool
  | .updated uri => itemUri uri
  | .listChanged => false

/-- The scene that a change names: nothing, or an update of the items of a scene. -/
theorem items_eq_ok {value : Option String} (hitems : items value = .ok change) :
    ∀ found ∈ change, ∃ name, value = some name ∧
      found = .updated (itemsUri name) := by
  cases value with
  | none =>
    cases hitems
    simp
  | some name =>
    unfold items at hitems
    dsimp only at hitems
    split_ifs at hitems
    cases hitems
    intro found hfound
    exact ⟨name, rfl, (Option.some.inj hfound).symm⟩

/-- The changes that a scene is named for are updates of its items. -/
theorem filter_namedItems {key : String} {asked : Bool}
    (hnamed : namedItems data key asked = .ok change) :
    change.toList.filter (fun change ↦ !change.ofItems) = [] := by
  rw [filter_eq_nil_iff]
  intro found hfound
  unfold namedItems at hnamed
  split_ifs at hnamed
  · obtain ⟨name, -, rfl⟩ := items_eq_ok hnamed found (Option.mem_toList.mp hfound)
    simp [Change.ofItems, itemUri_itemsUri]
  · cases hnamed
    simp at hfound

/-- Assumes: a projection that succeeds. Without the scene items it leaves out the updates of their
shape, and nothing else. -/
theorem projectSelected_false {event : String} {changes : List Change}
    (hproject : project event data = .ok changes) :
    projectSelected event data false = .ok (changes.filter fun change ↦ !change.ofItems) := by
  obtain ⟨current, hcurrent, hproject⟩ := bind_eq_ok_iff.mp hproject
  obtain ⟨old, hold, hproject⟩ := bind_eq_ok_iff.mp hproject
  rw [pure_eq_ok_iff] at hproject
  have hstatus : (Change.updated "obs://status").ofItems = false := by decide
  have hscenes : (Change.updated "obs://scenes").ofItems = false := by decide
  have hlist : Change.listChanged.ofItems = false := rfl
  have hkept : ∀ {member : Prop} [Decidable member] {change : Change}, change.ofItems = false →
      (if member then [change] else []).filter (fun change ↦ !change.ofItems) =
        if member then [change] else [] := by
    intro member _ change hchange
    split_ifs <;> simp [hchange]
  rw [← hproject]
  simp only [filter_append, filter_namedItems hcurrent, filter_namedItems hold,
    hkept hstatus, hkept hscenes, hkept hlist, append_nil]
  unfold projectSelected
  simp only [namedItems, Bool.and_false, Bool.false_eq_true, if_false, ok_bind,
    Option.toList_none, append_nil]
  rfl

end ObsMcp.Subscriptions
