import Mathlib.Data.Rat.Cast.Order
import ObsMcp.Foundations.KeyMap
import ObsMcp.Scenes.Compare

/-!
# Scenes and inputs of OBS

The state that the scene tools plan against: scenes, each a stack of items from back to front, and
inputs with their settings and audio. An item is found by its identifier, which no two items of a
scene share, and shows an input or a scene that exists; `Scene` and `Obs` carry both facts.
`perform` gives the requests the tools send their meaning: settings, tracks and transforms are put
over the present ones key by key, and an index move takes the item out and puts it back at the
index. What OBS chooses itself, as the identifier of a new item, is a `Host`.

`readItems` and `readInputs` are the views of the state the planners work on. Identifiers and
indices are `f64` numbers that are only compared; they are modelled by the rational numbers they
stand for.
-/

namespace ObsMcp.Scenes

open Foundations List Option

/-- The transform fields that can be written. -/
def WRITABLE_TRANSFORM : List String :=
  ["positionX", "positionY", "rotation", "scaleX", "scaleY", "alignment", "boundsType",
    "boundsAlignment", "boundsWidth", "boundsHeight", "cropLeft", "cropRight", "cropTop",
    "cropBottom", "cropToBounds"]

structure InputState where
  inputName : String
  inputKind : String
  inputSettings : Members
  muted : Option Bool
  volumeMul : Option Finite64
  audioTracks : Option Members

structure ItemState where
  sceneName : String
  sceneItemId : ℚ
  sourceName : String
  index : ℚ
  enabled : Bool
  locked : Bool
  transform : Members

/-- Items from back to front. -/
def stack (items : List ItemState) : List ItemState :=
  items.mergeSort fun a b ↦ a.index ≤ b.index

theorem stack_eq_self {items : List ItemState}
    (hsorted : items.Pairwise fun first second ↦ first.index ≤ second.index) :
    stack items = items :=
  mergeSort_of_pairwise (hsorted.imp decide_eq_true)

/-- A request to OBS. -/
inductive ObsRequest
  | createScene (sceneName : String)
  | createInput (sceneName inputName inputKind : String) (inputSettings : Members)
      (sceneItemEnabled : Bool)
  | createSceneItem (sceneName sourceName : String) (sceneItemEnabled : Bool)
  | setInputSettings (inputName : String) (inputSettings : Members) (overlay : Bool)
  | setInputMute (inputName : String) (inputMuted : Bool)
  | setInputVolumeMul (inputName : String) (inputVolumeMul : Finite64)
  | setInputVolumeDb (inputName : String) (inputVolumeDb : Finite64)
  | setInputAudioTracks (inputName : String) (inputAudioTracks : Members)
  | setSceneItemEnabled (sceneName : String) (sceneItemId : ℚ) (sceneItemEnabled : Bool)
  | setSceneItemLocked (sceneName : String) (sceneItemId : ℚ) (sceneItemLocked : Bool)
  | setSceneItemTransform (sceneName : String) (sceneItemId : ℚ) (sceneItemTransform : Members)
  | setSceneItemIndex (sceneName : String) (sceneItemId : ℚ) (sceneItemIndex : ℕ)
  | removeSceneItem (sceneName : String) (sceneItemId : ℚ)

/-! ### Items -/

structure Item where
  id : ℚ
  source : String
  enabled : Bool
  locked : Bool
  transform : Members

/-- A stack of items from back to front, no two with the same identifier. -/
structure Scene where
  items : List Item
  distinct : (items.map Item.id).Nodup

namespace Scene

def empty : Scene := ⟨[], nodup_nil⟩

/-- The scene with a change to one item that leaves its identifier and source. -/
def edit (scene : Scene) (id : ℚ) (f : Item → Item) : Scene where
  items := scene.items.map fun item ↦
    if item.id = id then { f item with id := item.id, source := item.source } else item
  distinct := by
    have hids : (scene.items.map fun item ↦
        if item.id = id then { f item with id := item.id, source := item.source } else item).map
          Item.id = scene.items.map Item.id := by
      rw [List.map_map]
      refine List.map_congr_left fun item _ ↦ ?_
      by_cases hitem : item.id = id <;> simp [hitem]
    rw [hids]
    exact scene.distinct

/-- The scene without one item. -/
def remove (scene : Scene) (id : ℚ) : Scene where
  items := scene.items.filter fun item ↦ item.id ≠ id
  distinct := scene.distinct.sublist (filter_sublist.map _)

/-- The items with one of them taken out and put back at an index. -/
def moveItem (items : List Item) (id : ℚ) (index : ℕ) : List Item :=
  match items.find? fun item ↦ item.id = id with
  | none => items
  | some item =>
    let rest := items.filter fun item ↦ item.id ≠ id
    rest.take index ++ item :: rest.drop index

theorem moveItem_perm {items : List Item} (hdistinct : (items.map Item.id).Nodup) (id : ℚ)
    (index : ℕ) : (moveItem items id index).Perm items := by
  unfold moveItem
  cases hfind : items.find? fun item ↦ item.id = id with
  | none => exact List.Perm.refl _
  | some item =>
    have hmem := mem_of_find?_eq_some hfind
    have hid : item.id = id := by simpa using find?_some hfind
    obtain ⟨before, after, hsplit⟩ := append_of_mem hmem
    rw [hsplit, map_append, map_cons, nodup_append, nodup_cons] at hdistinct
    obtain ⟨-, ⟨hafter, -⟩, hbefore⟩ := hdistinct
    have hrest : items.filter (fun item ↦ item.id ≠ id) = before ++ after := by
      rw [hsplit, filter_append, filter_cons_of_neg (by simp [hid])]
      congr 1
      · refine filter_eq_self.mpr fun other hother ↦ ?_
        have := hbefore other.id (mem_map_of_mem hother) item.id (by simp)
        simpa [hid] using this
      · refine filter_eq_self.mpr fun other hother ↦ ?_
        have hne : other.id ≠ item.id := by
          intro heq
          exact hafter (heq ▸ mem_map_of_mem hother)
        simpa [hid] using hne
    simp only [hrest]
    refine perm_middle.trans ?_
    rw [take_append_drop, hsplit]
    exact perm_middle.symm

/-- The scene with one item at another index. -/
def move (scene : Scene) (id : ℚ) (index : ℕ) : Scene where
  items := moveItem scene.items id index
  distinct := ((moveItem_perm scene.distinct id index).map Item.id).nodup_iff.mpr scene.distinct

/-- The scene with an item on top. -/
def add (scene : Scene) (item : Item) (hfresh : item.id ∉ scene.items.map Item.id) : Scene where
  items := scene.items ++ [item]
  distinct := by
    rw [map_append, nodup_append]
    refine ⟨scene.distinct, nodup_singleton _, fun a ha b hb ↦ ?_⟩
    rw [map_singleton, mem_singleton] at hb
    rintro rfl
    exact hfresh (hb ▸ ha)

end Scene

/-! ### The state -/

/-- An input; its tracks are an object, with distinct keys. -/
structure Input where
  kind : String
  settings : Members
  muted : Bool
  volume : Finite64
  tracks : Members
  tracks_distinct : tracks.keys.Nodup

/-- The input with tracks put over the present ones. -/
def Input.overlayTracks (input : Input) (tracks : Members) : Input :=
  { input with
    tracks := input.tracks.overlay tracks
    tracks_distinct := Members.nodup_keys_overlay input.tracks_distinct }

/-- Scenes and inputs by name; every item shows an input or a scene. -/
structure Obs where
  scenes : KeyMap String Scene
  inputs : KeyMap String Input
  sourced : ∀ name scene, scenes.get name = some scene → ∀ item ∈ scene.items,
    (inputs.get item.source).isSome ∨ (scenes.get item.source).isSome

/-- What OBS chooses itself: the identifier of a new item, the state of a new input of a kind and of
a new item of a source, and the volume that a level in decibels stands for. -/
structure Host where
  newId : List ℚ → ℚ
  newId_fresh : ∀ ids, newId ids ∉ ids
  newInput : String → Input
  newItem : String → Bool × Members
  volumeOfDb : Finite64 → Finite64

namespace Obs

/-- A change of one input. -/
def editInput (obs : Obs) (name : String) (f : Input → Input) : Obs where
  scenes := obs.scenes
  inputs := obs.inputs.modify name f
  sourced := by
    intro scene items hscene item hitem
    rcases obs.sourced scene items hscene item hitem with hinput | hscene
    · left
      rw [KeyMap.get_modify]
      split_ifs with hname
      · rw [isSome_map, ← hname]
        exact hinput
      · exact hinput
    · exact .inr hscene

/-- A change of one scene that shows no new source. -/
def editScene (obs : Obs) (name : String) (f : Scene → Scene)
    (hf : ∀ scene, ∀ item ∈ (f scene).items, ∃ old ∈ scene.items, old.source = item.source) :
    Obs where
  scenes := obs.scenes.modify name f
  inputs := obs.inputs
  sourced := by
    have hsome : ∀ source, (obs.scenes.get source).isSome →
        ((obs.scenes.modify name f).get source).isSome := by
      intro source hsource
      rw [KeyMap.get_modify]
      split_ifs with hname
      · rw [isSome_map, ← hname]
        exact hsource
      · exact hsource
    intro other scene hscene item hitem
    rw [KeyMap.get_modify] at hscene
    split_ifs at hscene with hname
    · obtain ⟨before, hbefore, rfl⟩ := map_eq_some_iff.mp hscene
      obtain ⟨old, hold, hsource⟩ := hf before item hitem
      rw [← hsource]
      exact (obs.sourced name before hbefore old hold).imp id (hsome _)
    · exact (obs.sourced other scene hscene item hitem).imp id (hsome _)

/-- A new empty scene. -/
def addScene (obs : Obs) (name : String) : Obs where
  scenes := obs.scenes.insert name .empty
  inputs := obs.inputs
  sourced := by
    intro other scene hscene item hitem
    rw [KeyMap.get_insert] at hscene
    split_ifs at hscene with hname
    · cases hscene
      exact absurd hitem (by simp [Scene.empty])
    · refine (obs.sourced other scene hscene item hitem).imp id fun hsource ↦ ?_
      rw [KeyMap.get_insert]
      split_ifs
      · rfl
      · exact hsource

/-- A new input. -/
def addInput (obs : Obs) (name : String) (input : Input) : Obs where
  scenes := obs.scenes
  inputs := obs.inputs.insert name input
  sourced := by
    intro other scene hscene item hitem
    refine (obs.sourced other scene hscene item hitem).imp (fun hsource ↦ ?_) id
    rw [KeyMap.get_insert]
    split_ifs
    · rfl
    · exact hsource

/-- A new item on top of a scene. -/
def addItem (obs : Obs) (host : Host) (name source : String) (enabled : Bool)
    (hsource : (obs.inputs.get source).isSome ∨ (obs.scenes.get source).isSome) : Obs where
  scenes := obs.scenes.modify name fun scene ↦
    scene.add ⟨host.newId (scene.items.map Item.id), source, enabled, (host.newItem source).1,
      (host.newItem source).2⟩ (host.newId_fresh _)
  inputs := obs.inputs
  sourced := by
    have hsome : ∀ f : Scene → Scene, ∀ source, (obs.scenes.get source).isSome →
        ((obs.scenes.modify name f).get source).isSome := by
      intro f source hsource
      rw [KeyMap.get_modify]
      split_ifs with hname
      · rw [isSome_map, ← hname]
        exact hsource
      · exact hsource
    intro other scene hscene item hitem
    rw [KeyMap.get_modify] at hscene
    split_ifs at hscene with hname
    · obtain ⟨before, hbefore, rfl⟩ := map_eq_some_iff.mp hscene
      rcases mem_append.mp hitem with hold | hnew
      · exact (obs.sourced name before hbefore item hold).imp id (hsome _ _)
      · rw [mem_singleton.mp hnew]
        exact hsource.imp id (hsome _ _)
    · exact (obs.sourced other scene hscene item hitem).imp id (hsome _ _)

/-- A change of one item. -/
def editItem (obs : Obs) (name : String) (id : ℚ) (f : Item → Item) : Obs :=
  obs.editScene name (fun scene ↦ scene.edit id f) fun scene item hitem ↦ by
    obtain ⟨old, hold, rfl⟩ := List.mem_map.mp hitem
    refine ⟨old, hold, ?_⟩
    by_cases hid : old.id = id <;> simp [hid]

/-- An index move of one item. -/
def moveItem (obs : Obs) (name : String) (id : ℚ) (index : ℕ) : Obs :=
  obs.editScene name (fun scene ↦ scene.move id index) fun scene item hitem ↦
    ⟨item, (Scene.moveItem_perm scene.distinct id index).mem_iff.mp hitem, rfl⟩

/-- The removal of one item. -/
def removeItem (obs : Obs) (name : String) (id : ℚ) : Obs :=
  obs.editScene name (fun scene ↦ scene.remove id) fun _ item hitem ↦
    ⟨item, mem_of_mem_filter hitem, rfl⟩

/-- The state after a request. A request that names something that does not exist, or creates
something that does, changes nothing. -/
def perform (host : Host) (obs : Obs) : ObsRequest → Obs
  | .createScene sceneName =>
    if (obs.scenes.get sceneName).isSome then obs else obs.addScene sceneName
  | .createInput sceneName inputName inputKind inputSettings sceneItemEnabled =>
    if (obs.scenes.get sceneName).isNone ∨ (obs.inputs.get inputName).isSome then obs
    else
      let input := { host.newInput inputKind with
        kind := inputKind, settings := (host.newInput inputKind).settings.overlay inputSettings }
      (obs.addInput inputName input).addItem host sceneName inputName sceneItemEnabled
        (.inl (by simp [addInput, KeyMap.get_insert]))
  | .createSceneItem sceneName sourceName sceneItemEnabled =>
    if hsource : (obs.inputs.get sourceName).isSome ∨ (obs.scenes.get sourceName).isSome then
      obs.addItem host sceneName sourceName sceneItemEnabled hsource
    else obs
  | .setInputSettings inputName inputSettings overlay =>
    obs.editInput inputName fun input ↦
      { input with
        settings := if overlay then input.settings.overlay inputSettings else inputSettings }
  | .setInputMute inputName inputMuted =>
    obs.editInput inputName fun input ↦ { input with muted := inputMuted }
  | .setInputVolumeMul inputName inputVolumeMul =>
    obs.editInput inputName fun input ↦ { input with volume := inputVolumeMul }
  | .setInputVolumeDb inputName inputVolumeDb =>
    obs.editInput inputName fun input ↦ { input with volume := host.volumeOfDb inputVolumeDb }
  | .setInputAudioTracks inputName inputAudioTracks =>
    obs.editInput inputName fun input ↦ input.overlayTracks inputAudioTracks
  | .setSceneItemEnabled sceneName sceneItemId sceneItemEnabled =>
    obs.editItem sceneName sceneItemId fun item ↦ { item with enabled := sceneItemEnabled }
  | .setSceneItemLocked sceneName sceneItemId sceneItemLocked =>
    obs.editItem sceneName sceneItemId fun item ↦ { item with locked := sceneItemLocked }
  | .setSceneItemTransform sceneName sceneItemId sceneItemTransform =>
    obs.editItem sceneName sceneItemId fun item ↦
      { item with transform := item.transform.overlay sceneItemTransform }
  | .setSceneItemIndex sceneName sceneItemId sceneItemIndex =>
    obs.moveItem sceneName sceneItemId sceneItemIndex
  | .removeSceneItem sceneName sceneItemId => obs.removeItem sceneName sceneItemId

/-- The state after requests in order. -/
def performAll (host : Host) (obs : Obs) (requests : List ObsRequest) : Obs :=
  requests.foldl (fun obs request ↦ obs.perform host request) obs

/-! ### Views -/

/-- The transform of an item as it is read: its writable fields. -/
def readTransform (transform : Members) : Members :=
  transform.filter fun member ↦ member.1 ∈ WRITABLE_TRANSFORM

theorem get_readTransform (transform : Members) {key : String} (hkey : key ∈ WRITABLE_TRANSFORM) :
    (readTransform transform).get key = transform.get key := by
  unfold readTransform Members.get
  rw [find?_filter]
  congr 2
  funext member
  by_cases hmember : member.1 = key <;> simp [hmember, hkey]

/-- An item of a scene as it is read, with its place in the stack. -/
def readItem (sceneName : String) (item : Item) (index : ℕ) : ItemState :=
  ⟨sceneName, item.id, item.source, index, item.enabled, item.locked,
    readTransform item.transform⟩

/-- The items of a scene, when the scene exists. -/
def readItems (obs : Obs) (sceneName : String) : Option (List ItemState) :=
  (obs.scenes.get sceneName).map fun scene ↦
    scene.items.zipIdx.map fun pair ↦ readItem sceneName pair.1 pair.2

/-- An input as it is read. -/
def readInput (inputName : String) (input : Input) : InputState :=
  ⟨inputName, input.kind, input.settings, some input.muted, some input.volume, some input.tracks⟩

/-- The inputs of the names that exist. -/
def readInputs (obs : Obs) (names : List String) : List InputState :=
  names.filterMap fun name ↦ (obs.inputs.get name).map (readInput name)

/-! ### What a request changes -/

/-- The items of a scene, none when it does not exist. -/
def items (obs : Obs) (sceneName : String) : List Item :=
  ((obs.scenes.get sceneName).map Scene.items).getD []

/-- The items of a scene as they are read. -/
def listItems (obs : Obs) (sceneName : String) : List ItemState :=
  (obs.items sceneName).zipIdx.map fun pair ↦ readItem sceneName pair.1 pair.2

theorem readItems_getD (obs : Obs) (sceneName : String) :
    (obs.readItems sceneName).getD [] = obs.listItems sceneName := by
  unfold readItems listItems items
  cases obs.scenes.get sceneName <;> rfl

variable {obs : Obs} {host : Host} {requests : List ObsRequest}

theorem mem_listItems {sceneName : String} {state : ItemState} :
    state ∈ obs.listItems sceneName ↔
      ∃ item index, (obs.items sceneName)[index]? = some item ∧
        state = readItem sceneName item index := by
  unfold listItems
  rw [List.mem_map]
  constructor
  · rintro ⟨⟨item, index⟩, hpair, rfl⟩
    exact ⟨item, index, mk_mem_zipIdx_iff_getElem?.mp hpair, rfl⟩
  · rintro ⟨item, index, hitem, rfl⟩
    exact ⟨(item, index), mk_mem_zipIdx_iff_getElem?.mpr hitem, rfl⟩

/-- The items are read in the order of their indices. -/
theorem stack_listItems (obs : Obs) (sceneName : String) :
    stack (obs.listItems sceneName) = obs.listItems sceneName := by
  refine mergeSort_of_pairwise ?_
  unfold listItems
  rw [pairwise_map, pairwise_iff_getElem]
  intro i j hi hj hij
  rw [getElem_zipIdx, getElem_zipIdx]
  refine decide_eq_true ?_
  show ((0 + i : ℕ) : ℚ) ≤ ((0 + j : ℕ) : ℚ)
  exact_mod_cast (by omega : 0 + i ≤ 0 + j)

/-- A field of the items that does not depend on their places. -/
theorem map_listItems {α : Type} (obs : Obs) (sceneName : String) {f : ItemState → α}
    {g : Item → α} (hfield : ∀ item index, f (readItem sceneName item index) = g item) :
    (obs.listItems sceneName).map f = (obs.items sceneName).map g := by
  unfold listItems
  nth_rewrite 2 [← List.zipIdx_map_fst 0 (obs.items sceneName)]
  rw [List.map_map, List.map_map]
  exact List.map_congr_left fun pair _ ↦ hfield pair.1 pair.2

/-- The input that is found for a name among the inputs of names. -/
theorem find_readInputs (obs : Obs) (names : List String) (name : String) :
    (obs.readInputs names).find? (fun input ↦ input.inputName = name) =
      if name ∈ names then (obs.inputs.get name).map (readInput name) else none := by
  unfold readInputs
  induction names with
  | nil => rfl
  | cons other names ih =>
    by_cases hsame : other = name
    · subst hsame
      rw [if_pos mem_cons_self]
      cases hother : obs.inputs.get other with
      | none =>
        rw [filterMap_cons_none (by rw [hother]; rfl), ih, hother]
        split_ifs <;> rfl
      | some found =>
        rw [filterMap_cons_some (b := readInput other found) (by rw [hother]; rfl),
          find?_cons_of_pos (by simp [readInput])]
        rfl
    · have hmem : name ∈ other :: names ↔ name ∈ names := by
        simp [Ne.symm hsame]
      rw [if_congr hmem rfl rfl, ← ih]
      cases hother : obs.inputs.get other with
      | none => rw [filterMap_cons_none (by rw [hother]; rfl)]
      | some found =>
        rw [filterMap_cons_some (b := readInput other found) (by rw [hother]; rfl),
          find?_cons_of_neg (by simp [readInput, hsame])]

section Changes

variable (obs : Obs) (host : Host) {name other : String} {id : ℚ}

theorem items_distinct (sceneName : String) : ((obs.items sceneName).map Item.id).Nodup := by
  unfold items
  cases obs.scenes.get sceneName with
  | none => exact nodup_nil
  | some scene => exact scene.distinct

section

variable (f : Scene → Scene)
  (hf : ∀ scene, ∀ item ∈ (f scene).items, ∃ old ∈ scene.items, old.source = item.source)
include hf

/-- A change of one scene, as far as another one or the set of scenes is concerned. -/
theorem get_scenes_editScene :
    (obs.editScene name f hf).scenes.get other =
      if other = name then (obs.scenes.get name).map f else obs.scenes.get other :=
  KeyMap.get_modify ..

theorem isSome_editScene :
    ((obs.editScene name f hf).scenes.get other).isSome = (obs.scenes.get other).isSome := by
  rw [get_scenes_editScene]
  split_ifs with hother
  · rw [isSome_map, hother]
  · rfl

theorem items_editScene_of_ne (hother : other ≠ name) :
    (obs.editScene name f hf).items other = obs.items other := by
  unfold items
  rw [get_scenes_editScene, if_neg hother]

end

theorem isSome_editItem (f : Item → Item) :
    ((obs.editItem name id f).scenes.get other).isSome = (obs.scenes.get other).isSome :=
  isSome_editScene obs _ _

theorem isSome_removeItem :
    ((obs.removeItem name id).scenes.get other).isSome = (obs.scenes.get other).isSome :=
  isSome_editScene obs _ _

theorem isSome_moveItem (index : ℕ) :
    ((obs.moveItem name id index).scenes.get other).isSome = (obs.scenes.get other).isSome :=
  isSome_editScene obs _ _

theorem items_editItem (f : Item → Item) :
    (obs.editItem name id f).items name = (obs.items name).map fun item ↦
      if item.id = id then { f item with id := item.id, source := item.source } else item := by
  unfold items editItem
  rw [get_scenes_editScene, if_pos rfl]
  cases obs.scenes.get name <;> rfl

theorem items_removeItem :
    (obs.removeItem name id).items name = (obs.items name).filter fun item ↦ item.id ≠ id := by
  unfold items removeItem
  rw [get_scenes_editScene, if_pos rfl]
  cases obs.scenes.get name <;> rfl

theorem items_moveItem (index : ℕ) :
    (obs.moveItem name id index).items name = Scene.moveItem (obs.items name) id index := by
  unfold items moveItem
  rw [get_scenes_editScene, if_pos rfl]
  cases obs.scenes.get name <;> rfl

theorem inputs_editInput (f : Input → Input) :
    (obs.editInput name f).inputs.get other =
      if other = name then (obs.inputs.get name).map f else obs.inputs.get other :=
  KeyMap.get_modify ..

variable {enabled : Bool} {source : String}

theorem items_addItem (hsource : (obs.inputs.get source).isSome ∨ (obs.scenes.get source).isSome)
    (hscene : (obs.scenes.get name).isSome) :
    (obs.addItem host name source enabled hsource).items name = obs.items name ++
      [⟨host.newId ((obs.items name).map Item.id), source, enabled, (host.newItem source).1,
        (host.newItem source).2⟩] := by
  unfold items addItem
  obtain ⟨scene, hscene⟩ := isSome_iff_exists.mp hscene
  simp only [KeyMap.get_modify, if_true, hscene, map_some, getD_some]
  rfl

theorem isSome_addItem (hsource : (obs.inputs.get source).isSome ∨ (obs.scenes.get source).isSome) :
    ((obs.addItem host name source enabled hsource).scenes.get other).isSome =
      (obs.scenes.get other).isSome := by
  show ((obs.scenes.modify name _).get other).isSome = _
  rw [KeyMap.get_modify]
  split_ifs with hother
  · rw [isSome_map, hother]
  · rfl

theorem performAll_append (first second : List ObsRequest) :
    obs.performAll host (first ++ second) =
      (obs.performAll host first).performAll host second :=
  foldl_append

theorem performAll_cons (request : ObsRequest) (rest : List ObsRequest) :
    obs.performAll host (request :: rest) = (obs.perform host request).performAll host rest :=
  rfl

end Changes

/-- A property that every request of a list keeps holds after the list. -/
theorem performAll_keeps (Inv : Obs → Prop)
    (hkeep : ∀ request ∈ requests, ∀ obs, Inv obs → Inv (obs.perform host request))
    (hobs : Inv obs) :
    Inv (obs.performAll host requests) := by
  induction requests generalizing obs with
  | nil => exact hobs
  | cons request requests ih =>
    rw [performAll_cons]
    exact ih (fun other hother ↦ hkeep other (by simp [hother])) (hkeep request (by simp) obs hobs)

/-- A goal that every request of a list keeps holds after the list when it holds before or one of
the requests establishes it. Assumes: an invariant that all the requests keep. -/
theorem performAll_reaches (Inv Goal : Obs → Prop)
    (hinv : ∀ request ∈ requests, ∀ obs, Inv obs → Inv (obs.perform host request))
    (hkeep : ∀ request ∈ requests, ∀ obs, Inv obs → Goal obs → Goal (obs.perform host request))
    (hobs : Inv obs)
    (hgoal : Goal obs ∨ ∃ request ∈ requests, ∀ obs, Inv obs → Goal (obs.perform host request)) :
    Goal (obs.performAll host requests) := by
  induction requests generalizing obs with
  | nil =>
    rcases hgoal with hgoal | ⟨request, hrequest, -⟩
    · exact hgoal
    · exact absurd hrequest (by simp)
  | cons request requests ih =>
    rw [performAll_cons]
    refine ih (fun other hother ↦ hinv other (by simp [hother]))
      (fun other hother ↦ hkeep other (by simp [hother])) (hinv request (by simp) obs hobs) ?_
    rcases hgoal with hgoal | ⟨making, hmaking, hmake⟩
    · exact .inl (hkeep request (by simp) obs hobs hgoal)
    · rcases mem_cons.mp hmaking with rfl | hmaking
      · exact .inl (hmake obs hobs)
      · exact .inr ⟨making, hmaking, hmake⟩

end Obs

/-! ### A plain host -/

theorem le_foldr_max {ids : List ℚ} {id : ℚ} (hid : id ∈ ids) : id ≤ ids.foldr max 0 := by
  induction ids with
  | nil => simp at hid
  | cons first ids ih =>
    rcases mem_cons.mp hid with rfl | hid
    · exact le_max_left _ _
    · exact (ih hid).trans (le_max_right _ _)

/-- A host that numbers items upward and makes muted inputs without settings. -/
def Host.plain : Host where
  newId ids := ids.foldr max 0 + 1
  newId_fresh _ hmem := not_le.mpr (lt_add_one _) (le_foldr_max hmem)
  newInput kind := ⟨kind, [], true, ⟨0.0, isFinite_zero⟩, [], nodup_nil⟩
  newItem _ := (false, [])
  volumeOfDb level := level

def Obs.empty : Obs := ⟨.empty, .empty, by simp [KeyMap.get]⟩

end ObsMcp.Scenes
