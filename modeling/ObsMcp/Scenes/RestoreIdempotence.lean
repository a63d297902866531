import ObsMcp.Foundations.Reorder
import ObsMcp.Scenes.SavedFields

/-!
# Idempotence of Restore

After the changes of a restore plan are performed, a second plan with the same snapshot lists no
change exactly when the snapshot covers the present state (`restore_idempotent_iff`): the saved
tracks of an input have every key of the present ones, and the saved transform of an item has
exactly the fields that are read. Otherwise a second plan asks for the same write again.

`RestoreStep` says once what a request of a restore can do. Coverage is neither lost nor gained on
the way, and the goals of all fields are kept, so the fields are settled as in Apply Scene. The
order of a scene is followed through the identifiers of its items from back to front: the moves of a
plan put them in the target order (`foldl_moveTo`), which is its own target order (`fill_fill`).
-/

namespace ObsMcp.Scenes

open Foundations List Option

/-! ### The view of a restore -/

theorem nodup_unique (values : List String) : (unique values).Nodup :=
  LastWins.nodup_eraseDups values

/-- The identifiers of the items of a scene from back to front. -/
def Obs.itemIds (obs : Obs) (scene : String) : List ℚ :=
  (obs.items scene).map Item.id

/-- The identifiers of the saved items of a scene that are among the present ones, in their saved
order. -/
def survivorIds (snapshot : Snapshot) (scene : String) (ids : List ℚ) : List ℚ :=
  (stack (snapshot.items.filter fun saved ↦
    saved.sceneName = scene ∧ saved.sceneItemId ∈ ids)).map ItemState.sceneItemId

/-- The target order of the identifiers of a scene. -/
def targetIds (snapshot : Snapshot) (scene : String) (ids : List ℚ) : List ℚ :=
  fill (fun id ↦ id ∈ survivorIds snapshot scene ids) (survivorIds snapshot scene ids) ids

section View

variable {obs : Obs} {snapshot : Snapshot} {scene : String}

theorem mem_readable :
    scene ∈ readable obs snapshot ↔
      (∃ saved ∈ snapshot.items, saved.sceneName = scene) ∧ (obs.scenes.get scene).isSome := by
  unfold readable savedScenes unique Obs.readItems
  rw [List.mem_filter, List.mem_eraseDups, List.mem_map, Option.isSome_map]

theorem mem_readableItems {saved : ItemState} :
    saved ∈ readableItems obs snapshot ↔
      saved ∈ snapshot.items ∧ (obs.scenes.get saved.sceneName).isSome := by
  unfold readableItems
  rw [List.mem_filter, decide_eq_true_eq, mem_readable]
  exact ⟨fun h ↦ ⟨h.1, h.2.2⟩, fun h ↦ ⟨h.1, ⟨saved, h.1, rfl⟩, h.2⟩⟩

theorem currentInput_eq {saved : InputState} (hsaved : saved ∈ snapshot.inputs) :
    currentInput obs snapshot saved =
      (obs.inputs.get saved.inputName).map (Obs.readInput saved.inputName) := by
  unfold currentInput currentInputs
  rw [Obs.find_readInputs, if_pos (List.mem_map_of_mem hsaved)]

theorem mem_currentItems {state : ItemState} :
    state ∈ currentItems obs snapshot ↔
      ∃ scene ∈ readable obs snapshot, state ∈ obs.listItems scene := by
  unfold currentItems
  simp only [mem_flatMap, Obs.readItems_getD]

/-- The present state of a saved item is the item of its scene with its identifier. -/
theorem currentItem_eq {saved : ItemState} (hsaved : saved ∈ readableItems obs snapshot) :
    (currentItem obs snapshot saved = none ∧
      ∀ item ∈ obs.items saved.sceneName, item.id ≠ saved.sceneItemId) ∨
    ∃ item ∈ obs.items saved.sceneName, ∃ index, item.id = saved.sceneItemId ∧
      currentItem obs snapshot saved = some (Obs.readItem saved.sceneName item index) := by
  have hscene : saved.sceneName ∈ readable obs snapshot :=
    of_decide_eq_true (List.mem_filter.mp hsaved).2
  unfold currentItem
  cases hfind : (currentItems obs snapshot).find? fun current ↦
      current.sceneName = saved.sceneName ∧ current.sceneItemId = saved.sceneItemId with
  | none =>
    left
    refine ⟨rfl, fun item hitem hid ↦ ?_⟩
    obtain ⟨index, hindex⟩ := mem_iff_getElem?.mp hitem
    rw [find?_eq_none] at hfind
    exact hfind (Obs.readItem saved.sceneName item index)
      (mem_currentItems.mpr ⟨_, hscene, Obs.mem_listItems.mpr ⟨item, index, hindex, rfl⟩⟩)
      (decide_eq_true ⟨rfl, hid⟩)
  | some found =>
    right
    obtain ⟨scene, -, hfound⟩ := mem_currentItems.mp (mem_of_find?_eq_some hfind)
    obtain ⟨item, index, hitem, rfl⟩ := Obs.mem_listItems.mp hfound
    have htest := find?_some hfind
    obtain ⟨hname, hid⟩ := of_decide_eq_true htest
    have hname : scene = saved.sceneName := hname
    subst hname
    exact ⟨item, mem_of_getElem? hitem, index, hid, rfl⟩

/-- Of the items of several scenes, those of one scene are its items. Assumes: every item has the
name of its scene. -/
theorem filter_flatMap_own {read : String → List ItemState} {scenes : List String}
    (hown : ∀ other ∈ scenes, ∀ item ∈ read other, item.sceneName = other)
    (hdistinct : scenes.Nodup) (hmem : scene ∈ scenes) :
    (scenes.flatMap read).filter (fun item ↦ item.sceneName = scene) = read scene := by
  induction scenes with
  | nil => simp at hmem
  | cons other scenes ih =>
    rw [nodup_cons] at hdistinct
    have hrest := fun name hname ↦ hown name (mem_cons_of_mem other hname)
    rw [flatMap_cons, filter_append]
    by_cases hsame : other = scene
    · subst hsame
      have hnone : (scenes.flatMap read).filter (fun item ↦ item.sceneName = other) = [] := by
        rw [filter_eq_nil_iff]
        intro item hitem hname
        obtain ⟨found, hfound, hitem⟩ := mem_flatMap.mp hitem
        exact hdistinct.1 (of_decide_eq_true hname ▸ hrest found hfound item hitem ▸ hfound)
      rw [hnone, append_nil]
      exact filter_eq_self.mpr fun item hitem ↦
        decide_eq_true (hown other mem_cons_self item hitem)
    · rw [filter_eq_nil_iff.mpr, nil_append]
      · exact ih hrest hdistinct.2 ((mem_cons.mp hmem).resolve_left (Ne.symm hsame))
      · intro item hitem hname
        exact hsame ((hown other mem_cons_self item hitem).symm.trans
          (of_decide_eq_true hname))

/-- The present items of a scene are its items as they are read. -/
theorem presentItems_eq (hscene : scene ∈ readable obs snapshot) :
    presentItems obs snapshot scene = obs.listItems scene := by
  have hdistinct : (readable obs snapshot).Nodup :=
    (nodup_unique _).sublist filter_sublist
  unfold presentItems currentItems
  simp only [Obs.readItems_getD]
  rw [filter_flatMap_own _ hdistinct hscene]
  · exact obs.stack_listItems scene
  · intro other _ item hitem
    obtain ⟨found, index, -, rfl⟩ := Obs.mem_listItems.mp hitem
    rfl

end View

/-! ### The target order -/

section Target

variable {snapshot : Snapshot} {scene : String}

theorem map_survivors (now : List ItemState) :
    (survivors snapshot scene now).map ItemState.sceneItemId =
      survivorIds snapshot scene (now.map ItemState.sceneItemId) := by
  unfold survivors survivorIds
  congr 2
  refine List.filter_congr fun saved _ ↦ decide_eq_decide.mpr ?_
  simp only [List.any_eq_true, decide_eq_true_eq, List.mem_map]

variable {ids : List ℚ}

theorem mem_survivorIds {id : ℚ} :
    id ∈ survivorIds snapshot scene ids ↔
      id ∈ ids ∧ ∃ saved ∈ snapshot.items, saved.sceneName = scene ∧ saved.sceneItemId = id := by
  unfold survivorIds stack
  simp only [List.mem_map, List.mem_mergeSort, List.mem_filter, decide_eq_true_eq]
  constructor
  · rintro ⟨saved, ⟨hsaved, hscene, hmem⟩, rfl⟩
    exact ⟨hmem, saved, hsaved, hscene, rfl⟩
  · rintro ⟨hmem, saved, hsaved, hscene, rfl⟩
    exact ⟨saved, ⟨hsaved, hscene, hmem⟩, rfl⟩

theorem map_fillPlaces {surviving : ItemState → Bool} {chosen : ℚ → Bool} {now : List ItemState}
    (hchosen : ∀ item, surviving item = chosen item.sceneItemId) {wanted rest : List ItemState}
    (hwanted : ∀ saved ∈ wanted, ∃ item ∈ now, item.sceneItemId = saved.sceneItemId) :
    (fillPlaces surviving now wanted rest).map ItemState.sceneItemId =
      fill chosen (wanted.map ItemState.sceneItemId) (rest.map ItemState.sceneItemId) := by
  induction rest generalizing wanted with
  | nil => cases wanted <;> rfl
  | cons current rest ih =>
    cases wanted with
    | nil =>
      rw [fillPlaces, map_cons, ih (by simp)]
      rfl
    | cons next wanted =>
      have hrest := fun saved hsaved ↦ hwanted saved (mem_cons_of_mem next hsaved)
      rw [fillPlaces, map_cons, map_cons, fill, ← hchosen]
      split_ifs
      · obtain ⟨item, hitem, hid⟩ := hwanted next (by simp)
        obtain ⟨found, hfound⟩ : ∃ found, (now.find? fun current ↦
            current.sceneItemId = next.sceneItemId) = some found := by
          rw [← isSome_iff_exists, find?_isSome]
          exact ⟨item, hitem, decide_eq_true hid⟩
        have hfoundId : found.sceneItemId = next.sceneItemId := by
          simpa using find?_some hfound
        rw [map_cons, hfound, getD_some, hfoundId, ih hrest]
      · rw [map_cons, ih hwanted]
        rfl

/-- The target order, seen by identifiers. -/
theorem map_targetOrder (snapshot : Snapshot) (scene : String) (now : List ItemState) :
    (targetOrder snapshot scene now).map ItemState.sceneItemId =
      targetIds snapshot scene (now.map ItemState.sceneItemId) := by
  unfold targetOrder targetIds
  rw [← map_survivors]
  refine map_fillPlaces (fun item ↦ ?_) fun saved hsaved ↦ ?_
  · rw [Bool.eq_iff_iff]
    simp only [List.any_eq_true, decide_eq_true_eq, List.mem_map]
  · have hmem := (mem_survivorIds.mp (map_survivors now ▸ List.mem_map_of_mem hsaved)).1
    exact List.mem_map.mp hmem

/-- The survivors depend on the present identifiers only through what is among them. -/
theorem survivorIds_congr {others : List ℚ} (hsame : ∀ id, id ∈ ids ↔ id ∈ others) :
    survivorIds snapshot scene ids = survivorIds snapshot scene others := by
  unfold survivorIds
  congr 2
  exact List.filter_congr fun saved _ ↦ decide_eq_decide.mpr (by rw [hsame])

/-- Every scene saves an identifier at most once. -/
def Snapshot.DistinctItems (snapshot : Snapshot) : Prop :=
  (snapshot.items.map fun saved ↦ (saved.sceneName, saved.sceneItemId)).Nodup

theorem nodup_survivorIds (hitems : snapshot.DistinctItems) (ids : List ℚ) :
    (survivorIds snapshot scene ids).Nodup := by
  have hperm : (survivorIds snapshot scene ids).Perm ((snapshot.items.filter fun saved ↦
      saved.sceneName = scene ∧ saved.sceneItemId ∈ ids).map ItemState.sceneItemId) :=
    (mergeSort_perm ..).map _
  rw [hperm.nodup_iff]
  have hpairs : ((snapshot.items.filter fun saved ↦ saved.sceneName = scene ∧
      saved.sceneItemId ∈ ids).map fun saved ↦ (saved.sceneName, saved.sceneItemId)).Nodup :=
    hitems.sublist (filter_sublist.map _)
  have hscene : ((snapshot.items.filter fun saved ↦ saved.sceneName = scene ∧
      saved.sceneItemId ∈ ids).map fun saved ↦ (saved.sceneName, saved.sceneItemId)) =
      ((snapshot.items.filter fun saved ↦ saved.sceneName = scene ∧
        saved.sceneItemId ∈ ids).map ItemState.sceneItemId).map fun id ↦ (scene, id) := by
    rw [List.map_map]
    refine List.map_congr_left fun saved hsaved ↦ ?_
    rw [(of_decide_eq_true (List.mem_filter.mp hsaved).2).1]
    rfl
  rw [hscene] at hpairs
  exact hpairs.of_map _

/-- The survivors are those of the present identifiers that were saved, in another order. Assumes:
no survivor is saved twice. -/
theorem survivorIds_perm (hsaved : (survivorIds snapshot scene ids).Nodup) (hids : ids.Nodup) :
    (survivorIds snapshot scene ids).Perm
      (ids.filter fun id ↦ id ∈ survivorIds snapshot scene ids) := by
  refine (perm_ext_iff_of_nodup hsaved (hids.filter _)).mpr fun id ↦ ?_
  rw [List.mem_filter, decide_eq_true_eq]
  exact ⟨fun h ↦ ⟨(mem_survivorIds.mp h).1, h⟩, fun h ↦ h.2⟩

theorem targetIds_perm (hitems : snapshot.DistinctItems) (hids : ids.Nodup) :
    (targetIds snapshot scene ids).Perm ids :=
  fill_perm _ (survivorIds_perm (nodup_survivorIds hitems ids) hids)

/-- The target order is its own target order. -/
theorem targetIds_targetIds (hitems : snapshot.DistinctItems) (hids : ids.Nodup) :
    targetIds snapshot scene (targetIds snapshot scene ids) = targetIds snapshot scene ids := by
  have hsurvivors : survivorIds snapshot scene (targetIds snapshot scene ids) =
      survivorIds snapshot scene ids :=
    survivorIds_congr fun id ↦ (targetIds_perm hitems hids).mem_iff
  show fill _ (survivorIds snapshot scene (targetIds snapshot scene ids)) _ = _
  rw [hsurvivors]
  exact fill_fill _ (fun id hid ↦ decide_eq_true hid) ids

end Target

/-! ### The requests of a restore -/

/-- A request of a restore: the write of a saved field, or an index move. -/
inductive RestoreRequest (snapshot : Snapshot) : ObsRequest → Prop
  | input {saved : InputState} {field : SavedInputField} {request : ObsRequest}
      (hsaved : saved ∈ snapshot.inputs) (hrequest : field.request saved = some request) :
      RestoreRequest snapshot request
  | item {saved : ItemState} {field : SavedItemField} (hsaved : saved ∈ snapshot.items) :
      RestoreRequest snapshot (field.request saved)
  | index {scene : String} {id : ℚ} {place : ℕ} :
      RestoreRequest snapshot (.setSceneItemIndex scene id place)

/-- What a request of a restore can do. -/
structure RestoreStep (snapshot : Snapshot) (obs after : Obs) : Prop where
  scenes : ∀ scene, (after.scenes.get scene).isSome = (obs.scenes.get scene).isSome
  inputs : ∀ saved ∈ snapshot.inputs,
    after.inputs.get saved.inputName = obs.inputs.get saved.inputName ∨
      ∃ (field : SavedInputField) (f : Input → Input), field.write saved = some f ∧
        after.inputs.get saved.inputName = (obs.inputs.get saved.inputName).map f
  items : ∀ scene, ∃ g : Item → Item, (after.items scene).Perm ((obs.items scene).map g) ∧
    ∀ item, (g item).id = item.id ∧ ∀ saved ∈ snapshot.items, saved.sceneName = scene →
      item.id = saved.sceneItemId →
        g item = item ∨ ∃ field : SavedItemField, g item = field.write saved item

/-- The saved tracks and transforms cover the present ones. -/
def Covered (snapshot : Snapshot) (obs : Obs) : Prop :=
  (∀ saved ∈ snapshot.inputs, ∀ input, obs.inputs.get saved.inputName = some input →
    InputCovered saved input) ∧
  ∀ saved ∈ snapshot.items, ∀ item ∈ obs.items saved.sceneName, item.id = saved.sceneItemId →
    ItemCovered saved item

/-- The goal of a field of a saved input. -/
def InputRestored (saved : InputState) (field : SavedInputField) (obs : Obs) : Prop :=
  ∀ input, obs.inputs.get saved.inputName = some input → field.Holds saved input

/-- The goal of a field of a saved item. -/
def ItemRestored (saved : ItemState) (field : SavedItemField) (obs : Obs) : Prop :=
  ∀ item ∈ obs.items saved.sceneName, item.id = saved.sceneItemId → field.Holds saved item

section Steps

variable {snapshot : Snapshot} {obs after : Obs} {host : Host} {request : ObsRequest}

/-- A request of a restore is a step of a restore. Assumes: input names and item identifiers are
saved at most once. -/
theorem RestoreRequest.step (host : Host) (obs : Obs)
    (hinputs : (snapshot.inputs.map InputState.inputName).Nodup)
    (hitems : snapshot.DistinctItems) (hrequest : RestoreRequest snapshot request) :
    RestoreStep snapshot obs (obs.perform host request) := by
  have hkeep : ∀ scene, ∃ g : Item → Item, (obs.items scene).Perm ((obs.items scene).map g) ∧
      ∀ item, (g item).id = item.id ∧ ∀ saved ∈ snapshot.items, saved.sceneName = scene →
        item.id = saved.sceneItemId →
          g item = item ∨ ∃ field : SavedItemField, g item = field.write saved item :=
    fun scene ↦ ⟨id, by rw [List.map_id], fun item ↦ ⟨rfl, fun _ _ _ _ ↦ .inl rfl⟩⟩
  cases hrequest with
  | @input saved field _ hsaved hrequest =>
    obtain ⟨f, hwrite, hperform⟩ := SavedInputField.perform_request hrequest
    rw [hperform]
    refine ⟨fun _ ↦ rfl, fun other hother ↦ ?_, hkeep⟩
    rw [Obs.inputs_editInput]
    split_ifs with hname
    · obtain rfl := inj_on_of_nodup_map hinputs hother hsaved hname
      exact .inr ⟨field, f, hwrite, rfl⟩
    · exact .inl rfl
  | @item saved field hsaved =>
    rw [SavedItemField.perform_request]
    refine ⟨fun _ ↦ obs.isSome_editItem _, fun _ _ ↦ .inl rfl, fun scene ↦ ?_⟩
    by_cases hscene : scene = saved.sceneName
    · subst hscene
      rw [Obs.items_editItem]
      refine ⟨_, List.Perm.refl _, fun item ↦ ⟨?_, ?_⟩⟩
      · by_cases hid : item.id = saved.sceneItemId <;> simp [hid]
      · intro other hother hname hid
        by_cases hsame : item.id = saved.sceneItemId
        · obtain rfl := inj_on_of_nodup_map hitems hother hsaved
            (Prod.ext hname (hid.symm.trans hsame))
          exact .inr ⟨field, by rw [if_pos hsame, SavedItemField.write_frame]⟩
        · exact .inl (if_neg hsame)
    · have hother : (obs.editItem saved.sceneName saved.sceneItemId (field.write saved)).items
          scene = obs.items scene := obs.items_editScene_of_ne _ _ hscene
      rw [hother]
      exact hkeep scene
  | @index moved id place =>
    refine ⟨fun _ ↦ obs.isSome_moveItem place, fun _ _ ↦ .inl rfl, fun scene ↦ ?_⟩
    by_cases hscene : scene = moved
    · subst hscene
      refine ⟨fun item ↦ item, ?_, fun item ↦ ⟨rfl, fun _ _ _ _ ↦ .inl rfl⟩⟩
      rw [List.map_id']
      show ((obs.moveItem scene id place).items scene).Perm _
      rw [Obs.items_moveItem]
      exact Scene.moveItem_perm (obs.items_distinct scene) id place
    · have hother : (obs.moveItem moved id place).items scene = obs.items scene :=
        obs.items_editScene_of_ne _ _ hscene
      show ∃ g, ((obs.moveItem moved id place).items scene).Perm _ ∧ _
      rw [hother]
      exact hkeep scene

section

variable (hstep : RestoreStep snapshot obs after)
include hstep

/-- The items of a saved identifier after a step are those before it, up to a write. -/
theorem RestoreStep.item_after {saved : ItemState} (hsaved : saved ∈ snapshot.items) {item : Item}
    (hitem : item ∈ after.items saved.sceneName) (hid : item.id = saved.sceneItemId) :
    ∃ old ∈ obs.items saved.sceneName, old.id = saved.sceneItemId ∧
      (item = old ∨ ∃ field : SavedItemField, item = field.write saved old) := by
  obtain ⟨g, hperm, hg⟩ := hstep.items saved.sceneName
  obtain ⟨old, hold, rfl⟩ := List.mem_map.mp (hperm.mem_iff.mp hitem)
  have holdId := (hg old).1.symm.trans hid
  exact ⟨old, hold, holdId, (hg old).2 saved hsaved rfl holdId⟩

/-- A saved identifier that is present before a step is present after it, up to a write. -/
theorem RestoreStep.item_before {saved : ItemState} (hsaved : saved ∈ snapshot.items) {old : Item}
    (hold : old ∈ obs.items saved.sceneName) (hid : old.id = saved.sceneItemId) :
    ∃ item ∈ after.items saved.sceneName, item.id = saved.sceneItemId ∧
      (item = old ∨ ∃ field : SavedItemField, item = field.write saved old) := by
  obtain ⟨g, hperm, hg⟩ := hstep.items saved.sceneName
  exact ⟨g old, hperm.mem_iff.mpr (List.mem_map_of_mem hold), (hg old).1.trans hid,
    (hg old).2 saved hsaved rfl hid⟩

/-- Coverage is neither lost nor gained by a step. -/
theorem RestoreStep.covered_iff : Covered snapshot after ↔ Covered snapshot obs := by
  constructor
  · rintro ⟨hinputs, hitems⟩
    refine ⟨fun saved hsaved input hinput tracks htracks key hkey ↦ ?_,
      fun saved hsaved old hold hid ↦ ?_⟩
    · rcases hstep.inputs saved hsaved with hsame | ⟨field, f, hwrite, hchanged⟩
      · exact hinputs saved hsaved input (hsame.trans hinput) tracks htracks key hkey
      · exact hinputs saved hsaved (f input) (by rw [hchanged, hinput]; rfl) tracks htracks key
          ((SavedInputField.write_tracks hwrite).1 key hkey)
    · obtain ⟨item, hitem, hitemId, hchange⟩ := hstep.item_before hsaved hold hid
      have hcovered := hitems saved hsaved item hitem hitemId
      rcases hchange with rfl | ⟨field, rfl⟩
      · exact hcovered
      · exact ⟨hcovered.1, fun key hkey ↦
          hcovered.2 key (SavedItemField.write_transform.1 key hkey)⟩
  · rintro ⟨hinputs, hitems⟩
    refine ⟨fun saved hsaved input hinput ↦ ?_, fun saved hsaved item hitem hid ↦ ?_⟩
    · rcases hstep.inputs saved hsaved with hsame | ⟨field, f, hwrite, hchanged⟩
      · exact hinputs saved hsaved input (hsame.symm.trans hinput)
      · rw [hchanged] at hinput
        obtain ⟨before, hbefore, rfl⟩ := map_eq_some_iff.mp hinput
        exact (SavedInputField.write_tracks hwrite).2 (hinputs saved hsaved before hbefore)
    · obtain ⟨old, hold, holdId, hchange⟩ := hstep.item_after hsaved hitem hid
      have hcovered := hitems saved hsaved old hold holdId
      rcases hchange with rfl | ⟨field, rfl⟩
      · exact hcovered
      · exact SavedItemField.write_transform.2 hcovered

theorem RestoreStep.inputRestored (hcovered : Covered snapshot obs) {saved : InputState}
    (hsaved : saved ∈ snapshot.inputs) {field : SavedInputField}
    (hgoal : InputRestored saved field obs) : InputRestored saved field after := by
  intro input hinput
  rcases hstep.inputs saved hsaved with hsame | ⟨other, f, hwrite, hchanged⟩
  · exact hgoal input (hsame.symm.trans hinput)
  · rw [hchanged] at hinput
    obtain ⟨before, hbefore, rfl⟩ := map_eq_some_iff.mp hinput
    by_cases hfield : field = other
    · subst hfield
      exact SavedInputField.write_holds (snapshot.settings_wellFormed saved hsaved)
        (snapshot.tracks_wellFormed saved hsaved) (hcovered.1 saved hsaved before hbefore) hwrite
    · exact (SavedInputField.write_keeps_other hfield hwrite).mpr (hgoal before hbefore)

theorem RestoreStep.itemRestored (hcovered : Covered snapshot obs) {saved : ItemState}
    (hsaved : saved ∈ snapshot.items) {field : SavedItemField}
    (hgoal : ItemRestored saved field obs) : ItemRestored saved field after := by
  intro item hitem hid
  obtain ⟨old, hold, holdId, hchange⟩ := hstep.item_after hsaved hitem hid
  rcases hchange with rfl | ⟨other, rfl⟩
  · exact hgoal item hold holdId
  · by_cases hfield : field = other
    · subst hfield
      exact SavedItemField.write_holds (snapshot.transforms_wellFormed saved hsaved)
        (hcovered.2 saved hsaved old hold holdId)
    · exact (SavedItemField.write_keeps_other hfield).mpr (hgoal old hold holdId)

end

end Steps

section Run

variable {snapshot : Snapshot} {obs : Obs} {host : Host} {requests : List ObsRequest}
  (hinputs : (snapshot.inputs.map InputState.inputName).Nodup)
  (hitems : snapshot.DistinctItems)
  (hrequests : ∀ request ∈ requests, RestoreRequest snapshot request)
include hinputs hitems hrequests

/-- A restore keeps the set of scenes. -/
theorem isSome_performAll (scene : String) :
    ((obs.performAll host requests).scenes.get scene).isSome = (obs.scenes.get scene).isSome :=
  Obs.performAll_keeps
    (fun after ↦ (after.scenes.get scene).isSome = (obs.scenes.get scene).isSome)
    (fun request hrequest after hafter ↦
      (((hrequests request hrequest).step host after hinputs hitems).scenes scene).trans hafter) rfl

/-- A restore neither loses nor gains coverage. -/
theorem covered_performAll_iff :
    Covered snapshot (obs.performAll host requests) ↔ Covered snapshot obs :=
  Obs.performAll_keeps (fun after ↦ Covered snapshot after ↔ Covered snapshot obs)
    (fun request hrequest after hafter ↦
      ((hrequests request hrequest).step host after hinputs hitems).covered_iff.trans hafter)
    Iff.rfl

/-- The goal of a field of an input holds at the end when it holds at the start or is requested. -/
theorem inputRestored_performAll (hcovered : Covered snapshot obs) {saved : InputState}
    (hsaved : saved ∈ snapshot.inputs) {field : SavedInputField}
    (hgoal : InputRestored saved field obs ∨
      ∃ request ∈ requests, field.request saved = some request) :
    InputRestored saved field (obs.performAll host requests) := by
  refine Obs.performAll_reaches (Covered snapshot) (InputRestored saved field)
    (fun request hrequest obs hobs ↦ ?_) (fun request hrequest obs hobs hheld ↦ ?_) hcovered ?_
  · exact ((hrequests request hrequest).step host obs hinputs hitems).covered_iff.mpr hobs
  · exact ((hrequests request hrequest).step host obs hinputs hitems).inputRestored hobs hsaved
      hheld
  · refine hgoal.imp id ?_
    rintro ⟨request, hrequest, hfield⟩
    refine ⟨request, hrequest, fun obs hobs input hinput ↦ ?_⟩
    obtain ⟨f, hwrite, hperform⟩ := SavedInputField.perform_request hfield
    rw [hperform, Obs.inputs_editInput, if_pos rfl] at hinput
    obtain ⟨before, hbefore, rfl⟩ := map_eq_some_iff.mp hinput
    exact SavedInputField.write_holds (snapshot.settings_wellFormed saved hsaved)
      (snapshot.tracks_wellFormed saved hsaved) (hobs.1 saved hsaved before hbefore) hwrite

/-- The goal of a field of an item holds at the end when it holds at the start or is requested. -/
theorem itemRestored_performAll (hcovered : Covered snapshot obs) {saved : ItemState}
    (hsaved : saved ∈ snapshot.items) {field : SavedItemField}
    (hgoal : ItemRestored saved field obs ∨ field.request saved ∈ requests) :
    ItemRestored saved field (obs.performAll host requests) := by
  refine Obs.performAll_reaches (Covered snapshot) (ItemRestored saved field)
    (fun request hrequest obs hobs ↦ ?_) (fun request hrequest obs hobs hheld ↦ ?_) hcovered ?_
  · exact ((hrequests request hrequest).step host obs hinputs hitems).covered_iff.mpr hobs
  · exact ((hrequests request hrequest).step host obs hinputs hitems).itemRestored hobs hsaved
      hheld
  · refine hgoal.imp id fun hrequest ↦ ⟨_, hrequest, fun obs hobs item hitem hid ↦ ?_⟩
    rw [SavedItemField.perform_request, Obs.items_editItem] at hitem
    obtain ⟨before, hbefore, rfl⟩ := List.mem_map.mp hitem
    split_ifs at hid ⊢ with hsame
    · rw [SavedItemField.write_frame]
      exact SavedItemField.write_holds (snapshot.transforms_wellFormed saved hsaved)
        (hobs.2 saved hsaved before hbefore hsame)
    · exact absurd hid hsame

end Run

/-! ### The order of the items -/

section Order

variable {snapshot : Snapshot} {obs start : Obs} {host : Host} {displayNumber : ℚ → String}

theorem nodup_itemIds (obs : Obs) (scene : String) : (obs.itemIds scene).Nodup :=
  obs.items_distinct scene

theorem itemIds_moveItem (scene : String) (id : ℚ) (place : ℕ) :
    (obs.moveItem scene id place).itemIds scene = moveTo (obs.itemIds scene) id place := by
  unfold Obs.itemIds moveTo
  rw [Obs.items_moveItem, Scene.moveItem]
  cases hfind : (obs.items scene).find? fun item ↦ item.id = id with
  | none =>
    rw [find?_eq_none] at hfind
    rw [if_neg]
    intro hmem
    obtain ⟨item, hitem, hid⟩ := List.mem_map.mp hmem
    exact hfind item hitem (decide_eq_true hid)
  | some found =>
    have hid : found.id = id := by simpa using find?_some hfind
    have hmem : id ∈ (obs.items scene).map Item.id :=
      hid ▸ List.mem_map_of_mem (mem_of_find?_eq_some hfind)
    have hfilter : ((obs.items scene).map Item.id).filter (fun other ↦ other ≠ id) =
        ((obs.items scene).filter fun item ↦ item.id ≠ id).map Item.id := by
      rw [List.filter_map]
      rfl
    rw [if_pos hmem, hfilter, map_append, map_cons, hid, map_take, map_drop]

theorem itemIds_moveItem_of_ne {scene other : String} (hother : other ≠ scene) (id : ℚ)
    (place : ℕ) : (obs.moveItem scene id place).itemIds other = obs.itemIds other :=
  congrArg (List.map Item.id) (obs.items_editScene_of_ne _ _ hother)

/-- Index moves of a scene act on its identifiers, and leave the other scenes. -/
theorem itemIds_performAll_moves (host : Host) (obs : Obs) (scene : String) (moves : List (ℚ × ℕ)) :
    (obs.performAll host (moves.map fun move ↦
        .setSceneItemIndex scene move.1 move.2)).itemIds scene =
      moves.foldl (fun ids move ↦ moveTo ids move.1 move.2) (obs.itemIds scene) ∧
    ∀ other ≠ scene, (obs.performAll host (moves.map fun move ↦
      .setSceneItemIndex scene move.1 move.2)).itemIds other = obs.itemIds other := by
  induction moves generalizing obs with
  | nil => exact ⟨rfl, fun _ _ ↦ rfl⟩
  | cons move moves ih =>
    rw [map_cons, Obs.performAll_cons, foldl_cons]
    obtain ⟨hown, hothers⟩ := ih (obs.moveItem scene move.1 move.2)
    refine ⟨hown.trans ?_, fun other hother ↦ (hothers other hother).trans ?_⟩
    · rw [itemIds_moveItem]
    · exact itemIds_moveItem_of_ne hother move.1 move.2

/-- Two lists of one length differ at some place exactly when they differ. -/
theorem any_zip_ne {target now : List ItemState} (hlength : target.length = now.length) :
    ((target.zip now).any fun pair ↦ pair.1.sceneItemId ≠ pair.2.sceneItemId) = true ↔
      target.map ItemState.sceneItemId ≠ now.map ItemState.sceneItemId := by
  induction target generalizing now with
  | nil =>
    obtain rfl := length_eq_zero_iff.mp hlength.symm
    simp
  | cons first target ih =>
    cases now with
    | nil => simp at hlength
    | cons current now =>
      rw [zip_cons_cons, any_cons, Bool.or_eq_true, ih (by simpa using hlength),
        decide_eq_true_eq, map_cons, map_cons, ne_eq, ne_eq, ne_eq, List.cons.injEq,
        not_and_or]

theorem requests_orderChanges (displayNumber : ℚ → String) (scene : String) (now : List ItemState) :
    (orderChanges displayNumber snapshot scene now).map (fun change ↦ change.mutation.request) =
      if targetIds snapshot scene (now.map ItemState.sceneItemId) =
          now.map ItemState.sceneItemId then []
      else (targetIds snapshot scene (now.map ItemState.sceneItemId)).zipIdx.map fun move ↦
        .setSceneItemIndex scene move.1 move.2 := by
  have hmap := map_targetOrder snapshot scene now
  have hlength : (targetOrder snapshot scene now).length = now.length := by
    have hids := congrArg List.length hmap
    rwa [length_map, targetIds, length_fill, length_map] at hids
  unfold orderChanges
  simp only
  rw [if_congr (any_zip_ne hlength) rfl rfl, hmap, ite_not]
  split_ifs
  · rfl
  · rw [← hmap, List.zipIdx_map, List.map_map, List.map_map]
    rfl

theorem orderChanges_eq_nil_iff {scene : String} {now : List ItemState} :
    orderChanges displayNumber snapshot scene now = [] ↔
      targetIds snapshot scene (now.map ItemState.sceneItemId) =
        now.map ItemState.sceneItemId := by
  rw [← map_eq_nil_iff, requests_orderChanges]
  split_ifs with hsame
  · exact ⟨fun _ ↦ hsame, fun _ ↦ rfl⟩
  · refine ⟨fun hnil ↦ ?_, fun h ↦ absurd h hsame⟩
    have hlength := congrArg List.length hnil
    rw [length_map, length_zipIdx, targetIds, length_fill, length_map,
      length_nil] at hlength
    obtain rfl := length_eq_zero_iff.mp hlength
    exact absurd rfl hsame

/-- The order of every scene after the moves of a plan. Assumes: the plan was made from states with
the same identifiers in the scenes that are moved. -/
theorem itemIds_performAll_orders (hitems : snapshot.DistinctItems) {scenes : List String}
    (hscenes : scenes.Nodup) (hids : ∀ scene ∈ scenes, obs.itemIds scene = start.itemIds scene) :
    (∀ scene ∈ scenes, (obs.performAll host (scenes.flatMap fun scene ↦
      (orderChanges displayNumber snapshot scene (start.listItems scene)).map
        fun change ↦ change.mutation.request)).itemIds scene =
          targetIds snapshot scene (start.itemIds scene)) ∧
    ∀ other ∉ scenes, (obs.performAll host (scenes.flatMap fun scene ↦
      (orderChanges displayNumber snapshot scene (start.listItems scene)).map
        fun change ↦ change.mutation.request)).itemIds other = obs.itemIds other := by
  induction scenes generalizing obs with
  | nil => exact ⟨by simp, fun _ _ ↦ rfl⟩
  | cons scene scenes ih =>
    rw [nodup_cons] at hscenes
    have hlisted : (start.listItems scene).map ItemState.sceneItemId = start.itemIds scene :=
      start.map_listItems scene fun _ _ ↦ rfl
    obtain ⟨middle, hmiddle⟩ : ∃ middle, middle = obs.performAll host
        ((orderChanges displayNumber snapshot scene (start.listItems scene)).map
          fun change ↦ change.mutation.request) := ⟨_, rfl⟩
    have hmoved : middle.itemIds scene = targetIds snapshot scene (start.itemIds scene) ∧
        ∀ other ≠ scene, middle.itemIds other = obs.itemIds other := by
      rw [hmiddle, requests_orderChanges, hlisted]
      split_ifs with hsame
      · exact ⟨(hids scene (by simp)).trans hsame.symm, fun _ _ ↦ rfl⟩
      · obtain ⟨hown, hothers⟩ := itemIds_performAll_moves host obs scene
          (targetIds snapshot scene (start.itemIds scene)).zipIdx
        refine ⟨hown.trans ?_, hothers⟩
        rw [hids scene (by simp)]
        exact foldl_moveTo (nodup_itemIds start scene)
          (targetIds_perm hitems (nodup_itemIds start scene))
    have hne : ∀ other ∈ scenes, other ≠ scene := fun other hother hsame ↦
      hscenes.1 (hsame ▸ hother)
    obtain ⟨hrest, hothers⟩ := @ih middle hscenes.2 fun other hother ↦
      (hmoved.2 other (hne other hother)).trans (hids other (by simp [hother]))
    simp only [flatMap_cons, Obs.performAll_append, ← hmiddle]
    refine ⟨?_, fun other hother ↦ ?_⟩
    · rw [forall_mem_cons]
      exact ⟨(hothers scene hscenes.1).trans hmoved.1, hrest⟩
    · rw [mem_cons, not_or] at hother
      exact (hothers other hother.2).trans (hmoved.2 other hother.1)

end Order

/-! ### Idempotence -/

section Plan

variable {displayNumber : ℚ → String} {obs : Obs} {snapshot : Snapshot}

variable {change : RestoreChange} {changes : List RestoreChange} {holds : Prop}

theorem mem_inputChanges {saved current : InputState} :
    change ∈ inputChanges saved current ↔
      ∃ field : SavedInputField, change ∈ field.changes saved current := by
  unfold inputChanges
  simp only [mem_append]
  constructor
  · rintro (((hchange | hchange) | hchange) | hchange)
    · exact ⟨.settings, hchange⟩
    · exact ⟨.muted, hchange⟩
    · exact ⟨.volume, hchange⟩
    · exact ⟨.tracks, hchange⟩
  · rintro ⟨field, hchange⟩
    cases field with
    | settings => exact .inl (.inl (.inl hchange))
    | muted => exact .inl (.inl (.inr hchange))
    | volume => exact .inl (.inr hchange)
    | tracks => exact .inr hchange

theorem mem_itemChanges {saved current : ItemState} :
    change ∈ itemChanges displayNumber saved current ↔
      ∃ field : SavedItemField, change ∈ field.changes displayNumber saved current := by
  unfold itemChanges
  simp only [mem_append]
  constructor
  · rintro ((hchange | hchange) | hchange)
    · exact ⟨.transform, hchange⟩
    · exact ⟨.enabled, hchange⟩
    · exact ⟨.locked, hchange⟩
  · rintro ⟨field, hchange⟩
    cases field with
    | transform => exact .inl (.inl hchange)
    | enabled => exact .inl (.inr hchange)
    | locked => exact .inr hchange

/-- The changes a plan lists for the saved inputs. -/
def inputPlan (obs : Obs) (snapshot : Snapshot) : List RestoreChange :=
  snapshot.inputs.flatMap fun saved ↦
    ((currentInput obs snapshot saved).map (inputChanges saved)).getD []

/-- The changes a plan lists for the saved items. -/
def itemPlan (displayNumber : ℚ → String) (obs : Obs) (snapshot : Snapshot) : List RestoreChange :=
  (readableItems obs snapshot).flatMap fun saved ↦
    ((currentItem obs snapshot saved).map (itemChanges displayNumber saved)).getD []

theorem mem_inputPlan :
    change ∈ inputPlan obs snapshot ↔ ∃ saved ∈ snapshot.inputs, ∃ input,
      obs.inputs.get saved.inputName = some input ∧ ∃ field : SavedInputField,
        change ∈ field.changes saved (Obs.readInput saved.inputName input) := by
  unfold inputPlan
  rw [mem_flatMap]
  refine exists_congr fun saved ↦ and_congr_right fun hsaved ↦ ?_
  rw [currentInput_eq hsaved]
  cases obs.inputs.get saved.inputName <;> simp [mem_inputChanges]

theorem mem_itemPlan :
    change ∈ itemPlan displayNumber obs snapshot ↔ ∃ saved ∈ snapshot.items,
      ∃ item ∈ obs.items saved.sceneName, item.id = saved.sceneItemId ∧
        ∃ field : SavedItemField, change ∈ field.changes displayNumber saved
          (Obs.readItem saved.sceneName item 0) := by
  have hindex : ∀ (field : SavedItemField) (saved : ItemState) (item : Item) (index : ℕ),
      field.changes displayNumber saved (Obs.readItem saved.sceneName item index) =
        field.changes displayNumber saved (Obs.readItem saved.sceneName item 0) := by
    intro field saved item index
    cases field <;> rfl
  unfold itemPlan
  rw [mem_flatMap]
  constructor
  · rintro ⟨saved, hsaved, hchange⟩
    rcases currentItem_eq hsaved with ⟨hnone, -⟩ | ⟨item, hitem, index, hid, hsome⟩
    · simp [hnone] at hchange
    · rw [hsome, map_some, getD_some, mem_itemChanges] at hchange
      obtain ⟨field, hchange⟩ := hchange
      exact ⟨saved, (mem_readableItems.mp hsaved).1, item, hitem, hid, field,
        hindex field saved item index ▸ hchange⟩
  · rintro ⟨saved, hsaved, item, hitem, hid, field, hchange⟩
    have hscene : (obs.scenes.get saved.sceneName).isSome := by
      by_contra hnone
      rw [not_isSome_iff_eq_none] at hnone
      simp [Obs.items, hnone] at hitem
    have hreadable := mem_readableItems.mpr ⟨hsaved, hscene⟩
    refine ⟨saved, hreadable, ?_⟩
    rcases currentItem_eq hreadable with ⟨-, habsent⟩ | ⟨found, hfound, index, hfoundId, hsome⟩
    · exact absurd hid (habsent item hitem)
    · obtain rfl := inj_on_of_nodup_map (obs.items_distinct _) hfound hitem
        (hfoundId.trans hid.symm)
      rw [hsome, map_some, getD_some, mem_itemChanges]
      exact ⟨field, (hindex field saved found index).symm ▸ hchange⟩

/-- The changes of a plan in their order. -/
theorem changes_planRestore :
    (planRestore displayNumber obs snapshot).changes = inputPlan obs snapshot ++
      itemPlan displayNumber obs snapshot ++ (readable obs snapshot).flatMap fun scene ↦
        orderChanges displayNumber snapshot scene (obs.listItems scene) := by
  have horders : ((readable obs snapshot).flatMap fun scene ↦
      orderChanges displayNumber snapshot scene (presentItems obs snapshot scene)) =
        (readable obs snapshot).flatMap fun scene ↦
          orderChanges displayNumber snapshot scene (obs.listItems scene) := by
    refine flatMap_congr fun scene hscene ↦ ?_
    rw [presentItems_eq hscene]
  rw [← horders]
  rfl

theorem Restores.eq_nil_iff {request : Option ObsRequest}
    (hrestores : Restores changes holds request) : changes = [] ↔ holds := by
  rcases hrestores with ⟨hholds, rfl⟩ | ⟨hnot, change, rfl, -⟩
  · exact ⟨fun _ ↦ hholds, fun _ ↦ rfl⟩
  · exact ⟨fun hnil ↦ absurd hnil (by simp), fun hholds ↦ absurd hholds hnot⟩

/-- A plan lists no change exactly when all fields and the order of all scenes are as saved. -/
theorem changes_eq_nil_iff :
    (planRestore displayNumber obs snapshot).changes = [] ↔
      (∀ saved ∈ snapshot.inputs, ∀ field, InputRestored saved field obs) ∧
      (∀ saved ∈ snapshot.items, ∀ field, ItemRestored saved field obs) ∧
      ∀ scene ∈ readable obs snapshot,
        targetIds snapshot scene (obs.itemIds scene) = obs.itemIds scene := by
  have hinputs : inputPlan obs snapshot = [] ↔
      ∀ saved ∈ snapshot.inputs, ∀ field, InputRestored saved field obs := by
    rw [eq_nil_iff_forall_not_mem]
    constructor
    · intro hnone saved hsaved field input hinput
      refine (field.restores saved input).eq_nil_iff.mp (eq_nil_iff_forall_not_mem.mpr ?_)
      exact fun change hchange ↦ hnone change
        (mem_inputPlan.mpr ⟨saved, hsaved, input, hinput, field, hchange⟩)
    · intro hrestored change hchange
      obtain ⟨saved, hsaved, input, hinput, field, hchange⟩ := mem_inputPlan.mp hchange
      rw [(field.restores saved input).eq_nil_iff.mpr (hrestored saved hsaved field input hinput)]
        at hchange
      simp at hchange
  have hitems : itemPlan displayNumber obs snapshot = [] ↔
      ∀ saved ∈ snapshot.items, ∀ field, ItemRestored saved field obs := by
    rw [eq_nil_iff_forall_not_mem]
    constructor
    · intro hnone saved hsaved field item hitem hid
      refine (field.restores displayNumber saved item 0).eq_nil_iff.mp
        (eq_nil_iff_forall_not_mem.mpr ?_)
      exact fun change hchange ↦ hnone change
        (mem_itemPlan.mpr ⟨saved, hsaved, item, hitem, hid, field, hchange⟩)
    · intro hrestored change hchange
      obtain ⟨saved, hsaved, item, hitem, hid, field, hchange⟩ := mem_itemPlan.mp hchange
      rw [(field.restores displayNumber saved item 0).eq_nil_iff.mpr
        (hrestored saved hsaved field item hitem hid)] at hchange
      simp at hchange
  have horders : ((readable obs snapshot).flatMap fun scene ↦
      orderChanges displayNumber snapshot scene (obs.listItems scene)) = [] ↔
        ∀ scene ∈ readable obs snapshot,
          targetIds snapshot scene (obs.itemIds scene) = obs.itemIds scene := by
    rw [flatMap_eq_nil_iff]
    refine forall₂_congr fun scene _ ↦ ?_
    have hlisted : (obs.listItems scene).map ItemState.sceneItemId = obs.itemIds scene :=
      obs.map_listItems scene fun _ _ ↦ rfl
    rw [orderChanges_eq_nil_iff, hlisted]
  rw [changes_planRestore, append_eq_nil_iff, append_eq_nil_iff, hinputs, hitems,
    horders, and_assoc]

/-- A state with nothing to change is covered. -/
theorem covered_of_changes_eq_nil (hnil : (planRestore displayNumber obs snapshot).changes = []) :
    Covered snapshot obs := by
  obtain ⟨hinputs, hitems, -⟩ := changes_eq_nil_iff.mp hnil
  refine ⟨fun saved hsaved input hinput tracks htracks key hkey ↦ ?_,
    fun saved hsaved item hitem hid ↦ ?_⟩
  · have hwellFormed := snapshot.tracks_wellFormed saved hsaved tracks htracks
    rw [Json.WellFormed, Json.wellFormedMembers_iff] at hwellFormed
    exact keys_of_same_object hwellFormed.1 (hinputs saved hsaved .tracks input hinput tracks
      htracks) hkey
  · obtain ⟨hsaved, hlive⟩ := sameTransform_iff.mp (hitems saved hsaved .transform item hitem hid)
    refine ⟨fun key hkey ↦ ?_, fun key hkey hwritable ↦ ?_⟩
    · obtain ⟨x, hx⟩ := ne_none_iff_exists'.mp (Members.mem_keys_iff.mp hkey)
      obtain ⟨y, hy, -⟩ := hsaved key x hx
      have hread : key ∈ (Obs.readTransform item.transform).keys :=
        Members.mem_keys_iff.mpr (by simp [hy])
      exact (SavedItemField.mem_keys_readTransform.mp hread).2
    · exact hlive key (SavedItemField.mem_keys_readTransform.mpr ⟨hkey, hwritable⟩)

/-- A goal holds, or the request of its field is the request of a change. -/
theorem Restores.holds_or {request : Option ObsRequest}
    (hrestores : Restores changes holds request) :
    holds ∨ ∃ change ∈ changes, request = some change.mutation.request := by
  rcases hrestores with ⟨hholds, -⟩ | ⟨-, change, rfl, hrequest⟩
  · exact .inl hholds
  · exact .inr ⟨change, by simp, hrequest⟩

/-- The goal of a field of an input holds, or a plan has its request. -/
theorem inputRestored_or {saved : InputState} (hsaved : saved ∈ snapshot.inputs)
    (field : SavedInputField) :
    InputRestored saved field obs ∨ ∃ change ∈ inputPlan obs snapshot,
      field.request saved = some change.mutation.request := by
  cases hinput : obs.inputs.get saved.inputName with
  | none => exact .inl fun input hsome ↦ absurd (hinput.symm.trans hsome) (by simp)
  | some input =>
    refine (field.restores saved input).holds_or.imp (fun hholds other hother ↦ ?_) ?_
    · cases hinput.symm.trans hother
      exact hholds
    · rintro ⟨change, hchange, hrequest⟩
      exact ⟨change, mem_inputPlan.mpr ⟨saved, hsaved, input, hinput, field, hchange⟩, hrequest⟩

/-- The goal of a field of an item holds, or a plan has its request. -/
theorem itemRestored_or (displayNumber : ℚ → String) {saved : ItemState}
    (hsaved : saved ∈ snapshot.items) (field : SavedItemField) :
    ItemRestored saved field obs ∨ ∃ change ∈ itemPlan displayNumber obs snapshot,
      field.request saved = change.mutation.request := by
  by_cases hpresent : ∃ item ∈ obs.items saved.sceneName, item.id = saved.sceneItemId
  · obtain ⟨item, hitem, hid⟩ := hpresent
    refine (field.restores displayNumber saved item 0).holds_or.imp
      (fun hholds other hother hotherId ↦ ?_) ?_
    · obtain rfl := inj_on_of_nodup_map (obs.items_distinct _) hitem hother
        (hid.trans hotherId.symm)
      exact hholds
    · rintro ⟨change, hchange, hrequest⟩
      exact ⟨change, mem_itemPlan.mpr ⟨saved, hsaved, item, hitem, hid, field, hchange⟩,
        some.inj hrequest⟩
  · exact .inl fun item hitem hid ↦ absurd ⟨item, hitem, hid⟩ hpresent

/-- The request of a change of a field is the request of the field. -/
theorem Restores.request_of_mem {request : Option ObsRequest}
    (hrestores : Restores changes holds request) (hchange : change ∈ changes) :
    request = some change.mutation.request := by
  rcases hrestores with ⟨-, rfl⟩ | ⟨-, found, rfl, hrequest⟩
  · simp at hchange
  · rwa [mem_singleton.mp hchange]

/-- The changes of fields ask for writes of saved fields. -/
theorem fieldRequest_of_mem
    (hchange : change ∈ inputPlan obs snapshot ++ itemPlan displayNumber obs snapshot) :
    (∃ saved ∈ snapshot.inputs, ∃ field : SavedInputField,
      field.request saved = some change.mutation.request) ∨
    ∃ saved ∈ snapshot.items, ∃ field : SavedItemField,
      change.mutation.request = field.request saved := by
  rcases mem_append.mp hchange with hchange | hchange
  · obtain ⟨saved, hsaved, input, -, field, hchange⟩ := mem_inputPlan.mp hchange
    exact .inl ⟨saved, hsaved, field, (field.restores saved input).request_of_mem hchange⟩
  · obtain ⟨saved, hsaved, item, -, -, field, hchange⟩ := mem_itemPlan.mp hchange
    exact .inr ⟨saved, hsaved, field, (some.inj
      ((field.restores displayNumber saved item 0).request_of_mem hchange)).symm⟩

theorem restoreRequest_of_mem {request : ObsRequest}
    (hrequest : request ∈ (planRestore displayNumber obs snapshot).requests) :
    RestoreRequest snapshot request := by
  obtain ⟨change, hchange, rfl⟩ := List.mem_map.mp hrequest
  rw [changes_planRestore] at hchange
  rcases mem_append.mp hchange with hfield | horder
  · rcases fieldRequest_of_mem hfield with
      ⟨saved, hsaved, field, hfield⟩ | ⟨saved, hsaved, field, hfield⟩
    · exact .input hsaved hfield
    · exact hfield ▸ .item hsaved
  · obtain ⟨scene, -, horder⟩ := mem_flatMap.mp horder
    have hmem : change.mutation.request ∈ (orderChanges displayNumber snapshot scene
        (obs.listItems scene)).map fun change ↦ change.mutation.request :=
      List.mem_map_of_mem horder
    rw [requests_orderChanges] at hmem
    split_ifs at hmem
    · simp at hmem
    · obtain ⟨move, -, hmove⟩ := List.mem_map.mp hmem
      exact hmove ▸ .index

/-- The changes of fields leave the order of every scene. -/
theorem itemIds_performAll_fields (hchanges : ∀ change ∈ changes,
      change ∈ inputPlan obs snapshot ++ itemPlan displayNumber obs snapshot) (host : Host)
    (start : Obs) (scene : String) :
    (start.performAll host (changes.map fun change ↦ change.mutation.request)).itemIds scene =
      start.itemIds scene := by
  refine Obs.performAll_keeps (fun after ↦ after.itemIds scene = start.itemIds scene)
    (fun request hrequest after hafter ↦ ?_) rfl
  obtain ⟨change, hchange, rfl⟩ := List.mem_map.mp hrequest
  rw [← hafter]
  rcases fieldRequest_of_mem (hchanges change hchange) with
    ⟨saved, -, field, hfield⟩ | ⟨saved, -, field, hfield⟩
  · obtain ⟨f, -, hperform⟩ := SavedInputField.perform_request hfield
    rw [hperform]
    rfl
  · rw [hfield, SavedItemField.perform_request]
    unfold Obs.itemIds
    by_cases hscene : scene = saved.sceneName
    · subst hscene
      rw [Obs.items_editItem, List.map_map]
      refine List.map_congr_left fun item _ ↦ ?_
      by_cases hid : item.id = saved.sceneItemId <;> simp [hid]
    · exact congrArg (List.map Item.id) (after.items_editScene_of_ne _ _ hscene)

end Plan

section Idempotence

variable {displayNumber : ℚ → String} {host : Host} {obs : Obs} {snapshot : Snapshot}

/-- The order of the scenes after a restore is the target order. -/
theorem itemIds_restored (hitems : snapshot.DistinctItems) {scene : String}
    (hscene : scene ∈ readable obs snapshot) :
    (obs.performAll host (planRestore displayNumber obs snapshot).requests).itemIds scene =
      targetIds snapshot scene (obs.itemIds scene) := by
  have hrequests : (planRestore displayNumber obs snapshot).requests =
      (inputPlan obs snapshot ++ itemPlan displayNumber obs snapshot).map
        (fun change ↦ change.mutation.request) ++
      (readable obs snapshot).flatMap fun scene ↦
        (orderChanges displayNumber snapshot scene (obs.listItems scene)).map
          fun change ↦ change.mutation.request := by
    unfold RestorePlan.requests
    rw [changes_planRestore, map_append, map_flatMap]
  rw [hrequests, Obs.performAll_append]
  refine (itemIds_performAll_orders hitems ((nodup_unique _).sublist filter_sublist)
    fun scene _ ↦ ?_).1 scene hscene
  exact itemIds_performAll_fields (fun change hchange ↦ hchange) host obs scene

end Idempotence

/-- A restore is idempotent exactly when the snapshot covers the present state. Assumes: input names
and item identifiers of a scene are saved at most once. -/
theorem restore_idempotent_iff (displayNumber : ℚ → String) (host : Host) (snapshot : Snapshot)
    (obs : Obs) (hinputs : (snapshot.inputs.map InputState.inputName).Nodup)
    (hitems : snapshot.DistinctItems) :
    (planRestore displayNumber (obs.performAll host
      (planRestore displayNumber obs snapshot).requests) snapshot).changes = [] ↔
        Covered snapshot obs := by
  obtain ⟨requests, hrequests⟩ : ∃ requests,
      requests = (planRestore displayNumber obs snapshot).requests := ⟨_, rfl⟩
  have hall : ∀ request ∈ requests, RestoreRequest snapshot request := by
    rw [hrequests]
    exact fun request hrequest ↦ restoreRequest_of_mem hrequest
  have hplanned : ∀ change ∈ inputPlan obs snapshot ++ itemPlan displayNumber obs snapshot,
      change.mutation.request ∈ requests := by
    intro change hchange
    rw [hrequests, RestorePlan.requests, changes_planRestore]
    exact List.mem_map_of_mem (mem_append_left _ hchange)
  constructor
  · intro hnil
    rw [← hrequests] at hnil
    exact (covered_performAll_iff hinputs hitems hall).mp (covered_of_changes_eq_nil hnil)
  · intro hcovered
    refine changes_eq_nil_iff.mpr ⟨fun saved hsaved field ↦ ?_, fun saved hsaved field ↦ ?_,
      fun scene hscene ↦ ?_⟩
    · rw [← hrequests]
      refine inputRestored_performAll hinputs hitems hall hcovered hsaved ?_
      refine (inputRestored_or hsaved field).imp id ?_
      rintro ⟨change, hchange, hfield⟩
      exact ⟨_, hplanned change (mem_append_left _ hchange), hfield⟩
    · rw [← hrequests]
      refine itemRestored_performAll hinputs hitems hall hcovered hsaved ?_
      refine (itemRestored_or displayNumber hsaved field).imp id ?_
      rintro ⟨change, hchange, hfield⟩
      exact hfield ▸ hplanned change (mem_append_right _ hchange)
    · have hreadable : scene ∈ readable obs snapshot := by
        rw [← hrequests, mem_readable, isSome_performAll hinputs hitems hall] at hscene
        exact mem_readable.mpr hscene
      rw [itemIds_restored hitems hreadable]
      exact targetIds_targetIds hitems (nodup_itemIds obs scene)

/-! ### Instances -/

/-- A microphone on two tracks. -/
def twoTracks : Obs :=
  Obs.empty.addInput "Microphone" ⟨"audio", [], false, ⟨0.0, isFinite_zero⟩,
    [("1", .bool true), ("2", .bool false)], by decide⟩

/-- A microphone with only its first track saved. -/
def oneTrack : Snapshot where
  inputs := [⟨"Microphone", "audio", [], none, none, some [("1", .bool true)]⟩]
  items := []
  settings_wellFormed := by simp [Json.WellFormed, Json.wellFormedMembers_iff, Members.keys]
  tracks_wellFormed := by simp [Json.WellFormed, Json.wellFormedMembers_iff, Members.keys]
  transforms_wellFormed := by simp

/-- A microphone saved twice, muted and not muted. -/
def savedTwice : Snapshot where
  inputs := [⟨"Microphone", "audio", [], some true, none, none⟩,
    ⟨"Microphone", "audio", [], some false, none, none⟩]
  items := []
  settings_wellFormed := by simp [Json.WellFormed, Json.wellFormedMembers_iff, Members.keys]
  tracks_wellFormed := by simp
  transforms_wellFormed := by simp

/-- A second plan writes the saved track again, as the other track is still there, and one for a
microphone that is saved twice writes the state that was written first. -/
theorem restore_not_idempotent :
    (planRestore (fun _ ↦ "") (twoTracks.performAll .plain
      (planRestore (fun _ ↦ "") twoTracks oneTrack).requests) oneTrack).changes ≠ [] ∧
    (planRestore (fun _ ↦ "") (twoTracks.performAll .plain
      (planRestore (fun _ ↦ "") twoTracks savedTwice).requests) savedTwice).changes ≠ [] :=
  ⟨ne_nil_of_length_pos (by decide +kernel), ne_nil_of_length_pos (by decide +kernel)⟩

/-- A camera in front of a backdrop. -/
def cameraInFront : Obs :=
  Obs.empty.performAll .plain [.createScene "Studio",
    .createInput "Studio" "Backdrop" "color" [] true,
    .createInput "Studio" "Camera" "camera" [] true]

/-- The camera behind the backdrop, hidden and locked, and not muted. -/
def cameraBehind : Snapshot where
  inputs := [⟨"Camera", "camera", [("width", .number (.posInt 1280))], some false, none, none⟩]
  items := [⟨"Studio", 2, "Camera", 0, false, true, []⟩,
    ⟨"Studio", 1, "Backdrop", 1, true, false, []⟩]
  settings_wellFormed := by simp [Json.WellFormed, Json.wellFormedMembers_iff, Members.keys]
  tracks_wellFormed := by simp
  transforms_wellFormed := by simp [Json.WellFormed, Json.wellFormedMembers_iff, Members.keys]

theorem restore_idempotent_camera :
    (planRestore (fun _ ↦ "") (cameraInFront.performAll .plain
      (planRestore (fun _ ↦ "") cameraInFront cameraBehind).requests) cameraBehind).changes =
        [] := by
  refine (restore_idempotent_iff (fun _ ↦ "") .plain cameraBehind cameraInFront (by decide +kernel)
    (by unfold Snapshot.DistinctItems; decide +kernel)).mpr ⟨?_, ?_⟩
  · intro saved hsaved input _ tracks htracks
    rw [mem_singleton.mp hsaved] at htracks
    exact absurd htracks (by simp)
  · have hsaved : ∀ saved ∈ cameraBehind.items, saved.sceneName = "Studio" ∧
        saved.transform.keys = [] := by decide +kernel
    have hitems : ∀ item ∈ cameraInFront.items "Studio", item.transform.keys = [] := by
      decide +kernel
    intro saved hmem item hitem _
    obtain ⟨hscene, hkeys⟩ := hsaved saved hmem
    rw [hscene] at hitem
    exact ⟨by simp [hkeys], by simp [hitems item hitem]⟩

end ObsMcp.Scenes
