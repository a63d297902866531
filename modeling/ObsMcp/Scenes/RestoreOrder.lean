import ObsMcp.Scenes.RestoreReplies

/-!
# The order that a restore leaves

The index moves of a restore plan are absolute, and each of them shifts other items. Performed in
turn, as taking an item out and putting it back at the index, they leave the items of a scene in the
target order: an item that was added since keeps its place, and the items that were saved take each
other's places in their saved order. No move is planned exactly when they are in it already.

A capture of a scene that is listed twice saves each of its items twice. The slots of a scene are
filled from the saved side, as many as there are items, so a repetition among the first entries
takes the slot of another item (`restore_disorders`). `restore_orders_iff` says that only this goes
wrong.
-/

namespace ObsMcp.Scenes

open Foundations List

/-! ### The moves of a plan -/

/-- The index moves of one scene. -/
def indexMoves (scene : String) (changes : List RestoreChange) : List (ℚ × ℕ) :=
  changes.filterMap fun change ↦
    match change.mutation with
    | .itemIndex sceneName itemId index => if sceneName = scene then some (itemId, index) else none
    | _ => none

/-- The identifiers of a scene from back to front after moves. -/
def execute (ids : List ℚ) (moves : List (ℚ × ℕ)) : List ℚ :=
  moves.foldl (fun ids move ↦ moveTo ids move.1 move.2) ids

section Moves

variable {displayNumber : ℚ → String} {snapshot : Snapshot} {reading : Reading} {scene : String}

theorem indexMoves_append (first second : List RestoreChange) :
    indexMoves scene (first ++ second) = indexMoves scene first ++ indexMoves scene second :=
  filterMap_append ..

theorem indexMoves_inputChanges (saved current : InputState) :
    indexMoves scene (inputChanges saved current) = [] := by
  unfold inputChanges settingsChanges muteChanges volumeChanges trackChanges
  simp only [indexMoves_append, append_eq_nil_iff]
  refine ⟨⟨⟨?_, ?_⟩, ?_⟩, ?_⟩
  · split_ifs <;> rfl
  · split <;> [rfl; (split_ifs <;> rfl)]
  · split <;> [rfl; (split_ifs <;> rfl)]
  · split <;> [rfl; (split_ifs <;> rfl)]

theorem indexMoves_itemChanges (saved current : ItemState) :
    indexMoves scene (itemChanges displayNumber saved current) = [] := by
  unfold itemChanges transformChanges enabledChanges lockedChanges
  simp only [indexMoves_append, append_eq_nil_iff]
  refine ⟨⟨?_, ?_⟩, ?_⟩
  · split_ifs <;> rfl
  · split_ifs <;> rfl
  · split_ifs <;> rfl

theorem indexMoves_flatMap {α : Type} {changes : α → List RestoreChange} {values : List α}
    (hnone : ∀ value ∈ values, indexMoves scene (changes value) = []) :
    indexMoves scene (values.flatMap changes) = [] := by
  induction values with
  | nil => rfl
  | cons value values ih =>
    rw [flatMap_cons, indexMoves_append, hnone value mem_cons_self,
      ih fun other hother ↦ hnone other (mem_cons_of_mem value hother), append_nil]

/-- The moves of a scene go to the places of the target order, unless the items are in it. -/
theorem indexMoves_orderChanges (other : String) (now : List ItemState) :
    indexMoves scene (orderChanges displayNumber snapshot other now) =
      if other ≠ scene ∨ targetIds snapshot other (now.map ItemState.sceneItemId) =
        now.map ItemState.sceneItemId then []
      else (targetIds snapshot other (now.map ItemState.sceneItemId)).zipIdx := by
  have hrequests : indexMoves scene (orderChanges displayNumber snapshot other now) =
      ((orderChanges displayNumber snapshot other now).map fun change ↦
        change.mutation.request).filterMap fun request ↦
          match request with
          | .setSceneItemIndex sceneName itemId index =>
            if sceneName = scene then some (itemId, index) else none
          | _ => none := by
    rw [filterMap_map]
    refine filterMap_congr fun change _ ↦ ?_
    cases hmutation : change.mutation <;> simp [Mutation.request, hmutation]
  rw [hrequests, requests_orderChanges]
  by_cases hsame : targetIds snapshot other (now.map ItemState.sceneItemId) =
      now.map ItemState.sceneItemId
  · rw [if_pos hsame, if_pos (.inr hsame)]
    rfl
  · rw [if_neg hsame, filterMap_map]
    by_cases hscene : other = scene
    · subst hscene
      rw [if_neg (by simp [hsame])]
      simp only [Function.comp_def, if_true]
      exact filterMap_some
    · rw [if_pos (.inl hscene), filterMap_eq_nil_iff]
      intro move _
      simp [hscene]

/-- The moves of a scene in the plan of all scenes. -/
theorem indexMoves_plan {found : RestorePlan}
    (hplan : reading.plan displayNumber snapshot = some found)
    (hscene : scene ∈ reading.readable snapshot) :
    indexMoves scene found.changes = indexMoves scene (orderChanges displayNumber snapshot scene
      (reading.presentItems snapshot scene)) := by
  rw [Reading.plan_eq_some hplan, indexMoves_append, indexMoves_append, indexMoves_flatMap,
    indexMoves_flatMap, nil_append, nil_append]
  · obtain ⟨before, after, hsplit⟩ := append_of_mem hscene
    have hdistinct : (before ++ scene :: after).Nodup := hsplit ▸ Reading.nodup_readable
    have hother : ∀ other ∈ before ++ after, indexMoves scene
        (orderChanges displayNumber snapshot other (reading.presentItems snapshot other)) = [] := by
      intro other hother
      have hne : other ≠ scene := by
        rintro rfl
        exact (nodup_middle.mp hdistinct |> nodup_cons.mp).1 hother
      rw [indexMoves_orderChanges, if_pos (.inl hne)]
    rw [hsplit, flatMap_append, flatMap_cons, indexMoves_append, indexMoves_append,
      indexMoves_flatMap fun other hmem ↦ hother other (mem_append_left after hmem),
      indexMoves_flatMap fun other hmem ↦ hother other (mem_append_right before hmem),
      nil_append, append_nil]
  · intro saved _
    cases reading.currentItem snapshot saved with
    | none => rfl
    | some current => exact indexMoves_itemChanges saved current
  · intro saved _
    cases reading.currentInput saved with
    | none => rfl
    | some current => exact indexMoves_inputChanges saved current

end Moves

/-! ### The order of the saved items -/

/-- An item of a scene was saved. -/
def Saved (snapshot : Snapshot) (scene : String) (id : ℚ) : Prop :=
  ∃ saved ∈ snapshot.items, saved.sceneName = scene ∧ saved.sceneItemId = id

/-- The present identifiers that were saved, in the order in which the snapshot lists them first. -/
def savedOrder (snapshot : Snapshot) (scene : String) (ids : List ℚ) : List ℚ :=
  (survivorIds snapshot scene ids).eraseDups

/-- The identifiers of a scene with the saved ones among them put in their saved order: nothing is
lost or added, an item that was not saved keeps its place, and the saved ones come in their saved
order. -/
structure Restored (snapshot : Snapshot) (scene : String) (ids after : List ℚ) : Prop where
  perm : after.Perm ids
  added : ∀ (place : ℕ) (id : ℚ), ids[place]? = some id → ¬ Saved snapshot scene id →
    after[place]? = some id
  saved : after.filter (fun id ↦ id ∈ survivorIds snapshot scene ids) =
    savedOrder snapshot scene ids

/-- The entries of a snapshot that fill the places of a scene, one for each of its items that were
saved, name no item twice. -/
def DistinctFills (snapshot : Snapshot) (scene : String) (ids : List ℚ) : Prop :=
  ((survivorIds snapshot scene ids).take
    (ids.countP fun id ↦ id ∈ survivorIds snapshot scene ids)).Nodup

section Order

variable {displayNumber : ℚ → String} {snapshot : Snapshot} {scene : String} {ids : List ℚ}

theorem mem_survivorIds_iff {id : ℚ} : id ∈ survivorIds snapshot scene ids ↔
    id ∈ ids ∧ decide (id ∈ survivorIds snapshot scene ids) = true := by
  rw [decide_eq_true_eq]
  exact ⟨fun hmem ↦ ⟨(mem_survivorIds.mp hmem).1, hmem⟩, And.right⟩

/-- With distinct fills the target order is a restored one, and it is the present order exactly when
the saved items are in their saved order already. -/
theorem restored_targetIds (hids : ids.Nodup) (hfills : DistinctFills snapshot scene ids) :
    Restored snapshot scene ids (targetIds snapshot scene ids) ∧
      (targetIds snapshot scene ids = ids ↔
        ids.filter (fun id ↦ id ∈ survivorIds snapshot scene ids) =
          savedOrder snapshot scene ids) := by
  obtain ⟨hused, herased⟩ := used_of_nodup _ hids (fun _ ↦ mem_survivorIds_iff) hfills
  have hlength := hused.length_eq.trans countP_eq_length_filter.symm
  have hchosen : ∀ id ∈ (survivorIds snapshot scene ids).take
      (ids.countP fun id ↦ id ∈ survivorIds snapshot scene ids),
      decide (id ∈ survivorIds snapshot scene ids) = true := fun id hid ↦
    decide_eq_true (mem_of_mem_take hid)
  rw [targetIds, ← fill_take, savedOrder, herased]
  refine ⟨⟨fill_perm _ hused, fun place id hid hnot ↦ ?_, ?_⟩, fill_eq_self_iff _ hchosen hlength⟩
  · refine getElem?_fill _ hid (decide_eq_false fun hmem ↦ ?_)
    exact hnot (mem_survivorIds.mp hmem).2
  · rw [filter_fill _ hchosen hlength, savedOrder, herased]

/-- Moves to the target order that restore a scene have distinct fills. -/
theorem distinctFills_of_restored (hids : ids.Nodup)
    (hrestored : Restored snapshot scene ids (execute ids (targetIds snapshot scene ids).zipIdx)) :
    DistinctFills snapshot scene ids :=
  (filter_moves_iff _ hids fun _ ↦ mem_survivorIds_iff).mp hrestored.saved

/-- Assumes: distinct fills. Performing the moves of a scene gives the target order. -/
theorem execute_indexMoves {now : List ItemState}
    (hpresent : (now.map ItemState.sceneItemId).Nodup)
    (hfills : DistinctFills snapshot scene (now.map ItemState.sceneItemId)) :
    execute (now.map ItemState.sceneItemId)
      (indexMoves scene (orderChanges displayNumber snapshot scene now)) =
        targetIds snapshot scene (now.map ItemState.sceneItemId) := by
  rw [indexMoves_orderChanges]
  by_cases hsame : targetIds snapshot scene (now.map ItemState.sceneItemId) =
      now.map ItemState.sceneItemId
  · rw [if_pos (.inr hsame), hsame]
    rfl
  · rw [if_neg (by simp [hsame])]
    exact foldl_moveTo hpresent (restored_targetIds hpresent hfills).1.perm

end Order

/-- There is a plan when the present items of every scene have distinct identifiers. -/
theorem exists_plan {displayNumber : ℚ → String} {snapshot : Snapshot} {reading : Reading}
    (hdistinct : ∀ scene ∈ reading.readable snapshot,
      ((reading.presentItems snapshot scene).map ItemState.sceneItemId).Nodup) :
    ∃ found, reading.plan displayNumber snapshot = some found := by
  refine Option.ne_none_iff_exists'.mp fun hnone ↦ ?_
  obtain ⟨scene, hscene, hfew⟩ := Reading.plan_eq_none_iff.mp hnone
  exact absurd (places_le_kept (hdistinct scene hscene)) (Nat.not_le.mpr hfew)

/-- After the index moves of a plan the items of a scene are restored to their saved order, and no
move is planned exactly when they are in it: exactly when the entries of the snapshot that fill the
places of the saved items are distinct. Assumes: the present items have distinct identifiers. -/
theorem restore_orders_iff {displayNumber : ℚ → String} {snapshot : Snapshot} {reading : Reading}
    {found : RestorePlan} {scene : String}
    (hplan : reading.plan displayNumber snapshot = some found)
    (hscene : scene ∈ reading.readable snapshot)
    (hpresent : ((reading.presentItems snapshot scene).map ItemState.sceneItemId).Nodup) :
    (Restored snapshot scene ((reading.presentItems snapshot scene).map ItemState.sceneItemId)
        (execute ((reading.presentItems snapshot scene).map ItemState.sceneItemId)
          (indexMoves scene found.changes)) ∧
      (indexMoves scene found.changes = [] ↔
        ((reading.presentItems snapshot scene).map ItemState.sceneItemId).filter (fun id ↦
          id ∈ survivorIds snapshot scene
            ((reading.presentItems snapshot scene).map ItemState.sceneItemId)) =
          savedOrder snapshot scene
            ((reading.presentItems snapshot scene).map ItemState.sceneItemId))) ↔
      DistinctFills snapshot scene
        ((reading.presentItems snapshot scene).map ItemState.sceneItemId) := by
  rw [indexMoves_plan hplan hscene]
  constructor
  · rintro ⟨hrestored, horder⟩
    rw [indexMoves_orderChanges] at hrestored horder
    by_cases hsame : targetIds snapshot scene ((reading.presentItems snapshot scene).map
        ItemState.sceneItemId) = (reading.presentItems snapshot scene).map ItemState.sceneItemId
    · rw [if_pos (.inr hsame)] at hrestored
      refine distinctFills_of_restored hpresent ?_
      rw [hsame, execute, foldl_moveTo hpresent (.refl _)]
      exact hrestored
    · rw [if_neg (by simp [hsame])] at hrestored
      exact distinctFills_of_restored hpresent hrestored
  · intro hfills
    obtain ⟨hrestored, hsame⟩ := restored_targetIds hpresent hfills
    rw [execute_indexMoves hpresent hfills, ← hsame, indexMoves_orderChanges]
    refine ⟨hrestored, fun hnil ↦ ?_, fun hsame ↦ if_pos (.inr hsame)⟩
    by_contra hsame
    rw [if_neg (by simp [hsame]), zipIdx_eq_nil_iff] at hnil
    have hlength := congrArg List.length hnil
    rw [targetIds, length_fill, length_nil, length_eq_zero_iff] at hlength
    rw [hnil, hlength] at hsame
    exact hsame rfl

/-! ### Two scenes -/

/-- A saved item. -/
def savedItem (id : ℚ) (source : String) (index : ℚ) : ItemState :=
  ⟨"Studio", id, source, index, true, false, []⟩

/-- A snapshot of items. -/
def savedStudio (items : List ItemState) (hplain : ∀ item ∈ items, item.transform = []) :
    Snapshot :=
  { savedCamera with
    items := items
    transforms_wellFormed := fun item hitem ↦ by
      simp [hplain item hitem, Json.WellFormed, Json.WellFormedMembers, Members.keys] }

/-- A camera below a chat. -/
def cameraBelowChat : Snapshot :=
  savedStudio [savedItem 1 "Camera" 0, savedItem 2 "Chat" 1] (by simp [savedItem])

/-- A logo was added, and the camera was moved to the front. -/
def movedCamera : Reading where
  items _ := some [savedItem 2 "Chat" 0, savedItem 3 "Logo" 1, savedItem 1 "Camera" 2]
  inputs := []

theorem presentItems_movedCamera : movedCamera.presentItems cameraBelowChat "Studio" =
    [savedItem 2 "Chat" 0, savedItem 3 "Logo" 1, savedItem 1 "Camera" 2] := by
  have hscene : movedCamera.readable cameraBelowChat = ["Studio"] := by decide
  rw [Reading.presentItems, Reading.currentItems, hscene]
  exact stack_eq_self (by simp [movedCamera, savedItem])

theorem survivorIds_movedCamera : survivorIds cameraBelowChat "Studio" [2, 3, 1] = [1, 2] := by
  have hstack : stack (cameraBelowChat.items.filter fun saved ↦ saved.sceneName = "Studio" ∧
      saved.sceneItemId ∈ ([2, 3, 1] : List ℚ)) = cameraBelowChat.items :=
    stack_eq_self (by simp [cameraBelowChat, savedStudio, savedItem])
  rw [survivorIds, hstack]
  rfl

theorem readable_movedCamera : movedCamera.readable cameraBelowChat = ["Studio"] := by
  decide

/-- The camera and the chat change places around the logo. -/
theorem restore_orders_movedCamera : ∃ found : RestorePlan,
    movedCamera.plan (fun _ ↦ "0") cameraBelowChat = some found ∧
      Restored cameraBelowChat "Studio" [2, 3, 1]
        (execute [2, 3, 1] (indexMoves "Studio" found.changes)) ∧
      indexMoves "Studio" found.changes ≠ [] := by
  have hids : (movedCamera.presentItems cameraBelowChat "Studio").map ItemState.sceneItemId =
      [2, 3, 1] := by
    rw [presentItems_movedCamera]
    rfl
  have hpresent : ((movedCamera.presentItems cameraBelowChat "Studio").map
      ItemState.sceneItemId).Nodup := by
    rw [hids]
    decide
  have hfills : DistinctFills cameraBelowChat "Studio" [2, 3, 1] := by
    rw [DistinctFills, survivorIds_movedCamera]
    decide
  obtain ⟨found, hplan⟩ := @exists_plan (fun _ ↦ "0") _ _ fun scene hscene ↦ by
    rw [readable_movedCamera, mem_singleton] at hscene
    exact hscene ▸ hpresent
  have hrestored := restore_orders_iff hplan
    (by rw [readable_movedCamera]; exact mem_cons_self) hpresent
  rw [hids, savedOrder, survivorIds_movedCamera] at hrestored
  obtain ⟨hrestored, horder⟩ := hrestored.mpr hfills
  exact ⟨found, hplan, hrestored, fun hnone ↦ absurd (horder.mp hnone) (by decide)⟩

/-- A camera below a chat, as the scene is and as it is read. -/
def presentCamera : Reading where
  items _ := some [savedItem 1 "Camera" 0, savedItem 2 "Chat" 1]
  inputs := []

/-- The capture of that scene when it is listed twice. -/
def studioTwice : Snapshot :=
  savedStudio (["Studio", "Studio"].flatMap fun scene ↦ (presentCamera.items scene).getD [])
    (by simp [presentCamera, savedItem])

theorem readable_presentCamera : presentCamera.readable studioTwice = ["Studio"] := by
  decide

theorem presentItems_presentCamera : presentCamera.presentItems studioTwice "Studio" =
    [savedItem 1 "Camera" 0, savedItem 2 "Chat" 1] := by
  rw [Reading.presentItems, Reading.currentItems, readable_presentCamera]
  exact stack_eq_self (by simp [presentCamera, savedItem])

theorem survivorIds_presentCamera : survivorIds studioTwice "Studio" [1, 2] = [1, 1, 2, 2] := by
  simp [survivorIds, studioTwice, savedStudio, presentCamera, savedItem, stack, List.mergeSort,
    List.MergeSort.Internal.splitInTwo]

/-- A scene that is as it was saved is disordered when the capture listed it twice: the places of
camera and chat are filled with the camera and its repetition. -/
theorem restore_disorders : ∃ found : RestorePlan,
    presentCamera.plan (fun _ ↦ "0") studioTwice = some found ∧
      (presentCamera.presentItems studioTwice "Studio").map ItemState.sceneItemId = [1, 2] ∧
      savedOrder studioTwice "Studio" [1, 2] = [1, 2] ∧
      indexMoves "Studio" found.changes = [(1, 0), (1, 1)] ∧
      execute [1, 2] (indexMoves "Studio" found.changes) = [2, 1] ∧
      ¬ Restored studioTwice "Studio" [1, 2] [2, 1] := by
  have hids : (presentCamera.presentItems studioTwice "Studio").map ItemState.sceneItemId =
      [1, 2] := by
    rw [presentItems_presentCamera]
    rfl
  obtain ⟨found, hplan⟩ := @exists_plan (fun _ ↦ "0") _ _ fun scene hscene ↦ by
    rw [readable_presentCamera, mem_singleton] at hscene
    rw [hscene, hids]
    decide
  have hmoves : indexMoves "Studio" found.changes = [(1, 0), (1, 1)] := by
    rw [indexMoves_plan hplan (by rw [readable_presentCamera]; exact mem_cons_self),
      indexMoves_orderChanges, hids, targetIds, survivorIds_presentCamera]
    rfl
  have horder : savedOrder studioTwice "Studio" [1, 2] = [1, 2] := by
    rw [savedOrder, survivorIds_presentCamera]
    rfl
  refine ⟨found, hplan, hids, horder, hmoves, by rw [hmoves]; rfl, fun hrestored ↦ ?_⟩
  have hsaved := hrestored.saved
  rw [horder, survivorIds_presentCamera] at hsaved
  exact absurd hsaved (by decide)

end ObsMcp.Scenes
