import ObsMcp.Scenes.SecondStage
import ObsMcp.Scenes.Stacking

/-!
# Convergence of Apply Scene

Performing the creations of a first plan, then the changes of a second one, leaves nothing to plan
(`apply_scene_converges`).

The goals of the fields are those of the second stage. The order of the items is followed through
the list of their sources from back to front: the writes of fields leave it, the removals filter it
(`items_performAll_removals`), and every index move takes one source to its end
(`sourceNames_performAll_moves`), so that the listed names are its suffix, which is what a plan
tests (`ordered_iff`).
-/

namespace ObsMcp.Scenes

open Foundations List

/-! ### The order of the items -/

section Order

variable {host : Host} {request : Request} {wanted : SourceSpec → Members} {created obs : Obs}

section

variable (obs : Obs) (canvas : Canvas) (request : Request)

theorem stack_current :
    stack (obs.current canvas request).items = (obs.current canvas request).items := by
  rw [items_current]
  exact obs.stack_listItems request.sceneName

theorem sourceNames_current :
    (obs.current canvas request).items.map ItemState.sourceName =
      obs.sourceNames request.sceneName := by
  rw [items_current]
  exact obs.map_listItems request.sceneName fun _ _ ↦ rfl

/-- The front items are the listed sources in their order exactly when the listed names end the list
of sources. -/
theorem ordered_iff :
    ordered request (obs.current canvas request) = true ↔
      request.sources.map SourceSpec.name <:+ obs.sourceNames request.sceneName := by
  rw [ordered_iff_suffix, stack_current, sourceNames_current]

end

/-- Removals leave the items whose identifiers are not among the removed ones. -/
theorem items_performAll_removals (ids : List ℚ) :
    (obs.performAll host (ids.map fun id ↦ .removeSceneItem request.sceneName id)).items
        request.sceneName =
      (obs.items request.sceneName).filter fun item ↦ item.id ∉ ids := by
  induction ids generalizing obs with
  | nil => simp [Obs.performAll]
  | cons id ids ih =>
    rw [map_cons, Obs.performAll_cons, ih]
    show ((obs.removeItem request.sceneName id).items request.sceneName).filter _ = _
    rw [Obs.items_removeItem, filter_filter]
    refine filter_congr fun item _ ↦ ?_
    rw [← Bool.decide_and]
    exact decide_eq_decide.mpr (by rw [mem_cons, not_or, and_comm])

/-- The identifiers of the items of a listed source are those of its item in the state `created`. -/
theorem Kept.id_iff (hcreated : Staged request created) (hkept : Kept request created obs)
    {source : SourceSpec} (hsource : source ∈ request.sources) {old : Item}
    (hold : old ∈ created.items request.sceneName) (howner : old.source = source.name)
    {item : Item} (hitem : item ∈ obs.items request.sceneName) :
    item.id = old.id ↔ item.source = source.name := by
  obtain ⟨kept, hmem, hid, hshown⟩ := hkept item hitem
  constructor
  · intro hsame
    obtain rfl := item_eq hmem hold (hid.trans hsame)
    exact hshown.symm.trans howner
  · intro hsame
    obtain rfl := hcreated.item_unique hsource hmem hold (hshown.trans hsame) howner
    exact hid.symm

variable {place : ℕ}

/-- An index move to the last index takes the source to the end. -/
theorem sourceNames_moveItem_last {id : ℚ} {name : String}
    (howner : ∀ item ∈ obs.items request.sceneName, item.id = id ↔ item.source = name)
    (hmem : name ∈ obs.sourceNames request.sceneName)
    (hlast : place + 1 = (obs.items request.sceneName).length) :
    (obs.moveItem request.sceneName id place).sourceNames request.sceneName =
      (obs.sourceNames request.sceneName).filter (fun other ↦ other ≠ name) ++ [name] := by
  obtain ⟨item, hitem, rfl⟩ := mem_map.mp hmem
  obtain ⟨found, hfound⟩ : ∃ found, (obs.items request.sceneName).find?
      (fun item ↦ item.id = id) = some found := by
    rw [← Option.isSome_iff_exists, find?_isSome]
    exact ⟨item, hitem, decide_eq_true ((howner item hitem).mpr rfl)⟩
  have hfoundId : found.id = id := by simpa using find?_some hfound
  have hfoundSource : found.source = item.source :=
    (howner found (mem_of_find?_eq_some hfound)).mp hfoundId
  have hmove : Scene.moveItem (obs.items request.sceneName) id place =
      ((obs.items request.sceneName).filter fun item ↦ item.id ≠ id).take place ++
        found :: ((obs.items request.sceneName).filter fun item ↦ item.id ≠ id).drop place := by
    unfold Scene.moveItem
    rw [hfound]
  have hlength : ((obs.items request.sceneName).filter fun item ↦ item.id ≠ id).length =
      place := by
    have hperm := (Scene.moveItem_perm (obs.items_distinct request.sceneName) id place).length_eq
    rw [hmove, length_append, length_cons, length_take, length_drop] at hperm
    omega
  unfold Obs.sourceNames
  rw [Obs.items_moveItem, hmove, take_of_length_le hlength.le,
    drop_of_length_le hlength.le, map_append, map_singleton, hfoundSource,
    filter_map]
  congr 2
  refine filter_congr fun other hother ↦ ?_
  simp [howner other hother]

/-- Index moves to the last index take their sources to the end in turn. Assumes: the identifiers
are those of the items of the sources in the state `created`. -/
theorem sourceNames_performAll_moves (hdistinct : (request.sources.map SourceSpec.name).Nodup)
    (hcreated : Staged request created) {ids : SourceSpec → ℚ} {sources : List SourceSpec}
    (hsources : ∀ source ∈ sources, source ∈ request.sources)
    (hnames : (sources.map SourceSpec.name).Nodup)
    (hids : ∀ source ∈ sources, ∃ old ∈ created.items request.sceneName,
      old.source = source.name ∧ old.id = ids source)
    (hobs : Staged request obs ∧ Kept request created obs)
    (hlast : place + 1 = (obs.items request.sceneName).length) :
    (obs.performAll host (sources.map fun source ↦
        .setSceneItemIndex request.sceneName (ids source) place)).sourceNames request.sceneName =
      (obs.sourceNames request.sceneName).filter
        (fun name ↦ name ∉ sources.map SourceSpec.name) ++ sources.map SourceSpec.name := by
  induction sources generalizing obs with
  | nil => simp [Obs.performAll]
  | cons source sources ih =>
    obtain ⟨old, hold, howner, hid⟩ := hids source (by simp)
    have hsource := hsources source (by simp)
    rw [map_cons, nodup_cons] at hnames
    have hstep : StageStep request (fun _ ↦ []) obs
        (obs.moveItem request.sceneName (ids source) place) :=
      (@StageChange.index request _ created _ _).step host hdistinct hobs.2
    have hlength : ((obs.moveItem request.sceneName (ids source) place).items
        request.sceneName).length = (obs.items request.sceneName).length := by
      rw [Obs.items_moveItem]
      exact (Scene.moveItem_perm (obs.items_distinct _) _ _).length_eq
    have hmoved : (obs.moveItem request.sceneName (ids source) place).sourceNames
        request.sceneName = (obs.sourceNames request.sceneName).filter
          (fun other ↦ other ≠ source.name) ++ [source.name] := by
      refine sourceNames_moveItem_last (fun item hitem ↦ ?_) ?_ hlast
      · rw [← hid]
        exact hobs.2.id_iff hcreated hsource hold howner hitem
      · rw [← count_pos_iff, hobs.1.once source hsource]
        exact Nat.one_pos
    rw [map_cons, Obs.performAll_cons]
    show ((obs.moveItem request.sceneName (ids source) place).performAll host _).sourceNames
      request.sceneName = _
    rw [ih (fun other hother ↦ hsources other (by simp [hother])) hnames.2
      (fun other hother ↦ hids other (by simp [hother])) ⟨hstep.staged hobs.1, hstep.kept hobs.2⟩
      (hlast.trans hlength.symm), hmoved, filter_append, filter_filter,
      filter_singleton, decide_eq_true hnames.1]
    simp only [map_cons, append_assoc]
    congr 1
    refine filter_congr fun name _ ↦ ?_
    rw [← Bool.decide_and]
    exact decide_eq_decide.mpr (by rw [mem_cons, not_or, and_comm])

/-- A staged scene with listed sources only has exactly the listed names as sources. -/
theorem Staged.perm (hdistinct : (request.sources.map SourceSpec.name).Nodup)
    (hstaged : Staged request obs)
    (hlisted : ∀ name ∈ obs.sourceNames request.sceneName,
      name ∈ request.sources.map SourceSpec.name) :
    (obs.sourceNames request.sceneName).Perm (request.sources.map SourceSpec.name) := by
  rw [perm_iff_count]
  intro name
  by_cases hname : name ∈ request.sources.map SourceSpec.name
  · rw [count_eq_one_of_mem hdistinct hname]
    obtain ⟨source, hsource, rfl⟩ := mem_map.mp hname
    exact hstaged.once source hsource
  · rw [count_eq_zero_of_not_mem hname, count_eq_zero_of_not_mem]
    exact fun hmem ↦ hname (hlisted name hmem)

end Order

/-! ### The requests of a plan of a staged scene -/

variable {actions : List Action}

theorem mem_requests {change : ObsRequest} :
    change ∈ requests actions ↔
      ∃ action ∈ actions, ∃ effect, action.effect = some effect ∧ effect.request = change := by
  simp only [requests, mem_filterMap, Option.map_eq_some_iff]

theorem requests_map {α : Type} {action : α → Action} {change : α → ObsRequest}
    (hchange : ∀ a, (action a).effect.map Effect.request = some (change a)) (as : List α) :
    requests (as.map action) = as.map change := by
  unfold requests
  rw [filterMap_map, ← filterMap_eq_map]
  exact filterMap_congr fun a _ ↦ hchange a

variable {holds : Prop} {request : Option ObsRequest}

/-- An emitted action is a change and has the request of its field. -/
theorem Emits.of_mem (hemits : Emits actions holds request) {action : Action}
    (haction : action ∈ actions) :
    action.phase = .change ∧
      ∃ effect, action.effect = some effect ∧ request = some effect.request := by
  rcases hemits with ⟨-, rfl⟩ | ⟨-, emitted, effect, rfl, hphase, heffect, hrequest⟩
  · simp at haction
  · rw [mem_singleton.mp haction]
    exact ⟨hphase, effect, heffect, hrequest⟩

/-- A goal holds, or the request of its field is among the requests of the actions. -/
theorem Emits.holds_or (hemits : Emits actions holds request) :
    holds ∨ ∃ change ∈ requests actions, request = some change := by
  rcases hemits with ⟨hholds, -⟩ | ⟨-, emitted, effect, rfl, -, heffect, hrequest⟩
  · exact .inl hholds
  · exact .inr ⟨effect.request, mem_requests.mpr ⟨emitted, by simp, effect, heffect, rfl⟩,
      hrequest⟩

section Plan

variable {numerals : Numerals} {canvas : Canvas} {request : Request} {obs : Obs}
  {source : SourceSpec}

theorem Staged.inputEmits (hstaged : Staged request obs) (canvas : Canvas)
    (hsource : source ∈ request.sources) :
    ∃ input, obs.inputs.get source.name = some input ∧ ∀ field : InputField,
      Emits (field.actions (obs.current canvas request) source) (field.Holds source input)
        (field.request source) := by
  obtain ⟨input, hinput, hcurrent⟩ := hstaged.input_current canvas hsource
  exact ⟨input, hinput, fun field ↦ field.emits hcurrent⟩

theorem Staged.itemEmits (hstaged : Staged request obs) (numerals : Numerals) (canvas : Canvas)
    (hsource : source ∈ request.sources) :
    ∃ item ∈ obs.items request.sceneName, item.source = source.name ∧ ∀ field : ItemField,
      Emits (field.actions numerals request.sceneName (obs.current canvas request) source)
        (field.Holds source (wantedTransform numerals (obs.current canvas request) source) item)
        (field.request source (wantedTransform numerals (obs.current canvas request) source)
          request.sceneName item.id) := by
  obtain ⟨item, hitem, index, howner, hcurrent⟩ := hstaged.item_current canvas hsource
  exact ⟨item, hitem, howner, fun field ↦ field.emits hcurrent⟩

/-- An action of a field of a staged source is a change that writes the field. -/
theorem Staged.of_mem_fieldActions (hstaged : Staged request obs)
    (hsource : source ∈ request.sources) {action : Action}
    (haction : action ∈ fieldActions numerals request.sceneName (obs.current canvas request)
      source) :
    action.phase = .change ∧ ∃ effect, action.effect = some effect ∧
      FieldChange request (wantedTransform numerals (obs.current canvas request)) obs
        effect.request := by
  rcases mem_fieldActions.mp haction with ⟨field, haction⟩ | ⟨field, haction⟩
  · obtain ⟨input, -, hemits⟩ := hstaged.inputEmits canvas hsource
    obtain ⟨hphase, effect, heffect, hrequest⟩ := (hemits field).of_mem haction
    exact ⟨hphase, effect, heffect, .input hsource hrequest⟩
  · obtain ⟨item, hitem, howner, hemits⟩ := hstaged.itemEmits numerals canvas hsource
    obtain ⟨hphase, effect, heffect, hrequest⟩ := (hemits field).of_mem haction
    exact ⟨hphase, effect, heffect, .item hsource hitem howner hrequest⟩

theorem requests_subset {first second : List Action} (hsubset : ∀ action ∈ first, action ∈ second)
    {change : ObsRequest} (hchange : change ∈ requests first) : change ∈ requests second := by
  obtain ⟨action, haction, heffect⟩ := mem_requests.mp hchange
  exact mem_requests.mpr ⟨action, hsubset action haction, heffect⟩

section

variable (hstaged : Staged request obs) (numerals : Numerals) (canvas : Canvas)
  (hsource : source ∈ request.sources)
include hstaged hsource

/-- The goal of a field of an input holds, or a plan has its request. -/
theorem Staged.inputHolds_or (field : InputField) :
    InputHolds source field obs ∨ ∃ change ∈ requests (request.sources.flatMap
      (fieldActions numerals request.sceneName (obs.current canvas request))),
        field.request source = some change := by
  obtain ⟨input, hinput, hemits⟩ := hstaged.inputEmits canvas hsource
  refine (hemits field).holds_or.imp (fun hholds other hother ↦ ?_) ?_
  · cases hinput.symm.trans hother
    exact hholds
  · rintro ⟨change, hchange, hrequest⟩
    refine ⟨change, requests_subset (fun action haction ↦ ?_) hchange, hrequest⟩
    exact mem_flatMap.mpr ⟨source, hsource, mem_fieldActions.mpr (.inl ⟨field, haction⟩)⟩

/-- The goal of a field of an item holds, or a plan has its request. -/
theorem Staged.itemHolds_or (field : ItemField) :
    ItemHolds request (wantedTransform numerals (obs.current canvas request)) source field obs ∨
      ∃ change ∈ requests (request.sources.flatMap (fieldActions numerals request.sceneName
        (obs.current canvas request))), ∃ old ∈ obs.items request.sceneName,
          old.source = source.name ∧ field.request source (wantedTransform numerals
            (obs.current canvas request) source) request.sceneName old.id = some change := by
  obtain ⟨item, hitem, howner, hemits⟩ := hstaged.itemEmits numerals canvas hsource
  refine (hemits field).holds_or.imp (fun hholds other hother hshown ↦ ?_) ?_
  · obtain rfl := hstaged.item_unique hsource hitem hother howner hshown
    exact hholds
  · rintro ⟨change, hchange, hrequest⟩
    refine ⟨change, requests_subset (fun action haction ↦ ?_) hchange, item, hitem, howner,
      hrequest⟩
    exact mem_flatMap.mpr ⟨source, hsource, mem_fieldActions.mpr (.inr ⟨field, haction⟩)⟩

end

/-- The identifiers of the items a plan removes. -/
def otherIds (request : Request) (obs : Obs) : List ℚ :=
  ((obs.items request.sceneName).filter fun item ↦
    item.source ∉ request.sources.map SourceSpec.name).map Item.id

theorem removeActions_current :
    removeActions request (obs.current canvas request) =
      if request.removeOthers then
        ((obs.items request.sceneName).filter fun item ↦
          item.source ∉ request.sources.map SourceSpec.name).map fun item ↦
            ⟨item.source, "remove from the scene", .change,
              some (.removeItem request.sceneName item.id)⟩
      else [] := by
  unfold removeActions otherItems
  rw [items_current, Obs.listItems, filter_map, map_map]
  congr 1
  nth_rewrite 2 [← zipIdx_map_fst 0 (obs.items request.sceneName)]
  rw [filter_map, map_map]
  rfl

theorem requests_removeActions :
    requests (removeActions request (obs.current canvas request)) =
      if request.removeOthers then
        (otherIds request obs).map fun id ↦ .removeSceneItem request.sceneName id
      else [] := by
  rw [removeActions_current]
  split_ifs
  · unfold otherIds
    rw [map_map]
    exact requests_map (fun _ ↦ rfl) _
  · rfl

/-- The identifier of the item a plan moves for a source. -/
def itemId (request : Request) (canvas : Canvas) (obs : Obs) (source : SourceSpec) : ℚ :=
  (((obs.current canvas request).item source.name).map ItemState.sceneItemId).getD 0

section

variable (hstaged : Staged request obs) (canvas : Canvas)
include hstaged

theorem Staged.itemId_eq (hsource : source ∈ request.sources) :
    ∃ old ∈ obs.items request.sceneName,
      old.source = source.name ∧ old.id = itemId request canvas obs source := by
  obtain ⟨item, hitem, index, howner, hcurrent⟩ := hstaged.item_current canvas hsource
  refine ⟨item, hitem, howner, ?_⟩
  unfold itemId
  rw [hcurrent]
  rfl

theorem Staged.moveActions_eq (place : ℕ) :
    moveActions request (obs.current canvas request) place =
      request.sources.map fun source ↦
        ⟨source.name, "order (to the front, as listed)", .change,
          some (.index request.sceneName (itemId request canvas obs source) place)⟩ := by
  unfold moveActions
  rw [← filterMap_eq_map]
  refine filterMap_congr fun source hsource ↦ ?_
  obtain ⟨item, -, index, -, hcurrent⟩ := hstaged.item_current canvas hsource
  simp only [Function.comp_apply, itemId, hcurrent]
  rfl

theorem Staged.requests_orderActions :
    requests (orderActions request (obs.current canvas request)) =
      if request.order ∧ ¬ ordered request (obs.current canvas request) then
        request.sources.map fun source ↦ .setSceneItemIndex request.sceneName
          (itemId request canvas obs source) ((if request.removeOthers then request.sources.length
            else (obs.items request.sceneName).length) - 1)
      else [] := by
  rw [orderActions_staged hstaged]
  by_cases hmoves : request.order ∧ ¬ ordered request (obs.current canvas request)
  · rw [if_pos hmoves, if_pos hmoves, hstaged.moveActions_eq]
    exact requests_map (fun _ ↦ rfl) _
  · rw [if_neg hmoves, if_neg hmoves]
    rfl

end

section

variable (hdistinct : (request.sources.map SourceSpec.name).Nodup)
  (hvolume : ∀ source ∈ request.sources, source.volumeDb = none) (hstaged : Staged request obs)
include hdistinct hvolume hstaged

/-- Nothing is planned when all goals hold. -/
theorem plan_eq_empty (hinputs : ∀ source ∈ request.sources, ∀ field, InputHolds source field obs)
    (hitems : ∀ source ∈ request.sources, ∀ field, ItemHolds request (wantedTransform numerals
      (obs.current canvas request)) source field obs) (hremoved : request.removeOthers → ∀ name ∈
      obs.sourceNames request.sceneName, name ∈ request.sources.map SourceSpec.name) (hordered :
      request.order → request.sources.map SourceSpec.name <:+ obs.sourceNames request.sceneName) :
    plan numerals request (obs.current canvas request) = ⟨[], []⟩ := by
  have hfields : request.sources.flatMap (fieldActions numerals request.sceneName
      (obs.current canvas request)) = [] := by
    rw [flatMap_eq_nil_iff]
    intro source hsource
    rw [eq_nil_iff_forall_not_mem]
    intro action haction
    rcases mem_fieldActions.mp haction with ⟨field, haction⟩ | ⟨field, haction⟩
    · obtain ⟨input, hinput, hemits⟩ := hstaged.inputEmits canvas hsource
      rcases hemits field with ⟨-, hnil⟩ | ⟨hnot, -⟩
      · simp [hnil] at haction
      · exact hnot (hinputs source hsource field input hinput)
    · obtain ⟨item, hitem, howner, hemits⟩ := hstaged.itemEmits numerals canvas hsource
      rcases hemits field with ⟨-, hnil⟩ | ⟨hnot, -⟩
      · simp [hnil] at haction
      · exact hnot (hitems source hsource field item hitem howner)
  have hremoves : removeActions request (obs.current canvas request) = [] := by
    rw [removeActions_current]
    split_ifs with hothers
    · rw [map_eq_nil_iff, filter_eq_nil_iff]
      intro item hitem
      simpa using hremoved hothers item.source (mem_map_of_mem hitem)
    · rfl
  have horders : orderActions request (obs.current canvas request) = [] := by
    rw [orderActions_staged hstaged, if_neg]
    rintro ⟨horder, hnot⟩
    exact hnot ((ordered_iff obs canvas request).mpr (hordered horder))
  rw [plan_staged hdistinct hvolume hstaged, hfields, hremoves, horders]
  rfl

/-- Every action of a plan of a staged scene is a change with an effect. -/
theorem change_of_mem_plan :
    ∀ action ∈ (plan numerals request (obs.current canvas request)).actions,
      action.phase = .change ∧ action.effect.isSome := by
  rw [plan_staged hdistinct hvolume hstaged]
  intro action haction
  rcases mem_append.mp haction with haction | haction
  · rcases mem_append.mp haction with haction | haction
    · obtain ⟨source, hsource, haction⟩ := mem_flatMap.mp haction
      obtain ⟨hphase, effect, heffect, -⟩ := hstaged.of_mem_fieldActions hsource haction
      exact ⟨hphase, by rw [heffect]; rfl⟩
    · rw [removeActions_current] at haction
      split_ifs at haction
      · obtain ⟨item, -, rfl⟩ := mem_map.mp haction
        exact ⟨rfl, rfl⟩
      · simp at haction
  · rw [orderActions_staged hstaged] at haction
    by_cases hmoves : request.order ∧ ¬ ordered request (obs.current canvas request)
    · rw [if_pos hmoves, hstaged.moveActions_eq] at haction
      obtain ⟨source, -, rfl⟩ := mem_map.mp haction
      exact ⟨rfl, rfl⟩
    · rw [if_neg hmoves] at haction
      simp at haction

/-- The second stage performs every action of a plan of a staged scene. -/
theorem continuation_staged (creations : List Action) (snapshot : Option String) :
    continuation (plan numerals request (obs.current canvas request)) creations snapshot =
      .ok (plan numerals request (obs.current canvas request)).actions := by
  have hchanges : ∀ action ∈ (plan numerals request (obs.current canvas request)).actions,
      action.phase = .change ∧ action.effect.isSome :=
    change_of_mem_plan hdistinct hvolume hstaged
  have hproblems : (plan numerals request (obs.current canvas request)).problems = [] := by
    unfold Plan.problems
    rw [filter_create_of_change fun action haction ↦ (hchanges action haction).1,
      plan_staged hdistinct hvolume hstaged]
    rfl
  unfold continuation
  rw [hproblems, isEmpty_nil, if_pos rfl, filter_eq_self.mpr]
  intro action haction
  exact decide_eq_true (hchanges action haction)

end

end Plan

/-! ### The end of the second stage -/

section Converges

variable {numerals : Numerals} {host : Host} {canvas : Canvas} {request : Request}
  {created obs : Obs} {wanted : SourceSpec → Members}

/-- The writes of fields leave the sources from back to front. -/
theorem sourceNames_performAll_fields {changes : List ObsRequest}
    (hchanges : ∀ change ∈ changes, FieldChange request wanted created change) :
    (obs.performAll host changes).sourceNames request.sceneName =
      obs.sourceNames request.sceneName :=
  Obs.performAll_keeps (fun after ↦ after.sourceNames request.sceneName =
    obs.sourceNames request.sceneName)
    (fun change hchange after hafter ↦ ((hchanges change hchange).sourceNames after host).trans
      hafter) rfl

/-- The removals of a plan leave the listed sources. -/
theorem sourceNames_performAll_removals (hkept : Kept request created obs) :
    (obs.performAll host ((otherIds request created).map fun id ↦
        .removeSceneItem request.sceneName id)).sourceNames request.sceneName =
      (obs.sourceNames request.sceneName).filter
        fun name ↦ name ∈ request.sources.map SourceSpec.name := by
  unfold Obs.sourceNames
  rw [items_performAll_removals, filter_map]
  congr 1
  refine filter_congr fun item hitem ↦ decide_eq_decide.mpr ?_
  obtain ⟨old, hold, hid, howner⟩ := hkept item hitem
  have hmem : item.id ∈ otherIds request created ↔
      old.source ∉ request.sources.map SourceSpec.name := by
    unfold otherIds
    constructor
    · intro hmem
      obtain ⟨other, hother, hsame⟩ := mem_map.mp hmem
      obtain ⟨hother, hunlisted⟩ := mem_filter.mp hother
      obtain rfl := item_eq hold hother (hid.trans hsame.symm)
      exact of_decide_eq_true hunlisted
    · intro hunlisted
      exact mem_map.mpr ⟨old, mem_filter.mpr ⟨hold, decide_eq_true hunlisted⟩, hid⟩
  rw [hmem, not_not, howner]

variable (hdistinct : (request.sources.map SourceSpec.name).Nodup)
  (hvolume : ∀ source ∈ request.sources, source.volumeDb = none)
  (hstaged : Staged request created)
include hdistinct hstaged

/-- The moves of a plan leave the listed names at the end. Assumes: the scene holds what it held
when the plan was made, or only the listed sources when the others are removed. -/
theorem sourceNames_performAll_orders (hobs : Staged request obs ∧ Kept request created obs)
    (hnames : obs.sourceNames request.sceneName =
      if request.removeOthers then (created.sourceNames request.sceneName).filter
        fun name ↦ name ∈ request.sources.map SourceSpec.name
      else created.sourceNames request.sceneName) (horder : request.order) :
    request.sources.map SourceSpec.name <:+ (obs.performAll host (requests
      (orderActions request (created.current canvas request)))).sourceNames
        request.sceneName := by
  rw [hstaged.requests_orderActions]
  by_cases hordered : ordered request (created.current canvas request) = true
  · rw [if_neg (by simp [hordered])]
    show _ <:+ obs.sourceNames request.sceneName
    have hsuffix := (ordered_iff created canvas request).mp hordered
    rw [hnames]
    split_ifs
    · have hfilter := hsuffix.filter fun name ↦ name ∈ request.sources.map SourceSpec.name
      rwa [filter_eq_self.mpr fun name hname ↦ decide_eq_true hname] at hfilter
    · exact hsuffix
  · have hnonempty : request.sources ≠ [] := by
      intro hnil
      exact hordered ((ordered_iff created canvas request).mpr (by simp [hnil]))
    have hlast : (if request.removeOthers then request.sources.length
        else (created.items request.sceneName).length) - 1 + 1 =
          (obs.items request.sceneName).length := by
      have hlength : (obs.items request.sceneName).length =
          (obs.sourceNames request.sceneName).length := (length_map _).symm
      have hpos := length_pos_iff.mpr hnonempty
      split_ifs at hnames ⊢
      · have hperm := hobs.1.perm hdistinct fun name hname ↦ by
          rw [hnames] at hname
          exact of_decide_eq_true (mem_filter.mp hname).2
        rw [hlength, hperm.length_eq, length_map]
        omega
      · obtain ⟨source, hsource⟩ := exists_mem_of_ne_nil _ hnonempty
        obtain ⟨item, hitem, -⟩ := hstaged.item_current canvas hsource
        have hitems := length_pos_of_mem hitem
        rw [hlength, hnames, Obs.sourceNames, length_map]
        omega
    rw [if_pos ⟨horder, hordered⟩, sourceNames_performAll_moves hdistinct hstaged
      (fun _ hsource ↦ hsource) hdistinct (fun source hsource ↦ hstaged.itemId_eq canvas hsource)
      hobs hlast]
    exact suffix_append _ _

end Converges

/-! ### Convergence -/

section Changes

variable {numerals : Numerals} {host : Host} {canvas : Canvas} {request : Request}
  {created obs : Obs} {wanted : SourceSpec → Members} {change : ObsRequest}

theorem Staged.fieldChange_of_mem (hstaged : Staged request created)
    (hchange : change ∈ requests (request.sources.flatMap (fieldActions numerals
      request.sceneName (created.current canvas request)))) :
    FieldChange request (wantedTransform numerals (created.current canvas request)) created
      change := by
  obtain ⟨action, haction, effect, heffect, rfl⟩ := mem_requests.mp hchange
  obtain ⟨source, hsource, haction⟩ := mem_flatMap.mp haction
  obtain ⟨-, found, hfound, hchange⟩ := hstaged.of_mem_fieldActions hsource haction
  cases heffect.symm.trans hfound
  exact hchange

theorem stageChange_of_mem_removes
    (hchange : change ∈ requests (removeActions request (created.current canvas request))) :
    StageChange request wanted created change := by
  rw [requests_removeActions] at hchange
  split_ifs at hchange
  · obtain ⟨id, hid, rfl⟩ := mem_map.mp hchange
    obtain ⟨old, hold, rfl⟩ := mem_map.mp hid
    obtain ⟨hold, hother⟩ := mem_filter.mp hold
    exact .remove hold (of_decide_eq_true hother)
  · simp at hchange

theorem Staged.stageChange_of_mem_orders (hstaged : Staged request created)
    (hchange : change ∈ requests (orderActions request (created.current canvas request))) :
    StageChange request wanted created change := by
  rw [hstaged.requests_orderActions] at hchange
  by_cases hmoves : request.order ∧ ¬ ordered request (created.current canvas request)
  · rw [if_pos hmoves] at hchange
    obtain ⟨source, -, rfl⟩ := mem_map.mp hchange
    exact .index
  · rw [if_neg hmoves] at hchange
    simp at hchange

/-- The requests of the second stage show no source that was not shown. -/
theorem listed_performAll (hdistinct : (request.sources.map SourceSpec.name).Nodup)
    {changes : List ObsRequest}
    (hchanges : ∀ change ∈ changes, StageChange request wanted created change)
    (hkept : Kept request created obs)
    (hlisted : ∀ name ∈ obs.sourceNames request.sceneName,
      name ∈ request.sources.map SourceSpec.name) :
    ∀ name ∈ (obs.performAll host changes).sourceNames request.sceneName,
      name ∈ request.sources.map SourceSpec.name := by
  refine (Obs.performAll_keeps (fun obs ↦ Kept request created obs ∧
    ∀ name ∈ obs.sourceNames request.sceneName, name ∈ request.sources.map SourceSpec.name)
    (fun change hchange obs hobs ↦ ?_) ⟨hkept, hlisted⟩).2
  have hstep := (hchanges change hchange).step host hdistinct hobs.1
  refine ⟨hstep.kept hobs.1, fun name hname ↦ ?_⟩
  obtain ⟨item, hitem, rfl⟩ := mem_map.mp hname
  obtain ⟨old, hold, -, hsame, -⟩ := hstep.items item hitem
  exact hobs.2 _ (hsame ▸ mem_map_of_mem hold)

variable (hdistinct : (request.sources.map SourceSpec.name).Nodup)
  (hstaged : Staged request created)
include hdistinct hstaged

/-- The sources at the end of the second stage: no others when they are removed, and the listed ones
in front in their order when they are ordered. -/
theorem sourceNames_second_stage {final : Obs}
    (hfinal : final = ((created.performAll host (requests (request.sources.flatMap
      (fieldActions numerals request.sceneName (created.current canvas request))))).performAll host
        (requests (removeActions request (created.current canvas request)))).performAll host
          (requests (orderActions request (created.current canvas request)))) :
    (request.removeOthers → ∀ name ∈ final.sourceNames request.sceneName,
      name ∈ request.sources.map SourceSpec.name) ∧
    (request.order →
      request.sources.map SourceSpec.name <:+ final.sourceNames request.sceneName) := by
  obtain ⟨written, hwritten⟩ : ∃ written, written = created.performAll host (requests
      (request.sources.flatMap (fieldActions numerals request.sceneName
        (created.current canvas request)))) := ⟨_, rfl⟩
  obtain ⟨removed, hremoved⟩ : ∃ removed, removed = written.performAll host (requests
      (removeActions request (created.current canvas request))) := ⟨_, rfl⟩
  rw [← hwritten, ← hremoved] at hfinal
  have hwrittenKept : Staged request written ∧ Kept request created written := by
    rw [hwritten]
    exact staged_performAll hdistinct (fun change hchange ↦
      .field (hstaged.fieldChange_of_mem hchange))
      ⟨hstaged, fun item hitem ↦ ⟨item, hitem, rfl, rfl⟩⟩
  have hwrittenNames : written.sourceNames request.sceneName =
      created.sourceNames request.sceneName := by
    rw [hwritten]
    exact sourceNames_performAll_fields fun change hchange ↦ hstaged.fieldChange_of_mem hchange
  have hremovedKept : Staged request removed ∧ Kept request created removed := by
    rw [hremoved]
    exact staged_performAll hdistinct (fun change hchange ↦
      @stageChange_of_mem_removes canvas request created (fun _ ↦ []) change hchange) hwrittenKept
  have hremovedNames : removed.sourceNames request.sceneName =
      if request.removeOthers then (created.sourceNames request.sceneName).filter
        fun name ↦ name ∈ request.sources.map SourceSpec.name
      else created.sourceNames request.sceneName := by
    rw [hremoved, requests_removeActions]
    split_ifs
    · rw [sourceNames_performAll_removals hwrittenKept.2, hwrittenNames]
    · exact hwrittenNames
  rw [hfinal]
  constructor
  · intro hothers
    refine listed_performAll hdistinct (fun change hchange ↦
      @Staged.stageChange_of_mem_orders canvas request created (fun _ ↦ []) change hstaged hchange)
      hremovedKept.2 ?_
    rw [hremovedNames, if_pos hothers]
    exact fun name hname ↦ of_decide_eq_true (mem_filter.mp hname).2
  · exact sourceNames_performAll_orders hdistinct hstaged hremovedKept hremovedNames

/-- Nothing is planned after the actions of a plan of a staged scene are performed. -/
theorem plan_second_stage (hvolume : ∀ source ∈ request.sources, source.volumeDb = none) :
    plan numerals request ((created.performAll host (requests
      (plan numerals request (created.current canvas request)).actions)).current canvas request) =
        ⟨[], []⟩ := by
  obtain ⟨changes, hchanges⟩ : ∃ changes, changes = requests
      (plan numerals request (created.current canvas request)).actions := ⟨_, rfl⟩
  obtain ⟨final, hfinal⟩ : ∃ final, final = created.performAll host changes := ⟨_, rfl⟩
  rw [← hchanges, ← hfinal]
  rw [plan_staged hdistinct hvolume hstaged, requests_append, requests_append] at hchanges
  have hfields : ∀ change ∈ requests (request.sources.flatMap (fieldActions numerals
      request.sceneName (created.current canvas request))), change ∈ changes := by
    intro change hchange
    rw [hchanges]
    exact mem_append_left _ (mem_append_left _ hchange)
  have hall : ∀ change ∈ changes, StageChange request
      (wantedTransform numerals (created.current canvas request)) created change := by
    rw [hchanges]
    intro change hchange
    rcases mem_append.mp hchange with hchange | hchange
    · rcases mem_append.mp hchange with hchange | hchange
      · exact .field (hstaged.fieldChange_of_mem hchange)
      · exact stageChange_of_mem_removes hchange
    · exact hstaged.stageChange_of_mem_orders hchange
  have hkept : Staged request created ∧ Kept request created created :=
    ⟨hstaged, fun item hitem ↦ ⟨item, hitem, rfl, rfl⟩⟩
  have hphases := hfinal
  rw [hchanges, Obs.performAll_append, Obs.performAll_append] at hphases
  obtain ⟨hremoved, hordered⟩ := sourceNames_second_stage hdistinct hstaged hphases
  refine plan_eq_empty hdistinct hvolume (hfinal ▸ (staged_performAll hdistinct hall hkept).1)
    (fun source hsource field ↦ ?_) (fun source hsource field ↦ ?_) hremoved hordered
  · rw [hfinal]
    refine inputHolds_performAll hdistinct hall hkept hsource ?_
    refine (hstaged.inputHolds_or numerals canvas hsource field).imp id ?_
    rintro ⟨change, hchange, hrequest⟩
    exact ⟨change, hfields change hchange, hrequest⟩
  · rw [hfinal]
    refine itemHolds_performAll hdistinct hall (fun source ↦ wantedTransform_writable ..) hstaged
      hkept hsource ?_
    refine (hstaged.itemHolds_or numerals canvas hsource field).imp id ?_
    rintro ⟨change, hchange, hrequest⟩
    exact ⟨change, hfields change hchange, hrequest⟩

end Changes

/-- Apply Scene converges: after the creations of a first plan and the changes of a second one,
which asks for no further creation, a third plan is empty. Assumes: no source sets a volume, every
listed source is shown at most once, and the first plan has no errors. -/
theorem apply_scene_converges (numerals : Numerals) (host : Host) (canvas : Canvas)
    (request : Request) (obs : Obs)
    (hvolume : ∀ source ∈ request.sources, source.volumeDb = none)
    (honce : ∀ source ∈ request.sources,
      (obs.sourceNames request.sceneName).count source.name ≤ 1)
    (herrors : (plan numerals request (obs.current canvas request)).errors = []) :
    let first := plan numerals request (obs.current canvas request)
    let created := obs.performAll host (requests first.creations)
    let second := plan numerals request (created.current canvas request)
    (∀ action ∈ second.actions, action.phase ≠ .create) ∧
    ∀ snapshot : Option String, ∃ changes,
      continuation second first.creations snapshot = .ok changes ∧
      plan numerals request ((created.performAll host (requests changes)).current canvas request) =
        ⟨[], []⟩ := by
  intro first created second
  have hdistinct := (plan_errors_eq_nil_iff.mp herrors).1
  have hstaged : Staged request created := staged_of_plan honce herrors
  refine ⟨fun action haction ↦ ?_, fun snapshot ↦ ⟨second.actions, ?_, ?_⟩⟩
  · rw [(change_of_mem_plan hdistinct hvolume hstaged action haction).1]
    simp
  · exact continuation_staged hdistinct hvolume hstaged first.creations snapshot
  · exact plan_second_stage hdistinct hstaged hvolume

/-! ### An instance -/

/-- The digits of integers. -/
def Numerals.plain : Numerals := ⟨fun number ↦ toString number.value.toUInt64⟩

/-- A scene with a backdrop, a camera and a clock. -/
def studio : Obs :=
  Obs.empty.performAll .plain [.createScene "Studio",
    .createInput "Studio" "Backdrop" "color" [] true,
    .createInput "Studio" "Camera" "camera" [] true,
    .createInput "Studio" "Clock" "text" [] true]

/-- A new microphone, the hidden camera and the fitted backdrop from back to front, and no
others. -/
def rearrange : Request where
  sceneName := "Studio"
  sources := [{ listedSource "Microphone" with
      kind := some "audio"
      settings := some [("device", .string "default")]
      muted := some false
      audioTracks := some [1, 2]
      settings_distinct := by simp [Members.keys]
      settings_wellFormed := by simp [Json.WellFormed] },
    { listedSource "Camera" with visible := some false, locked := some true, fit := true },
    { listedSource "Backdrop" with fit := true }]
  order := true
  removeOthers := true

def fullHd : Canvas := ⟨⟨1920.0, by decide +kernel⟩, ⟨1080.0, by decide +kernel⟩⟩

theorem apply_scene_converges_studio :
    let first := plan .plain rearrange (studio.current fullHd rearrange)
    let created := studio.performAll .plain (requests first.creations)
    let second := plan .plain rearrange (created.current fullHd rearrange)
    first.creations.length = 1 ∧
    ∃ changes, continuation second first.creations none = .ok changes ∧
      plan .plain rearrange
        ((created.performAll .plain (requests changes)).current fullHd rearrange) = ⟨[], []⟩ := by
  have hconverges := apply_scene_converges .plain .plain fullHd rearrange studio
    (by simp [rearrange, listedSource]) (by decide +kernel) (by decide +kernel)
  exact ⟨by decide +kernel, hconverges.2 none⟩

end ObsMcp.Scenes
