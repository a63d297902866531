import ObsMcp.Scenes.Fields

/-!
# The first stage of Apply Scene

A plan without errors lists distinct names, none of them a scene, each with a kind that fits
(`plan_errors_eq_nil_iff`). Its creations are followed through the `Obs.status` of a name, the kind
of its input and the number of its items: the creation of one source leaves the status of every
other name (`performAll_creationActions`). After all creations the scene is `Staged`: every listed
source has an input of its kind and exactly one item (`staged_of_plan`).
-/

namespace ObsMcp.Scenes

open Foundations List Option

/-! ### The view of the tool -/

section View

variable {obs : Obs} {canvas : Canvas} {request : Request}

theorem items_current : (obs.current canvas request).items = obs.listItems request.sceneName :=
  obs.readItems_getD request.sceneName

/-- The item the tool finds for a name is an item of the scene with that source. -/
theorem item_current (obs : Obs) (canvas : Canvas) (request : Request) (name : String) :
    ((obs.current canvas request).item name = none ∧
      ∀ item ∈ obs.items request.sceneName, item.source ≠ name) ∨
    ∃ item ∈ obs.items request.sceneName, ∃ index, item.source = name ∧
      (obs.current canvas request).item name =
        some (Obs.readItem request.sceneName item index) := by
  unfold Current.item
  rw [items_current]
  cases hfind : (obs.listItems request.sceneName).find? fun item ↦ item.sourceName = name with
  | none =>
    left
    refine ⟨rfl, fun item hitem hsource ↦ ?_⟩
    obtain ⟨index, hindex⟩ := mem_iff_getElem?.mp hitem
    rw [find?_eq_none] at hfind
    exact hfind (Obs.readItem request.sceneName item index)
      (Obs.mem_listItems.mpr ⟨item, index, hindex, rfl⟩) (decide_eq_true hsource)
  | some found =>
    right
    obtain ⟨item, index, hitem, rfl⟩ := Obs.mem_listItems.mp (mem_of_find?_eq_some hfind)
    have hfound := find?_some hfind
    exact ⟨item, mem_of_getElem? hitem, index, of_decide_eq_true hfound, rfl⟩

variable {name : String}

/-- The input the tool finds for a listed name is the input of that name. -/
theorem input_current (hname : name ∈ request.sources.map SourceSpec.name) :
    (obs.current canvas request).input name =
      (obs.inputs.get name).map (Obs.readInput name) := by
  show (obs.readInputs _).find? (fun input ↦ input.inputName = name) = _
  rw [Obs.find_readInputs]
  split_ifs with hmem
  · rfl
  · rw [mem_filter, not_and] at hmem
    rw [not_isSome_iff_eq_none.mp (hmem hname)]
    rfl

theorem not_mem_sceneNames :
    name ∉ (obs.current canvas request).sceneNames ↔ obs.scenes.get name = none := by
  rw [KeyMap.get_eq_none_iff]
  simp only [Obs.current, List.mem_map, not_exists, not_and]

end View

/-! ### Errors -/

section Errors

variable {numerals : Numerals} {request : Request} {current : Current}

theorem nameErrors_eq_nil_iff {seen : List String} {sources : List SourceSpec} :
    nameErrors request current seen sources = [] ↔
      (sources.map SourceSpec.name).Nodup ∧ ∀ source ∈ sources,
        source.name ∉ seen ∧ source.name ∉ current.sceneNames ∧
          source.name ≠ request.sceneName := by
  induction sources generalizing seen with
  | nil => simp [nameErrors]
  | cons source sources ih =>
    have hseen : ((if source.name ∈ seen then [source.name ++ " is listed more than once"]
        else []) = []) ↔ source.name ∉ seen := by
      split_ifs with hmem <;> simp [hmem]
    have hscene : ((if source.name ∈ current.sceneNames ∨ source.name = request.sceneName then
        [source.name ++ " is a scene, not an input; nest scenes with obs-create-scene-item"]
        else []) = []) ↔ source.name ∉ current.sceneNames ∧
          source.name ≠ request.sceneName := by
      split_ifs with hmem
      · simp only [false_iff, not_and_or, not_not]
        exact hmem
      · simpa only [true_iff, not_or] using hmem
    rw [nameErrors, append_eq_nil_iff, append_eq_nil_iff, hseen, hscene, ih,
      map_cons, nodup_cons, forall_mem_cons]
    constructor
    · rintro ⟨⟨hnew, hnames⟩, hdistinct, hrest⟩
      refine ⟨⟨fun hmem ↦ ?_, hdistinct⟩, ⟨hnew, hnames⟩, fun other hother ↦ ?_⟩
      · obtain ⟨other, hother, hsame⟩ := List.mem_map.mp hmem
        exact (hrest other hother).1 (by simp [hsame])
      · obtain ⟨hnot, hother⟩ := hrest other hother
        exact ⟨fun hmem ↦ hnot (mem_cons_of_mem _ hmem), hother⟩
    · rintro ⟨⟨hfresh, hdistinct⟩, ⟨hnew, hnames⟩, hrest⟩
      refine ⟨⟨hnew, hnames⟩, hdistinct, fun other hother ↦ ⟨fun hmem ↦ ?_, (hrest other hother).2⟩⟩
      rcases mem_cons.mp hmem with hsame | hmem
      · exact hfresh (hsame ▸ mem_map_of_mem hother)
      · exact (hrest other hother).1 hmem

/-- A plan has no errors when the names are distinct and no scenes, and every source is planned. -/
theorem plan_errors_eq_nil_iff :
    (plan numerals request current).errors = [] ↔
      (request.sources.map SourceSpec.name).Nodup ∧ ∀ source ∈ request.sources,
        (source.name ∉ current.sceneNames ∧ source.name ≠ request.sceneName) ∧
          ∃ actions, planSource numerals request.sceneName current source = .ok actions := by
  unfold plan
  rw [append_eq_nil_iff, nameErrors_eq_nil_iff, filterMap_eq_nil_iff, and_assoc]
  refine and_congr_right fun _ ↦ ?_
  rw [← forall₂_and]
  refine forall₂_congr fun source _ ↦ ?_
  cases planSource numerals request.sceneName current source <;> simp

end Errors

/-! ### The creations of a plan -/

section Creations

variable {numerals : Numerals} {scene : String} {request : Request} {current : Current}
  {source : SourceSpec}

/-- The creation a source needs. -/
def creationActions (scene : String) (current : Current) (source : SourceSpec) : List Action :=
  match current.inputKinds source.name with
  | some _ => itemActions scene current source
  | none => (source.wantedKind.map (createInputActions scene source)).getD []

theorem phase_settingsActions :
    ∀ action ∈ settingsActions current source, action.phase = .change := by
  intro action haction
  unfold settingsActions at haction
  grind

theorem phase_changeActions :
    ∀ action ∈ changeActions numerals scene current source, action.phase = .change := by
  intro action haction
  simp only [changeActions, mem_append] at haction
  rcases haction with ((((haction | haction) | haction) | haction) | haction) | haction
  · unfold muteActions at haction
    grind
  · unfold volumeActions at haction
    grind
  · unfold trackActions at haction
    grind
  · unfold enabledActions at haction
    grind
  · unfold lockedActions at haction
    grind
  · unfold transformActions at haction
    grind

theorem phase_removeActions : ∀ action ∈ removeActions request current, action.phase = .change := by
  intro action haction
  unfold removeActions at haction
  split_ifs at haction
  · obtain ⟨item, -, rfl⟩ := List.mem_map.mp haction
    rfl
  · simp at haction

theorem phase_orderActions : ∀ action ∈ orderActions request current, action.phase = .change := by
  intro action haction
  unfold orderActions at haction
  split at haction
  · split at haction
    · rw [mem_singleton.mp haction]
    · split at haction
      · simp at haction
      · obtain ⟨source, -, hsource⟩ := mem_filterMap.mp haction
        obtain ⟨item, -, rfl⟩ := map_eq_some_iff.mp hsource
        rfl
  · simp at haction

variable {actions : List Action}

theorem filter_create_of_change (hchange : ∀ action ∈ actions, action.phase = .change) :
    actions.filter (fun action ↦ action.phase = .create) = [] := by
  rw [filter_eq_nil_iff]
  intro action haction
  simp [hchange action haction]

/-- What a planned source is: an input of a kind that fits, or none and a kind to create it. -/
theorem planSource_ok (hok : planSource numerals scene current source = .ok actions) :
    (∃ kind, current.inputKinds source.name = some kind ∧
      (∀ wanted ∈ source.wantedKind, wanted = kind) ∧
      actions = itemActions scene current source ++ settingsActions current source ++
        changeActions numerals scene current source) ∨
    ∃ kind, current.inputKinds source.name = none ∧ source.wantedKind = some kind ∧
      actions = createInputActions scene source kind ++
        changeActions numerals scene current source := by
  unfold planSource at hok
  cases hkind : current.inputKinds source.name with
  | some kind =>
    left
    simp only [hkind] at hok
    split at hok
    · simp at hok
    · rename_i hfilter
      refine ⟨kind, rfl, fun wanted hwanted ↦ ?_, (Except.ok.inj hok).symm⟩
      have := filter_eq_none_iff.mp hfilter wanted hwanted
      simpa using this
  | none =>
    right
    simp only [hkind] at hok
    cases hwanted : source.wantedKind with
    | none => simp [hwanted] at hok
    | some kind =>
      simp only [hwanted] at hok
      exact ⟨kind, rfl, rfl, (Except.ok.inj hok).symm⟩

theorem filter_create_planSource (hok : planSource numerals scene current source = .ok actions) :
    actions.filter (fun action ↦ action.phase = .create) =
      creationActions scene current source := by
  unfold creationActions
  rcases planSource_ok hok with ⟨kind, hkind, -, rfl⟩ | ⟨kind, hkind, hwanted, rfl⟩
  · have hitem : (itemActions scene current source).filter
        (fun action ↦ action.phase = .create) = itemActions scene current source := by
      unfold itemActions
      split_ifs <;> rfl
    rw [filter_append, filter_append, hitem,
      filter_create_of_change phase_settingsActions, filter_create_of_change phase_changeActions,
      append_nil, append_nil, hkind]
  · rw [filter_append, filter_create_of_change phase_changeActions, append_nil, hkind,
      hwanted]
    rfl

theorem requests_append (first second : List Action) :
    requests (first ++ second) = requests first ++ requests second :=
  filterMap_append

/-- The creations of a plan without errors: the scene, then what each source needs. -/
theorem creations_plan (herrors : (plan numerals request current).errors = []) :
    (plan numerals request current).creations = sceneActions request current ++
      request.sources.flatMap (creationActions request.sceneName current) := by
  have hscene : (sceneActions request current).filter (fun action ↦ action.phase = .create) =
      sceneActions request current := by
    unfold sceneActions
    split_ifs <;> rfl
  unfold Plan.creations plan
  rw [filter_append, filter_append, filter_append, hscene,
    filter_create_of_change phase_removeActions, filter_create_of_change phase_orderActions,
    append_nil, append_nil, filter_flatMap]
  congr 1
  refine flatMap_congr fun source hsource ↦ ?_
  obtain ⟨-, hplanned⟩ := plan_errors_eq_nil_iff.mp herrors
  obtain ⟨-, actions, hok⟩ := hplanned source hsource
  rw [hok]
  exact filter_create_planSource hok

end Creations

/-! ### The first stage -/

/-- The sources of the items of a scene from back to front. -/
def Obs.sourceNames (obs : Obs) (scene : String) : List String :=
  (obs.items scene).map Item.source

/-- The kind of the input of a name, and the number of its items in a scene. -/
def Obs.status (obs : Obs) (scene name : String) : Option String × ℕ :=
  ((obs.inputs.get name).map Input.kind, (obs.sourceNames scene).count name)

/-- The scene exists, and every listed source is no scene and has an input of its kind and one item
in the scene. -/
structure Staged (request : Request) (obs : Obs) : Prop where
  scene : (obs.scenes.get request.sceneName).isSome
  unshadowed : ∀ source ∈ request.sources, obs.scenes.get source.name = none
  input : ∀ source ∈ request.sources, ∃ input, obs.inputs.get source.name = some input ∧
    ∀ wanted ∈ source.wantedKind, wanted = input.kind
  once : ∀ source ∈ request.sources,
    (obs.sourceNames request.sceneName).count source.name = 1

/-- The creation of sources, seen by status: the scenes and the status of every other name stay, and
each of the sources has an input of its kind and one item. -/
structure Placed (request : Request) (sources : List SourceSpec) (obs after : Obs) : Prop where
  scenes : ∀ other, (after.scenes.get other).isSome = (obs.scenes.get other).isSome
  others : ∀ other ∉ sources.map SourceSpec.name,
    after.status request.sceneName other = obs.status request.sceneName other
  own : ∀ source ∈ sources, ∃ kind,
    after.status request.sceneName source.name = (some kind, 1) ∧
      ∀ wanted ∈ source.wantedKind, wanted = kind

variable {after obs : Obs} {request : Request} {source : SourceSpec}

/-- Sources of distinct names are placed one after the other. -/
theorem Placed.cons {sources : List SourceSpec} {middle : Obs}
    (hfresh : source.name ∉ sources.map SourceSpec.name)
    (hfirst : Placed request [source] obs middle) (hrest : Placed request sources middle after) :
    Placed request (source :: sources) obs after where
  scenes other := (hrest.scenes other).trans (hfirst.scenes other)
  others other hother := by
    rw [map_cons, mem_cons, not_or] at hother
    exact (hrest.others other hother.2).trans (hfirst.others other (by simpa using hother.1))
  own := by
    rw [forall_mem_cons]
    refine ⟨?_, hrest.own⟩
    rw [hrest.others _ hfresh]
    exact hfirst.own source (by simp)

theorem Placed.single
    (hscenes : ∀ other, (after.scenes.get other).isSome = (obs.scenes.get other).isSome)
    (hothers : ∀ other ≠ source.name,
      after.status request.sceneName other = obs.status request.sceneName other)
    (hown : ∃ kind, after.status request.sceneName source.name = (some kind, 1) ∧
      ∀ wanted ∈ source.wantedKind, wanted = kind) : Placed request [source] obs after :=
  ⟨hscenes, fun other hother ↦ hothers other (by simpa using hother), by simpa using hown⟩

section FirstStage

variable {numerals : Numerals} {host : Host} {canvas : Canvas} {request : Request}
  {start obs : Obs} {source : SourceSpec}

variable {scene : String}

theorem Obs.sourced_items {item : Item} (hitem : item ∈ obs.items scene) :
    (obs.inputs.get item.source).isSome ∨ (obs.scenes.get item.source).isSome := by
  unfold Obs.items at hitem
  cases hscene : obs.scenes.get scene with
  | none => simp [hscene] at hitem
  | some found =>
    rw [hscene] at hitem
    exact obs.sourced scene found hscene item hitem

variable {name : String}

theorem status_addItem {enabled : Bool}
    (hsource : (obs.inputs.get name).isSome ∨ (obs.scenes.get name).isSome)
    (hscene : (obs.scenes.get scene).isSome) (other : String) :
    (obs.addItem host scene name enabled hsource).status scene other =
      ((obs.status scene other).1, (obs.status scene other).2 + if name = other then 1 else 0) := by
  unfold Obs.status Obs.sourceNames
  rw [Obs.items_addItem obs host hsource hscene, map_append, count_append,
    map_singleton, count_singleton]
  simp only [beq_iff_eq]
  rfl

theorem status_addInput {input : Input} (other : String) :
    (obs.addInput name input).status scene other =
      (if other = name then some input.kind else (obs.status scene other).1,
        (obs.status scene other).2) := by
  unfold Obs.status
  congr 1
  show ((obs.inputs.insert name input).get other).map Input.kind = _
  rw [KeyMap.get_insert]
  split_ifs <;> rfl

/-- The creation that was planned for a source places it, as long as its status stays. -/
theorem performAll_creationActions {actions : List Action}
    (hok : planSource numerals request.sceneName (start.current canvas request) source =
      .ok actions)
    (honce : (start.sourceNames request.sceneName).count source.name ≤ 1)
    (hscene : (obs.scenes.get request.sceneName).isSome)
    (hname : obs.scenes.get source.name = none)
    (hstatus : obs.status request.sceneName source.name =
      start.status request.sceneName source.name) :
    Placed request [source] obs (obs.performAll host (requests (creationActions request.sceneName
      (start.current canvas request) source))) := by
  obtain ⟨hkinds, hcount⟩ := Prod.ext_iff.mp hstatus
  have hcurrent : (start.current canvas request).inputKinds source.name =
      (obs.inputs.get source.name).map Input.kind := hkinds.symm
  unfold creationActions
  rcases planSource_ok hok with ⟨kind, hkind, hfits, -⟩ | ⟨kind, hkind, hwanted, -⟩
  · have hpresent : (obs.inputs.get source.name).isSome := by
      rw [hcurrent] at hkind
      rw [← isSome_map (f := Input.kind), hkind]
      rfl
    rw [hkind]
    simp only [itemActions]
    rcases item_current start canvas request source.name with
      ⟨hnone, habsent⟩ | ⟨item, hitem, index, howner, hsome⟩
    · have hzero : (obs.status request.sceneName source.name).2 = 0 := by
        rw [hcount]
        refine count_eq_zero_of_not_mem fun hmem ↦ ?_
        obtain ⟨item, hitem, howner⟩ := List.mem_map.mp hmem
        exact habsent item hitem howner
      rw [hnone]
      show Placed request [source] obs (obs.perform host
        (.createSceneItem request.sceneName source.name (source.visible.getD true)))
      rw [Obs.perform, dif_pos (.inl hpresent)]
      refine Placed.single (fun other ↦ Obs.isSome_addItem ..) (fun other hother ↦ ?_)
        ⟨kind, ?_, hfits⟩
      · rw [status_addItem _ hscene, if_neg (Ne.symm hother)]
        rfl
      · rw [status_addItem _ hscene, if_pos rfl, hzero, hkinds]
        exact congrArg (·, _) hkind
    · have hone : (obs.status request.sceneName source.name).2 = 1 := by
        rw [hcount]
        refine le_antisymm honce (count_pos_iff.mpr ?_)
        exact List.mem_map.mpr ⟨item, hitem, howner⟩
      rw [hsome]
      refine Placed.single (fun other ↦ rfl) (fun other _ ↦ rfl) ⟨kind, ?_, hfits⟩
      exact Prod.ext (hkinds.trans hkind) hone
  · have habsent : obs.inputs.get source.name = none := by
      rw [hcurrent] at hkind
      exact map_eq_none_iff.mp hkind
    have hzero : (obs.status request.sceneName source.name).2 = 0 := by
      refine count_eq_zero_of_not_mem fun hmem ↦ ?_
      obtain ⟨item, hitem, howner⟩ := List.mem_map.mp hmem
      rcases Obs.sourced_items hitem with hinput | hother
      · simp [howner, habsent] at hinput
      · simp [howner, hname] at hother
    rw [hkind, hwanted]
    show Placed request [source] obs (obs.perform host (.createInput request.sceneName source.name
      kind ((source.settings.map object).getD []) (source.visible.getD true)))
    rw [Obs.perform, if_neg (by simp [habsent, isSome_iff_ne_none.mp hscene])]
    have hscene' : ((obs.addInput source.name { host.newInput kind with
        kind := kind, settings := (host.newInput kind).settings.overlay
          ((source.settings.map object).getD []) }).scenes.get request.sceneName).isSome := hscene
    refine Placed.single (fun other ↦ Obs.isSome_addItem ..) (fun other hother ↦ ?_)
      ⟨kind, ?_, fun wanted hmem ↦ ?_⟩
    · exact (status_addItem _ hscene' other).trans
        (by rw [status_addInput, if_neg (Ne.symm hother), if_neg hother]; rfl)
    · exact (status_addItem _ hscene' source.name).trans
        (by rw [status_addInput, if_pos rfl, if_pos rfl, hzero])
    · exact Option.some.inj (hmem.symm.trans hwanted)

/-- The planned creations of a list of sources place every one of them. -/
theorem performAll_flatMap_creationActions {sources : List SourceSpec}
    (hdistinct : (sources.map SourceSpec.name).Nodup)
    (hok : ∀ source ∈ sources, ∃ actions,
      planSource numerals request.sceneName (start.current canvas request) source = .ok actions)
    (honce : ∀ source ∈ sources, (start.sourceNames request.sceneName).count source.name ≤ 1)
    (hscene : (obs.scenes.get request.sceneName).isSome)
    (hnames : ∀ source ∈ sources, obs.scenes.get source.name = none)
    (hstatus : ∀ source ∈ sources, obs.status request.sceneName source.name =
      start.status request.sceneName source.name) :
    Placed request sources obs (obs.performAll host (requests (sources.flatMap
      (creationActions request.sceneName (start.current canvas request))))) := by
  induction sources generalizing obs with
  | nil => exact ⟨fun _ ↦ rfl, fun _ _ ↦ rfl, by simp⟩
  | cons source sources ih =>
    rw [map_cons, nodup_cons] at hdistinct
    obtain ⟨hfresh, hdistinct⟩ := hdistinct
    obtain ⟨actions, haction⟩ := hok source (by simp)
    have hplaced : Placed request [source] obs (obs.performAll host (requests
        (creationActions request.sceneName (start.current canvas request) source))) :=
      performAll_creationActions haction (honce source (by simp)) hscene (hnames source (by simp))
        (hstatus source (by simp))
    rw [flatMap_cons, requests_append, Obs.performAll_append]
    refine hplaced.cons hfresh (ih hdistinct (fun other hmem ↦ hok other (by simp [hmem]))
      (fun other hmem ↦ honce other (by simp [hmem])) ((hplaced.scenes _).trans hscene)
      (fun other hmem ↦ ?_) fun other hmem ↦ ?_)
    · have hnone := hplaced.scenes other.name
      rw [hnames other (by simp [hmem])] at hnone
      simpa using hnone
    · have hother : other.name ≠ source.name := by
        intro hsame
        exact hfresh (hsame ▸ mem_map_of_mem hmem)
      exact (hplaced.others _ (by simpa using hother)).trans (hstatus other (by simp [hmem]))

theorem performAll_sceneActions
    (hafter : after = start.performAll host (requests (sceneActions request
      (start.current canvas request)))) :
    (after.scenes.get request.sceneName).isSome ∧
    (∀ other ≠ request.sceneName, after.scenes.get other = start.scenes.get other) ∧
    ∀ name, after.status request.sceneName name = start.status request.sceneName name := by
  unfold sceneActions at hafter
  by_cases hexists : (start.scenes.get request.sceneName).isSome = true
  · have hcurrent : (start.current canvas request).sceneExists = true := hexists
    rw [if_pos hcurrent] at hafter
    obtain rfl : after = start := hafter
    exact ⟨hexists, fun _ _ ↦ rfl, fun _ ↦ rfl⟩
  · have hcurrent : ¬ (start.current canvas request).sceneExists = true := hexists
    rw [if_neg hcurrent] at hafter
    obtain rfl : after = start.addScene request.sceneName := hafter.trans (if_neg hexists)
    have hget : ∀ other, (start.addScene request.sceneName).scenes.get other =
        if other = request.sceneName then some .empty else start.scenes.get other :=
      fun other ↦ KeyMap.get_insert ..
    refine ⟨by rw [hget, if_pos rfl]; rfl, fun other hother ↦ by rw [hget, if_neg hother], ?_⟩
    intro name
    unfold Obs.status Obs.sourceNames Obs.items
    rw [hget, if_pos rfl, not_isSome_iff_eq_none.mp hexists]
    rfl

/-- The creations of a plan without errors stage the scene. -/
theorem staged_of_plan
    (honce : ∀ source ∈ request.sources,
      (start.sourceNames request.sceneName).count source.name ≤ 1)
    (herrors : (plan numerals request (start.current canvas request)).errors = []) :
    Staged request (start.performAll host
      (requests (plan numerals request (start.current canvas request)).creations)) := by
  obtain ⟨hdistinct, hplanned⟩ := plan_errors_eq_nil_iff.mp herrors
  obtain ⟨staging, hstaging⟩ : ∃ staging, staging = start.performAll host
      (requests (sceneActions request (start.current canvas request))) := ⟨_, rfl⟩
  obtain ⟨hscene, hscenes, hstatus⟩ := performAll_sceneActions hstaging
  have hnames : ∀ source ∈ request.sources, staging.scenes.get source.name = none := by
    intro source hsource
    obtain ⟨⟨hnone, hother⟩, -⟩ := hplanned source hsource
    rw [hscenes _ hother]
    exact not_mem_sceneNames.mp hnone
  have hplaced : Placed request request.sources staging (staging.performAll host (requests
      (request.sources.flatMap (creationActions request.sceneName
        (start.current canvas request))))) :=
    performAll_flatMap_creationActions hdistinct
      (fun source hsource ↦ (hplanned source hsource).2) honce hscene hnames
      fun source _ ↦ hstatus source.name
  rw [creations_plan herrors, requests_append, Obs.performAll_append, ← hstaging]
  refine ⟨(hplaced.scenes _).trans hscene, fun source hsource ↦ ?_, fun source hsource ↦ ?_,
    fun source hsource ↦ ?_⟩
  · have hnone := hplaced.scenes source.name
    rw [hnames source hsource] at hnone
    simpa using hnone
  · obtain ⟨kind, hkind, hfits⟩ := hplaced.own source hsource
    obtain ⟨input, hinput, rfl⟩ := map_eq_some_iff.mp (congrArg Prod.fst hkind)
    exact ⟨input, hinput, hfits⟩
  · obtain ⟨kind, hkind, -⟩ := hplaced.own source hsource
    exact congrArg Prod.snd hkind

end FirstStage

end ObsMcp.Scenes
