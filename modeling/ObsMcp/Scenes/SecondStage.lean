import ObsMcp.Scenes.Creation

/-!
# The second stage of Apply Scene

On a staged scene a plan lists only changes (`plan_staged`). `StageStep` says once what a request of
the second stage can do: an input or an item of a listed source changes by the write of one of its
fields, and every listed source keeps its one item. So a staged scene stays staged, and the goals of
all fields are kept; a request of a field reaches its goal, and all goals hold at the end
(`inputHolds_performAll`, `itemHolds_performAll`).
-/

namespace ObsMcp.Scenes

open Foundations List

/-! ### The plan of a staged scene -/

/-- The actions of all fields of a source. -/
def fieldActions (numerals : Numerals) (scene : String) (current : Current) (source : SourceSpec) :
    List Action :=
  ([.settings, .muted, .tracks] : List InputField).flatMap (fun field ↦
    field.actions current source) ++
  ([.enabled, .locked, .transform] : List ItemField).flatMap fun field ↦
    field.actions numerals scene current source

section Staged

variable {numerals : Numerals} {canvas : Canvas} {request : Request} {obs : Obs}
  {source : SourceSpec}

theorem mem_fieldActions {scene : String} {current : Current} {action : Action} :
    action ∈ fieldActions numerals scene current source ↔
      (∃ field : InputField, action ∈ field.actions current source) ∨
        ∃ field : ItemField, action ∈ field.actions numerals scene current source := by
  have hinput : ∀ field : InputField,
      field ∈ ([.settings, .muted, .tracks] : List InputField) := by
    intro field
    cases field <;> simp
  have hitem : ∀ field : ItemField,
      field ∈ ([.enabled, .locked, .transform] : List ItemField) := by
    intro field
    cases field <;> simp
  unfold fieldActions
  rw [mem_append, mem_flatMap, mem_flatMap]
  simp only [hinput, hitem, true_and]

theorem Staged.input_current (hstaged : Staged request obs) (canvas : Canvas)
    (hsource : source ∈ request.sources) :
    ∃ input, obs.inputs.get source.name = some input ∧
      (obs.current canvas request).input source.name =
        some (Obs.readInput source.name input) := by
  obtain ⟨input, hinput, -⟩ := hstaged.input source hsource
  refine ⟨input, hinput, ?_⟩
  rw [Scenes.input_current (mem_map_of_mem hsource), hinput]
  rfl

theorem Staged.item_current (hstaged : Staged request obs) (canvas : Canvas)
    (hsource : source ∈ request.sources) :
    ∃ item ∈ obs.items request.sceneName, ∃ index, item.source = source.name ∧
      (obs.current canvas request).item source.name =
        some (Obs.readItem request.sceneName item index) := by
  rcases Scenes.item_current obs canvas request source.name with ⟨-, habsent⟩ | hpresent
  · have hmem : source.name ∈ obs.sourceNames request.sceneName := by
      rw [← count_pos_iff, hstaged.once source hsource]
      exact Nat.one_pos
    obtain ⟨item, hitem, howner⟩ := mem_map.mp hmem
    exact absurd howner (habsent item hitem)
  · exact hpresent

/-- A staged source is planned field by field. Assumes: the source sets no volume. -/
theorem planSource_staged (hstaged : Staged request obs) (hsource : source ∈ request.sources)
    (hvolume : source.volumeDb = none) :
    planSource numerals request.sceneName (obs.current canvas request) source =
      .ok (fieldActions numerals request.sceneName (obs.current canvas request) source) := by
  obtain ⟨input, hinput, hfits⟩ := hstaged.input source hsource
  obtain ⟨item, -, index, -, hitem⟩ := hstaged.item_current canvas hsource
  have hkind : (obs.current canvas request).inputKinds source.name = some input.kind := by
    show (obs.inputs.get source.name).map Input.kind = _
    rw [hinput]
    rfl
  have hfilter : (source.wantedKind.filter fun wanted ↦ wanted ≠ input.kind) = none := by
    rw [Option.filter_eq_none_iff]
    intro wanted hwanted
    simpa using hfits wanted hwanted
  have hitems : itemActions request.sceneName (obs.current canvas request) source = [] := by
    unfold itemActions
    rw [hitem]
    rfl
  have hvolumes : volumeActions numerals (obs.current canvas request) source = [] := by
    unfold volumeActions
    rw [hvolume]
  unfold planSource
  simp only [hkind, hfilter, hitems, changeActions, hvolumes, fieldActions, flatMap_cons,
    flatMap_nil, append_nil, nil_append, append_assoc]
  rfl

/-- The index moves a plan lists for a staged scene. -/
def moveActions (request : Request) (current : Current) (index : ℕ) : List Action :=
  request.sources.filterMap fun source ↦
    (current.item source.name).map fun item ↦
      ⟨source.name, "order (to the front, as listed)", .change,
        some (.index request.sceneName item.sceneItemId index)⟩

/-- A staged scene is ordered by index moves, when they are wanted and it is not in order yet. -/
theorem orderActions_staged (hstaged : Staged request obs) :
    orderActions request (obs.current canvas request) =
      if request.order ∧ ¬ ordered request (obs.current canvas request) then
        moveActions request (obs.current canvas request)
          ((if request.removeOthers then request.sources.length
            else (obs.items request.sceneName).length) - 1)
      else [] := by
  have hall : (request.sources.all fun source ↦
      ((obs.current canvas request).item source.name).isSome) = true := by
    rw [all_eq_true]
    intro source hsource
    obtain ⟨item, -, index, -, hitem⟩ := hstaged.item_current canvas hsource
    rw [hitem]
    rfl
  have hlength : (obs.current canvas request).items.length =
      (obs.items request.sceneName).length := by
    rw [items_current, Obs.listItems, length_map, length_zipIdx]
  unfold orderActions moveActions
  rw [hall, hlength]
  by_cases horder : request.order = true <;>
    by_cases hordered : ordered request (obs.current canvas request) = true <;>
      simp [horder, hordered]

/-- A plan of a staged scene has no errors and lists only changes. Assumes: the listed names are
distinct and no source sets a volume. -/
theorem plan_staged (hdistinct : (request.sources.map SourceSpec.name).Nodup)
    (hvolume : ∀ source ∈ request.sources, source.volumeDb = none) (hstaged : Staged request obs) :
    plan numerals request (obs.current canvas request) =
      ⟨request.sources.flatMap (fieldActions numerals request.sceneName
          (obs.current canvas request)) ++
        removeActions request (obs.current canvas request) ++
        orderActions request (obs.current canvas request), []⟩ := by
  have hplanned : ∀ source ∈ request.sources, planSource numerals request.sceneName
      (obs.current canvas request) source =
        .ok (fieldActions numerals request.sceneName (obs.current canvas request) source) :=
    fun source hsource ↦ planSource_staged hstaged hsource (hvolume source hsource)
  have herrors : (plan numerals request (obs.current canvas request)).errors = [] := by
    refine plan_errors_eq_nil_iff.mpr ⟨hdistinct, fun source hsource ↦ ⟨⟨?_, ?_⟩, _,
      hplanned source hsource⟩⟩
    · exact not_mem_sceneNames.mpr (hstaged.unshadowed source hsource)
    · intro hsame
      have hscene := hstaged.scene
      rw [← hsame, hstaged.unshadowed source hsource] at hscene
      exact absurd hscene (by simp)
  have hscene : sceneActions request (obs.current canvas request) = [] :=
    if_pos hstaged.scene
  have hsources : (request.sources.flatMap fun source ↦ (planSource numerals request.sceneName
      (obs.current canvas request) source).toOption.getD []) =
        request.sources.flatMap (fieldActions numerals request.sceneName
          (obs.current canvas request)) := by
    refine flatMap_congr fun source hsource ↦ ?_
    rw [hplanned source hsource]
    rfl
  have hactions : (plan numerals request (obs.current canvas request)).actions = _ :=
    congrArg₂ (fun first second ↦ first ++ second ++
      removeActions request (obs.current canvas request) ++
      orderActions request (obs.current canvas request)) hscene hsources
  exact Plan.ext hactions herrors

end Staged

/-! ### The requests of the second stage -/

/-- The write of a field of a listed source, planned when the state was `created`. -/
inductive FieldChange (request : Request) (wanted : SourceSpec → Members) (created : Obs) :
    ObsRequest → Prop
  | input {source : SourceSpec} {field : InputField} {change : ObsRequest}
      (hsource : source ∈ request.sources) (hrequest : field.request source = some change) :
      FieldChange request wanted created change
  | item {source : SourceSpec} {field : ItemField} {old : Item} {change : ObsRequest}
      (hsource : source ∈ request.sources) (hold : old ∈ created.items request.sceneName)
      (howner : old.source = source.name)
      (hrequest : field.request source (wanted source) request.sceneName old.id = some change) :
      FieldChange request wanted created change

/-- A request of the second stage: the write of a field, the removal of an item of a source that is
not listed, or an index move. -/
inductive StageChange (request : Request) (wanted : SourceSpec → Members) (created : Obs) :
    ObsRequest → Prop
  | field {change : ObsRequest} (hfield : FieldChange request wanted created change) :
      StageChange request wanted created change
  | remove {old : Item} (hold : old ∈ created.items request.sceneName)
      (hother : old.source ∉ request.sources.map SourceSpec.name) :
      StageChange request wanted created (.removeSceneItem request.sceneName old.id)
  | index {id : ℚ} {place : ℕ} :
      StageChange request wanted created (.setSceneItemIndex request.sceneName id place)

/-- Every item is one of the state `created`, with the same identifier and source. -/
def Kept (request : Request) (created obs : Obs) : Prop :=
  ∀ item ∈ obs.items request.sceneName, ∃ old ∈ created.items request.sceneName,
    old.id = item.id ∧ old.source = item.source

/-- What a request of the second stage can do. -/
structure StageStep (request : Request) (wanted : SourceSpec → Members) (obs after : Obs) :
    Prop where
  scenes : ∀ other, (after.scenes.get other).isSome = (obs.scenes.get other).isSome
  inputs : ∀ source ∈ request.sources,
    after.inputs.get source.name = obs.inputs.get source.name ∨
      ∃ (field : InputField) (f : Input → Input), field.write source = some f ∧
        after.inputs.get source.name = (obs.inputs.get source.name).map f
  items : ∀ item ∈ after.items request.sceneName, ∃ old ∈ obs.items request.sceneName,
    item.id = old.id ∧ item.source = old.source ∧
      ∀ source ∈ request.sources, old.source = source.name → item = old ∨
        ∃ (field : ItemField) (f : Item → Item), field.write source (wanted source) = some f ∧
          item = f old
  once : ∀ source ∈ request.sources, (after.sourceNames request.sceneName).count source.name =
    (obs.sourceNames request.sceneName).count source.name

section Steps

variable {request : Request} {wanted : SourceSpec → Members} {created obs after : Obs}
  {change : ObsRequest}

theorem ItemField.write_frame {source : SourceSpec} {fields : Members} {field : ItemField}
    {f : Item → Item} (hwrite : field.write source fields = some f) (item : Item) :
    { f item with id := item.id, source := item.source } = f item := by
  cases field with
  | enabled =>
    obtain ⟨visible, -, rfl⟩ := Option.map_eq_some_iff.mp hwrite
    rfl
  | locked =>
    obtain ⟨locked, -, rfl⟩ := Option.map_eq_some_iff.mp hwrite
    rfl
  | transform =>
    cases hwrite
    rfl

/-- Sources with the same name are the same. -/
theorem source_eq (hdistinct : (request.sources.map SourceSpec.name).Nodup)
    {first second : SourceSpec} (hfirst : first ∈ request.sources)
    (hsecond : second ∈ request.sources) (hname : first.name = second.name) : first = second :=
  inj_on_of_nodup_map hdistinct hfirst hsecond hname

/-- Items of the created state with the same identifier are the same. -/
theorem item_eq {first second : Item} (hfirst : first ∈ created.items request.sceneName)
    (hsecond : second ∈ created.items request.sceneName) (hid : first.id = second.id) :
    first = second :=
  inj_on_of_nodup_map (created.items_distinct request.sceneName) hfirst hsecond hid

theorem sourceNames_editItem (scene : String) (id : ℚ) (f : Item → Item) :
    (obs.editItem scene id f).sourceNames scene = obs.sourceNames scene := by
  unfold Obs.sourceNames
  rw [Obs.items_editItem, map_map]
  refine map_congr_left fun item _ ↦ ?_
  by_cases hid : item.id = id <;> simp [hid]

theorem FieldChange.sourceNames (obs : Obs) (host : Host)
    (hchange : FieldChange request wanted created change) :
    (obs.perform host change).sourceNames request.sceneName =
      obs.sourceNames request.sceneName := by
  cases hchange with
  | input hsource hrequest =>
    obtain ⟨f, -, hperform⟩ := InputField.perform_request hrequest
    rw [hperform]
    rfl
  | item hsource hold howner hrequest =>
    obtain ⟨f, -, hperform⟩ := ItemField.perform_request hrequest
    rw [hperform]
    exact sourceNames_editItem ..

section

variable (host : Host) (hdistinct : (request.sources.map SourceSpec.name).Nodup)
  (hkept : Kept request created obs)
include host hdistinct hkept

/-- The write of a field is a step of the second stage. -/
theorem FieldChange.step (hchange : FieldChange request wanted created change) :
    StageStep request wanted obs (obs.perform host change) := by
  have hnames := hchange.sourceNames obs host
  cases hchange with
  | @input source field _ hsource hrequest =>
    obtain ⟨f, hwrite, hperform⟩ := InputField.perform_request hrequest
    rw [hperform] at hnames ⊢
    refine ⟨fun _ ↦ rfl, fun other hother ↦ ?_, fun item hitem ↦ ?_, fun _ _ ↦ rfl⟩
    · rw [Obs.inputs_editInput]
      split_ifs with hname
      · obtain rfl := source_eq hdistinct hother hsource hname
        exact .inr ⟨field, f, hwrite, rfl⟩
      · exact .inl rfl
    · exact ⟨item, hitem, rfl, rfl, fun _ _ _ ↦ .inl rfl⟩
  | @item source field old _ hsource hold howner hrequest =>
    obtain ⟨f, hwrite, hperform⟩ := ItemField.perform_request hrequest
    rw [hperform] at hnames ⊢
    refine ⟨fun _ ↦ obs.isSome_editItem f, fun _ _ ↦ .inl rfl, fun item hitem ↦ ?_,
      fun other _ ↦ by rw [hnames]⟩
    rw [Obs.items_editItem] at hitem
    obtain ⟨before, hbefore, rfl⟩ := mem_map.mp hitem
    refine ⟨before, hbefore, ?_⟩
    split_ifs with hid
    · refine ⟨rfl, rfl, fun other hother hshown ↦ .inr ⟨field, f, ?_, ?_⟩⟩
      · obtain ⟨kept, hmem, hsame, hsources⟩ := hkept before hbefore
        obtain rfl := item_eq hmem hold (hsame.trans hid)
        obtain rfl := source_eq hdistinct hother hsource
          (hshown.symm.trans (hsources.symm.trans howner))
        exact hwrite
      · exact ItemField.write_frame hwrite before
    · exact ⟨rfl, rfl, fun _ _ _ ↦ .inl rfl⟩

/-- A request of the second stage is a step of the second stage. -/
theorem StageChange.step (hchange : StageChange request wanted created change) :
    StageStep request wanted obs (obs.perform host change) := by
  cases hchange with
  | field hfield => exact hfield.step host hdistinct hkept
  | @remove old hold hother =>
    have hitems : (obs.removeItem request.sceneName old.id).items request.sceneName = _ :=
      obs.items_removeItem
    refine ⟨fun _ ↦ obs.isSome_removeItem, fun _ _ ↦ .inl rfl, fun item hitem ↦ ?_,
      fun source hsource ↦ ?_⟩
    · exact ⟨item, mem_of_mem_filter (hitems ▸ hitem), rfl, rfl, fun _ _ _ ↦ .inl rfl⟩
    · show List.count source.name ((Obs.items (obs.removeItem request.sceneName old.id)
        request.sceneName).map Item.source) = List.count source.name (List.map Item.source _)
      rw [hitems, count_eq_countP, count_eq_countP, countP_map, countP_map, countP_filter]
      refine countP_congr fun item hitem ↦ ?_
      simp only [Function.comp_apply, Bool.and_eq_true, beq_iff_eq, decide_eq_true_eq,
        and_iff_left_iff_imp]
      rintro howner hid
      obtain ⟨kept, hmem, hsame, hsources⟩ := hkept item hitem
      obtain rfl := item_eq hmem hold (hsame.trans hid)
      exact hother (hsources.trans howner ▸ mem_map_of_mem hsource)
  | @index id place =>
    have hperm : ((obs.moveItem request.sceneName id place).items request.sceneName).Perm
        (obs.items request.sceneName) := by
      rw [Obs.items_moveItem]
      exact Scene.moveItem_perm (obs.items_distinct _) id place
    refine ⟨fun _ ↦ obs.isSome_moveItem place, fun _ _ ↦ .inl rfl, fun item hitem ↦ ?_,
      fun source _ ↦ ?_⟩
    · exact ⟨item, hperm.mem_iff.mp hitem, rfl, rfl, fun _ _ _ ↦ .inl rfl⟩
    · exact (hperm.map Item.source).count_eq source.name

end

theorem StageStep.staged (hstep : StageStep request wanted obs after)
    (hstaged : Staged request obs) : Staged request after where
  scene := (hstep.scenes _).trans hstaged.scene
  unshadowed := by
    intro source hsource
    have hscene := hstep.scenes source.name
    rw [hstaged.unshadowed source hsource] at hscene
    simpa using hscene
  input := by
    intro source hsource
    obtain ⟨input, hinput, hfits⟩ := hstaged.input source hsource
    rcases hstep.inputs source hsource with hsame | ⟨field, f, hwrite, hchanged⟩
    · exact ⟨input, hsame.trans hinput, hfits⟩
    · refine ⟨f input, by rw [hchanged, hinput]; rfl, fun wanted hwanted ↦ ?_⟩
      rw [InputField.write_kind hwrite]
      exact hfits wanted hwanted
  once source hsource := (hstep.once source hsource).trans (hstaged.once source hsource)

theorem StageStep.kept (hstep : StageStep request wanted obs after)
    (hkept : Kept request created obs) : Kept request created after := by
  intro item hitem
  obtain ⟨before, hbefore, hid, hsource, -⟩ := hstep.items item hitem
  obtain ⟨old, hold, hsameId, hsameSource⟩ := hkept before hbefore
  exact ⟨old, hold, hsameId.trans hid.symm, hsameSource.trans hsource.symm⟩

end Steps

/-! ### The goals of the second stage -/

/-- The goal of a field of an input. -/
def InputHolds (source : SourceSpec) (field : InputField) (obs : Obs) : Prop :=
  ∀ input, obs.inputs.get source.name = some input → field.Holds source input

/-- The goal of a field of an item. -/
def ItemHolds (request : Request) (wanted : SourceSpec → Members) (source : SourceSpec)
    (field : ItemField) (obs : Obs) : Prop :=
  ∀ item ∈ obs.items request.sceneName, item.source = source.name →
    field.Holds source (wanted source) item

section Goals

variable {request : Request} {wanted : SourceSpec → Members} {created obs after : Obs}
  {host : Host} {source : SourceSpec}

theorem StageStep.inputHolds (hstep : StageStep request wanted obs after)
    (hsource : source ∈ request.sources) {field : InputField}
    (hholds : InputHolds source field obs) : InputHolds source field after := by
  intro input hinput
  rcases hstep.inputs source hsource with hsame | ⟨other, f, hwrite, hchanged⟩
  · exact hholds input (hsame.symm.trans hinput)
  · rw [hchanged] at hinput
    obtain ⟨before, hbefore, rfl⟩ := Option.map_eq_some_iff.mp hinput
    exact InputField.write_keeps hwrite (hholds before hbefore)

theorem StageStep.itemHolds (hwanted : ∀ source, Writable (wanted source))
    (hstep : StageStep request wanted obs after) (hsource : source ∈ request.sources)
    {field : ItemField} (hholds : ItemHolds request wanted source field obs) :
    ItemHolds request wanted source field after := by
  intro item hitem howner
  obtain ⟨before, hbefore, -, hsame, hchange⟩ := hstep.items item hitem
  have hheld := hholds before hbefore (hsame.symm.trans howner)
  rcases hchange source hsource (hsame.symm.trans howner) with rfl | ⟨other, f, hwrite, rfl⟩
  · exact hheld
  · exact ItemField.write_keeps (hwanted source) hwrite hheld

/-- A listed source has no second item in a staged scene. -/
theorem Staged.item_unique (hstaged : Staged request obs) (hsource : source ∈ request.sources)
    {first second : Item} (hfirst : first ∈ obs.items request.sceneName)
    (hsecond : second ∈ obs.items request.sceneName) (hfirstOwner : first.source = source.name)
    (hsecondOwner : second.source = source.name) : first = second := by
  have honce := hstaged.once source hsource
  unfold Obs.sourceNames at honce
  rw [count_eq_countP, countP_map, countP_eq_length_filter] at honce
  obtain ⟨only, honly⟩ := length_eq_one_iff.mp honce
  have hmem : ∀ item ∈ obs.items request.sceneName, item.source = source.name → item = only := by
    intro item hitem howner
    have : item ∈ (obs.items request.sceneName).filter ((· == source.name) ∘ Item.source) :=
      mem_filter.mpr ⟨hitem, by simp [howner]⟩
    rw [honly, mem_singleton] at this
    exact this
  rw [hmem first hfirst hfirstOwner, hmem second hsecond hsecondOwner]

section Run

variable {changes : List ObsRequest}
  (hdistinct : (request.sources.map SourceSpec.name).Nodup)
  (hchanges : ∀ change ∈ changes, StageChange request wanted created change)
include hdistinct hchanges

/-- The requests of the second stage keep a staged scene. -/
theorem staged_performAll (hobs : Staged request obs ∧ Kept request created obs) :
    Staged request (obs.performAll host changes) ∧
      Kept request created (obs.performAll host changes) := by
  refine Obs.performAll_keeps (fun obs ↦ Staged request obs ∧ Kept request created obs)
    (fun change hchange obs hobs ↦ ?_) hobs
  have hstep := (hchanges change hchange).step host hdistinct hobs.2
  exact ⟨hstep.staged hobs.1, hstep.kept hobs.2⟩

/-- The goal of a field of an input holds at the end when it holds at the start or is requested. -/
theorem inputHolds_performAll (hobs : Staged request obs ∧ Kept request created obs)
    (hsource : source ∈ request.sources) {field : InputField}
    (hgoal : InputHolds source field obs ∨ ∃ change ∈ changes,
      field.request source = some change) :
    InputHolds source field (obs.performAll host changes) := by
  refine Obs.performAll_reaches (fun obs ↦ Staged request obs ∧ Kept request created obs)
    (InputHolds source field) (fun change hchange obs hobs ↦ ?_)
    (fun change hchange obs hobs hholds ↦ ?_) hobs ?_
  · have hstep := (hchanges change hchange).step host hdistinct hobs.2
    exact ⟨hstep.staged hobs.1, hstep.kept hobs.2⟩
  · exact ((hchanges change hchange).step host hdistinct hobs.2).inputHolds hsource hholds
  · refine hgoal.imp id ?_
    rintro ⟨change, hchange, hrequest⟩
    refine ⟨change, hchange, fun obs _ input hinput ↦ ?_⟩
    obtain ⟨f, hwrite, hperform⟩ := InputField.perform_request hrequest
    rw [hperform, Obs.inputs_editInput, if_pos rfl] at hinput
    obtain ⟨before, -, rfl⟩ := Option.map_eq_some_iff.mp hinput
    exact InputField.write_holds hwrite

/-- The goal of a field of an item holds at the end when it holds at the start or is requested. -/
theorem itemHolds_performAll (hwanted : ∀ source, Writable (wanted source))
    (hcreated : Staged request created) (hobs : Staged request obs ∧ Kept request created obs)
    (hsource : source ∈ request.sources) {field : ItemField}
    (hgoal : ItemHolds request wanted source field obs ∨ ∃ change ∈ changes,
      ∃ old ∈ created.items request.sceneName, old.source = source.name ∧
        field.request source (wanted source) request.sceneName old.id = some change) :
    ItemHolds request wanted source field (obs.performAll host changes) := by
  refine Obs.performAll_reaches (fun obs ↦ Staged request obs ∧ Kept request created obs)
    (ItemHolds request wanted source field) (fun change hchange obs hobs ↦ ?_)
    (fun change hchange obs hobs hholds ↦ ?_) hobs ?_
  · have hstep := (hchanges change hchange).step host hdistinct hobs.2
    exact ⟨hstep.staged hobs.1, hstep.kept hobs.2⟩
  · exact ((hchanges change hchange).step host hdistinct hobs.2).itemHolds hwanted hsource hholds
  · refine hgoal.imp id ?_
    rintro ⟨change, hchange, old, hold, howner, hrequest⟩
    refine ⟨change, hchange, fun obs hobs item hitem hshown ↦ ?_⟩
    obtain ⟨f, hwrite, hperform⟩ := ItemField.perform_request hrequest
    rw [hperform, Obs.items_editItem] at hitem
    obtain ⟨before, hbefore, rfl⟩ := mem_map.mp hitem
    split_ifs at hshown ⊢ with hid
    · rw [ItemField.write_frame hwrite]
      exact ItemField.write_holds (hwanted source) hwrite
    · obtain ⟨kept, hmem, hsame, hkept⟩ := hobs.2 before hbefore
      obtain rfl := hcreated.item_unique hsource hmem hold (hkept.trans hshown) howner
      exact absurd hsame.symm hid

end Run

end Goals

end ObsMcp.Scenes
