import ObsMcp.Foundations.Gather
import ObsMcp.Scenes.ApplyScene

/-!
# The order that Apply Scene leaves

When a request asks for order, the listed sources are to be stacked in front of all other items. The
plan removes the other items, when that is asked for too, and moves the first item of every source
to one index: the last one of the scene, or with removal the one before the number of the sources.

With removal, that index is the last one only if every source has one item. `apply_scene_orders_iff`
says exactly when the listed sources come to the front; a source with two items is enough to keep
them from it (`apply_scene_disorders`).
-/

namespace ObsMcp.Scenes

open Foundations List

/-! ### Removals and moves -/

/-- An effect takes an item away or moves it. -/
def Effect.arranges : Effect → Bool
  | .removeItem .. => true
  | .index .. => true
  | _ => false

/-- The removals and index moves of a list of actions. -/
def arrangement (actions : List Action) : List Effect :=
  (actions.filterMap Action.effect).filter fun effect ↦ effect.arranges

/-- The items of a scene from back to front after an effect. -/
def Effect.arrange (scene : String) (items : List ItemState) : Effect → List ItemState
  | .removeItem sceneName id =>
    if sceneName = scene then items.filter fun item ↦ item.sceneItemId ≠ id else items
  | .index sceneName id place =>
    if sceneName = scene then
      match items.find? fun item ↦ item.sceneItemId = id with
      | none => items
      | some item =>
        let rest := items.filter fun item ↦ item.sceneItemId ≠ id
        rest.take place ++ item :: rest.drop place
    else items
  | _ => items

/-- The items of a scene after effects. -/
def arranged (scene : String) (items : List ItemState) (effects : List Effect) : List ItemState :=
  effects.foldl (Effect.arrange scene) items

/-- Every index move names a position that exists when it is performed. -/
def InRange (scene : String) : List ItemState → List Effect → Prop
  | _, [] => True
  | items, effect :: effects =>
    (∀ sceneName id index, effect = .index sceneName id index → index < items.length) ∧
      InRange scene (effect.arrange scene items) effects

/-- Items with the indices of their positions. -/
def reindexed (items : List ItemState) : List ItemState :=
  items.zipIdx.map fun pair ↦ { pair.1 with index := pair.2 }

def Current.rearranged (current : Current) (items : List ItemState) : Current :=
  { current with items := reindexed items }

section Quiet

variable {numerals : Numerals} {scene : String} {current : Current} {source : SourceSpec}

theorem arrangement_append (first second : List Action) :
    arrangement (first ++ second) = arrangement first ++ arrangement second := by
  rw [arrangement, filterMap_append, filter_append]
  rfl

theorem arrangement_changeActions :
    arrangement (changeActions numerals scene current source) = [] := by
  unfold changeActions muteActions volumeActions trackActions enabledActions lockedActions
    transformActions
  simp only [arrangement_append, append_eq_nil_iff]
  refine ⟨⟨⟨⟨⟨?_, ?_⟩, ?_⟩, ?_⟩, ?_⟩, ?_⟩
  · split <;> [rfl; (split_ifs <;> rfl)]
  · split <;> [rfl; (split_ifs <;> rfl)]
  · split <;> [rfl; (split_ifs <;> rfl)]
  · split <;> [(split_ifs <;> rfl); rfl]
  · split
    · rfl
    · split_ifs <;> [(cases current.item source.name <;> rfl);
        (cases current.item source.name <;> rfl); rfl]
  · split_ifs <;> [rfl; (cases current.item source.name <;> rfl);
      (cases current.item source.name <;> rfl)]

theorem arrangement_planSource :
    arrangement ((planSource numerals scene current source).toOption.getD []) = [] := by
  unfold planSource
  split
  · split
    · rfl
    · show arrangement (itemActions scene current source ++ settingsActions current source ++
        changeActions numerals scene current source) = []
      rw [arrangement_append, arrangement_append, arrangement_changeActions, append_nil]
      unfold itemActions settingsActions
      rw [append_eq_nil_iff]
      constructor
      · split_ifs <;> rfl
      · split <;> [(dsimp only; split_ifs <;> rfl); rfl]
  · split
    · rfl
    · show arrangement (createInputActions scene source _ ++
        changeActions numerals scene current source) = []
      rw [arrangement_append, arrangement_changeActions, append_nil]
      rfl

end Quiet

/-! ### The effects of a plan -/

section Effects

variable {numerals : Numerals} {request : Request} {current : Current}

theorem arrangement_flatMap {α : Type} {actions : α → List Action} {values : List α}
    (hquiet : ∀ value ∈ values, arrangement (actions value) = []) :
    arrangement (values.flatMap actions) = [] := by
  induction values with
  | nil => rfl
  | cons value values ih =>
    rw [flatMap_cons, arrangement_append, hquiet value mem_cons_self,
      ih fun other hother ↦ hquiet other (mem_cons_of_mem value hother), append_nil]

/-- Only the removals and the order take items away or move them. -/
theorem arrangement_plan : arrangement (plan numerals request current).actions =
    arrangement (removeActions request current) ++ arrangement (orderActions request current) := by
  have hscene : arrangement (sceneActions request current) = [] := by
    unfold sceneActions
    split_ifs <;> rfl
  show arrangement (sceneActions request current ++ _ ++ removeActions request current ++
    orderActions request current) = _
  rw [arrangement_append, arrangement_append, arrangement_append, hscene,
    arrangement_flatMap fun _ _ ↦ arrangement_planSource, append_nil, nil_append]

theorem arrangement_removeActions : arrangement (removeActions request current) =
    if request.removeOthers then ((otherItems request current).map ItemState.sceneItemId).map
      (.removeItem request.sceneName) else [] := by
  unfold removeActions
  split_ifs
  · rw [arrangement, filterMap_map, map_map]
    induction otherItems request current with
    | nil => rfl
    | cons item items ih => exact congrArg (_ :: ·) ih
  · rfl

/-- The first item of every listed source. -/
def movedIds (request : Request) (current : Current) : List ℚ :=
  request.sources.filterMap fun source ↦ (current.item source.name).map ItemState.sceneItemId

/-- The index the items are moved to. -/
def movedPlace (request : Request) (current : Current) : ℕ :=
  (if request.removeOthers then request.sources.length else current.items.length) - 1

/-- The moves of a plan, when every listed source has an item. -/
theorem arrangement_orderActions (horder : request.order = true)
    (hall : ∀ source ∈ request.sources, (current.item source.name).isSome) :
    arrangement (orderActions request current) = if ordered request current then [] else
      (movedIds request current).map fun id ↦
        .index request.sceneName id (movedPlace request current) := by
  have hitems : ¬ ¬ (request.sources.all fun source ↦
      (current.item source.name).isSome) = true := by
    rw [not_not, all_eq_true]
    exact hall
  unfold orderActions
  rw [if_pos horder, if_neg hitems]
  by_cases hordered : ordered request current = true
  · rw [if_pos hordered, if_pos hordered]
    rfl
  · rw [if_neg hordered, if_neg hordered]
    show arrangement (request.sources.filterMap fun source ↦
      (current.item source.name).map fun item ↦
        ⟨source.name, "order (to the front, as listed)", .change,
          some (.index request.sceneName item.sceneItemId (movedPlace request current))⟩) = _
    unfold movedIds
    induction request.sources with
    | nil => rfl
    | cons source sources ih =>
      rw [filterMap_cons, filterMap_cons]
      cases current.item source.name with
      | none => exact ih
      | some item => exact congrArg (_ :: ·) ih

/-- A list that agrees with another one at every index of the other, and is not longer, is the
other. -/
theorem eq_of_getElem? {names top : List String} (hlength : top.length ≤ names.length) :
    (∀ (name : String) (index : ℕ), names[index]? = some name → top[index]? = some name) ↔
      names = top := by
  constructor
  · intro hagree
    refine ext_getElem? fun index ↦ ?_
    cases hname : names[index]? with
    | none =>
      rw [getElem?_eq_none_iff] at hname
      exact (getElem?_eq_none_iff.mpr (hlength.trans hname)).symm
    | some name => exact (hagree name index hname).symm
  · rintro rfl name index hname
    exact hname

/-- The front items are the listed sources in their order exactly when the listed names end the
names of the items from back to front. -/
theorem ordered_iff_suffix : ordered request current = true ↔
    request.sources.map SourceSpec.name <:+ (stack current.items).map ItemState.sourceName := by
  have hshort : (((stack current.items).map ItemState.sourceName).drop
      (((stack current.items).map ItemState.sourceName).length -
        (request.sources.map SourceSpec.name).length)).length ≤
        (request.sources.map SourceSpec.name).length := by
    rw [length_drop]
    omega
  have htop : ∀ (name : String) (index : ℕ),
      (((stack current.items).drop ((stack current.items).length -
        request.sources.length))[index]?.any fun item ↦ item.sourceName = name) = true ↔
      (((stack current.items).map ItemState.sourceName).drop
        (((stack current.items).map ItemState.sourceName).length -
          (request.sources.map SourceSpec.name).length))[index]? = some name := by
    intro name index
    rw [← map_drop, getElem?_map, length_map, length_map]
    cases ((stack current.items).drop ((stack current.items).length -
      request.sources.length))[index]? <;> simp
  unfold ordered
  simp only [all_eq_true, Prod.forall, htop]
  rw [suffix_iff_eq_drop, ← eq_of_getElem? hshort]
  constructor
  · intro hall name index hname
    rw [getElem?_map, Option.map_eq_some_iff] at hname
    obtain ⟨source, hsource, rfl⟩ := hname
    exact hall source index (mk_mem_zipIdx_iff_getElem?.mpr hsource)
  · intro hall source index hsource
    refine hall source.name index ?_
    rw [getElem?_map, mk_mem_zipIdx_iff_getElem?.mp hsource]
    rfl

end Effects

/-! ### Effects on the items -/

section Arranged

variable {scene : String} {items : List ItemState}

theorem arrange_removeItem (id : ℚ) : Effect.arrange scene items (.removeItem scene id) =
    items.filter fun item ↦ item.sceneItemId ≠ id :=
  if_pos rfl

theorem arrange_index (id : ℚ) (place : ℕ) : Effect.arrange scene items (.index scene id place) =
    match items.find? fun item ↦ item.sceneItemId = id with
    | none => items
    | some item => (items.filter fun item ↦ item.sceneItemId ≠ id).take place ++
        item :: (items.filter fun item ↦ item.sceneItemId ≠ id).drop place :=
  if_pos rfl

variable {item : ItemState}

theorem mem_of_mem_arrange {effect : Effect} (hitem : item ∈ effect.arrange scene items) :
    item ∈ items := by
  cases effect with
  | removeItem sceneName id =>
    simp only [Effect.arrange] at hitem
    split_ifs at hitem
    · exact mem_of_mem_filter hitem
    · exact hitem
  | index sceneName id place =>
    simp only [Effect.arrange] at hitem
    split_ifs at hitem
    · cases hfind : items.find? fun item ↦ item.sceneItemId = id with
      | none =>
        rw [hfind] at hitem
        exact hitem
      | some found =>
        rw [hfind] at hitem
        rcases mem_append.mp hitem with hbefore | hrest
        · exact mem_of_mem_filter (mem_of_mem_take hbefore)
        · rcases mem_cons.mp hrest with rfl | hafter
          · exact mem_of_find?_eq_some hfind
          · exact mem_of_mem_filter (mem_of_mem_drop hafter)
    · exact hitem
  | _ => exact hitem

theorem mem_of_mem_arranged {effects : List Effect} (hitem : item ∈ arranged scene items effects) :
    item ∈ items := by
  induction effects generalizing items with
  | nil => exact hitem
  | cons effect effects ih => exact mem_of_mem_arrange (ih hitem)

theorem arranged_removals (ids : List ℚ) : arranged scene items (ids.map (.removeItem scene)) =
    items.filter fun item ↦ item.sceneItemId ∉ ids := by
  induction ids generalizing items with
  | nil => simp [arranged]
  | cons id ids ih =>
    show arranged scene (Effect.arrange scene items (.removeItem scene id)) _ = _
    rw [ih, arrange_removeItem, filter_filter]
    refine filter_congr fun item _ ↦ ?_
    rw [← Bool.decide_and]
    exact decide_eq_decide.mpr (by rw [mem_cons, not_or, and_comm])

theorem map_arrange_index (id : ℚ) (place : ℕ) :
    (Effect.arrange scene items (.index scene id place)).map ItemState.sceneItemId =
      moveTo (items.map ItemState.sceneItemId) id place := by
  have hrest : (items.filter fun item ↦ item.sceneItemId ≠ id).map ItemState.sceneItemId =
      (items.map ItemState.sceneItemId).filter (· ≠ id) := by
    rw [filter_map]
    rfl
  unfold moveTo
  rw [arrange_index]
  cases hfind : items.find? fun item ↦ item.sceneItemId = id with
  | none =>
    rw [if_neg]
    intro hmem
    obtain ⟨item, hitem, hid⟩ := mem_map.mp hmem
    exact absurd (decide_eq_true hid) (find?_eq_none.mp hfind item hitem)
  | some item =>
    have hid : item.sceneItemId = id := by simpa using find?_some hfind
    rw [if_pos (hid ▸ mem_map_of_mem (mem_of_find?_eq_some hfind)), ← hrest,
      map_append, map_cons, map_take, map_drop, hid]

theorem map_arranged_moves (ids : List ℚ) (place : ℕ) :
    (arranged scene items (ids.map fun id ↦ .index scene id place)).map ItemState.sceneItemId =
      ids.foldl (fun ids id ↦ moveTo ids id place) (items.map ItemState.sceneItemId) := by
  induction ids generalizing items with
  | nil => rfl
  | cons id ids ih =>
    show (arranged scene (Effect.arrange scene items (.index scene id place)) _).map _ = _
    rw [ih, map_arrange_index, foldl_cons]

theorem length_arrange_index (hdistinct : (items.map ItemState.sceneItemId).Nodup) (id : ℚ)
    (place : ℕ) : (Effect.arrange scene items (.index scene id place)).length = items.length := by
  have hmap : (Effect.arrange scene items (.index scene id place)).map ItemState.sceneItemId =
      moveTo (items.map ItemState.sceneItemId) id place := map_arrange_index id place
  have hperm := moveTo_perm hdistinct id place
  rw [← hmap] at hperm
  simpa using hperm.length_eq

end Arranged

/-! ### Positions that exist -/

section Range

variable {scene : String} {items : List ItemState}

theorem inRange_append (first second : List Effect) : InRange scene items (first ++ second) ↔
    InRange scene items first ∧ InRange scene (arranged scene items first) second := by
  induction first generalizing items with
  | nil => exact (iff_of_eq (true_and _)).symm
  | cons effect effects ih => exact (and_congr_right fun _ ↦ ih).trans and_assoc.symm

theorem inRange_removals (ids : List ℚ) : InRange scene items (ids.map (.removeItem scene)) := by
  induction ids generalizing items with
  | nil => trivial
  | cons id ids ih => exact ⟨fun _ _ _ heffect ↦ (nomatch heffect), ih⟩

theorem inRange_moves (hdistinct : (items.map ItemState.sceneItemId).Nodup) {place : ℕ}
    (hplace : place < items.length) (ids : List ℚ) :
    InRange scene items (ids.map fun id ↦ .index scene id place) := by
  induction ids generalizing items with
  | nil => trivial
  | cons id ids ih =>
    refine ⟨?_, ih ?_ ?_⟩
    · rintro sceneName other index ⟨⟩
      exact hplace
    · rw [map_arrange_index]
      exact (moveTo_perm hdistinct id place).nodup_iff.mpr hdistinct
    · rw [length_arrange_index hdistinct]
      exact hplace

end Range

/-! ### The stack that is left -/

/-- The items that are left when the other ones are removed. -/
def keptItems (request : Request) (current : Current) : List ItemState :=
  if request.removeOthers then
    current.items.filter fun item ↦ item.sourceName ∈ request.sources.map SourceSpec.name
  else current.items

/-- The kept items from the index of the moves on, once the first moved item is taken out. -/
def behindItems (request : Request) (current : Current) : List ItemState :=
  ((keptItems request current).filter fun item ↦
    (movedIds request current).head? ≠ some item.sceneItemId).drop (movedPlace request current)

/-- The moves of a plan put the listed sources in front: nothing else is to be removed, or they are
in front already, or each of them has one item, or the items from the index on that are not moved
end with the listed names. The first name counts among them when its item is pushed there. -/
def Gathers (request : Request) (current : Current) : Prop :=
  request.removeOthers = false ∨ ordered request current = true ∨
    (keptItems request current).length = request.sources.length ∨
    request.sources.map SourceSpec.name <:+
      (if (movedIds request current)[1]?.any fun id ↦
          id ∈ (behindItems request current).map ItemState.sceneItemId then
        (request.sources.map SourceSpec.name).take 1 else []) ++
      ((behindItems request current).filter fun item ↦
        item.sceneItemId ∉ movedIds request current).map ItemState.sourceName

/-- The items after the removals and moves of a plan. -/
def stacked (numerals : Numerals) (request : Request) (current : Current) : List ItemState :=
  arranged request.sceneName current.items (arrangement (plan numerals request current).actions)

/-- The name of the source of an item. -/
def Current.nameOf (current : Current) (id : ℚ) : String :=
  ((current.items.find? fun item ↦ item.sceneItemId = id).map ItemState.sourceName).getD ""

section Stacked

variable {numerals : Numerals} {request : Request} {current : Current}

variable {item : ItemState} {items : List ItemState} {first : ℚ} {rest : List ℚ}

section

variable (hids : (current.items.map ItemState.sceneItemId).Nodup)
include hids

theorem nameOf_item (hitem : item ∈ current.items) :
    current.nameOf item.sceneItemId = item.sourceName := by
  obtain ⟨found, hfound⟩ : ∃ found, (current.items.find? fun other ↦
      other.sceneItemId = item.sceneItemId) = some found := by
    rw [← Option.isSome_iff_exists, find?_isSome]
    exact ⟨item, hitem, by simp⟩
  have hsame : found = item := inj_on_of_nodup_map hids (mem_of_find?_eq_some hfound) hitem
    (by simpa using find?_some hfound)
  rw [Current.nameOf, hfound, hsame]
  rfl

theorem map_nameOf (hitems : ∀ item ∈ items, item ∈ current.items) :
    (items.map ItemState.sceneItemId).map current.nameOf = items.map ItemState.sourceName := by
  rw [map_map]
  exact map_congr_left fun item hitem ↦ nameOf_item hids (hitems item hitem)

theorem map_movedIds {sources : List SourceSpec}
    (hall : ∀ source ∈ sources, (current.item source.name).isSome) :
    (sources.filterMap fun source ↦ (current.item source.name).map ItemState.sceneItemId).map
      current.nameOf = sources.map SourceSpec.name := by
  induction sources with
  | nil => rfl
  | cons source sources ih =>
    obtain ⟨item, hitem⟩ := Option.isSome_iff_exists.mp (hall source mem_cons_self)
    have hname : item.sourceName = source.name := by simpa using find?_some hitem
    rw [filterMap_cons_some (b := item.sceneItemId) (by rw [hitem]; rfl), map_cons,
      map_cons, ih fun other hother ↦ hall other (mem_cons_of_mem source hother),
      nameOf_item hids (mem_of_find?_eq_some hitem), hname]

end

theorem keptItems_sublist : (keptItems request current).Sublist current.items := by
  unfold keptItems
  split_ifs
  · exact filter_sublist
  · exact List.Sublist.refl _

/-- The removals leave the kept items. -/
theorem arranged_removeActions (hids : (current.items.map ItemState.sceneItemId).Nodup) :
    arranged request.sceneName current.items (arrangement (removeActions request current)) =
      keptItems request current := by
  rw [arrangement_removeActions, keptItems]
  split_ifs
  · rw [arranged_removals]
    refine filter_congr fun item hitem ↦ decide_eq_decide.mpr ?_
    rw [← not_iff_not, not_not]
    constructor
    · intro hmem
      obtain ⟨other, hother, hid⟩ := mem_map.mp hmem
      obtain ⟨hmem, hunlisted⟩ := mem_filter.mp hother
      obtain rfl := inj_on_of_nodup_map hids hmem hitem hid
      exact of_decide_eq_true hunlisted
    · intro hunlisted
      exact mem_map_of_mem (mem_filter.mpr ⟨hitem, decide_eq_true hunlisted⟩)
  · rfl

theorem mem_keptItems (hitem : item ∈ current.items)
    (hname : item.sourceName ∈ request.sources.map SourceSpec.name) :
    item ∈ keptItems request current := by
  unfold keptItems
  split_ifs
  · exact mem_filter.mpr ⟨hitem, decide_eq_true hname⟩
  · exact hitem

theorem movedIds_subset {id : ℚ} (hid : id ∈ movedIds request current) :
    id ∈ (keptItems request current).map ItemState.sceneItemId := by
  obtain ⟨source, hsource, hitem⟩ := mem_filterMap.mp hid
  obtain ⟨item, hfound, rfl⟩ := Option.map_eq_some_iff.mp hitem
  have hname : item.sourceName = source.name := by simpa using find?_some hfound
  exact mem_map_of_mem (mem_keptItems (mem_of_find?_eq_some hfound)
    (hname ▸ mem_map_of_mem hsource))

theorem stacked_eq (horder : request.order = true)
    (hids : (current.items.map ItemState.sceneItemId).Nodup)
    (hall : ∀ source ∈ request.sources, (current.item source.name).isSome) :
    stacked numerals request current =
      if ordered request current then keptItems request current
      else arranged request.sceneName (keptItems request current) ((movedIds request current).map
        fun id ↦ .index request.sceneName id (movedPlace request current)) := by
  have hsplit : stacked numerals request current = arranged request.sceneName
      (arranged request.sceneName current.items (arrangement (removeActions request current)))
      (arrangement (orderActions request current)) := by
    rw [stacked, arrangement_plan]
    exact foldl_append ..
  rw [hsplit, arranged_removeActions hids, arrangement_orderActions horder hall]
  split_ifs <;> rfl

/-- Removing the other items keeps the listed sources in front. -/
theorem suffix_keptItems {names : List String}
    (hnames : names = request.sources.map SourceSpec.name)
    (hsuffix : names <:+ current.items.map ItemState.sourceName) :
    names <:+ (keptItems request current).map ItemState.sourceName := by
  unfold keptItems
  split_ifs
  · have hfilter := hsuffix.filter fun name ↦ name ∈ names
    rw [filter_eq_self.mpr fun name hname ↦ decide_eq_true hname, filter_map] at hfilter
    rw [← hnames]
    exact hfilter
  · exact hsuffix

theorem nodup_keptItems (hids : (current.items.map ItemState.sceneItemId).Nodup) :
    ((keptItems request current).map ItemState.sceneItemId).Nodup :=
  hids.sublist (keptItems_sublist.map ItemState.sceneItemId)

/-- The index of the moves is one of the kept items. -/
theorem movedPlace_lt (hids : (current.items.map ItemState.sceneItemId).Nodup)
    (hnames : (request.sources.map SourceSpec.name).Nodup)
    (hall : ∀ source ∈ request.sources, (current.item source.name).isSome)
    (hsome : request.sources ≠ []) :
    movedPlace request current < (keptItems request current).length := by
  have hmoved : (movedIds request current).map current.nameOf =
    request.sources.map SourceSpec.name := map_movedIds hids hall
  have hdistinct : (movedIds request current).Nodup :=
    List.Nodup.of_map current.nameOf (hmoved ▸ hnames)
  have hsubset : ∀ id ∈ movedIds request current,
      id ∈ (keptItems request current).map ItemState.sceneItemId := fun _ hid ↦
    movedIds_subset hid
  have hshort := (subperm_of_subset hdistinct hsubset).length_le
  have hlength := congrArg List.length hmoved
  rw [length_map, length_map] at hlength
  rw [length_map] at hshort
  have hpositive := length_pos_iff.mpr hsome
  unfold movedPlace
  split_ifs with hothers
  · omega
  · have hkept : keptItems request current = current.items := if_neg hothers
    rw [hkept] at hshort ⊢
    omega

theorem map_behindItems (hlist : movedIds request current = first :: rest) :
    (behindItems request current).map ItemState.sceneItemId =
      (((keptItems request current).map ItemState.sceneItemId).filter (· ≠ first)).drop
        (movedPlace request current) := by
  rw [behindItems, map_drop, filter_map, hlist]
  congr 2
  refine filter_congr fun item _ ↦ decide_eq_decide.mpr ?_
  simp [eq_comm]

section

variable (hids : (current.items.map ItemState.sceneItemId).Nodup)
  (hnames : (request.sources.map SourceSpec.name).Nodup)
  (hall : ∀ source ∈ request.sources, (current.item source.name).isSome)
  (hordered : ¬ ordered request current = true) (hsome : request.sources ≠ [])
include hids hnames hall hordered hsome

/-- The condition of moves, by the identifiers of the items. -/
theorem gathers_iff (hlist : movedIds request current = first :: rest) :
    Gathers request current ↔ (behindItems request current).map ItemState.sceneItemId = [] ∨
      (first :: rest).map current.nameOf <:+
        (if rest.head?.any fun id ↦ id ∈ (behindItems request current).map
          ItemState.sceneItemId then
          [current.nameOf first] else []) ++
        (((behindItems request current).map ItemState.sceneItemId).filter fun id ↦ id ∉ rest).map
          current.nameOf := by
  have hmoved : (first :: rest).map current.nameOf = request.sources.map SourceSpec.name :=
    hlist ▸ map_movedIds hids hall
  have hplace := movedPlace_lt hids hnames hall hsome
  have hempty : (behindItems request current).map ItemState.sceneItemId = [] ↔
      request.removeOthers = false ∨
        (keptItems request current).length = request.sources.length := by
    have hfirst := movedIds_subset (hlist ▸ mem_cons_self : first ∈ movedIds request current)
    have hkept : ((keptItems request current).map ItemState.sceneItemId).Nodup :=
      nodup_keptItems hids
    have hlength := length_filter_ne_of_mem hkept hfirst
    have hpositive := length_pos_iff.mpr hsome
    rw [map_behindItems hlist, drop_eq_nil_iff]
    rw [length_map] at hlength
    cases hothers : request.removeOthers with
    | false =>
      have hkept : keptItems request current = current.items := if_neg (by simp [hothers])
      have hindex : movedPlace request current = current.items.length - 1 := by
        rw [movedPlace, hothers]
        rfl
      rw [hkept] at hlength ⊢
      simp only [true_or, iff_true]
      omega
    | true =>
      have hindex : movedPlace request current = request.sources.length - 1 := by
        rw [movedPlace, hothers]
        rfl
      simp only [Bool.true_eq_false, false_or]
      omega
  have hfront : (movedIds request current)[1]? = rest.head? := by
    rw [hlist, head?_eq_getElem?]
    rfl
  have hname : (request.sources.map SourceSpec.name).take 1 = [current.nameOf first] := by
    rw [← hmoved]
    rfl
  have hunmoved : ((behindItems request current).filter fun item ↦
      item.sceneItemId ∉ movedIds request current).map ItemState.sourceName =
        (((behindItems request current).map ItemState.sceneItemId).filter fun id ↦ id ∉ rest).map
          current.nameOf := by
    have hmem : ∀ item ∈ behindItems request current, item ∈ current.items := fun item hitem ↦
      keptItems_sublist.subset (mem_of_mem_filter (mem_of_mem_drop hitem))
    have hsame : (behindItems request current).filter
        (fun item ↦ item.sceneItemId ∉ movedIds request current) =
          (behindItems request current).filter fun item ↦ item.sceneItemId ∉ rest := by
      refine filter_congr fun item hitem ↦ decide_eq_decide.mpr (not_congr ?_)
      have hne := (mem_filter.mp (mem_of_mem_drop hitem)).2
      rw [hlist, head?_cons, decide_eq_true_eq, ne_eq, Option.some_inj] at hne
      rw [hlist, mem_cons]
      exact or_iff_right fun hsame ↦ hne hsame.symm
    rw [hsame, ← map_nameOf hids fun item hitem ↦ hmem item (mem_of_mem_filter hitem),
      filter_map]
    rfl
  rw [Gathers, hfront, hname, hunmoved, hempty, hmoved]
  constructor
  · rintro (hothers | hfalse | hlength | hsuffix)
    · exact .inl (.inl hothers)
    · exact absurd hfalse hordered
    · exact .inl (.inr hlength)
    · exact .inr hsuffix
  · rintro ((hothers | hlength) | hsuffix)
    · exact .inl hothers
    · exact .inr (.inr (.inl hlength))
    · exact .inr (.inr (.inr hsuffix))

/-- When the moves of a plan that moves items put the listed sources in front. -/
theorem suffix_moved_iff :
    request.sources.map SourceSpec.name <:+ (arranged request.sceneName (keptItems request current)
        ((movedIds request current).map fun id ↦
          .index request.sceneName id (movedPlace request current))).map ItemState.sourceName ↔
      Gathers request current := by
  have hkept : ((keptItems request current).map ItemState.sceneItemId).Nodup :=
    nodup_keptItems hids
  have hmoved : (movedIds request current).map current.nameOf =
    request.sources.map SourceSpec.name := map_movedIds hids hall
  cases hlist : movedIds request current with
  | nil =>
    rw [hlist, map_nil, eq_comm, map_eq_nil_iff] at hmoved
    exact absurd hmoved hsome
  | cons first rest =>
    rw [hlist] at hmoved
    have hfirst : first ∈ (keptItems request current).map ItemState.sceneItemId :=
      movedIds_subset (hlist ▸ mem_cons_self)
    have hbehind := map_behindItems hlist
    have hplace := movedPlace_lt hids hnames hall hsome
    obtain ⟨left, right, hmove, hleft, hright⟩ := moveTo_eq_append hkept hfirst
      (movedPlace request current) (by rw [length_map]; exact hplace)
    rw [← hbehind] at hright
    have hafter : (arranged request.sceneName (keptItems request current) ((first :: rest).map
        fun id ↦ .index request.sceneName id (movedPlace request current))).map
          ItemState.sourceName =
        (rest.foldl (fun ids id ↦ moveTo ids id left.length) (left ++ first :: right)).map
          current.nameOf := by
      rw [← map_nameOf hids fun item hitem ↦ keptItems_sublist.subset (mem_of_mem_arranged hitem),
        map_arranged_moves, foldl_cons, hmove, hleft]
    have hdistinct : (left ++ first :: right).Nodup :=
      hmove ▸ (moveTo_perm hkept first _).nodup_iff.mpr hkept
    have hrest : (first :: rest).Nodup := List.Nodup.of_map current.nameOf (hmoved ▸ hnames)
    have hmem : ∀ id ∈ rest, id ∈ left ++ right := by
      intro id hid
      have hplaced : id ∈ left ++ first :: right := by
        rw [← hmove, (moveTo_perm hkept first _).mem_iff]
        exact movedIds_subset (hlist ▸ mem_cons_of_mem first hid)
      have hne : id ≠ first := ne_of_mem_of_not_mem hid (nodup_cons.mp hrest).1
      simpa [hne] using hplaced
    rw [hafter, ← hmoved, gathers_iff hids hnames hall hordered hsome hlist, ← hright]
    by_cases hnone : right = []
    · subst hnone
      refine iff_of_true ((suffix_foldl_moveTo_last hdistinct hrest ?_).map _) (.inl rfl)
      simpa using hmem
    · rw [suffix_foldl_moveTo_iff hdistinct (hmoved ▸ hnames) hmem hnone]
      exact (or_iff_right hnone).symm

end

/-- Every index move of a plan names a position that exists. -/
theorem inRange_plan (horder : request.order = true)
    (hids : (current.items.map ItemState.sceneItemId).Nodup)
    (hnames : (request.sources.map SourceSpec.name).Nodup)
    (hall : ∀ source ∈ request.sources, (current.item source.name).isSome) :
    InRange request.sceneName current.items
      (arrangement (plan numerals request current).actions) := by
  rw [arrangement_plan, inRange_append, arranged_removeActions hids]
  constructor
  · rw [arrangement_removeActions]
    split_ifs
    · exact inRange_removals _
    · trivial
  · rw [arrangement_orderActions horder hall]
    split_ifs with hordered
    · trivial
    · refine inRange_moves (nodup_keptItems hids) (movedPlace_lt hids hnames hall ?_) _
      intro hnone
      rw [ordered_iff_suffix, hnone] at hordered
      exact hordered nil_suffix

theorem stack_reindexed (items : List ItemState) : stack (reindexed items) = reindexed items := by
  refine stack_eq_self (pairwise_map.mpr (pairwise_iff_getElem.mpr ?_))
  intro first second hfirst hsecond hless
  rw [getElem_zipIdx, getElem_zipIdx]
  show ((0 + first : ℕ) : ℚ) ≤ ((0 + second : ℕ) : ℚ)
  exact_mod_cast Nat.add_le_add_left hless.le 0

theorem map_reindexed (items : List ItemState) :
    (reindexed items).map ItemState.sourceName = items.map ItemState.sourceName := by
  rw [reindexed, map_map]
  conv_rhs => rw [← zipIdx_map_fst 0 items, map_map]
  rfl

/-- Nothing is moved again when the listed sources are in front. -/
theorem not_mem_replan
    (hsuffix : request.sources.map SourceSpec.name <:+ items.map ItemState.sourceName)
    (sceneName : String) (id : ℚ) (index : ℕ) : Effect.index sceneName id index ∉
      arrangement (plan numerals request (current.rearranged items)).actions := by
  have hordered : ordered request (current.rearranged items) = true := by
    rw [ordered_iff_suffix]
    show _ <:+ (stack (reindexed items)).map ItemState.sourceName
    rwa [stack_reindexed, map_reindexed]
  rw [arrangement_plan, mem_append, arrangement_removeActions, not_or]
  constructor
  · split_ifs <;> simp
  · unfold orderActions
    split_ifs <;> simp [arrangement]

end Stacked

/-- A plan with order puts the listed sources in front, back to front as listed, so that planning
again moves nothing, and moves items only to positions that exist, exactly under the condition
`Gathers`. Assumes: the items of the scene are in stack order with distinct identifiers, and the
listed sources are distinct and have an item each. -/
theorem apply_scene_orders_iff {numerals : Numerals} {request : Request} {current : Current}
    (horder : request.order = true) (hids : (current.items.map ItemState.sceneItemId).Nodup)
    (hstack : current.items.Pairwise fun first second ↦ first.index ≤ second.index)
    (hnames : (request.sources.map SourceSpec.name).Nodup)
    (hitems : ∀ source ∈ request.sources, ∃ item ∈ current.items, item.sourceName = source.name) :
    (request.sources.map SourceSpec.name <:+
        (stacked numerals request current).map ItemState.sourceName ∧
      (∀ sceneName id index, Effect.index sceneName id index ∉ arrangement
        (plan numerals request (current.rearranged (stacked numerals request current))).actions) ∧
      InRange request.sceneName current.items
        (arrangement (plan numerals request current).actions)) ↔ Gathers request current := by
  have hall : ∀ source ∈ request.sources, (current.item source.name).isSome := by
    intro source hsource
    obtain ⟨item, hitem, hname⟩ := hitems source hsource
    exact find?_isSome.mpr ⟨item, hitem, decide_eq_true hname⟩
  have hsuffix : request.sources.map SourceSpec.name <:+
      (stacked numerals request current).map ItemState.sourceName ↔ Gathers request current := by
    rw [stacked_eq horder hids hall]
    by_cases hordered : ordered request current = true
    · rw [if_pos hordered]
      refine iff_of_true (suffix_keptItems rfl ?_) (.inr (.inl hordered))
      have hfront := ordered_iff_suffix.mp hordered
      rwa [stack_eq_self hstack] at hfront
    · rw [if_neg hordered]
      refine suffix_moved_iff hids hnames hall hordered fun hnone ↦ ?_
      rw [ordered_iff_suffix, hnone] at hordered
      exact hordered nil_suffix
  rw [← hsuffix]
  constructor
  · exact fun hholds ↦ hholds.1
  · exact fun hfront ↦ ⟨hfront, not_mem_replan hfront, inRange_plan horder hids hnames hall⟩

/-! ### A source with two items -/

/-- A source that is listed by its name only. -/
def listedSource (name : String) : SourceSpec where
  name := name
  kind := none
  settings := none
  visible := none
  locked := none
  muted := none
  volumeDb := none
  audioTracks := none
  fit := false
  transform := []
  settings_distinct := by simp
  settings_wellFormed := by simp
  transform_fields := nil_sublist _
  transform_wellFormed := by simp

/-- A chat behind a camera. -/
def chatBehindCamera (removeOthers : Bool) : Request where
  sceneName := "Studio"
  sources := [listedSource "Chat", listedSource "Camera"]
  order := true
  removeOthers := removeOthers

/-- A scene with two items of the camera, and the chat in front. -/
def twoCameras : Current where
  sceneExists := true
  sceneNames := ["Studio"]
  inputKinds name :=
    if name = "Camera" then some "v4l2_input"
    else if name = "Chat" then some "browser_source" else none
  items := [⟨"Studio", 1, "Camera", 0, true, false, []⟩,
    ⟨"Studio", 2, "Camera", 1, true, false, []⟩, ⟨"Studio", 3, "Chat", 2, true, false, []⟩]
  inputs := [⟨"Camera", "v4l2_input", [], none, none, none⟩,
    ⟨"Chat", "browser_source", [], none, none, none⟩]
  video := none

theorem sorted_twoCameras :
    twoCameras.items.Pairwise fun first second ↦ first.index ≤ second.index := by
  simp [twoCameras]

/-- When nothing else is to be removed, the chat and a camera come to the front. -/
theorem apply_scene_orders_twoCameras :
    ["Chat", "Camera"] <:+ (stacked ⟨fun _ ↦ "0"⟩ (chatBehindCamera false) twoCameras).map
      ItemState.sourceName := by
  have horders := @apply_scene_orders_iff ⟨fun _ ↦ "0"⟩ (chatBehindCamera false) twoCameras rfl
    (by decide) sorted_twoCameras (by decide) (by decide)
  exact (horders.mpr (.inl rfl)).1

/-- When other items are to be removed, the chat is put behind both items of the camera. -/
theorem apply_scene_disorders :
    (stacked ⟨fun _ ↦ "0"⟩ (chatBehindCamera true) twoCameras).map ItemState.sourceName =
        ["Chat", "Camera", "Camera"] ∧
      ¬ ["Chat", "Camera"] <:+ (stacked ⟨fun _ ↦ "0"⟩ (chatBehindCamera true) twoCameras).map
        ItemState.sourceName := by
  have hordered : ¬ ordered (chatBehindCamera true) twoCameras = true := by
    rw [ordered_iff_suffix, stack_eq_self sorted_twoCameras]
    decide
  have hstacked : (stacked ⟨fun _ ↦ "0"⟩ (chatBehindCamera true) twoCameras).map
      ItemState.sourceName = ["Chat", "Camera", "Camera"] := by
    rw [stacked_eq rfl (by decide) (by decide), if_neg hordered]
    rfl
  rw [hstacked]
  exact ⟨rfl, by decide⟩

end ObsMcp.Scenes
