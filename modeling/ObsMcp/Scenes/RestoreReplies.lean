import Mathlib.Data.List.ReduceOption
import ObsMcp.Foundations.Fallible
import ObsMcp.Foundations.Text
import ObsMcp.Scenes.ApplyScene
import ObsMcp.Scenes.RestoreIdempotence

/-!
# Restore over any replies

`plan_restore` reads the scenes of a snapshot one by one and then its inputs, and plans on what the
peer replied. Here the replies are arbitrary: `readItems` and `readInputs` are the readings of a
reply, a `Reading` is what they found, and `Reading.plan` is the plan with its two abrupt ends: a
place of a survivor for which no survivor is left, and a survivor that is not among the present
items. The second never comes up, and the first does exactly when a scene has more places than
survivors (`plan_eq_none_iff`). On the readings of a state of OBS the plan is that of `planRestore`
(`plan_ofObs`).

The texts of numbers, the parsing of a decimal and the rational number of a finite float are
parameters.
-/

namespace ObsMcp.Scenes

open Foundations List Option

/-! ### Reading a reply -/

/-- The texts of numbers: how a float is printed, parsed (a NaN when the text is no number) and
compared. -/
structure NumberTexts extends Numerals where
  parseF64 : List Char → Float
  rational : Float → ℚ

inductive SnapshotError
  | read (detail : String)
  | invalidSnapshot
  | missingRoot
  | unsafePath
  | historyUnavailable
  | historyCorrupt
  | historyMissing
  | historyReplaced
  | lockBusy
  | lockLost
  | publicationUncertain
  | capacity
  | identityExhausted
  deriving DecidableEq

/-- The reply to one request of a batch. -/
structure BatchReadResult where
  ok : Bool
  code : Option ℕ
  comment : Option String
  responseData : Json

/-- What JavaScript trims off a text. -/
def isJsBlank (c : Char) : Bool :=
  let n := c.toNat
  (0x9 ≤ n && n ≤ 0xd) || n == 0x20 || n == 0xa0 || n == 0x1680 || (0x2000 ≤ n && n ≤ 0x200a) ||
    n == 0x2028 || n == 0x2029 || n == 0x202f || n == 0x205f || n == 0x3000 || n == 0xfeff

/-- `char::to_digit`. -/
def toDigit (radix : ℕ) (c : Char) : Option ℕ :=
  let digit :=
    if '0' ≤ c ∧ c ≤ '9' then some (c.toNat - '0'.toNat)
    else if 'a' ≤ c ∧ c ≤ 'z' then some (c.toNat - 'a'.toNat + 10)
    else if 'A' ≤ c ∧ c ≤ 'Z' then some (c.toNat - 'A'.toNat + 10)
    else none
  digit.filter (· < radix)

section Texts

variable (texts : NumberTexts)

mutual

/-- `js_string` of a value. -/
def jsText : Json → String
  | .null => "null"
  | .string s => s
  | .number n => texts.jsNumber ⟨n.asF64, n.asF64_isFinite⟩
  | .bool b => if b then "true" else "false"
  | .array items => ",".intercalate (jsTexts items)
  | .object _ => "[object Object]"

def jsTexts : List Json → List String
  | [] => []
  | item :: items => (if item.isNull then "" else jsText item) :: jsTexts items

end

/-- The text of a number in a radix other than ten. -/
def radixNumber (radix : ℕ) (digits : List Char) : Float :=
  if digits = [] then 0.0 / 0.0
  else
    (digits.foldlM (fun value c ↦ (toDigit radix c).map fun digit ↦
      value * Float.ofNat radix + Float.ofNat digit) 0.0).getD (0.0 / 0.0)

def radixes : List (ℕ × List Char) :=
  [(16, ['0', 'x']), (16, ['0', 'X']), (8, ['0', 'o']), (8, ['0', 'O']), (2, ['0', 'b']),
    (2, ['0', 'B'])]

/-- `js_numeric` of a text. -/
def jsNumericText (text : List Char) : Float :=
  let value := Text.trimMatches isJsBlank text
  if value = [] then 0.0
  else if value = "Infinity".toList ∨ value = "+Infinity".toList then 1.0 / 0.0
  else if value = "-Infinity".toList then -1.0 / 0.0
  else
    match radixes.findSome? fun radix ↦ (Text.afterStart radix.2 value).map (radix.1, ·) with
    | some (radix, digits) => radixNumber radix digits
    | none =>
      if value.all fun c ↦ c.isDigit || c ∈ ['.', '+', '-', 'e', 'E'] then texts.parseF64 value
      else 0.0 / 0.0

def jsNumeric : Option Json → Float
  | none => 0.0
  | some .null => 0.0
  | some (.number n) => n.asF64
  | some (.bool b) => if b then 1.0 else 0.0
  | some (.string s) => jsNumericText texts s.toList
  | some other => jsNumericText texts (jsText texts other).toList

/-- An item of a reply; none when it has no identifier. -/
def readItem (scene : String) (item : Json) : Except SnapshotError (Option ItemState) :=
  match (item.index "sceneItemId").asF64 with
  | none => .ok none
  | some id =>
    let index := jsNumeric texts ((item.get "sceneItemIndex").filter fun value ↦ !value.isNull)
    if index.isFinite then
      .ok (some
        { sceneName := scene
          sceneItemId := texts.rational id
          sourceName :=
            (((item.get "sourceName").filter fun value ↦ !value.isNull).map (jsText texts)).getD ""
          index := texts.rational index
          enabled := item.index "sceneItemEnabled" != .bool false
          locked := item.index "sceneItemLocked" == .bool true
          transform := (((item.index "sceneItemTransform").asObject).getD []).filter fun member ↦
            member.1 ∈ WRITABLE_TRANSFORM })
    else .error .invalidSnapshot

/-- `read_items` of one scene. -/
def readItems (scene : String) (reply : Except SnapshotError (List BatchReadResult)) :
    Except SnapshotError (List ItemState) := do
  let results ← reply
  match results[0]?.filter BatchReadResult.ok with
  | none =>
    let detail := (results[0]?.bind BatchReadResult.comment).getD
      ("code " ++ ((results[0]?.bind BatchReadResult.code).map Nat.repr).getD "undefined")
    throw (.read ("Cannot read scene " ++ scene ++ ": " ++ detail))
  | some result =>
    let items := (((result.responseData.get "sceneItems").bind Json.asArray).getD []).filter
      Json.isObject
    let states ← items.mapM (readItem texts scene)
    return states.reduceOption

/-- `read_inputs` without required fields. -/
def readInputs (names : List String) (reply : Except SnapshotError (List BatchReadResult)) :
    Except SnapshotError (List InputState) := do
  let results ← reply
  let found := fun place ↦ results[place]?.filter fun (result : BatchReadResult) ↦
    result.ok && result.responseData.isObject
  return names.zipIdx.filterMap fun (name, index) ↦ (found (index * 4)).map fun settings ↦
    { inputName := name
      inputKind := (((settings.responseData.get "inputKind").filter fun value ↦
        !value.isNull).map (jsText texts)).getD ""
      inputSettings := ((settings.responseData.index "inputSettings").asObject).getD []
      muted := (found (index * 4 + 1)).bind fun result ↦
        (result.responseData.index "inputMuted").asBool
      volumeMul := (found (index * 4 + 2)).bind fun result ↦
        (result.responseData.index "inputVolumeMul").asNumber.map fun n ↦
          ⟨n.asF64, n.asF64_isFinite⟩
      audioTracks := (found (index * 4 + 3)).bind fun result ↦
        (result.responseData.index "inputAudioTracks").asObject }

end Texts

/-! ### The plan -/

/-- What was read: the items of each scene that could be read, and the inputs. -/
structure Reading where
  items : String → Option (List ItemState)
  inputs : List InputState

/-- The present items with the places of the surviving ones filled by the next survivors, or nothing
when a place is left without a survivor or a survivor is not among the present items. -/
def fillSlots (surviving : ItemState → Bool) (now : List ItemState) :
    List ItemState → List ItemState → Option (List ItemState)
  | _, [] => some []
  | [], current :: rest =>
    if surviving current then none
    else (fillSlots surviving now [] rest).map (current :: ·)
  | wanted :: survivors, current :: rest =>
    if surviving current then
      (now.find? fun current ↦ current.sceneItemId = wanted.sceneItemId).bind fun item ↦
        (fillSlots surviving now survivors rest).map (item :: ·)
    else (fillSlots surviving now (wanted :: survivors) rest).map (current :: ·)

/-- The order changes of a scene, or nothing when the plan ends abruptly. -/
def slotChanges (displayNumber : ℚ → String) (snapshot : Snapshot) (scene : String)
    (now : List ItemState) : Option (List RestoreChange) :=
  (fillSlots
    (fun current ↦ (survivors snapshot scene now).any fun saved ↦
      saved.sceneItemId = current.sceneItemId)
    now (survivors snapshot scene now) now).map fun target ↦
      if (target.zip now).any fun pair ↦ pair.1.sceneItemId ≠ pair.2.sceneItemId then
        target.zipIdx.map fun pair ↦
          ⟨itemTarget displayNumber scene pair.1, "order (to " ++ Nat.repr pair.2 ++ ")",
            .itemIndex scene pair.1.sceneItemId pair.2⟩
      else []

namespace Reading

variable (displayNumber : ℚ → String) (snapshot : Snapshot) (reading : Reading)

/-- The saved scenes that could be read. -/
def readable : List String :=
  (savedScenes snapshot).filter fun scene ↦ (reading.items scene).isSome

def currentItems : List ItemState :=
  (reading.readable snapshot).flatMap fun scene ↦ (reading.items scene).getD []

/-- The present state of a saved input. -/
def currentInput (saved : InputState) : Option InputState :=
  reading.inputs.find? fun current ↦ current.inputName = saved.inputName

/-- The saved items of the scenes that could be read. -/
def readableItems : List ItemState :=
  snapshot.items.filter fun item ↦ item.sceneName ∈ reading.readable snapshot

/-- The present state of a saved item. -/
def currentItem (saved : ItemState) : Option ItemState :=
  (reading.currentItems snapshot).find? fun current ↦
    current.sceneName = saved.sceneName ∧ current.sceneItemId = saved.sceneItemId

/-- The present items of a scene from back to front. -/
def presentItems (scene : String) : List ItemState :=
  stack ((reading.currentItems snapshot).filter fun item ↦ item.sceneName = scene)

def missingNotes : List String :=
  (((savedScenes snapshot).filter fun scene ↦ (reading.items scene).isNone).map fun scene ↦
    "scene " ++ scene ++ " no longer exists; its items were not restored") ++
  ((snapshot.inputs.filter fun saved ↦ (reading.currentInput saved).isNone).map fun saved ↦
    inputTarget saved ++ " no longer exists") ++
  (((reading.readableItems snapshot).filter fun saved ↦
    (reading.currentItem snapshot saved).isNone).map fun saved ↦
      itemTarget displayNumber saved.sceneName saved ++ " was removed") ++
  (reading.readable snapshot).flatMap fun scene ↦
    ((reading.currentItems snapshot).filter fun item ↦ item.sceneName = scene ∧
      item.sceneItemId ∉ (snapshot.items.filter fun saved ↦ saved.sceneName = scene).map
        ItemState.sceneItemId).map fun item ↦
          itemTarget displayNumber scene item ++ " was added since; it is left in place"

/-- The plan, or nothing when it ends abruptly. -/
def plan : Option RestorePlan :=
  ((reading.readable snapshot).mapM fun scene ↦
    slotChanges displayNumber snapshot scene (reading.presentItems snapshot scene)).map fun order ↦
      { changes :=
          (snapshot.inputs.flatMap fun saved ↦
            ((reading.currentInput saved).map (inputChanges saved)).getD []) ++
          ((reading.readableItems snapshot).flatMap fun saved ↦
            ((reading.currentItem snapshot saved).map
              (itemChanges displayNumber saved)).getD []) ++
          order.flatten
        missing := reading.missingNotes displayNumber snapshot }

end Reading

/-- What the peer replies: to the read of each scene, which is made once, and to that of the
inputs. -/
structure Replies where
  scenes : String → Except SnapshotError (List BatchReadResult)
  inputs : Except SnapshotError (List BatchReadResult)

/-- The scenes that a reply lets be read. -/
def Replies.items (texts : NumberTexts) (replies : Replies) (scene : String) :
    Option (List ItemState) :=
  (readItems texts scene (replies.scenes scene)).toOption

/-- `plan_restore`; nothing when it ends abruptly. -/
def Replies.planRestore (texts : NumberTexts) (displayNumber : ℚ → String) (replies : Replies)
    (snapshot : Snapshot) : Option (Except SnapshotError RestorePlan) :=
  match readInputs texts (snapshot.inputs.map InputState.inputName) replies.inputs with
  | .error error => some (.error error)
  | .ok inputs =>
    (({ items := replies.items texts, inputs } : Reading).plan displayNumber snapshot).map .ok

/-! ### Places and survivors -/

section Slots

variable {displayNumber : ℚ → String} {snapshot : Snapshot} {scene : String} {now : List ItemState}

/-- Filling the slots fails exactly when there are more places than survivors. Assumes: every
survivor is among the present items. -/
theorem fillSlots_eq {surviving : ItemState → Bool} {wanted : List ItemState}
    (hwanted : ∀ saved ∈ wanted, ∃ item ∈ now, item.sceneItemId = saved.sceneItemId)
    (rest : List ItemState) :
    fillSlots surviving now wanted rest =
      if wanted.length < rest.countP surviving then none
      else some (fillPlaces surviving now wanted rest) := by
  induction rest generalizing wanted with
  | nil => cases wanted <;> simp [fillSlots, fillPlaces]
  | cons current rest ih =>
    by_cases hcurrent : surviving current = true
    · rw [countP_cons_of_pos hcurrent]
      cases wanted with
      | nil => simp [fillSlots, hcurrent]
      | cons next wanted =>
        obtain ⟨item, hitem, hid⟩ := hwanted next mem_cons_self
        obtain ⟨found, hfound⟩ : ∃ found, (now.find? fun current ↦
            current.sceneItemId = next.sceneItemId) = some found := by
          rw [← isSome_iff_exists, find?_isSome]
          exact ⟨item, hitem, decide_eq_true hid⟩
        have hrest := ih fun saved hsaved ↦ hwanted saved (mem_cons_of_mem next hsaved)
        rw [fillSlots, if_pos hcurrent, hfound, bind_some, hrest, fillPlaces,
          if_pos hcurrent, hfound, length_cons]
        simp only [Nat.add_lt_add_iff_right]
        split_ifs <;> rfl
    · have hrest := ih hwanted
      rw [countP_cons_of_neg hcurrent]
      cases wanted with
      | nil =>
        rw [fillSlots, if_neg hcurrent, hrest, fillPlaces]
        split_ifs <;> rfl
      | cons next wanted =>
        rw [fillSlots, if_neg hcurrent, hrest, fillPlaces, if_neg hcurrent]
        split_ifs <;> rfl

/-- The places of a scene whose items were saved. -/
def places (snapshot : Snapshot) (scene : String) (now : List ItemState) : ℕ :=
  now.countP fun current ↦ snapshot.items.any fun saved ↦
    saved.sceneName = scene ∧ saved.sceneItemId = current.sceneItemId

/-- The saved items of a scene that are still there. -/
def kept (snapshot : Snapshot) (scene : String) (now : List ItemState) : ℕ :=
  snapshot.items.countP fun saved ↦
    saved.sceneName = scene ∧ now.any fun current ↦ current.sceneItemId = saved.sceneItemId

theorem length_survivors : (survivors snapshot scene now).length = kept snapshot scene now := by
  rw [survivors, stack, length_mergeSort, kept, countP_eq_length_filter]

theorem mem_survivors {saved : ItemState} : saved ∈ survivors snapshot scene now ↔
    saved ∈ snapshot.items ∧ saved.sceneName = scene ∧
      ∃ item ∈ now, item.sceneItemId = saved.sceneItemId := by
  simp [survivors, stack]

theorem countP_surviving : (now.countP fun current ↦ (survivors snapshot scene now).any fun saved ↦
    saved.sceneItemId = current.sceneItemId) = places snapshot scene now := by
  refine List.countP_congr fun current hcurrent ↦ ?_
  simp only [List.any_eq_true, decide_eq_true_eq, mem_survivors]
  constructor
  · rintro ⟨saved, ⟨hsaved, hscene, -⟩, hid⟩
    exact ⟨saved, hsaved, hscene, hid⟩
  · rintro ⟨saved, hsaved, hscene, hid⟩
    exact ⟨saved, ⟨hsaved, hscene, current, hcurrent, hid.symm⟩, hid⟩

/-- The order changes are those of the target order, unless there are more places than survivors. -/
theorem slotChanges_eq : slotChanges displayNumber snapshot scene now =
    if kept snapshot scene now < places snapshot scene now then none
    else some (orderChanges displayNumber snapshot scene now) := by
  rw [slotChanges, fillSlots_eq fun saved hsaved ↦ (mem_survivors.mp hsaved).2.2, length_survivors,
    countP_surviving]
  split_ifs <;> rfl

/-- Present items with distinct identifiers have no more places than survivors. -/
theorem places_le_kept (hdistinct : (now.map ItemState.sceneItemId).Nodup) :
    places snapshot scene now ≤ kept snapshot scene now := by
  rw [← length_survivors, places, countP_eq_length_filter,
    ← length_map ItemState.sceneItemId,
    ← @length_map _ _ (survivors snapshot scene now) ItemState.sceneItemId]
  refine (subperm_of_subset (hdistinct.sublist (filter_sublist.map _)) ?_).length_le
  intro id hid
  obtain ⟨item, hitem, rfl⟩ := List.mem_map.mp hid
  obtain ⟨hmem, hany⟩ := List.mem_filter.mp hitem
  obtain ⟨saved, hsaved, htest⟩ := List.any_eq_true.mp hany
  obtain ⟨hscene, hsame⟩ := of_decide_eq_true htest
  exact List.mem_map.mpr ⟨saved, mem_survivors.mpr ⟨hsaved, hscene, item, hmem, hsame.symm⟩, hsame⟩

end Slots

/-! ### When a plan ends abruptly -/

namespace Reading

variable {displayNumber : ℚ → String} {snapshot : Snapshot} {reading : Reading}

/-- Every item that was read has the name of its scene. -/
def Named (reading : Reading) : Prop :=
  ∀ scene items, reading.items scene = some items → ∀ item ∈ items, item.sceneName = scene

theorem mem_readable {scene : String} : scene ∈ reading.readable snapshot ↔
    (∃ saved ∈ snapshot.items, saved.sceneName = scene) ∧ (reading.items scene).isSome = true := by
  rw [readable, List.mem_filter, savedScenes, unique, List.mem_eraseDups, List.mem_map]

theorem nodup_readable : (reading.readable snapshot).Nodup :=
  (nodup_unique _).sublist filter_sublist

theorem presentItems_eq (hnamed : reading.Named) {scene : String} {items : List ItemState}
    (hscene : scene ∈ reading.readable snapshot) (hitems : reading.items scene = some items) :
    reading.presentItems snapshot scene = stack items := by
  rw [presentItems, currentItems, filter_flatMap_own _ nodup_readable hscene, hitems,
    getD_some]
  intro other _ item hitem
  cases hother : reading.items other with
  | none => simp [hother] at hitem
  | some found =>
    rw [hother, getD_some] at hitem
    exact hnamed other found hother item hitem

/-- A plan ends abruptly exactly when a scene has more places than survivors. -/
theorem plan_eq_none_iff : reading.plan displayNumber snapshot = none ↔
    ∃ scene ∈ reading.readable snapshot,
      kept snapshot scene (reading.presentItems snapshot scene) <
        places snapshot scene (reading.presentItems snapshot scene) := by
  rw [plan, map_eq_none_iff, mapM_eq_none_iff]
  refine exists_congr fun scene ↦ and_congr_right fun _ ↦ ?_
  rw [slotChanges_eq]
  split_ifs with hless
  · simp [hless]
  · simp [hless]

/-- A plan that does not end abruptly is made of the order changes of its scenes. -/
theorem plan_eq_some {found : RestorePlan}
    (hplan : reading.plan displayNumber snapshot = some found) :
    found.changes =
      (snapshot.inputs.flatMap fun saved ↦
        ((reading.currentInput saved).map (inputChanges saved)).getD []) ++
      ((reading.readableItems snapshot).flatMap fun saved ↦
        ((reading.currentItem snapshot saved).map (itemChanges displayNumber saved)).getD []) ++
      (reading.readable snapshot).flatMap fun scene ↦
        orderChanges displayNumber snapshot scene (reading.presentItems snapshot scene) := by
  obtain ⟨order, horder, rfl⟩ := map_eq_some_iff.mp hplan
  have hchanges : order = (reading.readable snapshot).map fun scene ↦
      orderChanges displayNumber snapshot scene (reading.presentItems snapshot scene) := by
    rw [← forall₂_eq_eq_eq, forall₂_map_right_iff]
    refine (mapM_eq_some_iff.mp horder).flip.imp fun changes scene hchanges ↦ ?_
    rw [slotChanges_eq] at hchanges
    split_ifs at hchanges
    exact (some.inj hchanges).symm
  simp only [hchanges, flatMap_def]

/-- What is read of a state of OBS. -/
def ofObs (obs : Obs) (snapshot : Snapshot) : Reading where
  items := obs.readItems
  inputs := Scenes.currentInputs obs snapshot

/-- On the readings of a state of OBS, the plan is the plan of that state. -/
theorem plan_ofObs (displayNumber : ℚ → String) (obs : Obs) (snapshot : Snapshot) :
    (ofObs obs snapshot).plan displayNumber snapshot =
      some (Scenes.planRestore displayNumber obs snapshot) := by
  have hslots : ∀ scene ∈ (ofObs obs snapshot).readable snapshot,
      slotChanges displayNumber snapshot scene
        ((ofObs obs snapshot).presentItems snapshot scene) =
          some (orderChanges displayNumber snapshot scene
            ((ofObs obs snapshot).presentItems snapshot scene)) := by
    intro scene hscene
    have hpresent : (ofObs obs snapshot).presentItems snapshot scene = obs.listItems scene :=
      Scenes.presentItems_eq hscene
    have hids : ((obs.listItems scene).map ItemState.sceneItemId).Nodup := by
      rw [obs.map_listItems scene fun _ _ ↦ rfl]
      exact obs.items_distinct scene
    rw [hpresent, slotChanges_eq, if_neg (Nat.not_lt.mpr (places_le_kept hids))]
  have hall : ((ofObs obs snapshot).readable snapshot).mapM (fun scene ↦
      slotChanges displayNumber snapshot scene
        ((ofObs obs snapshot).presentItems snapshot scene)) =
      some (((ofObs obs snapshot).readable snapshot).map fun scene ↦
        orderChanges displayNumber snapshot scene
          ((ofObs obs snapshot).presentItems snapshot scene)) := by
    rw [mapM_eq_some_iff, forall₂_map_right_iff, forall₂_same]
    exact hslots
  rw [plan, hall, map_some, ← flatMap_def]
  rfl

end Reading

section Panics

variable {texts : NumberTexts} {displayNumber : ℚ → String} {replies : Replies}
  {snapshot : Snapshot}

variable {scene : String} {items : List ItemState}

theorem name_of_readItem {value : Json} {item : ItemState}
    (hread : readItem texts scene value = .ok (some item)) : item.sceneName = scene := by
  unfold readItem at hread
  split at hread
  · cases hread
  · simp only at hread
    split_ifs at hread
    obtain rfl := some.inj (Except.ok.inj hread)
    rfl

theorem name_of_readItems {reply : Except SnapshotError (List BatchReadResult)}
    (hread : readItems texts scene reply = .ok items) : ∀ item ∈ items, item.sceneName = scene := by
  unfold readItems at hread
  obtain ⟨results, -, hread⟩ := bind_eq_ok_iff.mp hread
  split at hread
  · cases hread
  · obtain ⟨states, hstates, hitems⟩ := bind_eq_ok_iff.mp hread
    rw [pure_eq_ok_iff] at hitems
    subst hitems
    intro item hitem
    rw [reduceOption_mem_iff] at hitem
    obtain ⟨value, -, hvalue⟩ := mem_of_mapM hstates hitem
    exact name_of_readItem hvalue

theorem items_eq_some_iff :
    replies.items texts scene = some items ↔
      readItems texts scene (replies.scenes scene) = .ok items := by
  unfold Replies.items
  cases readItems texts scene (replies.scenes scene) <;> simp [Except.toOption]

theorem places_stack : places snapshot scene (stack items) = places snapshot scene items :=
  (mergeSort_perm items _).countP_eq _

theorem kept_stack : kept snapshot scene (stack items) = kept snapshot scene items := by
  have hany : ∀ saved : ItemState,
      ((stack items).any fun current ↦ current.sceneItemId = saved.sceneItemId) =
        items.any fun current ↦ current.sceneItemId = saved.sceneItemId := by
    intro saved
    exact (mergeSort_perm items _).any_eq
  unfold kept
  simp only [hany]

/-- A restore plan ends abruptly exactly when the inputs can be read, and the reply of a scene has
more entries of saved items than there are saved items in it. -/
theorem planRestore_eq_none_iff : replies.planRestore texts displayNumber snapshot = none ↔
    (∃ results, replies.inputs = .ok results) ∧
      ∃ scene items, (∃ saved ∈ snapshot.items, saved.sceneName = scene) ∧
        readItems texts scene (replies.scenes scene) = .ok items ∧
          kept snapshot scene items < places snapshot scene items := by
  unfold Replies.planRestore
  cases hinputs : replies.inputs with
  | error error => simp [readInputs, bind, Except.bind]
  | ok results =>
    simp only [readInputs, ok_bind, pure, Except.pure, map_eq_none_iff,
      Reading.plan_eq_none_iff, Except.ok.injEq, exists_eq', true_and]
    refine exists_congr fun scene ↦ ?_
    rw [Reading.mem_readable]
    constructor
    · rintro ⟨⟨hsaved, hsome⟩, hless⟩
      obtain ⟨items, hitems⟩ := isSome_iff_exists.mp hsome
      have hread := items_eq_some_iff.mp hitems
      rw [Reading.presentItems_eq (fun other found hfound ↦
        name_of_readItems (items_eq_some_iff.mp hfound)) (Reading.mem_readable.mpr ⟨hsaved, hsome⟩)
        hitems, kept_stack, places_stack] at hless
      exact ⟨items, hsaved, hread, hless⟩
    · rintro ⟨items, hsaved, hread, hless⟩
      have hitems : replies.items texts scene = some items := items_eq_some_iff.mpr hread
      have hsome : (replies.items texts scene).isSome = true := isSome_iff_exists.mpr ⟨_, hitems⟩
      refine ⟨⟨hsaved, hsome⟩, ?_⟩
      rw [Reading.presentItems_eq (fun other found hfound ↦
        name_of_readItems (items_eq_some_iff.mp hfound)) (Reading.mem_readable.mpr ⟨hsaved, hsome⟩)
        hitems, kept_stack, places_stack]
      exact hless

end Panics

/-- A restore plan is returned, as a plan or as an error, exactly when the inputs cannot be read, or
every scene that is read has at most as many entries of saved items as saved items that are still
there. -/
theorem planRestore_returns_iff (texts : NumberTexts) (displayNumber : ℚ → String)
    (replies : Replies) (snapshot : Snapshot) :
    (∃ result, replies.planRestore texts displayNumber snapshot = some result) ↔
      (∃ error, replies.inputs = .error error) ∨
        ∀ scene items, (∃ saved ∈ snapshot.items, saved.sceneName = scene) →
          readItems texts scene (replies.scenes scene) = .ok items →
            places snapshot scene items ≤ kept snapshot scene items := by
  rw [← ne_none_iff_exists', ne_eq, planRestore_eq_none_iff, not_and_or]
  refine or_congr ?_ ?_
  · cases replies.inputs <;> simp
  · push Not
    rfl

/-! ### An item that is listed twice -/

/-- A snapshot of one item. -/
def savedCamera : Snapshot where
  inputs := []
  items := [⟨"Studio", 0, "Camera", 0, true, false, []⟩]
  settings_wellFormed := by simp
  tracks_wellFormed := by simp
  transforms_wellFormed := by simp [Json.WellFormed, Json.WellFormedMembers, Members.keys]

/-- The texts of numbers at zero. -/
def zeroTexts : NumberTexts where
  jsNumber _ := "0"
  parseF64 _ := 0.0
  rational _ := 0

/-- An item of a reply with the identifier and the index zero. -/
def listedCamera : Json :=
  .object [("sceneItemId", .number (.posInt 0)), ("sceneItemIndex", .number (.posInt 0)),
    ("sourceName", .string "Camera"), ("sceneItemEnabled", .bool true)]

/-- A peer that lists the item twice. -/
def repeatingPeer : Replies where
  scenes _ := .ok [⟨true, some 100, none,
    .object [("sceneItems", .array [listedCamera, listedCamera])]⟩]
  inputs := .ok []

theorem readItem_listedCamera : readItem zeroTexts "Studio" listedCamera =
    .ok (some ⟨"Studio", 0, "Camera", 0, true, false, []⟩) := by
  have hindex : (jsNumeric zeroTexts ((listedCamera.get "sceneItemIndex").filter fun value ↦
      !value.isNull)).isFinite = true := (Number.posInt 0).asF64_isFinite
  have hid : (listedCamera.index "sceneItemId").asF64 = some (Number.posInt 0).asF64 := rfl
  rw [readItem, hid]
  simp only [hindex, if_true]
  rfl

/-- The plan for a reply that lists an item twice ends abruptly. -/
theorem planRestore_repeating :
    repeatingPeer.planRestore zeroTexts (fun _ ↦ "0") savedCamera = none := by
  have hread : readItems zeroTexts "Studio" (repeatingPeer.scenes "Studio") =
      .ok [⟨"Studio", 0, "Camera", 0, true, false, []⟩,
        ⟨"Studio", 0, "Camera", 0, true, false, []⟩] := by
    have hstates : ([listedCamera, listedCamera].mapM (readItem zeroTexts "Studio")) =
        .ok [some ⟨"Studio", 0, "Camera", 0, true, false, []⟩,
          some ⟨"Studio", 0, "Camera", 0, true, false, []⟩] := by
      rw [mapM_cons, mapM_cons, readItem_listedCamera]
      rfl
    show (([listedCamera, listedCamera].mapM (readItem zeroTexts "Studio")) >>= fun states ↦
      pure states.reduceOption) = _
    rw [hstates]
    rfl
  refine planRestore_eq_none_iff.mpr ⟨⟨[], rfl⟩, "Studio", _, ⟨_, mem_cons_self, rfl⟩, hread, ?_⟩
  decide

end ObsMcp.Scenes
