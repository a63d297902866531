import Mathlib.Data.List.Perm.Subperm
import ObsMcp.Scenes.Restore

/-!
# The fields of a snapshot

A restore settles a saved input and a saved item field by field. As for Apply Scene, a field has a
goal (`Holds`), a write, and changes that a plan lists exactly when the goal does not hold. A write
of tracks or of a transform reaches its goal only if the saved object covers the present one
(`InputCovered`, `ItemCovered`): the write leaves the keys that are not saved, and the goal does not
allow them.
-/

namespace ObsMcp.Scenes

open Foundations List Option Members

/-- Changes for a goal: none when it holds, else one that has the request. -/
def Restores (changes : List RestoreChange) (holds : Prop) (request : Option ObsRequest) : Prop :=
  (holds ∧ changes = []) ∨
    (¬ holds ∧ ∃ change, changes = [change] ∧ request = some change.mutation.request)

/-! ### Comparison of objects -/

variable {xs ys : Members}

theorem same_object_iff :
    same (.object xs) (.object ys) = true ↔
      xs.length = ys.length ∧ ∀ member ∈ xs, ∃ y, ys.get member.1 = some y ∧
        same member.2 y = true := by
  rw [same, Bool.and_eq_true, beq_iff_eq, sameMembers_iff]

/-- An object with the same members has no further keys. -/
theorem keys_of_same_object (hxs : xs.keys.Nodup) (hsame : same (.object xs) (.object ys) = true)
    {key : String} (hkey : key ∈ ys.keys) : key ∈ xs.keys := by
  obtain ⟨hlength, hmembers⟩ := same_object_iff.mp hsame
  have hsubset : xs.keys ⊆ ys.keys := by
    intro other hother
    obtain ⟨member, hmember, rfl⟩ := List.mem_map.mp hother
    obtain ⟨y, hy, -⟩ := hmembers member hmember
    rw [mem_keys_iff, hy]
    simp
  have hperm := (subperm_of_subset hxs hsubset).perm_of_length_le
    (by simp only [Members.keys, length_map]; omega)
  exact hperm.mem_iff.mpr hkey

/-- Members put over those they cover are the result. -/
theorem same_object_overlay (hxs : (Json.object xs).WellFormed) (hys : ys.keys.Nodup)
    (hcovered : ∀ key ∈ ys.keys, key ∈ xs.keys) :
    same (.object xs) (.object (ys.overlay xs)) = true := by
  rw [Json.WellFormed, Json.wellFormedMembers_iff] at hxs
  obtain ⟨hdistinct, hvalues⟩ := hxs
  have hperm : (ys.overlay xs).keys.Perm xs.keys := by
    refine (perm_ext_iff_of_nodup (nodup_keys_overlay hys) hdistinct).mpr fun key ↦ ?_
    rw [mem_keys_overlay]
    exact ⟨fun h ↦ h.elim id (hcovered key), .inl⟩
  refine same_object_iff.mpr ⟨?_, fun member hmember ↦ ⟨member.2, ?_, ?_⟩⟩
  · have hlength := hperm.length_eq
    simp only [Members.keys, length_map] at hlength
    exact hlength.symm
  · rw [get_overlay hdistinct, get_eq_some_of_mem hdistinct hmember]
    rfl
  · exact same_self _ (hvalues member hmember)

theorem sameTransform_iff {a b : Members} :
    sameTransform a b = true ↔
      (∀ key x, a.get key = some x → ∃ y, b.get key = some y ∧
        sameTransformValue key x y = true) ∧ ∀ key ∈ b.keys, key ∈ a.keys := by
  unfold sameTransform
  rw [List.all_eq_true]
  constructor
  · intro hall
    constructor
    · intro key x hx
      have hkey := hall key (mem_append_left _ (mem_keys_iff.mpr (by simp [hx])))
      rw [hx] at hkey
      cases hy : b.get key with
      | none => simp [hy] at hkey
      | some y => exact ⟨y, rfl, by simpa [hy] using hkey⟩
    · intro key hkey
      have hboth := hall key (mem_append_right _ hkey)
      obtain ⟨y, hy⟩ := ne_none_iff_exists'.mp (mem_keys_iff.mp hkey)
      rw [mem_keys_iff]
      intro hnone
      simp [hy, hnone] at hboth
  · rintro ⟨hsaved, hlive⟩ key hkey
    have hmem : key ∈ a.keys := (mem_append.mp hkey).elim id (hlive key)
    obtain ⟨x, hx⟩ := ne_none_iff_exists'.mp (mem_keys_iff.mp hmem)
    obtain ⟨y, hy, hsame⟩ := hsaved key x hx
    rw [hx, hy]
    exact hsame

/-! ### Inputs -/

/-- The saved tracks have every key of the present ones. -/
def InputCovered (saved : InputState) (input : Input) : Prop :=
  ∀ tracks ∈ saved.audioTracks, ∀ key ∈ input.tracks.keys, key ∈ tracks.keys

inductive SavedInputField
  | settings
  | muted
  | volume
  | tracks

namespace SavedInputField

/-- The input has the saved value of the field. -/
def Holds (saved : InputState) : SavedInputField → Input → Prop
  | .settings, input => same (.object saved.inputSettings) (.object input.settings) = true
  | .muted, input => ∀ muted ∈ saved.muted, input.muted = muted
  | .volume, input => ∀ volume ∈ saved.volumeMul,
      ¬ 1e-6 ≤ (volume.value - input.volume.value).abs
  | .tracks, input => ∀ tracks ∈ saved.audioTracks,
      same (.object tracks) (.object input.tracks) = true

/-- The write of the field, when it is saved. -/
def write (saved : InputState) : SavedInputField → Option (Input → Input)
  | .settings => some fun input ↦ { input with settings := saved.inputSettings }
  | .muted => saved.muted.map fun muted input ↦ { input with muted := muted }
  | .volume => saved.volumeMul.map fun volume input ↦ { input with volume := volume }
  | .tracks => saved.audioTracks.map fun tracks input ↦ input.overlayTracks tracks

/-- The request that writes the field, when it is saved. -/
def request (saved : InputState) : SavedInputField → Option ObsRequest
  | .settings => some (.setInputSettings saved.inputName saved.inputSettings false)
  | .muted => saved.muted.map fun muted ↦ .setInputMute saved.inputName muted
  | .volume => saved.volumeMul.map fun volume ↦ .setInputVolumeMul saved.inputName volume
  | .tracks => saved.audioTracks.map fun tracks ↦ .setInputAudioTracks saved.inputName tracks

/-- The changes a plan lists for the field. -/
def changes (saved current : InputState) : SavedInputField → List RestoreChange
  | .settings => settingsChanges saved current
  | .muted => muteChanges saved current
  | .volume => volumeChanges saved current
  | .tracks => trackChanges saved current

variable {saved : InputState} {field other : SavedInputField} {f : Input → Input} {input : Input}

/-- A write of a field reaches its goal. Assumes: the saved objects are well formed, and the saved
tracks cover the present ones. -/
theorem write_holds (hsettings : (Json.object saved.inputSettings).WellFormed)
    (htracks : ∀ tracks ∈ saved.audioTracks, (Json.object tracks).WellFormed)
    (hcovered : InputCovered saved input) (hwrite : field.write saved = some f) :
    field.Holds saved (f input) := by
  cases field with
  | settings =>
    cases hwrite
    exact same_self _ hsettings
  | muted =>
    obtain ⟨muted, hmuted, rfl⟩ := map_eq_some_iff.mp hwrite
    intro wanted hwanted
    exact Option.some.inj (hmuted.symm.trans hwanted)
  | volume =>
    obtain ⟨volume, hvolume, rfl⟩ := map_eq_some_iff.mp hwrite
    intro wanted hwanted
    cases hvolume.symm.trans hwanted
    show ¬ 1e-6 ≤ (volume.value - volume.value).abs
    rw [Binary64.abs_sub_self volume.finite]
    decide +kernel
  | tracks =>
    obtain ⟨tracks, hsaved, rfl⟩ := map_eq_some_iff.mp hwrite
    intro wanted hwanted
    cases hsaved.symm.trans hwanted
    exact same_object_overlay (htracks tracks hsaved) input.tracks_distinct
      (hcovered tracks hsaved)

/-- A write of another field keeps a goal. -/
theorem write_keeps_other (hfield : field ≠ other) (hwrite : other.write saved = some f) :
    field.Holds saved (f input) ↔ field.Holds saved input := by
  cases other with
  | settings =>
    cases hwrite
    cases field <;> first | exact absurd rfl hfield | exact Iff.rfl
  | muted =>
    obtain ⟨muted, -, rfl⟩ := map_eq_some_iff.mp hwrite
    cases field <;> first | exact absurd rfl hfield | exact Iff.rfl
  | volume =>
    obtain ⟨volume, -, rfl⟩ := map_eq_some_iff.mp hwrite
    cases field <;> first | exact absurd rfl hfield | exact Iff.rfl
  | tracks =>
    obtain ⟨tracks, -, rfl⟩ := map_eq_some_iff.mp hwrite
    cases field <;> first | exact absurd rfl hfield | exact Iff.rfl

/-- A write adds only saved track keys, and takes none away. -/
theorem write_tracks (hwrite : field.write saved = some f) :
    (∀ key ∈ input.tracks.keys, key ∈ (f input).tracks.keys) ∧
      (InputCovered saved input → InputCovered saved (f input)) := by
  cases field with
  | settings =>
    cases hwrite
    exact ⟨fun _ hkey ↦ hkey, fun hcovered ↦ hcovered⟩
  | muted =>
    obtain ⟨muted, -, rfl⟩ := map_eq_some_iff.mp hwrite
    exact ⟨fun _ hkey ↦ hkey, fun hcovered ↦ hcovered⟩
  | volume =>
    obtain ⟨volume, -, rfl⟩ := map_eq_some_iff.mp hwrite
    exact ⟨fun _ hkey ↦ hkey, fun hcovered ↦ hcovered⟩
  | tracks =>
    obtain ⟨tracks, hsaved, rfl⟩ := map_eq_some_iff.mp hwrite
    refine ⟨fun key hkey ↦ mem_keys_overlay.mpr (.inr hkey), ?_⟩
    intro hcovered wanted hwanted key hkey
    cases hsaved.symm.trans hwanted
    exact (mem_keys_overlay.mp hkey).elim id (hcovered tracks hsaved key)

/-- The request of a field performs its write. -/
theorem perform_request {request : ObsRequest} (hrequest : field.request saved = some request) :
    ∃ f, field.write saved = some f ∧
      ∀ (host : Host) (obs : Obs), obs.perform host request = obs.editInput saved.inputName f := by
  cases field with
  | settings =>
    cases hrequest
    exact ⟨_, rfl, fun _ _ ↦ rfl⟩
  | muted =>
    obtain ⟨muted, hmuted, rfl⟩ := map_eq_some_iff.mp hrequest
    exact ⟨_, by rw [write, hmuted]; rfl, fun _ _ ↦ rfl⟩
  | volume =>
    obtain ⟨volume, hvolume, rfl⟩ := map_eq_some_iff.mp hrequest
    exact ⟨_, by rw [write, hvolume]; rfl, fun _ _ ↦ rfl⟩
  | tracks =>
    obtain ⟨tracks, htracks, rfl⟩ := map_eq_some_iff.mp hrequest
    exact ⟨_, by rw [write, htracks]; rfl, fun _ _ ↦ rfl⟩

/-- A plan lists a change for a field of an input exactly when its goal does not hold. -/
theorem restores (field : SavedInputField) (saved : InputState) (input : Input) :
    Restores (field.changes saved (Obs.readInput saved.inputName input)) (field.Holds saved input)
      (field.request saved) := by
  cases field with
  | settings =>
    unfold changes settingsChanges Holds
    by_cases hsame : same (.object saved.inputSettings) (.object input.settings) = true
    · exact .inl ⟨hsame, if_pos hsame⟩
    · exact .inr ⟨hsame, _, if_neg hsame, rfl⟩
  | muted =>
    unfold changes muteChanges Holds request
    cases saved.muted with
    | none => exact .inl ⟨by simp, rfl⟩
    | some muted =>
      by_cases hsame : input.muted = muted
      · exact .inl ⟨by simp [hsame], by simp [Obs.readInput, hsame]⟩
      · exact .inr ⟨by simp [hsame], _, by simp [Obs.readInput, Ne.symm hsame]; rfl, rfl⟩
  | volume =>
    unfold changes volumeChanges Holds request
    cases saved.volumeMul with
    | none => exact .inl ⟨by simp, rfl⟩
    | some volume =>
      by_cases hfar : 1e-6 ≤ (volume.value - input.volume.value).abs
      · exact .inr ⟨by simp [hfar], _, by simp [Obs.readInput, hfar]; rfl, rfl⟩
      · exact .inl ⟨by simp [hfar], by simp [Obs.readInput, hfar]⟩
  | tracks =>
    unfold changes trackChanges Holds request
    cases saved.audioTracks with
    | none => exact .inl ⟨by simp, rfl⟩
    | some tracks =>
      by_cases hsame : same (.object tracks) (.object input.tracks) = true
      · exact .inl ⟨by simp [hsame], by simp [Obs.readInput, hsame]⟩
      · exact .inr ⟨by simp [hsame], _, by simp [Obs.readInput, hsame]; rfl, rfl⟩

end SavedInputField

/-! ### Items -/

/-- The saved transform has only fields that are read, and every field that is read. -/
def ItemCovered (saved : ItemState) (item : Item) : Prop :=
  (∀ key ∈ saved.transform.keys, key ∈ WRITABLE_TRANSFORM) ∧
    ∀ key ∈ item.transform.keys, key ∈ WRITABLE_TRANSFORM → key ∈ saved.transform.keys

inductive SavedItemField
  | transform
  | enabled
  | locked

namespace SavedItemField

/-- The item has the saved value of the field. -/
def Holds (saved : ItemState) : SavedItemField → Item → Prop
  | .transform, item => sameTransform saved.transform (Obs.readTransform item.transform) = true
  | .enabled, item => saved.enabled = item.enabled
  | .locked, item => saved.locked = item.locked

/-- The write of the field. -/
def write (saved : ItemState) : SavedItemField → Item → Item
  | .transform, item => { item with transform := item.transform.overlay saved.transform }
  | .enabled, item => { item with enabled := saved.enabled }
  | .locked, item => { item with locked := saved.locked }

/-- The request that writes the field. -/
def request (saved : ItemState) : SavedItemField → ObsRequest
  | .transform => .setSceneItemTransform saved.sceneName saved.sceneItemId saved.transform
  | .enabled => .setSceneItemEnabled saved.sceneName saved.sceneItemId saved.enabled
  | .locked => .setSceneItemLocked saved.sceneName saved.sceneItemId saved.locked

/-- The changes a plan lists for the field. -/
def changes (displayNumber : ℚ → String) (saved current : ItemState) :
    SavedItemField → List RestoreChange
  | .transform => transformChanges displayNumber saved current
  | .enabled => enabledChanges displayNumber saved current
  | .locked => lockedChanges displayNumber saved current

variable {saved : ItemState} {field other : SavedItemField} {item : Item}

theorem mem_keys_readTransform {transform : Members} {key : String} :
    key ∈ (Obs.readTransform transform).keys ↔
      key ∈ transform.keys ∧ key ∈ WRITABLE_TRANSFORM := by
  simp only [Members.keys, Obs.readTransform, List.mem_map, List.mem_filter, decide_eq_true_eq]
  constructor
  · rintro ⟨member, ⟨hmember, hwritable⟩, rfl⟩
    exact ⟨⟨member, hmember, rfl⟩, hwritable⟩
  · rintro ⟨⟨member, hmember, rfl⟩, hwritable⟩
    exact ⟨member, ⟨hmember, hwritable⟩, rfl⟩

/-- A write of a field reaches its goal. Assumes: the saved transform is well formed and covers the
present one. -/
theorem write_holds (htransform : (Json.object saved.transform).WellFormed)
    (hcovered : ItemCovered saved item) : field.Holds saved (field.write saved item) := by
  cases field with
  | transform =>
    rw [Json.WellFormed, Json.wellFormedMembers_iff] at htransform
    obtain ⟨hdistinct, hvalues⟩ := htransform
    refine sameTransform_iff.mpr ⟨fun key x hx ↦ ⟨x, ?_, ?_⟩, fun key hkey ↦ ?_⟩
    · have hkey := hcovered.1 key (mem_keys_iff.mpr (by simp [hx]))
      rw [Obs.get_readTransform _ hkey, write, get_overlay hdistinct, hx]
      rfl
    · exact sameTransformValue_self (hvalues (key, x) (mem_of_get_eq_some hx))
    · obtain ⟨hkey, hwritable⟩ := mem_keys_readTransform.mp hkey
      exact (mem_keys_overlay.mp hkey).elim id fun hlive ↦
        hcovered.2 key hlive hwritable
  | enabled => rfl
  | locked => rfl

/-- A write of another field keeps a goal. -/
theorem write_keeps_other (hfield : field ≠ other) :
    field.Holds saved (other.write saved item) ↔ field.Holds saved item := by
  cases other <;> cases field <;> first | exact absurd rfl hfield | exact Iff.rfl

/-- A write adds only saved transform fields, and takes none away. -/
theorem write_transform :
    (∀ key ∈ item.transform.keys, key ∈ (field.write saved item).transform.keys) ∧
      (ItemCovered saved item → ItemCovered saved (field.write saved item)) := by
  cases field with
  | transform =>
    refine ⟨fun key hkey ↦ mem_keys_overlay.mpr (.inr hkey), ?_⟩
    rintro ⟨hsaved, hlive⟩
    refine ⟨hsaved, fun key hkey hwritable ↦ ?_⟩
    exact (mem_keys_overlay.mp hkey).elim id fun hkey ↦ hlive key hkey hwritable
  | enabled => exact ⟨fun _ hkey ↦ hkey, fun hcovered ↦ hcovered⟩
  | locked => exact ⟨fun _ hkey ↦ hkey, fun hcovered ↦ hcovered⟩

/-- The request of a field performs its write. -/
theorem perform_request (host : Host) (obs : Obs) :
    obs.perform host (field.request saved) =
      obs.editItem saved.sceneName saved.sceneItemId (field.write saved) := by
  cases field <;> rfl

theorem write_frame :
    { field.write saved item with id := item.id, source := item.source } =
      field.write saved item := by
  cases field <;> rfl

/-- A plan lists a change for a field of an item exactly when its goal does not hold. -/
theorem restores (displayNumber : ℚ → String) (field : SavedItemField) (saved : ItemState)
    (item : Item) (index : ℕ) :
    Restores (field.changes displayNumber saved (Obs.readItem saved.sceneName item index))
      (field.Holds saved item) (some (field.request saved)) := by
  cases field with
  | transform =>
    unfold changes transformChanges Holds
    by_cases hsame : sameTransform saved.transform (Obs.readTransform item.transform) = true
    · exact .inl ⟨hsame, if_pos hsame⟩
    · exact .inr ⟨hsame, _, if_neg hsame, rfl⟩
  | enabled =>
    unfold changes enabledChanges Holds
    by_cases hsame : saved.enabled = item.enabled
    · exact .inl ⟨hsame, if_neg (not_not_intro hsame)⟩
    · exact .inr ⟨hsame, _, if_pos hsame, rfl⟩
  | locked =>
    unfold changes lockedChanges Holds
    by_cases hsame : saved.locked = item.locked
    · exact .inl ⟨hsame, if_neg (not_not_intro hsame)⟩
    · exact .inr ⟨hsame, _, if_pos hsame, rfl⟩

end SavedItemField

end ObsMcp.Scenes
