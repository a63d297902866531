import ObsMcp.Scenes.ApplyScene

/-!
# The fields of a source

What Apply Scene wants of a source is settled field by field: three fields of its input and three of
its item. A field has a goal (`Holds`), a write that reaches the goal (`write_holds`), and actions.
A write of one field keeps the goals of the others (`write_keeps`), and a plan lists an action for a
field exactly when its goal does not hold (`InputField.emits`, `ItemField.emits`).
-/

namespace ObsMcp.Scenes

open Foundations List Option

/-! ### The wanted transform -/

/-- Transform fields that can be written and read back. -/
structure Writable (fields : Members) : Prop where
  distinct : fields.keys.Nodup
  writable : ∀ key ∈ fields.keys, key ∈ WRITABLE_TRANSFORM
  wellFormed : ∀ member ∈ fields, member.2.WellFormed

variable {key : String} {current : Current} {source : SourceSpec}

theorem transform_writable (hkey : key ∈ TRANSFORM) : key ∈ WRITABLE_TRANSFORM := by
  revert key
  decide

variable {fields : Members} {member : String × Json}

theorem mem_keys_putMember :
    key ∈ Members.keys (putMember fields member) ↔ key = member.1 ∨ key ∈ fields.keys := by
  induction fields with
  | nil => simp [putMember, Members.keys]
  | cons old fields ih =>
    unfold putMember
    split_ifs with hold
    · simp only [Members.keys, map_cons, mem_cons, hold]
      tauto
    · simp only [Members.keys, map_cons, mem_cons] at ih ⊢
      rw [ih]
      tauto

theorem mem_putMember {other : String × Json} (hother : other ∈ putMember fields member) :
    other.2 = member.2 ∨ other ∈ fields := by
  induction fields with
  | nil =>
    rw [putMember, mem_singleton] at hother
    exact .inl (by rw [hother])
  | cons old fields ih =>
    unfold putMember at hother
    split_ifs at hother with hold
    · rcases mem_cons.mp hother with rfl | hother
      · exact .inl rfl
      · exact .inr (mem_cons_of_mem _ hother)
    · rcases mem_cons.mp hother with rfl | hother
      · exact .inr mem_cons_self
      · exact (ih hother).imp id (mem_cons_of_mem _)

theorem nodup_keys_putMember (member : String × Json) (hdistinct : fields.keys.Nodup) :
    (Members.keys (putMember fields member)).Nodup := by
  induction fields with
  | nil => exact nodup_singleton _
  | cons old fields ih =>
    unfold putMember
    split_ifs with hold
    · exact hdistinct
    · obtain ⟨hnew, hdistinct⟩ := nodup_cons.mp hdistinct
      refine nodup_cons.mpr ⟨fun hmem ↦ ?_, ih hdistinct⟩
      rcases mem_keys_putMember.mp hmem with heq | hmem
      · exact hold heq
      · exact hnew hmem

theorem Writable.putMember (hfields : Writable fields) (hkey : member.1 ∈ WRITABLE_TRANSFORM)
    (hvalue : member.2.WellFormed) :
    Writable (Scenes.putMember fields member) where
  distinct := nodup_keys_putMember member hfields.distinct
  writable := by
    intro key hmem
    rcases mem_keys_putMember.mp hmem with rfl | hmem
    · exact hkey
    · exact hfields.writable key hmem
  wellFormed := by
    intro other hother
    rcases mem_putMember hother with heq | hother
    · rw [heq]
      exact hvalue
    · exact hfields.wellFormed other hother

theorem fitTransform_writable (numerals : Numerals) (video : Canvas) :
    Writable (fitTransform numerals video) where
  distinct := by
    show (["boundsType", "boundsWidth", "boundsHeight", "boundsAlignment", "alignment", "positionX",
      "positionY"] : List String).Nodup
    decide
  writable := by
    show ∀ key ∈ (["boundsType", "boundsWidth", "boundsHeight", "boundsAlignment", "alignment",
      "positionX", "positionY"] : List String), key ∈ WRITABLE_TRANSFORM
    decide
  wellFormed := by simp [fitTransform, Json.WellFormed]

/-- The wanted transform of a source can be written and read back. -/
theorem wantedTransform_writable (numerals : Numerals) (current : Current) (source : SourceSpec) :
    Writable (wantedTransform numerals current source) := by
  have hfold : ∀ (listed fields : Members), (∀ member ∈ listed,
      member.1 ∈ WRITABLE_TRANSFORM ∧ member.2.WellFormed) → Writable fields →
      Writable (listed.foldl putMember fields) := by
    intro listed
    induction listed with
    | nil => exact fun fields _ hfields ↦ hfields
    | cons member listed ih =>
      intro fields hlisted hfields
      obtain ⟨hkey, hvalue⟩ := hlisted member (by simp)
      exact ih _ (fun other hother ↦ hlisted other (by simp [hother]))
        (hfields.putMember hkey hvalue)
  refine hfold source.transform _ (fun member hmember ↦ ⟨?_, ?_⟩) ?_
  · exact transform_writable (source.transform_fields.subset (mem_map_of_mem hmember))
  · exact source.transform_wellFormed member hmember
  · split
    · exact fitTransform_writable numerals _
    · exact ⟨nodup_nil, by simp [Members.keys], by simp⟩

/-! ### Fields of an input -/

/-- A field of an input that a source may set. -/
inductive InputField
  | settings
  | muted
  | tracks

namespace InputField

/-- The input has what the source wants of the field. -/
def Holds (source : SourceSpec) : InputField → Input → Prop
  | .settings, input => ∀ settings ∈ source.settings, ∀ member ∈ settings,
      (input.settings.get member.1).any (same member.2) = true
  | .muted, input => ∀ muted ∈ source.muted, input.muted = muted
  | .tracks, input => ∀ tracks ∈ source.audioTracks, ∀ track ∈ ([1, 2, 3, 4, 5, 6] : List ℕ),
      (input.tracks.get (Nat.repr track)).any (· == .bool true) = tracks.contains track

/-- The write of the field, when the source sets it. -/
def write (source : SourceSpec) : InputField → Option (Input → Input)
  | .settings => source.settings.map fun settings input ↦
      { input with settings := input.settings.overlay (object settings) }
  | .muted => source.muted.map fun muted input ↦ { input with muted := muted }
  | .tracks => source.audioTracks.map fun tracks input ↦
      input.overlayTracks (wantedTracks tracks)

/-- The request that writes the field, when the source sets it. -/
def request (source : SourceSpec) : InputField → Option ObsRequest
  | .settings => source.settings.map fun settings ↦
      .setInputSettings source.name (object settings) true
  | .muted => source.muted.map fun muted ↦ .setInputMute source.name muted
  | .tracks => source.audioTracks.map fun tracks ↦
      .setInputAudioTracks source.name (wantedTracks tracks)

/-- The actions a plan lists for the field. -/
def actions (current : Current) (source : SourceSpec) : InputField → List Action
  | .settings => settingsActions current source
  | .muted => muteActions current source
  | .tracks => trackActions current source

variable {source : SourceSpec} {field other : InputField} {f : Input → Input} {input : Input}

variable {members : Members}

theorem get_object (hdistinct : members.keys.Nodup) (key : String) :
    (object members).get key = members.get key := by
  rw [object, Members.get_overlay hdistinct]
  cases members.get key <;> rfl

theorem get_overlay_object {patch : Members} (hdistinct : patch.keys.Nodup)
    (hmember : member ∈ patch) : (members.overlay (object patch)).get member.1 = some member.2 := by
  have hobject : (object patch).keys.Nodup := Members.nodup_keys_overlay nodup_nil
  rw [Members.get_overlay hobject, get_object hdistinct,
    Members.get_eq_some_of_mem hdistinct hmember]
  rfl

theorem nodup_keys_wantedTracks (tracks : List ℕ) : (wantedTracks tracks).keys.Nodup := by
  show (["1", "2", "3", "4", "5", "6"] : List String).Nodup
  decide

theorem write_holds (hwrite : field.write source = some f) : field.Holds source (f input) := by
  cases field with
  | settings =>
    obtain ⟨settings, hsettings, rfl⟩ := map_eq_some_iff.mp hwrite
    intro wanted hwanted member hmember
    cases hsettings.symm.trans hwanted
    rw [get_overlay_object (source.settings_distinct _ hsettings) hmember, any_some]
    exact same_self _ (source.settings_wellFormed _ hsettings member hmember)
  | muted =>
    obtain ⟨muted, hmuted, rfl⟩ := map_eq_some_iff.mp hwrite
    intro wanted hwanted
    exact some.inj (hmuted.symm.trans hwanted)
  | tracks =>
    obtain ⟨tracks, htracks, rfl⟩ := map_eq_some_iff.mp hwrite
    intro wanted hwanted track htrack
    cases htracks.symm.trans hwanted
    have hmem : (Nat.repr track, Json.bool (tracks.contains track)) ∈ wantedTracks tracks :=
      mem_map_of_mem htrack
    show ((input.tracks.overlay (wantedTracks tracks)).get (Nat.repr track)).any _ = _
    rw [Members.get_overlay (nodup_keys_wantedTracks tracks),
      Members.get_eq_some_of_mem (nodup_keys_wantedTracks tracks) hmem]
    cases tracks.contains track <;> rfl

/-- A write of a field keeps the goals of all fields. -/
theorem write_keeps (hwrite : other.write source = some f) (hholds : field.Holds source input) :
    field.Holds source (f input) := by
  by_cases hfield : field = other
  · exact hfield ▸ write_holds hwrite
  · cases other with
    | settings =>
      obtain ⟨settings, -, rfl⟩ := map_eq_some_iff.mp hwrite
      cases field with
      | settings => exact absurd rfl hfield
      | muted => exact hholds
      | tracks => exact hholds
    | muted =>
      obtain ⟨muted, -, rfl⟩ := map_eq_some_iff.mp hwrite
      cases field with
      | settings => exact hholds
      | muted => exact absurd rfl hfield
      | tracks => exact hholds
    | tracks =>
      obtain ⟨tracks, -, rfl⟩ := map_eq_some_iff.mp hwrite
      cases field with
      | settings => exact hholds
      | muted => exact hholds
      | tracks => exact absurd rfl hfield

theorem write_kind (hwrite : field.write source = some f) : (f input).kind = input.kind := by
  cases field with
  | settings =>
    obtain ⟨settings, -, rfl⟩ := map_eq_some_iff.mp hwrite
    rfl
  | muted =>
    obtain ⟨muted, -, rfl⟩ := map_eq_some_iff.mp hwrite
    rfl
  | tracks =>
    obtain ⟨tracks, -, rfl⟩ := map_eq_some_iff.mp hwrite
    rfl

/-- The request of a field performs its write. -/
theorem perform_request {request : ObsRequest} (hrequest : field.request source = some request) :
    ∃ f, field.write source = some f ∧
      ∀ (host : Host) (obs : Obs), obs.perform host request = obs.editInput source.name f := by
  cases field with
  | settings =>
    obtain ⟨settings, hsettings, rfl⟩ := map_eq_some_iff.mp hrequest
    exact ⟨_, by rw [write, hsettings]; rfl, fun _ _ ↦ rfl⟩
  | muted =>
    obtain ⟨muted, hmuted, rfl⟩ := map_eq_some_iff.mp hrequest
    exact ⟨_, by rw [write, hmuted]; rfl, fun _ _ ↦ rfl⟩
  | tracks =>
    obtain ⟨tracks, htracks, rfl⟩ := map_eq_some_iff.mp hrequest
    exact ⟨_, by rw [write, htracks]; rfl, fun _ _ ↦ rfl⟩

end InputField

/-! ### Fields of an item -/

/-- A field of an item that a source may set. -/
inductive ItemField
  | enabled
  | locked
  | transform

namespace ItemField

/-- The item has what the source wants of the field, with a wanted transform. -/
def Holds (source : SourceSpec) (wanted : Members) : ItemField → Item → Prop
  | .enabled, item => ∀ visible ∈ source.visible, item.enabled = visible
  | .locked, item => ∀ locked ∈ source.locked, item.locked = locked
  | .transform, item => ∀ member ∈ wanted,
      ((Obs.readTransform item.transform).get member.1).any
        (sameTransformValue member.1 member.2) = true

/-- The write of the field, when the source sets it. -/
def write (source : SourceSpec) (wanted : Members) : ItemField → Option (Item → Item)
  | .enabled => source.visible.map fun visible item ↦ { item with enabled := visible }
  | .locked => source.locked.map fun locked item ↦ { item with locked := locked }
  | .transform => some fun item ↦
      { item with transform := item.transform.overlay (object wanted) }

/-- The request that writes the field of an item, when the source sets it. -/
def request (source : SourceSpec) (wanted : Members) (scene : String) (id : ℚ) :
    ItemField → Option ObsRequest
  | .enabled => source.visible.map fun visible ↦ .setSceneItemEnabled scene id visible
  | .locked => source.locked.map fun locked ↦ .setSceneItemLocked scene id locked
  | .transform => some (.setSceneItemTransform scene id (object wanted))

/-- The actions a plan lists for the field. -/
def actions (numerals : Numerals) (scene : String) (current : Current) (source : SourceSpec) :
    ItemField → List Action
  | .enabled => enabledActions scene current source
  | .locked => lockedActions scene current source
  | .transform => transformActions numerals scene current source

variable {source : SourceSpec} {wanted : Members} {field other : ItemField} {f : Item → Item}
  {item : Item}

theorem write_holds (hwanted : Writable wanted) (hwrite : field.write source wanted = some f) :
    field.Holds source wanted (f item) := by
  cases field with
  | enabled =>
    obtain ⟨visible, hvisible, rfl⟩ := map_eq_some_iff.mp hwrite
    intro wanted hwanted
    exact some.inj (hvisible.symm.trans hwanted)
  | locked =>
    obtain ⟨locked, hlocked, rfl⟩ := map_eq_some_iff.mp hwrite
    intro wanted hwanted
    exact some.inj (hlocked.symm.trans hwanted)
  | transform =>
    cases hwrite
    intro member hmember
    rw [Obs.get_readTransform _ (hwanted.writable _ (mem_map_of_mem hmember)),
      InputField.get_overlay_object hwanted.distinct hmember, any_some]
    exact sameTransformValue_self (hwanted.wellFormed member hmember)

/-- A write of a field keeps the goals of all fields. -/
theorem write_keeps (hwanted : Writable wanted) (hwrite : other.write source wanted = some f)
    (hholds : field.Holds source wanted item) : field.Holds source wanted (f item) := by
  by_cases hfield : field = other
  · exact hfield ▸ write_holds hwanted hwrite
  · cases other with
    | enabled =>
      obtain ⟨visible, -, rfl⟩ := map_eq_some_iff.mp hwrite
      cases field with
      | enabled => exact absurd rfl hfield
      | locked => exact hholds
      | transform => exact hholds
    | locked =>
      obtain ⟨locked, -, rfl⟩ := map_eq_some_iff.mp hwrite
      cases field with
      | enabled => exact hholds
      | locked => exact absurd rfl hfield
      | transform => exact hholds
    | transform =>
      cases hwrite
      cases field with
      | enabled => exact hholds
      | locked => exact hholds
      | transform => exact absurd rfl hfield

/-- The request of a field performs its write. -/
theorem perform_request {scene : String} {id : ℚ} {request : ObsRequest}
    (hrequest : field.request source wanted scene id = some request) :
    ∃ f, field.write source wanted = some f ∧
      ∀ (host : Host) (obs : Obs), obs.perform host request = obs.editItem scene id f := by
  cases field with
  | enabled =>
    obtain ⟨visible, hvisible, rfl⟩ := map_eq_some_iff.mp hrequest
    exact ⟨_, by rw [write, hvisible]; rfl, fun _ _ ↦ rfl⟩
  | locked =>
    obtain ⟨locked, hlocked, rfl⟩ := map_eq_some_iff.mp hrequest
    exact ⟨_, by rw [write, hlocked]; rfl, fun _ _ ↦ rfl⟩
  | transform =>
    cases hrequest
    exact ⟨_, rfl, fun _ _ ↦ rfl⟩

end ItemField

/-! ### Emission -/

/-- Actions for a goal: none when it holds, else one change that has the request. -/
def Emits (actions : List Action) (holds : Prop) (request : Option ObsRequest) : Prop :=
  (holds ∧ actions = []) ∨
    (¬ holds ∧ ∃ action effect, actions = [action] ∧ action.phase = .change ∧
      action.effect = some effect ∧ request = some effect.request)

/-- A plan lists an action for a field of an input exactly when its goal does not hold. -/
theorem InputField.emits {input : Input}
    (hinput : current.input source.name = some (Obs.readInput source.name input))
    (field : InputField) :
    Emits (field.actions current source) (field.Holds source input) (field.request source) := by
  cases field with
  | settings =>
    unfold actions settingsActions Holds request
    rw [hinput]
    cases hsettings : source.settings with
    | none => exact .inl ⟨by simp, rfl⟩
    | some settings =>
      have hempty : (changedSettings settings (Obs.readInput source.name input)).isEmpty = true ↔
          ∀ member ∈ settings, (input.settings.get member.1).any (same member.2) = true := by
        simp [changedSettings, Obs.readInput]
      simp only [Option.mem_some_iff, forall_eq', ← hempty]
      split_ifs with hchanged
      · exact .inl ⟨hchanged, rfl⟩
      · exact .inr ⟨hchanged, _, _, rfl, rfl, rfl, rfl⟩
  | muted =>
    unfold actions muteActions Holds request
    rw [hinput]
    cases hmuted : source.muted with
    | none => exact .inl ⟨by simp, rfl⟩
    | some muted =>
      by_cases hsame : input.muted = muted
      · exact .inl ⟨by simp [hsame], by simp [Obs.readInput, hsame]⟩
      · refine .inr ⟨by simp [hsame], _, _, by simp [Obs.readInput, hsame]; rfl, rfl, rfl, rfl⟩
  | tracks =>
    unfold actions trackActions Holds request
    rw [hinput]
    cases htracks : source.audioTracks with
    | none => exact .inl ⟨by simp, rfl⟩
    | some tracks =>
      have hdiffers : (([1, 2, 3, 4, 5, 6] : List ℕ).any fun track ↦
          hasTrack (Obs.readInput source.name input) track ≠ tracks.contains track) = false ↔
          ∀ track ∈ ([1, 2, 3, 4, 5, 6] : List ℕ),
            (input.tracks.get (Nat.repr track)).any (· == .bool true) = tracks.contains track := by
        simp only [List.any_eq_false, decide_eq_true_eq, ne_eq, not_not]
        rfl
      simp only [Option.mem_some_iff, forall_eq', ← hdiffers, Option.all_some]
      by_cases hchanged : (([1, 2, 3, 4, 5, 6] : List ℕ).any fun track ↦
          hasTrack (Obs.readInput source.name input) track ≠ tracks.contains track) = true
      · rw [if_pos hchanged]
        exact .inr ⟨by rw [hchanged]; simp, _, _, rfl, rfl, rfl, rfl⟩
      · rw [if_neg hchanged]
        exact .inl ⟨by simpa using hchanged, rfl⟩

theorem ItemField.emits {numerals : Numerals} {scene : String} {item : Item} {index : ℕ}
    (hitem : current.item source.name = some (Obs.readItem scene item index)) (field : ItemField) :
    Emits (field.actions numerals scene current source)
      (field.Holds source (wantedTransform numerals current source) item)
      (field.request source (wantedTransform numerals current source) scene item.id) := by
  cases field with
  | enabled =>
    unfold actions enabledActions Holds request
    rw [hitem]
    cases hvisible : source.visible with
    | none => exact .inl ⟨by simp, rfl⟩
    | some visible =>
      by_cases hsame : item.enabled = visible
      · exact .inl ⟨by simp [hsame], by simp [Obs.readItem, hsame]⟩
      · exact .inr ⟨by simp [hsame], _, _, by simp [Obs.readItem, hsame]; rfl, rfl, rfl, rfl⟩
  | locked =>
    unfold actions lockedActions Holds request
    rw [hitem]
    cases hlocked : source.locked with
    | none => exact .inl ⟨by simp, rfl⟩
    | some locked =>
      by_cases hsame : item.locked = locked
      · exact .inl ⟨by simp [hsame], by simp [Obs.readItem, hsame]⟩
      · exact .inr ⟨by simp [hsame], _, _, by simp [Obs.readItem, hsame]; rfl, rfl, rfl, rfl⟩
  | transform =>
    unfold actions transformActions Holds request
    have hempty : (changedTransform numerals current source).isEmpty = true ↔
        ∀ member ∈ wantedTransform numerals current source,
          ((Obs.readTransform item.transform).get member.1).any
            (sameTransformValue member.1 member.2) = true := by
      simp [changedTransform, hitem, Obs.readItem]
    simp only [hitem, ← hempty]
    split_ifs with hchanged
    · exact .inl ⟨hchanged, rfl⟩
    · exact .inr ⟨hchanged, _, _, rfl, rfl, rfl, rfl⟩
    · exact .inr ⟨hchanged, _, _, rfl, rfl, rfl, rfl⟩

end ObsMcp.Scenes
