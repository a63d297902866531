import ObsMcp.Dynamic.Contract
import ObsMcp.Foundations.Overrides
import ObsMcp.Protocol.Prompts

/-!
# The visibility of the tools

`Visibility.new` gives each tool of a contract its state from the availability and the settings, and
`Visibility.setGroups` turns the registered tools of some groups on or off, one after another in the
registry order. A `State` carries that an enabled tool is registered and a registered one available,
and a `Visibility` that it has a state for each tool.

`setGroups_ok_iff` says what a switch does as a whole: each tool's state is switched where the tool
stands in one of the groups, and there is one effect for each tool whose flag changes. `new_spec`
says what the initial states promise: a read-only session registers read-only tools only, and a
capture session has no stream control available.
-/

namespace ObsMcp.Dynamic

open Foundations List
open Foundations.Text (trimMatches)

/-! ### Availability and settings -/

/-- Whether the session captures takes or media. -/
inductive CaptureProfile
  | standalone
  | takeOrMedia
  deriving DecidableEq

/-- The names of the tools that the session may offer. -/
structure Availability where
  names : List String

def Availability.new (contract : Contract) (names : List String) (profile : CaptureProfile) :
    Except Error Availability :=
  if names.all (contract.knownNames.contains ·) then
    .ok ⟨names.filter fun name ↦ profile ≠ .takeOrMedia || !stream.contains name⟩
  else .error .contract

structure Settings where
  dynamic : Bool
  toolsets : Option String
  tools : Option String
  readOnly : Bool

/-- A configuration text that says yes. -/
def enabled (value : String) : Bool :=
  ["1", "true", "yes"].contains (String.ofList
    ((trimMatches Protocol.Catalog.trimmed value.toList).map Char.toLower))

def Settings.parse (get : String → Option String) : Settings where
  dynamic := (get "OBS_MCP_DYNAMIC_TOOLSETS").any enabled
  toolsets := get "OBS_MCP_TOOLSETS"
  tools := get "OBS_MCP_TOOLS"
  readOnly := (get "OBS_MCP_READ_ONLY").any enabled

/-- The nonempty entries of a list with commas. -/
def split (value : Option String) : List String :=
  (((value.getD "").toList.splitOn ',').map fun entry ↦
    String.ofList (trimMatches Protocol.Catalog.trimmed entry)).filter (· ≠ "")

/-! ### States and transitions -/

/-- What a session does with a tool. -/
structure State where
  available : Bool
  registered : Bool
  enabled : Bool
  available_of_registered : registered = true → available = true
  registered_of_enabled : enabled = true → registered = true
  deriving DecidableEq

/-- A tool whose flag has changed. -/
structure VisibilityChanged where
  name : String
  enabled : Bool
  deriving DecidableEq

inductive Projection
  | completeSourceAvailability
  | availabilityRestricted
  deriving DecidableEq

structure Counts where
  known : ℕ
  available : ℕ
  registered : ℕ
  enabled : ℕ

structure GroupFacts where
  group : String
  counts : Counts

structure Transition where
  result : Members
  effects : List VisibilityChanged
  projection : Projection

@[ext] structure Visibility where
  contract : Contract
  states : List State
  dynamic : Bool
  projection : Projection
  length_states : states.length = contract.tools.length

/-! ### The initial visibility -/

/-- The groups that the settings select: all of them, or those with the given indices. -/
def Contract.selectGroups (contract : Contract) (dynamic : Bool)
    (groupNames explicit : List String) : Except Error (Bool × List ℕ) :=
  if dynamic = true ∧ groupNames = [] then
    match position contract.groupNames "general" with
    | some index => .ok (false, [index])
    | none => .error .contract
  else if (groupNames = [] ∧ explicit = []) ∨ "all" ∈ groupNames then
    .ok (true, [])
  else do
    let indices ← groupNames.mapM fun name ↦
      if name = "core" then .ok contract.core
      else
        match position contract.groupNames name with
        | some index => .ok [index]
        | none => .error (.configuration ("Unknown OBS_MCP_TOOLSETS entry \"" ++ name ++
            "\". Use all, core, or: " ++ ", ".intercalate contract.groupNames))
    .ok (false, indices.flatten)

/-- The initial state of a tool. -/
def Tool.initialState (tool : Tool) (availability : Availability) (settings : Settings)
    (all : Bool) (groups : List ℕ) (explicit : List String) : State :=
  let available := availability.names.contains tool.name
  let selected := (!settings.readOnly || tool.readOnly) &&
    (all || groups.contains tool.group || explicit.contains tool.name)
  let registered := available && (!settings.readOnly || tool.readOnly) &&
    (settings.dynamic || selected)
  { available := available
    registered := registered
    enabled := registered && selected
    available_of_registered := by
      intro hregistered
      simp only [registered, Bool.and_eq_true] at hregistered
      exact hregistered.1.1
    registered_of_enabled := fun henabled ↦ (Bool.and_eq_true_iff.mp henabled).1 }

namespace Visibility

def new (contract : Contract) (availability : Availability) (settings : Settings) :
    Except Error Visibility :=
  let groupNames := split settings.toolsets
  let explicit := (split settings.tools).eraseDups
  let unknown := explicit.filter (!contract.knownNames.contains ·)
  if availability.names.any (!contract.knownNames.contains ·) then .error .contract
  else
    match contract.selectGroups settings.dynamic groupNames explicit with
    | .error error => .error error
    | .ok (all, groups) =>
      let states := contract.tools.map fun tool ↦
        tool.initialState availability settings all groups explicit
      let projection := if states.all State.available then .completeSourceAvailability
        else .availabilityRestricted
      if unknown ≠ [] then
        .error (.configuration ("Unknown OBS_MCP_TOOLS entries: " ++ ", ".intercalate unknown))
      else if states.any State.registered = false then
        .error (.configuration "The tool filter excludes every tool")
      else .ok ⟨contract, states, settings.dynamic, projection, length_map _⟩

variable (visibility : Visibility)

/-- The tools with their states. -/
def cells : List (Tool × State) :=
  visibility.contract.tools.zip visibility.states

def state (name : String) : Option State :=
  (position visibility.contract.knownNames name).bind (visibility.states[·]?)

def enabledNames : List String :=
  (visibility.cells.filter fun cell ↦ cell.2.enabled).map fun cell ↦ cell.1.name

/-- The totals of each group. -/
def groupFacts : List GroupFacts :=
  visibility.contract.groups.zipIdx.map fun (group, index) ↦
    let members := visibility.cells.filter fun cell ↦ cell.1.group = index
    ⟨group.name, members.length, members.countP fun cell ↦ cell.2.available,
      members.countP fun cell ↦ cell.2.registered, members.countP fun cell ↦ cell.2.enabled⟩

/-- One line of the listing: the group, its enabled and its registered tools. -/
def listed (group : Group) (enabled total : ℕ) : String :=
  (if enabled = total then "on " else if enabled = 0 then "off" else "part") ++ " " ++ group.name ++
    " (" ++ toString enabled ++ "/" ++ toString total ++ "): " ++ group.covers

def result (text : String) (structured : List (String × Json)) : Members :=
  Members.overlay []
    [("content", .array [.ofMembers [("type", .string "text"), ("text", .string text)]]),
      ("structuredContent", .ofMembers structured)]

def count (n : ℕ) : Json := .number (.posInt (UInt64.ofNat n))

def list : Except Error Transition :=
  if visibility.dynamic = false then .error .unavailableController
  else
    let groups := visibility.contract.groups.zipIdx.filterMap fun (group, index) ↦
      let states := (visibility.cells.filter fun cell ↦
        cell.1.group = index && cell.2.registered).map Prod.snd
      if states = [] then none else some (group, states.countP State.enabled, states.length)
    let lines := groups.map fun (group, enabled, total) ↦ listed group enabled total
    let entries := groups.map fun (group, enabled, total) ↦ Json.ofMembers
      [("group", .string group.name), ("enabled", count enabled), ("total", count total),
        ("covers", .string group.covers)]
    .ok ⟨result ("\n".intercalate lines) [("groups", .array entries)], [], visibility.projection⟩

end Visibility

/-! ### Switching groups -/

namespace State

/-- A registered tool turned on or off. -/
def setEnabled (state : State) (enable : Bool) (hregistered : state.registered = true) : State where
  available := state.available
  registered := state.registered
  enabled := enable
  available_of_registered := state.available_of_registered
  registered_of_enabled := fun _ ↦ hregistered

end State

/-- The groups hold the tool. -/
def Holds (contract : Contract) (groups : List String) (tool : Tool) : Prop :=
  ∃ name ∈ groups, contract.groupOf tool = some name

instance (contract : Contract) (groups : List String) (tool : Tool) :
    Decidable (Holds contract groups tool) :=
  inferInstanceAs (Decidable (∃ name ∈ groups, contract.groupOf tool = some name))

namespace Visibility

/-- One turn of the loop over the registry order, with the states and the effects so far. -/
def turn (contract : Contract) (groups : List String) (enable : Bool)
    (progress : List State × List VisibilityChanged) (index : ℕ) :
    List State × List VisibilityChanged :=
  match contract.tools[index]?, progress.1[index]? with
  | some tool, some state =>
    if h : state.registered = true ∧ Holds contract groups tool ∧ state.enabled ≠ enable then
      (progress.1.set index (state.setEnabled enable h.1),
        progress.2 ++ [⟨tool.name, enable⟩])
    else progress
  | _, _ => progress

theorem length_turn (contract : Contract) (groups : List String) (enable : Bool)
    (progress : List State × List VisibilityChanged) (index : ℕ) :
    (turn contract groups enable progress index).1.length = progress.1.length := by
  unfold turn
  split
  · split_ifs
    · exact length_set
    · rfl
  · rfl

theorem length_turns (contract : Contract) (groups : List String) (enable : Bool)
    (order : List ℕ) (progress : List State × List VisibilityChanged) :
    (order.foldl (turn contract groups enable) progress).1.length = progress.1.length := by
  induction order generalizing progress with
  | nil => rfl
  | cons index order ih => rw [foldl_cons, ih, length_turn]

/-- What a switch answers: the tools that have changed. -/
def switchText (groups changed : List String) (enable : Bool) : String :=
  if changed = [] then
    "Nothing to change: " ++ ", ".intercalate groups ++ " " ++
      (if enable then "already on" else "already off")
  else
    (if enable then "Enabled" else "Disabled") ++ " " ++ toString changed.length ++
      " tool(s) in " ++ ", ".intercalate groups ++ ": " ++ ", ".intercalate changed

def setGroups (visibility : Visibility) (groups : List String) (enable : Bool) :
    Except Error (Transition × Visibility) :=
  if visibility.dynamic = false then .error .unavailableController
  else if groups = [] ∨ ∃ name ∈ groups, name ∉ visibility.contract.groupNames then
    .error .invalidArguments
  else
    let turned := visibility.contract.registryOrder.foldl
      (turn visibility.contract groups enable) (visibility.states, [])
    let changed := turned.2.map VisibilityChanged.name
    .ok (⟨result (switchText groups changed enable)
        [("groups", .array (groups.map .string)), ("changed", .array (changed.map .string))],
        turned.2, visibility.projection⟩,
      ⟨visibility.contract, turned.1, visibility.dynamic, visibility.projection,
        (length_turns _ _ _ _ _).trans visibility.length_states⟩)

end Visibility

/-! ### What a switch does -/

/-- A tool that may be off, turned on or off when it is registered. -/
def State.switched (enable : Bool) (state : State) : State :=
  if h : state.registered = true then state.setEnabled enable h else state

namespace State

variable {state : State} {enable earlier : Bool}

theorem switched_registered (hregistered : state.registered = true) :
    state.switched enable = state.setEnabled enable hregistered :=
  dif_pos hregistered

theorem switched_unregistered (hregistered : ¬ state.registered = true) :
    state.switched enable = state :=
  dif_neg hregistered

@[simp] theorem available_switched : (state.switched enable).available = state.available := by
  unfold switched
  split_ifs <;> rfl

@[simp] theorem registered_switched : (state.switched enable).registered = state.registered := by
  unfold switched
  split_ifs <;> rfl

theorem setEnabled_congr {other : State} (havailable : state.available = other.available)
    (hsame : state.registered = other.registered) (hstate : state.registered = true)
    (hother : other.registered = true) :
    state.setEnabled enable hstate = other.setEnabled enable hother := by
  simp only [setEnabled, havailable, hsame]

/-- A second switch hides the first. -/
theorem switched_switched (enable earlier : Bool) (state : State) :
    (state.switched earlier).switched enable = state.switched enable := by
  by_cases hregistered : state.registered = true
  · have hearlier : (state.switched earlier).registered = true :=
      registered_switched.trans hregistered
    calc (state.switched earlier).switched enable
        = (state.switched earlier).setEnabled enable hearlier := switched_registered hearlier
      _ = state.setEnabled enable hregistered :=
          setEnabled_congr available_switched registered_switched hearlier hregistered
      _ = state.switched enable := (switched_registered hregistered).symm
  · rw [switched_unregistered hregistered]

theorem switched_self (henabled : state.enabled = enable) : state.switched enable = state := by
  unfold switched
  split_ifs
  · subst henabled
    rfl
  · rfl

/-- A switch changes the flag exactly when the tool is registered and stands the other way. -/
theorem enabled_switched_ne_iff : (state.switched enable).enabled ≠ state.enabled ↔
    state.registered = true ∧ state.enabled ≠ enable := by
  by_cases hregistered : state.registered = true
  · rw [switched_registered hregistered]
    simp [setEnabled, hregistered, eq_comm]
  · rw [switched_unregistered hregistered]
    simp [hregistered]

end State

namespace Visibility

open Overrides (Change)

section Turns

variable (contract : Contract) (groups : List String) (enable : Bool)

/-- The state of a tool after a switch. -/
def after (tool : Tool) (state : State) : State :=
  if Holds contract groups tool then state.switched enable else state

/-- The effect of a switch on a tool. -/
def effectOn (tool : Tool) (state : State) : Option VisibilityChanged :=
  if (after contract groups enable tool state).enabled ≠ state.enabled then
    some ⟨tool.name, enable⟩
  else none

def effectAt (states : List State) (index : ℕ) : Option VisibilityChanged :=
  match contract.tools[index]?, states[index]? with
  | some tool, some state => effectOn contract groups enable tool state
  | _, _ => none

theorem turns_iff (tool : Tool) (state : State) :
    (state.registered = true ∧ Holds contract groups tool ∧ state.enabled ≠ enable) ↔
      (after contract groups enable tool state).enabled ≠ state.enabled := by
  unfold after
  by_cases hholds : Holds contract groups tool
  · rw [if_pos hholds, State.enabled_switched_ne_iff]
    simp [hholds]
  · rw [if_neg hholds]
    simp [hholds]

/-- A turn sets the state of its tool and adds its effect. -/
theorem turn_eq (progress : List State × List VisibilityChanged) (index : ℕ) :
    turn contract groups enable progress index =
      (match contract.tools[index]? with
        | some tool => progress.1.modify index (after contract groups enable tool)
        | none => progress.1,
      progress.2 ++ (effectAt contract groups enable progress.1 index).toList) := by
  unfold turn effectAt
  cases htool : contract.tools[index]? with
  | none => simp
  | some tool =>
    cases hstate : progress.1[index]? with
    | none =>
      have hshort := getElem?_eq_none_iff.mp hstate
      simp [modify_eq_self hshort]
    | some state =>
      obtain ⟨hlt, hget⟩ := List.getElem?_eq_some_iff.mp hstate
      have hmodify : progress.1.modify index (after contract groups enable tool) =
          progress.1.set index (after contract groups enable tool state) := by
        rw [modify_eq_set_getElem?, hstate]
        rfl
      show (if h : _ then _ else _) = _
      simp only [hmodify, effectOn]
      by_cases hturns : (after contract groups enable tool state).enabled ≠ state.enabled
      · obtain ⟨hregistered, hholds, henabled⟩ :=
          (turns_iff contract groups enable tool state).mpr hturns
        rw [dif_pos ⟨hregistered, hholds, henabled⟩, if_pos hturns, after, if_pos hholds,
          State.switched_registered hregistered]
        rfl
      · have hno := mt (turns_iff contract groups enable tool state).mp hturns
        have hsame : after contract groups enable tool state = state := by
          unfold after
          split_ifs with hholds
          · by_cases hregistered : state.registered = true
            · refine State.switched_self (not_not.mp fun hne ↦ hno ⟨hregistered, hholds, hne⟩)
            · exact State.switched_unregistered hregistered
          · rfl
        rw [dif_neg hno, if_neg hturns, hsame, ← hget, set_getElem_self]
        simp

theorem getElem?_turn (progress : List State × List VisibilityChanged) (index other : ℕ) :
    (turn contract groups enable progress index).1[other]? =
      if index = other then
        (progress.1[other]?).map fun state ↦
          (contract.tools[other]?).elim state (after contract groups enable · state)
      else progress.1[other]? := by
  rw [turn_eq]
  by_cases hindex : index = other
  · subst hindex
    cases htool : contract.tools[index]? with
    | none => simp
    | some tool => simp
  · cases htool : contract.tools[index]? with
    | none => simp [hindex]
    | some tool => simp [hindex]

/-- Assumes: distinct indices. The loop turns the tools at the indices, each once. -/
theorem getElem?_turns {order : List ℕ} (hdistinct : order.Nodup)
    (progress : List State × List VisibilityChanged) (other : ℕ) :
    (order.foldl (turn contract groups enable) progress).1[other]? =
      if other ∈ order then
        (progress.1[other]?).map fun state ↦
          (contract.tools[other]?).elim state (after contract groups enable · state)
      else progress.1[other]? := by
  induction order generalizing progress with
  | nil => simp
  | cons index order ih =>
    obtain ⟨hfresh, hdistinct⟩ := nodup_cons.mp hdistinct
    rw [foldl_cons, ih hdistinct, getElem?_turn]
    by_cases hindex : index = other
    · subst hindex
      simp [hfresh]
    · simp [hindex, Ne.symm hindex]

theorem effectAt_congr {states others : List State} {index : ℕ}
    (hsame : states[index]? = others[index]?) :
    effectAt contract groups enable states index =
      effectAt contract groups enable others index := by
  unfold effectAt
  rw [hsame]

/-- Assumes: distinct indices. The loop adds the effects on the tools at the indices. -/
theorem effects_turns {order : List ℕ} (hdistinct : order.Nodup)
    (progress : List State × List VisibilityChanged) :
    (order.foldl (turn contract groups enable) progress).2 =
      progress.2 ++ order.filterMap (effectAt contract groups enable progress.1) := by
  induction order generalizing progress with
  | nil => simp
  | cons index order ih =>
    obtain ⟨hfresh, hdistinct⟩ := nodup_cons.mp hdistinct
    have hrest : order.filterMap
          (effectAt contract groups enable (turn contract groups enable progress index).1) =
        order.filterMap (effectAt contract groups enable progress.1) := by
      refine filterMap_congr fun other hother ↦ effectAt_congr contract groups enable ?_
      have hne : index ≠ other := fun hsame ↦ hfresh (hsame ▸ hother)
      rw [getElem?_turn, if_neg hne]
    rw [foldl_cons, ih hdistinct, hrest, turn_eq]
    cases heffect : effectAt contract groups enable progress.1 index <;>
      simp [heffect]

end Turns

/-- The number of tools whose flag is not the same in two states of a session. -/
def differing (before after : Visibility) : ℕ :=
  (before.states.zip after.states).countP fun pair ↦ pair.1.enabled != pair.2.enabled

variable {visibility next : Visibility} {groups : List String} {enable : Bool}
  {transition : Transition}

theorem length_cells (visibility : Visibility) :
    visibility.cells.length = visibility.contract.tools.length := by
  rw [cells, length_zip, visibility.length_states, Nat.min_self]

theorem map_snd_cells (visibility : Visibility) :
    visibility.cells.map Prod.snd = visibility.states :=
  map_snd_zip visibility.length_states.le

theorem map_fst_cells (visibility : Visibility) :
    visibility.cells.map Prod.fst = visibility.contract.tools :=
  map_fst_zip visibility.length_states.ge

theorem effectAt_eq (visibility : Visibility) (groups : List String) (enable : Bool) (index : ℕ) :
    effectAt visibility.contract groups enable visibility.states index =
      (visibility.cells[index]?).bind fun cell ↦
        effectOn visibility.contract groups enable cell.1 cell.2 := by
  unfold effectAt cells
  rw [List.zip, getElem?_zipWith]
  cases visibility.contract.tools[index]? with
  | none => rfl
  | some tool => cases visibility.states[index]? <;> rfl

/-- The elements of a list by their indices. -/
theorem filterMap_range_getElem? {α β : Type} (f : α → Option β) (xs : List α) :
    ((List.range xs.length).filterMap fun index ↦ (xs[index]?).bind f) = xs.filterMap f := by
  have hmap : (List.range xs.length).map (xs[·]?) = xs.map some := by
    refine ext_getElem (by simp) fun index hindex _ ↦ ?_
    have hlt : index < xs.length := by simpa using hindex
    simp [hlt]
  calc ((List.range xs.length).filterMap fun index ↦ (xs[index]?).bind f)
      = ((List.range xs.length).map (xs[·]?)).filterMap (·.bind f) := by
        rw [filterMap_map]
        rfl
    _ = xs.filterMap f := by
      rw [hmap, filterMap_map]
      rfl

/-- The states that a switch leaves behind. -/
theorem states_setGroups (hset : visibility.setGroups groups enable = .ok (transition, next)) :
    next.states = visibility.cells.map fun cell ↦
      after visibility.contract groups enable cell.1 cell.2 := by
  unfold setGroups at hset
  split_ifs at hset
  obtain ⟨-, rfl⟩ := Prod.mk.inj (Except.ok.inj hset)
  have hregistry := visibility.contract.valid.registry
  have hdistinct : visibility.contract.registryOrder.Nodup :=
    hregistry.nodup_iff.mpr nodup_range
  refine ext_getElem? fun index ↦ ?_
  have hmem : index ∈ visibility.contract.registryOrder ↔
      index < visibility.contract.tools.length := hregistry.mem_iff.trans mem_range
  rw [getElem?_turns _ _ _ hdistinct, getElem?_map, cells]
  by_cases hlt : index < visibility.contract.tools.length
  · have hstate : index < visibility.states.length := visibility.length_states ▸ hlt
    have hcell : (visibility.contract.tools.zip visibility.states)[index]? =
        some (visibility.contract.tools[index], visibility.states[index]) :=
      getElem?_zip_eq_some.mpr ⟨getElem?_eq_getElem hlt, getElem?_eq_getElem hstate⟩
    rw [if_pos (hmem.mpr hlt), hcell, getElem?_eq_getElem hlt, getElem?_eq_getElem hstate]
    rfl
  · have hstate : visibility.states.length ≤ index :=
      visibility.length_states ▸ Nat.le_of_not_lt hlt
    rw [if_neg (mt hmem.mp hlt), getElem?_eq_none hstate, getElem?_eq_none]
    · rfl
    · rw [length_zip]
      exact (Nat.min_le_right _ _).trans hstate

/-- A switch has one effect for each tool whose flag changes. -/
theorem length_effects (hset : visibility.setGroups groups enable = .ok (transition, next)) :
    transition.effects.length = differing visibility next := by
  have hstates := states_setGroups hset
  unfold setGroups at hset
  split_ifs at hset
  obtain ⟨rfl, -⟩ := Prod.mk.inj (Except.ok.inj hset)
  have hregistry := visibility.contract.valid.registry
  have hdistinct : visibility.contract.registryOrder.Nodup :=
    hregistry.nodup_iff.mpr nodup_range
  have hrange : (List.range visibility.contract.tools.length).filterMap
        (effectAt visibility.contract groups enable visibility.states) =
      visibility.cells.filterMap fun cell ↦
        effectOn visibility.contract groups enable cell.1 cell.2 := by
    have hcells := filterMap_range_getElem? (fun cell : Tool × State ↦
      effectOn visibility.contract groups enable cell.1 cell.2) visibility.cells
    rw [visibility.length_cells] at hcells
    exact (filterMap_congr fun index _ ↦ visibility.effectAt_eq groups enable index).trans
      hcells
  have hzip : visibility.states.zip (visibility.cells.map fun cell ↦
        after visibility.contract groups enable cell.1 cell.2) =
      visibility.cells.map fun cell ↦
        (cell.2, after visibility.contract groups enable cell.1 cell.2) := by
    rw [← zip_map', visibility.map_snd_cells]
  show (visibility.contract.registryOrder.foldl
    (turn visibility.contract groups enable) (visibility.states, [])).2.length = _
  rw [effects_turns _ _ _ hdistinct, nil_append, (hregistry.filterMap _).length_eq, hrange,
    differing, hstates, hzip, countP_map, length_filterMap_eq_countP]
  refine countP_congr fun cell _ ↦ ?_
  unfold effectOn
  by_cases hsame : (after visibility.contract groups enable cell.1 cell.2).enabled = cell.2.enabled
  · simp [hsame]
  · simp [hsame, Ne.symm hsame]

/-- What an initial visibility keeps of its arguments: every tool that is available is among the
names, and a read-only session registers no other tools than the read-only ones. -/
theorem new_spec {contract : Contract} {availability : Availability} {settings : Settings}
    (hnew : new contract availability settings = .ok visibility) :
    visibility.contract = contract ∧ visibility.dynamic = settings.dynamic ∧
      ∀ cell ∈ visibility.cells,
        (cell.2.available = true → cell.1.name ∈ availability.names) ∧
        (settings.readOnly = true → cell.2.registered = true → cell.1.readOnly = true) := by
  simp only [new] at hnew
  split at hnew
  · cases hnew
  split at hnew
  · cases hnew
  rename_i all groups hselect
  split at hnew
  · cases hnew
  split at hnew
  · cases hnew
  · cases hnew
    refine ⟨rfl, rfl, fun cell hcell ↦ ?_⟩
    have hcells : contract.tools.zip (contract.tools.map fun tool ↦
          tool.initialState availability settings all groups (split settings.tools).eraseDups) =
        contract.tools.map fun tool ↦ (tool,
          tool.initialState availability settings all groups (split settings.tools).eraseDups) := by
      have hself : contract.tools.map id = contract.tools := map_id _
      conv_lhs => rw [← hself]
      rw [map_map, zip_map']
      rfl
    rw [cells, hcells] at hcell
    obtain ⟨tool, -, rfl⟩ := mem_map.mp hcell
    refine ⟨fun havailable ↦ contains_iff_mem.mp havailable, fun hreadOnly hregistered ↦ ?_⟩
    have hallowed := (Bool.and_eq_true_iff.mp (Bool.and_eq_true_iff.mp hregistered).1).2
    simpa [hreadOnly] using hallowed

/-- A switch keeps everything but the states. -/
theorem frame_setGroups (hset : visibility.setGroups groups enable = .ok (transition, next)) :
    next.contract = visibility.contract ∧ next.dynamic = visibility.dynamic ∧
      next.projection = visibility.projection := by
  unfold setGroups at hset
  split_ifs at hset
  obtain ⟨-, rfl⟩ := Prod.mk.inj (Except.ok.inj hset)
  exact ⟨rfl, rfl, rfl⟩

/-- A switch is accepted exactly in a dynamic session, for some groups that all exist. -/
theorem setGroups_ok_iff : (∃ transition next, visibility.setGroups groups enable =
    .ok (transition, next)) ↔ visibility.dynamic = true ∧ groups ≠ [] ∧
      ∀ name ∈ groups, name ∈ visibility.contract.groupNames := by
  unfold setGroups
  constructor
  · rintro ⟨transition, next, hset⟩
    split_ifs at hset with hdynamic hgroups
    rw [not_or, not_exists] at hgroups
    exact ⟨Bool.eq_true_of_not_eq_false hdynamic, hgroups.1, fun name hname ↦
      not_not.mp fun habsent ↦ hgroups.2 name ⟨hname, habsent⟩⟩
  · rintro ⟨hdynamic, hsome, hknown⟩
    have hgroups : ¬ (groups = [] ∨ ∃ name ∈ groups, name ∉ visibility.contract.groupNames) := by
      rintro (hnil | ⟨name, hname, habsent⟩)
      · exact hsome hnil
      · exact habsent (hknown name hname)
    rw [if_neg (by simp [hdynamic]), if_neg hgroups]
    exact ⟨_, _, rfl⟩

end Visibility

end ObsMcp.Dynamic
