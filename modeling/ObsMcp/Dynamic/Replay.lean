import ObsMcp.Dynamic.Visibility

/-!
# Replays of switches

`replay` applies changes of the groups one after another. It succeeds when each change names groups
of the contract (`replay_spec`), and leaves each tool as the history of its own group does. So the
last value of each group is enough to find the visible state again (`replay_retained`). What the
initial visibility promises of the tools holds after every replay (`kept_replay`).
-/

namespace ObsMcp.Dynamic

open Foundations List
open Foundations.Overrides (Change entries retained)
open Foundations.LastWins (last)

namespace Visibility

variable {visibility next : Visibility} {changes : List (Change String Bool)}

/-- The visible state after some switches. -/
def replay (visibility : Visibility) (changes : List (Change String Bool)) :
    Except Error Visibility :=
  changes.foldlM (fun visibility change ↦
    (visibility.setGroups change.keys change.value).map Prod.snd) visibility

/-- The changes name groups of the contract. -/
def Proper (contract : Contract) (changes : List (Change String Bool)) : Prop :=
  ∀ change ∈ changes, change.keys ≠ [] ∧ ∀ name ∈ change.keys, name ∈ contract.groupNames

/-- The name of a tool's group, as a key of the changes. -/
def keyOf (contract : Contract) (tool : Tool) : String :=
  (contract.groupOf tool).getD ""

variable {contract : Contract} {tool : Tool} {cell : Tool × State} {name : String}

theorem keyOf_mem (htool : tool ∈ contract.tools) : keyOf contract tool ∈ contract.groupNames := by
  obtain ⟨name, hname, hgroup⟩ := contract.groupOf_mem htool
  rw [keyOf, hgroup]
  exact hname

/-- A switch changes the cell of a tool by the key of its group. -/
theorem after_eq_apply (htool : tool ∈ contract.tools) (change : Change String Bool)
    (state : State) :
    after contract change.keys change.value tool state =
      Change.apply State.switched (keyOf contract tool) state change := by
  obtain ⟨name, hname, hgroup⟩ := contract.groupOf_mem htool
  have hholds : Holds contract change.keys tool ↔ name ∈ change.keys := by
    unfold Holds
    rw [hgroup]
    constructor
    · rintro ⟨other, hother, hsame⟩
      exact (Option.some.inj hsame) ▸ hother
    · exact fun hmem ↦ ⟨name, hmem, rfl⟩
  rw [after, Change.apply, keyOf, hgroup]
  exact if_congr hholds rfl rfl

theorem fst_mem_of_mem_cells (hcell : cell ∈ visibility.cells) :
    cell.1 ∈ visibility.contract.tools :=
  (of_mem_zip hcell).1

/-- The tools with their states after a switch. -/
theorem cells_setGroups {change : Change String Bool} {transition : Transition}
    (hset : visibility.setGroups change.keys change.value = .ok (transition, next)) :
    next.cells = visibility.cells.map fun cell ↦ (cell.1,
      Change.apply State.switched (keyOf visibility.contract cell.1) cell.2 change) := by
  have hstates : next.states = visibility.cells.map fun cell ↦
      Change.apply State.switched (keyOf visibility.contract cell.1) cell.2 change := by
    rw [states_setGroups hset]
    exact map_congr_left fun cell hcell ↦
      after_eq_apply (fst_mem_of_mem_cells hcell) change cell.2
  rw [cells, (frame_setGroups hset).1, hstates, ← visibility.map_fst_cells, zip_map']

/-- Assumes: a dynamic session, and changes that name groups of the contract. The replay succeeds;
it keeps the contract and changes each tool by the key of its group. -/
theorem replay_spec (hdynamic : visibility.dynamic = true)
    (hproper : Proper visibility.contract changes) :
    ∃ next, visibility.replay changes = .ok next ∧ next.contract = visibility.contract ∧
      next.dynamic = visibility.dynamic ∧ next.projection = visibility.projection ∧
      next.cells = visibility.cells.map fun cell ↦ (cell.1, changes.foldl
        (Change.apply State.switched (keyOf visibility.contract cell.1)) cell.2) := by
  induction changes generalizing visibility with
  | nil => exact ⟨visibility, rfl, rfl, rfl, rfl, (map_id _).symm⟩
  | cons change changes ih =>
    obtain ⟨hhead, hproper⟩ := forall_mem_cons.mp hproper
    obtain ⟨transition, mid, hset⟩ := setGroups_ok_iff.mpr ⟨hdynamic, hhead.1, hhead.2⟩
    obtain ⟨hcontract, hmid, hprojection⟩ := frame_setGroups hset
    obtain ⟨next, hreplay, hrest⟩ := ih (hmid.trans hdynamic) (hcontract ▸ hproper)
    rw [hcontract, hmid, hprojection] at hrest
    refine ⟨next, ?_, hrest.1, hrest.2.1, hrest.2.2.1, ?_⟩
    · rw [replay, foldlM_cons, hset]
      exact hreplay
    · rw [hrest.2.2.2, cells_setGroups hset, map_map]
      rfl

theorem eq_of_cells {first second : Visibility} (hcontract : first.contract = second.contract)
    (hdynamic : first.dynamic = second.dynamic) (hprojection : first.projection = second.projection)
    (hcells : first.cells = second.cells) : first = second := by
  have hstates : first.states = second.states := by
    rw [← first.map_snd_cells, hcells, second.map_snd_cells]
  exact Visibility.ext hcontract hstates hdynamic hprojection

/-- Assumes: a dynamic session, and changes that name groups of the contract. The last value of each
group leads to the same visible state as the whole history. -/
theorem replay_retained (hdynamic : visibility.dynamic = true)
    (hproper : Proper visibility.contract changes) :
    visibility.replay (retained visibility.contract.groupNames (last (entries changes))) =
      visibility.replay changes := by
  have hretained : Proper visibility.contract
      (retained visibility.contract.groupNames (last (entries changes))) := by
    intro change hchange
    obtain ⟨name, hname, hmap⟩ := mem_filterMap.mp hchange
    obtain ⟨value, -, rfl⟩ := Option.map_eq_some_iff.mp hmap
    exact ⟨cons_ne_nil _ _, fun other hother ↦ (mem_singleton.mp hother) ▸ hname⟩
  obtain ⟨first, hfirst, hcontract, hmid, hprojection, hcells⟩ := replay_spec hdynamic hretained
  obtain ⟨second, hsecond, hcontract', hmid', hprojection', hcells'⟩ := replay_spec hdynamic hproper
  have hsame : first.cells = second.cells := by
    rw [hcells, hcells']
    refine map_congr_left fun cell hcell ↦ ?_
    rw [Overrides.foldl_retained State.switched_switched (keyOf_mem (fst_mem_of_mem_cells hcell))]
  rw [hfirst, hsecond, eq_of_cells (hcontract.trans hcontract'.symm) (hmid.trans hmid'.symm)
    (hprojection.trans hprojection'.symm) hsame]

/-! ### What every replay keeps -/

theorem foldl_apply_keeps (key : String) (changes : List (Change String Bool)) (state : State) :
    (changes.foldl (Change.apply State.switched key) state).available = state.available ∧
      (changes.foldl (Change.apply State.switched key) state).registered = state.registered := by
  rw [Overrides.foldl_apply State.switched_switched]
  cases last (entries changes) key with
  | none => exact ⟨rfl, rfl⟩
  | some value => exact ⟨State.available_switched, State.registered_switched⟩

/-- Assumes: a dynamic session, and changes that name groups of the contract. Each tool is available
and registered after the replay as it was before. -/
theorem kept_replay (hdynamic : visibility.dynamic = true)
    (hproper : Proper visibility.contract changes) (hreplay : visibility.replay changes = .ok next)
    (hcell : cell ∈ next.cells) :
    ∃ before, (cell.1, before) ∈ visibility.cells ∧ cell.2.available = before.available ∧
      cell.2.registered = before.registered := by
  obtain ⟨other, hother, -, -, -, hcells⟩ := replay_spec hdynamic hproper
  cases hreplay.symm.trans hother
  rw [hcells] at hcell
  obtain ⟨before, hbefore, rfl⟩ := mem_map.mp hcell
  exact ⟨before.2, hbefore, foldl_apply_keeps _ changes before.2⟩

/-! ### The names of the states -/

/-- The state of a name is the state of the tool with that name. -/
theorem state_eq_some_iff {state : State} :
    visibility.state name = some state ↔
      ∃ tool, tool.name = name ∧ (tool, state) ∈ visibility.cells := by
  have hnames : (visibility.contract.knownNames).Nodup := visibility.contract.valid.tools_nodup
  constructor
  · intro hstate
    obtain ⟨index, hposition, hindex⟩ := Option.bind_eq_some_iff.mp hstate
    have hname := getElem?_of_position hposition
    rw [Contract.knownNames, getElem?_map] at hname
    obtain ⟨tool, htool, hname⟩ := Option.map_eq_some_iff.mp hname
    have hcell : visibility.cells[index]? = some (tool, state) :=
      getElem?_zip_eq_some.mpr ⟨htool, hindex⟩
    exact ⟨tool, hname, mem_of_getElem? hcell⟩
  · rintro ⟨tool, rfl, hcell⟩
    obtain ⟨index, hindex⟩ := getElem?_of_mem hcell
    obtain ⟨htool, hstate⟩ := getElem?_zip_eq_some.mp hindex
    have hname : visibility.contract.knownNames[index]? = some tool.name := by
      rw [Contract.knownNames, getElem?_map, htool]
      rfl
    rw [Visibility.state, position_of_getElem? hnames hname]
    exact hstate

theorem mem_enabledNames_iff :
    name ∈ visibility.enabledNames ↔
      (visibility.state name).any State.enabled = true := by
  rw [enabledNames, mem_map, Option.any_eq_true]
  constructor
  · rintro ⟨cell, hcell, rfl⟩
    obtain ⟨hcell, henabled⟩ := mem_filter.mp hcell
    exact ⟨cell.2, state_eq_some_iff.mpr ⟨cell.1, rfl, hcell⟩, henabled⟩
  · rintro ⟨state, hstate, henabled⟩
    obtain ⟨tool, rfl, hcell⟩ := state_eq_some_iff.mp hstate
    exact ⟨(tool, state), mem_filter.mpr ⟨hcell, henabled⟩, rfl⟩

end Visibility

end ObsMcp.Dynamic
