import ObsMcp.Foundations.Fallible
import ObsMcp.Foundations.Json
import Mathlib.Data.List.Perm.Subperm
import Mathlib.Data.List.Nodup

/-!
# The contract of the tool groups

`Contract.fromSource` reads the tools, the groups and the controllers from the catalog and from the
controller description. What it accepts is consistent: tools and groups have distinct names, no tool
is named like a controller, each tool stands in a group, the registry order names each tool once,
and each controller is described once. These facts are the fields of `Tables.Valid`
(`read_spec`), and a `Contract` carries them.
-/

namespace ObsMcp.Dynamic

open Foundations List Option

def controllers : List String :=
  ["obs-list-toolsets", "obs-enable-toolset", "obs-disable-toolset"]

def stream : List String :=
  ["obs-start-stream", "obs-stop-stream", "obs-toggle-stream"]

/-- The errors of the visibility module. -/
inductive Error
  | contract
  | configuration (message : String)
  | unavailableController
  | invalidArguments
  deriving DecidableEq

def Error.text : Error → String
  | .contract => "Dynamic visibility contract is unavailable"
  | .configuration message => message
  | .unavailableController => "Dynamic visibility controller is unavailable"
  | .invalidArguments => "Dynamic visibility arguments require frontend validation"

/-- A tool with the index of its group. -/
structure Tool where
  name : String
  group : ℕ
  readOnly : Bool
  deriving DecidableEq

structure Group where
  name : String
  covers : String
  deriving DecidableEq

/-- The tables that the contract is made of. -/
structure Tables where
  tools : List Tool
  groups : List Group
  core : List ℕ
  controllers : List Json
  registryOrder : List ℕ

/-- The tables agree with each other. -/
structure Tables.Valid (tables : Tables) : Prop where
  tools_nodup : (tables.tools.map Tool.name).Nodup
  ordinary : ∀ tool ∈ tables.tools, tool.name ∉ Dynamic.controllers
  groups_nodup : (tables.groups.map Group.name).Nodup
  group_lt : ∀ tool ∈ tables.tools, tool.group < tables.groups.length
  registry : tables.registryOrder.Perm (List.range tables.tools.length)
  described : ∀ name, some name ∈ tables.controllers.map (fun entry ↦ (entry.index "name").asStr) ↔
    name ∈ Dynamic.controllers
  general : "general" ∈ tables.groups.map Group.name

/-- The index of the first occurrence of a name. -/
def position (names : List String) (name : String) : Option ℕ :=
  names.findIdx? (· == name)

variable {name : String} {names : List String}

theorem getElem?_of_position {index : ℕ} (hposition : position names name = some index) :
    names[index]? = some name := by
  obtain ⟨hlt, hname, -⟩ := List.findIdx?_eq_some_iff_getElem.mp hposition
  rw [getElem?_eq_getElem hlt, eq_of_beq hname]

theorem position_of_getElem? {index : ℕ} (hdistinct : names.Nodup)
    (hindex : names[index]? = some name) : position names name = some index := by
  obtain ⟨hlt, hname⟩ := List.getElem?_eq_some_iff.mp hindex
  refine List.findIdx?_eq_some_iff_getElem.mpr ⟨hlt, by simp [hname], fun earlier hearlier ↦ ?_⟩
  intro hsame
  have heq : names[earlier] = names[index] := (eq_of_beq hsame).trans hname.symm
  exact absurd ((List.Nodup.getElem_inj_iff hdistinct).mp heq) (Nat.ne_of_lt hearlier)

theorem exists_position (hname : name ∈ names) : ∃ index, position names name = some index := by
  cases hposition : position names name with
  | some index => exact ⟨index, rfl⟩
  | none =>
    have hnone := findIdx?_eq_none_iff.mp hposition name hname
    simp at hnone

def strings (value : Json) : Option (List String) :=
  value.asArray.bind fun items ↦ items.mapM Json.asStr

namespace Tables

/-- One entry of the group descriptions, in the place of the group's name. -/
def readGroup (named : String × Json) : Option Group := do
  guard ((named.2.index "group").asStr = some named.1)
  let covers ← (named.2.index "covers").asStr
  pure ⟨named.1, covers⟩

/-- One tool of the catalog. -/
def readTool (names : List String) (assignments : Members) (value : Json) : Option Tool := do
  let name ← (value.index "name").asStr
  guard (name ≠ "" ∧ name ∉ Dynamic.controllers)
  let assigned ← (assignments.get name).bind Json.asStr
  let group ← position names assigned
  pure ⟨name, group, ((value.index "annotations").index "readOnlyHint").asBool = some true⟩

def isController (name : String) (entry : Json) : Bool :=
  (entry.index "name").asStr = some name && (entry.index "inputSchema").isObject

/-- The tables of a catalog and a controller description, when they agree. -/
def read (catalog controller : Json) : Option Tables := do
  let toolsets := catalog.index "toolsets"
  let names ← strings (toolsets.index "groups")
  guard (names ≠ [] ∧ "" ∉ names ∧ names.Nodup)
  let descriptions ← (controller.index "groups").asArray
  guard (descriptions.length = names.length)
  let groups ← (names.zip descriptions).mapM readGroup
  let core ← strings (toolsets.index "coreGroups")
  let core ← core.mapM (position names)
  guard core.Nodup
  let assignments ← (toolsets.index "toolGroups").asObject
  let entries ← (catalog.index "tools").asArray
  let tools ← entries.mapM (readTool names assignments)
  guard (tools.map Tool.name).Nodup
  guard (assignments.length = tools.length)
  let registry ← strings (controller.index "registryOrder")
  let registryOrder ← registry.mapM (position (tools.map Tool.name))
  guard (registryOrder.length = tools.length ∧ registryOrder.Nodup)
  let controllers ← (controller.index "tools").asArray
  guard (controllers.length = 3 ∧
    ∀ name ∈ Dynamic.controllers, controllers.countP (isController name) = 1)
  guard ("general" ∈ names)
  pure ⟨tools, groups, core, controllers, registryOrder⟩

end Tables

section Read

variable {catalog controller value : Json} {names : List String} {assignments : Members}
  {tool : Tool} {tables : Tables}

theorem name_of_readGroup {named : String × Json} {group : Group}
    (hread : Tables.readGroup named = some group) : group.name = named.1 := by
  rw [Tables.readGroup, guard_bind_eq_some_iff] at hread
  obtain ⟨covers, -, hgroup⟩ := bind_eq_some_iff.mp hread.2
  exact (Option.some.inj hgroup) ▸ rfl

/-- What is read of a tool: its name, and a group among the names. -/
theorem readTool_spec (hread : Tables.readTool names assignments value = some tool) :
    (value.index "name").asStr = some tool.name ∧ tool.name ∉ Dynamic.controllers ∧
      tool.group < names.length := by
  obtain ⟨name, hname, hread⟩ := bind_eq_some_iff.mp hread
  rw [guard_bind_eq_some_iff] at hread
  obtain ⟨⟨-, hordinary⟩, hread⟩ := hread
  obtain ⟨assigned, -, hread⟩ := bind_eq_some_iff.mp hread
  obtain ⟨group, hgroup, hread⟩ := bind_eq_some_iff.mp hread
  cases hread
  obtain ⟨hlt, -⟩ := List.getElem?_eq_some_iff.mp (getElem?_of_position hgroup)
  exact ⟨hname, hordinary, hlt⟩

/-- Assumes: distinct indices, as many as there are tools, each the index of a tool. They are all
the indices of the tools. -/
theorem perm_range {order : List ℕ} {n : ℕ} (hlength : order.length = n) (hdistinct : order.Nodup)
    (hlt : ∀ index ∈ order, index < n) : order.Perm (List.range n) := by
  have hsubset : order ⊆ List.range n := fun index hindex ↦ mem_range.mpr (hlt index hindex)
  exact (subperm_of_subset hdistinct hsubset).perm_of_length_le (by simp [hlength])

/-- Assumes: three entries, and one of them for each controller. Their names are the controllers. -/
theorem controllers_described {entries : List Json} (hlength : entries.length = 3)
    (hone : ∀ name ∈ Dynamic.controllers, entries.countP (Tables.isController name) = 1)
    (name : String) :
    some name ∈ entries.map (fun entry ↦ (entry.index "name").asStr) ↔
      name ∈ Dynamic.controllers := by
  have hsubset : Dynamic.controllers.map some ⊆
      entries.map (fun entry ↦ (entry.index "name").asStr) := by
    intro found hfound
    obtain ⟨controller, hcontroller, rfl⟩ := List.mem_map.mp hfound
    have hpositive : 0 < entries.countP (Tables.isController controller) := by
      rw [hone controller hcontroller]
      exact Nat.one_pos
    obtain ⟨entry, hentry, htest⟩ := countP_pos_iff.mp hpositive
    rw [Tables.isController, Bool.and_eq_true] at htest
    exact List.mem_map.mpr ⟨entry, hentry, of_decide_eq_true htest.1⟩
  have hdistinct : (Dynamic.controllers.map some).Nodup := by decide
  have hperm := (subperm_of_subset hdistinct hsubset).perm_of_length_le
    (by simp [hlength, Dynamic.controllers])
  rw [← hperm.mem_iff, List.mem_map]
  simp

/-- What is read is consistent, and its tools and controllers are those of the catalog. -/
theorem read_spec (hread : Tables.read catalog controller = some tables) :
    tables.Valid ∧
      (∃ entries, (catalog.index "tools").asArray = some entries ∧
        entries.map (fun entry ↦ (entry.index "name").asStr) =
          tables.tools.map (fun tool ↦ some tool.name)) ∧
      (controller.index "tools").asArray = some tables.controllers ∧
      strings ((catalog.index "toolsets").index "groups") =
        some (tables.groups.map Group.name) := by
  obtain ⟨names, hnames, hread⟩ := bind_eq_some_iff.mp hread
  rw [guard_bind_eq_some_iff] at hread
  obtain ⟨⟨-, -, hnodup⟩, hread⟩ := hread
  obtain ⟨descriptions, -, hread⟩ := bind_eq_some_iff.mp hread
  rw [guard_bind_eq_some_iff] at hread
  obtain ⟨hlength, hread⟩ := hread
  obtain ⟨groups, hgroups, hread⟩ := bind_eq_some_iff.mp hread
  obtain ⟨coreNames, -, hread⟩ := bind_eq_some_iff.mp hread
  obtain ⟨core, -, hread⟩ := bind_eq_some_iff.mp hread
  rw [guard_bind_eq_some_iff] at hread
  obtain ⟨-, hread⟩ := hread
  obtain ⟨assignments, -, hread⟩ := bind_eq_some_iff.mp hread
  obtain ⟨entries, hentries, hread⟩ := bind_eq_some_iff.mp hread
  obtain ⟨tools, htools, hread⟩ := bind_eq_some_iff.mp hread
  rw [guard_bind_eq_some_iff] at hread
  obtain ⟨htoolNames, hread⟩ := hread
  rw [guard_bind_eq_some_iff] at hread
  obtain ⟨-, hread⟩ := hread
  obtain ⟨registry, -, hread⟩ := bind_eq_some_iff.mp hread
  obtain ⟨order, horder, hread⟩ := bind_eq_some_iff.mp hread
  rw [guard_bind_eq_some_iff] at hread
  obtain ⟨⟨horderLength, horderNodup⟩, hread⟩ := hread
  obtain ⟨described, hdescribed, hread⟩ := bind_eq_some_iff.mp hread
  rw [guard_bind_eq_some_iff] at hread
  obtain ⟨⟨hthree, hone⟩, hread⟩ := hread
  rw [guard_bind_eq_some_iff] at hread
  obtain ⟨hgeneral, hread⟩ := hread
  cases hread
  have hgroupNames : groups.map Group.name = names := by
    rw [map_eq_map_of_mapM hgroups fun _ _ ↦ name_of_readGroup,
      map_fst_zip (Nat.le_of_eq hlength.symm)]
  have hsame : entries.map (fun entry ↦ (entry.index "name").asStr) =
      tools.map (fun tool ↦ some tool.name) :=
    (map_eq_map_of_mapM htools fun _ _ hfound ↦ (readTool_spec hfound).1.symm).symm
  refine ⟨⟨htoolNames, ?_, hgroupNames ▸ hnodup, ?_, perm_range horderLength horderNodup ?_,
    controllers_described hthree hone, hgroupNames ▸ hgeneral⟩, ⟨entries, hentries, hsame⟩,
    hdescribed, hgroupNames.symm ▸ hnames⟩
  · intro tool htool
    obtain ⟨entry, -, hfound⟩ := exists_of_mem_mapM htools htool
    exact (readTool_spec hfound).2.1
  · intro tool htool
    obtain ⟨entry, -, hfound⟩ := exists_of_mem_mapM htools htool
    have hlt := (readTool_spec hfound).2.2
    rwa [← hgroupNames, List.length_map] at hlt
  · intro index hindex
    obtain ⟨name, -, hfound⟩ := exists_of_mem_mapM horder hindex
    obtain ⟨hlt, -⟩ := List.getElem?_eq_some_iff.mp (getElem?_of_position hfound)
    rwa [List.length_map] at hlt

end Read

/-- Tables that agree with each other. -/
structure Contract extends Tables where
  valid : toTables.Valid

namespace Contract

/-- The contract of a catalog and a controller description. Every refusal is the same error. -/
def fromSource (catalog controller : Json) : Except Error Contract :=
  match hread : Tables.read catalog controller with
  | some tables => .ok ⟨tables, (read_spec hread).1⟩
  | none => .error .contract

theorem read_of_fromSource {catalog controller : Json} {contract : Contract}
    (hsource : fromSource catalog controller = .ok contract) :
    Tables.read catalog controller = some contract.toTables := by
  unfold fromSource at hsource
  split at hsource
  · cases hsource
    assumption
  · cases hsource

theorem groups_of_fromSource {catalog controller : Json} {contract : Contract}
    (hsource : fromSource catalog controller = .ok contract) :
    strings ((catalog.index "toolsets").index "groups") =
      some (contract.groups.map Group.name) :=
  (read_spec (read_of_fromSource hsource)).2.2.2

variable (contract : Contract)

def knownNames : List String :=
  contract.tools.map Tool.name

def groupNames : List String :=
  contract.groups.map Group.name

theorem nodup_groupNames : contract.groupNames.Nodup := contract.valid.groups_nodup

/-- The name of a tool's group. -/
def groupOf (tool : Tool) : Option String :=
  contract.groupNames[tool.group]?

theorem groupOf_mem {tool : Tool} (htool : tool ∈ contract.tools) :
    ∃ name ∈ contract.groupNames, contract.groupOf tool = some name := by
  have hlt : tool.group < contract.groupNames.length := by
    rw [groupNames, List.length_map]
    exact contract.valid.group_lt tool htool
  exact ⟨_, getElem_mem hlt, getElem?_eq_getElem hlt⟩

end Contract

end ObsMcp.Dynamic
