import ObsMcp.Dynamic.Controllers
import ObsMcp.Dynamic.Replay

/-!
# The visible state is its history

A session keeps one override for each group, and no history. `Consistent` says that the overrides
are the last values of the changes made so far and that the visible state is the initial one with
all of these changes applied; `consistent_run` keeps it over calls, because the preview of the
call finds the visible state again (`preview_eq`). `visibility_history` draws the conclusions for a
session after any calls.
-/

namespace ObsMcp.Dynamic

open Foundations List
open Foundations.Overrides (Change entries retained)
open Foundations.LastWins (last)

namespace DynamicTools

open Visibility

variable {catalog : Json} {initial tools : DynamicTools} {history : List (Change String Bool)}
  {request : Request} {publication : Publication}

/-- The change that a call asks for. -/
def changeOf (request : Request) : List (Change String Bool) :=
  if request.name = "obs-list-toolsets" then []
  else
    match requested request with
    | .error _ => []
    | .ok groups => [⟨groups, request.name = "obs-enable-toolset"⟩]

/-- The changes of the calls that succeed, in order. -/
def changes (catalog : Json) (tools : DynamicTools) : List Request → List (Change String Bool)
  | [] => []
  | request :: requests =>
    (match (tools.call catalog request).1 with
      | .ok _ => changeOf request
      | .error _ => []) ++ changes catalog (tools.call catalog request).2 requests

/-- A session whose history is a list of changes of an initial session. -/
structure Consistent (catalog : Json) (initial : DynamicTools)
    (history : List (Change String Bool)) (tools : DynamicTools) : Prop where
  contract : tools.contract = initial.contract
  available : tools.available = initial.available
  capture : tools.capture = initial.capture
  settings : tools.settings = initial.settings
  proper : Visibility.Proper initial.contract history
  overrides : tools.overrides = initial.contract.groupNames.map (last (entries history))
  replayed : initial.visibility.replay history = .ok tools.visibility
  manifest : tools.manifest = manifestFor catalog tools.visibility

/-- What a new session promises. -/
structure Started (catalog : Json) (available : List String) (capture : Bool) (settings : Settings)
    (tools : DynamicTools) : Prop where
  source : Contract.fromSource catalog ((catalog.index "toolsets").index "dynamic") =
    .ok tools.contract
  available_eq : tools.available = available
  capture_eq : tools.capture = capture
  settings_eq : tools.settings = settings
  dynamic : settings.dynamic = true
  overrides : tools.overrides = tools.groups.map fun _ ↦ none
  fresh : DynamicTools.fresh tools.contract available capture settings = .ok tools.visibility
  manifest : tools.manifest = manifestFor catalog tools.visibility

variable {available groups : List String} {capture : Bool} {visibility : Visibility}

theorem started_new {get : String → Option String}
    (hnew : new catalog available capture get = .ok tools) :
    Started catalog available capture (Settings.parse get) tools := by
  unfold new at hnew
  split at hnew
  · cases hnew
  rename_i contract hcontract
  dsimp only at hnew
  split at hnew
  · cases hnew
  rename_i hsettings
  split at hnew
  · cases hnew
  rename_i groups hgroups
  split at hnew
  · cases hnew
  split at hnew
  · cases hnew
  rename_i visibility hfresh
  cases hnew
  rw [not_or] at hsettings
  exact ⟨hcontract, rfl, rfl, rfl, Bool.eq_true_of_not_eq_false hsettings.1, rfl, hfresh, rfl⟩

variable {contract : Contract} {settings : Settings} {preview : Visibility}

/-- The visible state without overrides is that of the contract, in a dynamic session. -/
theorem fresh_spec (hfresh : fresh contract available capture settings = .ok visibility) :
    visibility.contract = contract ∧ visibility.dynamic = settings.dynamic ∧
      ∀ cell ∈ visibility.cells,
        (capture = true → cell.2.available = true → cell.1.name ∉ stream) ∧
        (settings.readOnly = true → cell.2.registered = true → cell.1.readOnly = true) := by
  simp only [fresh] at hfresh
  split at hfresh
  · cases hfresh
  rename_i admitted hadmitted
  unfold Availability.new at hadmitted
  split at hadmitted
  swap
  · cases hadmitted
  cases hadmitted
  cases hnew : Visibility.new contract _ settings with
  | error error =>
    rw [hnew] at hfresh
    cases hfresh
  | ok found =>
    rw [hnew] at hfresh
    cases hfresh
    obtain ⟨hcontract, hdynamic, hcells⟩ := new_spec hnew
    refine ⟨hcontract, hdynamic, fun cell hcell ↦ ⟨?_, (hcells cell hcell).2⟩⟩
    intro hcapture havailable
    have hname := (mem_filter.mp ((hcells cell hcell).1 havailable)).2
    simpa [hcapture] using hname

/-! ### One call -/

/-- The loop over the overrides replays the values that they retain. -/
theorem foldlM_overrides (names : List String) (table : String → Option Bool)
    (visibility : Visibility) :
    (names.zip (names.map table)).foldlM applyOverride visibility =
      (visibility.replay (retained names table)).mapError fun _ ↦ failure := by
  induction names generalizing visibility with
  | nil => rfl
  | cons name names ih =>
    rw [map_cons, zip_cons_cons, foldlM_cons]
    cases htable : table name with
    | none =>
      have hskip : retained (name :: names) table = retained names table := by
        simp [retained, htable]
      rw [hskip, applyOverride]
      exact ih visibility
    | some value =>
      have hkeep : retained (name :: names) table = ⟨[name], value⟩ :: retained names table := by
        simp [retained, htable]
      rw [hkeep, replay, foldlM_cons, applyOverride]
      cases hset : visibility.setGroups [name] value with
      | error error =>
        simp only [hset]
        rfl
      | ok switched =>
        simp only [hset]
        exact ih switched.2

/-- Assumes: a session with a history. The preview of a call is the visible state. -/
theorem preview_eq (hstarted : Started catalog available capture settings initial)
    (hconsistent : Consistent catalog initial history tools) :
    tools.preview = .ok tools.visibility := by
  obtain ⟨hcontract, hdynamic, -⟩ := fresh_spec hstarted.fresh
  have hinitial : DynamicTools.fresh tools.contract tools.available tools.capture tools.settings =
      .ok initial.visibility := by
    rw [hconsistent.contract, hconsistent.available, hconsistent.capture, hconsistent.settings,
      hstarted.available_eq, hstarted.capture_eq, hstarted.settings_eq]
    exact hstarted.fresh
  have hgroups : tools.groups = initial.visibility.contract.groupNames := by
    rw [tools.groups_eq, hconsistent.contract, hcontract]
  have hretained := replay_retained (hdynamic.trans hstarted.dynamic)
    (hcontract.symm ▸ hconsistent.proper)
  rw [hconsistent.replayed] at hretained
  unfold preview
  rw [hinitial, hconsistent.overrides, ← hcontract, hgroups]
  refine (foldlM_overrides _ _ _).trans ?_
  rw [hretained]
  rfl

/-- Assumes: distinct groups that hold all the requested ones. The loop writes the new value for the
requested groups and stops nowhere. -/
theorem retain_spec {names : List String} (hdistinct : names.Nodup) {enabled : Bool}
    (hgroups : ∀ name ∈ groups, name ∈ names) (table : String → Option Bool) :
    retain names enabled groups (names.map table) =
      (true, names.map fun name ↦ if name ∈ groups then some enabled else table name) := by
  induction groups generalizing table with
  | nil => simp [retain]
  | cons group groups ih =>
    obtain ⟨hgroup, hgroups⟩ := forall_mem_cons.mp hgroups
    obtain ⟨index, hindex⟩ := exists_position hgroup
    have hget := getElem?_of_position hindex
    have hset : (names.map table).set index (some enabled) =
        names.map fun name ↦ if name = group then some enabled else table name := by
      refine ext_getElem? fun other ↦ ?_
      rw [getElem?_set, getElem?_map, getElem?_map, length_map]
      by_cases hother : index = other
      · subst hother
        obtain ⟨hlt, -⟩ := List.getElem?_eq_some_iff.mp hget
        rw [if_pos rfl, if_pos hlt, hget]
        simp
      · rw [if_neg hother]
        cases hname : names[other]? with
        | none => rfl
        | some name =>
          have hne : name ≠ group := by
            rintro rfl
            exact hother (Option.some.inj
              (hindex.symm.trans (position_of_getElem? hdistinct hname)))
          simp [hne]
    rw [retain, hindex]
    show retain names enabled groups _ = _
    rw [hset, ih hgroups]
    refine congrArg _ (map_congr_left fun name _ ↦ ?_)
    by_cases hname : name = group <;> simp [hname]

/-- The notifications that are reserved: one for each listener, once for each effect. There are none
when nothing changes or nobody listens. -/
theorem notify_spec {effects : List VisibilityChanged} {notifications : Option Cycle}
    (hnotify : notify request effects = .ok notifications) :
    (∀ cycle, notifications = some cycle → cycle.values = toolChanges request.reply
        request.targets ∧ cycle.repetitions = effects.length) ∧
      (notifications = none → effects = [] ∨ toolChanges request.reply request.targets = []) := by
  simp only [notify] at hnotify
  by_cases heffects : effects = []
  · rw [if_pos (Or.inl heffects)] at hnotify
    cases hnotify
    exact ⟨fun cycle hcycle ↦ (nomatch hcycle), fun _ ↦ Or.inl heffects⟩
  · rw [if_neg heffects] at hnotify
    by_cases hnotices : toolChanges request.reply request.targets = []
    · rw [if_pos (Or.inr hnotices)] at hnotify
      cases hnotify
      exact ⟨fun cycle hcycle ↦ (nomatch hcycle), fun _ ↦ Or.inr hnotices⟩
    · rw [if_neg (not_or.mpr ⟨heffects, hnotices⟩)] at hnotify
      obtain ⟨-, -, rfl⟩ := map_eq_ok_iff.mp hnotify
      refine ⟨fun cycle hcycle ↦ ?_, fun hnone ↦ (nomatch hnone)⟩
      cases hcycle
      exact ⟨rfl, rfl⟩

/-- What a call that prepares its output has done: it has read its groups and changed the preview,
and it repeats the notifications once for each tool that the change concerns. -/
theorem prepare_spec (hpreview : tools.preview = .ok tools.visibility)
    (hprepare : tools.prepare request = .ok (groups, preview, publication)) :
    requested request = .ok groups ∧ ∃ done : Transition,
      transition tools.visibility request groups = .ok (done, preview) ∧
      (∀ cycle, publication.notifications = some cycle → cycle.values = toolChanges request.reply
        request.targets ∧ cycle.repetitions = done.effects.length) ∧
      (publication.notifications = none →
        done.effects = [] ∨ toolChanges request.reply request.targets = []) := by
  unfold prepare at hprepare
  rw [hpreview, ok_bind] at hprepare
  obtain ⟨found, hfound, hprepare⟩ := bind_eq_ok_iff.mp hprepare
  obtain ⟨⟨done, changed⟩, hdone, hprepare⟩ := bind_eq_ok_iff.mp hprepare
  obtain ⟨notifications, hnotifications, hprepare⟩ := bind_eq_ok_iff.mp hprepare
  obtain ⟨-, -, hprepare⟩ := bind_eq_ok_iff.mp hprepare
  obtain ⟨rfl, hrest⟩ := Prod.mk.inj (Except.ok.inj hprepare)
  obtain ⟨rfl, rfl⟩ := Prod.mk.inj hrest
  have heffects : (disclose changed done).effects = done.effects := by
    unfold disclose
    split_ifs <;> rfl
  rw [heffects] at hnotifications
  exact ⟨hfound, done, hdone, notify_spec hnotifications⟩

theorem differing_self (visibility : Visibility) :
    differing visibility visibility = 0 := by
  unfold differing
  have hzip : visibility.states.zip visibility.states =
      visibility.states.map fun state ↦ (state, state) := by
    simp [zip_eq_zipWith, zipWith_self]
  rw [hzip, countP_map, countP_eq_zero]
  simp

/-- What a call does to the preview: it applies its change, with one effect for each tool whose flag
is not the same afterwards. -/
theorem transition_spec {next : Visibility} {done : Transition}
    (hgroups : requested request = .ok groups)
    (hdone : transition preview request groups = .ok (done, next)) :
    preview.replay (changeOf request) = .ok next ∧
      Visibility.Proper preview.contract (changeOf request) ∧
      (∀ name ∈ groups, name ∈ preview.contract.groupNames) ∧
      (∀ history name, last (entries (history ++ changeOf request)) name =
        if name ∈ groups then some (decide (request.name = "obs-enable-toolset"))
        else last (entries history) name) ∧
      done.effects.length = differing preview next := by
  unfold transition at hdone
  unfold changeOf
  by_cases hlist : request.name = "obs-list-toolsets"
  · rw [if_pos hlist] at hdone ⊢
    unfold requested at hgroups
    rw [if_pos hlist] at hgroups
    cases hgroups
    cases hlisted : preview.list with
    | error error =>
      rw [hlisted] at hdone
      cases hdone
    | ok listed =>
      rw [hlisted] at hdone
      cases hdone
      refine ⟨rfl, fun change hchange ↦ absurd hchange not_mem_nil,
        fun name hname ↦ absurd hname not_mem_nil, fun history name ↦ by simp, ?_⟩
      rw [differing_self]
      unfold list at hlisted
      split_ifs at hlisted
      cases hlisted
      rfl
  · rw [if_neg hlist] at hdone ⊢
    rw [hgroups]
    cases hset : preview.setGroups groups (decide (request.name = "obs-enable-toolset")) with
    | error error =>
      rw [hset] at hdone
      cases hdone
    | ok switched =>
      rw [hset] at hdone
      cases hdone
      obtain ⟨-, hsome, hknown⟩ := setGroups_ok_iff.mp ⟨done, next, hset⟩
      refine ⟨?_, ?_, hknown, fun history name ↦ ?_, length_effects hset⟩
      · rw [replay, foldlM_cons, hset]
        rfl
      · intro change hchange
        obtain rfl := mem_singleton.mp hchange
        exact ⟨hsome, hknown⟩
      · rw [Overrides.last_concat]

theorem replay_append {mid : Visibility} {first second : List (Change String Bool)}
    (hfirst : visibility.replay first = .ok mid) :
    visibility.replay (first ++ second) = mid.replay second := by
  rw [replay, foldlM_append]
  exact congrArg (· >>= _) hfirst

section Call

variable {available : List String} {capture : Bool} {settings : Settings}

section

variable (hstarted : Started catalog available capture settings initial)
include hstarted

/-- Assumes: a session with a history. The output of a call that succeeds repeats the notifications
once for each tool whose flag changes, and the call adds its change to the history; a call that
fails leaves the session as it was. -/
theorem call_spec (hconsistent : Consistent catalog initial history tools) (request : Request) :
    (∃ error, tools.call catalog request = (.error error, tools)) ∨
      ∃ publication next, tools.call catalog request = (.ok publication, next) ∧
        Consistent catalog initial (history ++ changeOf request) next ∧
        (∀ cycle, publication.notifications = some cycle →
          cycle.values = toolChanges request.reply request.targets ∧
            cycle.repetitions = differing tools.visibility next.visibility) ∧
        (publication.notifications = none →
          differing tools.visibility next.visibility = 0 ∨
            toolChanges request.reply request.targets = []) := by
  have hinitial := (fresh_spec hstarted.fresh).1
  have hvisible : tools.visibility.contract = initial.contract := by
    obtain ⟨next, hreplay, hnext, -⟩ := replay_spec
      ((fresh_spec hstarted.fresh).2.1.trans hstarted.dynamic)
      (hinitial.symm ▸ hconsistent.proper)
    obtain rfl := Except.ok.inj (hconsistent.replayed.symm.trans hreplay)
    exact hnext.trans hinitial
  have hnames : tools.groups = initial.contract.groupNames := by
    rw [tools.groups_eq, hconsistent.contract]
  unfold call
  cases hprepare : tools.prepare request with
  | error error => exact Or.inl ⟨error, rfl⟩
  | ok prepared =>
    obtain ⟨groups, preview, publication⟩ := prepared
    obtain ⟨hgroups, done, hdone, hsome, hnone⟩ :=
      prepare_spec (preview_eq hstarted hconsistent) hprepare
    obtain ⟨hreplay, hproper, hknown, hlast, hcount⟩ := transition_spec hgroups hdone
    have hretain : retain tools.groups (decide (request.name = "obs-enable-toolset")) groups
        tools.overrides = (true, initial.contract.groupNames.map
          (last (entries (history ++ changeOf request)))) := by
      rw [hconsistent.overrides, hnames, retain_spec initial.contract.nodup_groupNames
        fun name hname ↦ hvisible ▸ hknown name hname]
      exact congrArg _ (map_congr_left fun name _ ↦ (hlast history name).symm)
    refine Or.inr ⟨publication, _, if_pos (congrArg Prod.fst hretain), ?_, ?_, ?_⟩
    · refine ⟨hconsistent.contract, hconsistent.available, hconsistent.capture,
        hconsistent.settings, ?_, congrArg Prod.snd hretain, ?_, rfl⟩
      · intro change hchange
        rcases mem_append.mp hchange with hchange | hchange
        · exact hconsistent.proper change hchange
        · exact hvisible ▸ hproper change hchange
      · rw [replay_append hconsistent.replayed]
        exact hreplay
    · rw [← hcount]
      exact hsome
    · rw [← hcount]
      exact fun habsent ↦ (hnone habsent).imp_left length_eq_zero_iff.mpr

/-- Assumes: a new session. It has no history. -/
theorem consistent_start : Consistent catalog initial [] initial := by
  refine ⟨rfl, rfl, rfl, rfl, fun change hchange ↦ absurd hchange not_mem_nil, ?_, rfl,
    hstarted.manifest⟩
  rw [hstarted.overrides, initial.groups_eq]
  rfl

/-- Assumes: a session with a history. The changes of the calls that succeed are added to it. -/
theorem consistent_run (hconsistent : Consistent catalog initial history tools)
    (requests : List Request) :
    Consistent catalog initial (history ++ tools.changes catalog requests)
      (tools.run catalog requests) := by
  induction requests generalizing history tools with
  | nil =>
    rw [changes, append_nil]
    exact hconsistent
  | cons request requests ih =>
    rw [run, foldl_cons, changes]
    rcases call_spec hstarted hconsistent request with ⟨error, hcall⟩ |
      ⟨publication, next, hcall, hnext, -⟩
    · rw [hcall, nil_append]
      exact ih hconsistent
    · rw [hcall, ← append_assoc]
      exact ih hnext

end

end Call

/-! ### The manifest -/

/-- The names of the tools in a manifest. -/
def manifestNames (manifest : Json) : List String :=
  ((manifest.index "tools").asArray.getD []).filterMap fun tool ↦ (tool.index "name").asStr

/-- Assumes: the contract of the catalog. The manifest of a visible state names the enabled tools
and the controllers. -/
theorem mem_manifestFor_iff {name : String}
    (hsource : Contract.fromSource catalog ((catalog.index "toolsets").index "dynamic") =
      .ok contract) (hcontract : visibility.contract = contract) :
    name ∈ manifestNames (manifestFor catalog visibility) ↔
      controller name = true ∨ name ∈ visibility.enabledNames := by
  obtain ⟨hvalid, ⟨entries, hentries, hnames⟩, hdescribed, -⟩ :=
    read_spec (Contract.read_of_fromSource hsource)
  have hknown : name ∈ visibility.enabledNames →
      some name ∈ entries.map fun entry ↦ (entry.index "name").asStr := by
    intro henabled
    obtain ⟨cell, hcell, rfl⟩ := mem_map.mp henabled
    have htool := fst_mem_of_mem_cells (mem_filter.mp hcell).1
    rw [hnames, ← hcontract]
    exact mem_map.mpr ⟨cell.1, htool, rfl⟩
  have htools : (manifestFor catalog visibility).index "tools" = .array
      (entries.filter (fun tool ↦ (tool.index "name").asStr.any visibility.enabledNames.contains) ++
        contract.controllers) := by
    rw [manifestFor, hentries, hdescribed]
    rfl
  rw [manifestNames, htools]
  show name ∈ List.filterMap _ (_ ++ _) ↔ _
  rw [filterMap_append, mem_append, or_comm]
  refine or_congr ?_ ?_
  · rw [mem_filterMap, controller, contains_iff_mem, ← hvalid.described, mem_map]
  · rw [mem_filterMap]
    constructor
    · rintro ⟨entry, hentry, hname⟩
      have htest := (mem_filter.mp hentry).2
      rw [hname] at htest
      exact contains_iff_mem.mp htest
    · intro henabled
      obtain ⟨entry, hentry, hname⟩ := mem_map.mp (hknown henabled)
      refine ⟨entry, mem_filter.mpr ⟨hentry, ?_⟩, hname⟩
      rw [hname]
      exact contains_iff_mem.mpr henabled

/-- Assumes: a session that `new` has made. After any calls, with any answers of the output:

* the visible state is the initial one, which is that of the configuration, with the changes of all
  successful calls applied in order;
* an enabled tool is registered and available, it is read-only in a read-only session, and it is no
  stream control in a capture session;
* the names that the session includes are those of its manifest;
* a further call that fails leaves the session as it is, and one that succeeds repeats the
  notification to each listener once for each tool whose flag changes (there is none when no flag
  changes or nobody listens). -/
theorem visibility_history {available : List String} {capture : Bool}
    {get : String → Option String} (hnew : new catalog available capture get = .ok tools)
    (requests : List Request) :
    fresh tools.contract available capture (Settings.parse get) = .ok tools.visibility ∧
      tools.visibility.replay (tools.changes catalog requests) =
        .ok (tools.run catalog requests).visibility ∧
      (∀ name state, (tools.run catalog requests).visibility.state name = some state →
        state.enabled = true →
          state.registered = true ∧ state.available = true ∧
          ((Settings.parse get).readOnly = true →
            ∃ tool ∈ tools.contract.tools, tool.name = name ∧ tool.readOnly = true) ∧
          (capture = true → name ∉ stream)) ∧
      (∀ name, (tools.run catalog requests).includes name = true ↔
        name ∈ manifestNames (tools.run catalog requests).manifest) ∧
      ∀ request,
        (∀ error, ((tools.run catalog requests).call catalog request).1 = .error error →
          ((tools.run catalog requests).call catalog request).2 = tools.run catalog requests) ∧
        ∀ publication, ((tools.run catalog requests).call catalog request).1 = .ok publication →
          (∀ cycle, publication.notifications = some cycle →
            cycle.values = toolChanges request.reply request.targets ∧
            cycle.repetitions = (tools.run catalog requests).visibility.differing
              ((tools.run catalog requests).call catalog request).2.visibility) ∧
          (publication.notifications = none →
            (tools.run catalog requests).visibility.differing
              ((tools.run catalog requests).call catalog request).2.visibility = 0 ∨
            toolChanges request.reply request.targets = []) := by
  have hstarted := started_new hnew
  have hconsistent := consistent_run hstarted (consistent_start hstarted) requests
  rw [nil_append] at hconsistent
  obtain ⟨hcontract, hdynamic, hcells⟩ := fresh_spec hstarted.fresh
  have hreplayed := hconsistent.replayed
  have hproper : Visibility.Proper tools.visibility.contract (tools.changes catalog requests) :=
    hcontract.symm ▸ hconsistent.proper
  have hvisible : (tools.run catalog requests).visibility.contract = tools.contract := by
    obtain ⟨next, hreplay, hnext, -⟩ := replay_spec
      (hdynamic.trans hstarted.dynamic) hproper
    obtain rfl := Except.ok.inj (hreplayed.symm.trans hreplay)
    exact hnext.trans hcontract
  refine ⟨hstarted.fresh, hreplayed, ?_, ?_, ?_⟩
  · intro name state hstate henabled
    obtain ⟨tool, rfl, hcell⟩ := state_eq_some_iff.mp hstate
    obtain ⟨before, hbefore, havailable, hregistered⟩ := kept_replay
      (hdynamic.trans hstarted.dynamic) hproper hreplayed hcell
    have hstateRegistered := state.registered_of_enabled henabled
    have hstateAvailable := state.available_of_registered hstateRegistered
    refine ⟨hstateRegistered, hstateAvailable, fun hreadOnly ↦ ?_, fun hcapture ↦ ?_⟩
    · have htool := fst_mem_of_mem_cells hcell
      exact ⟨tool, hvisible ▸ htool, rfl, (hcells _ hbefore).2 hreadOnly
        (hregistered.symm.trans hstateRegistered)⟩
    · exact (hcells _ hbefore).1 hcapture (havailable.symm.trans hstateAvailable)
  · intro name
    rw [hconsistent.manifest, mem_manifestFor_iff hstarted.source hvisible, includes,
      Bool.or_eq_true, mem_enabledNames_iff]
  · intro request
    rcases call_spec hstarted hconsistent request with ⟨error, hcall⟩ |
      ⟨publication, next, hcall, -, hsome, hnone⟩
    · rw [hcall]
      exact ⟨fun _ _ ↦ rfl, fun publication hpublication ↦ (nomatch hpublication)⟩
    · rw [hcall]
      refine ⟨fun error herror ↦ (nomatch herror), fun other hother ↦ ?_⟩
      obtain rfl := Except.ok.inj hother
      exact ⟨hsome, hnone⟩

/-! ### A session -/

/-- Three tools with their groups. -/
def recordingTools : List (String × String × Bool) :=
  [("obs-get-version", "general", true), ("obs-start-record", "record", false),
    ("obs-start-stream", "stream", false)]

def recordingGroups : List String :=
  ["general", "scenes", "scene-items", "sources", "inputs", "media", "filters", "transitions",
    "record", "stream", "outputs", "config", "ui", "protocol"]

/-- A catalog of three tools in the fourteen groups. -/
def recordingCatalog : Json := .object
  [("tools", .array (recordingTools.map fun (name, _, readOnly) ↦ .object
      [("name", .string name), ("annotations", .object [("readOnlyHint", .bool readOnly)])])),
    ("toolsets", .object
      [("groups", .array (recordingGroups.map .string)),
        ("coreGroups", .array [.string "general", .string "record"]),
        ("toolGroups", .object (recordingTools.map fun (name, group, _) ↦ (name, .string group))),
        ("dynamic", .object
          [("groups", .array (recordingGroups.map fun name ↦
              .object [("group", .string name), ("covers", .string name)])),
            ("registryOrder", .array (recordingTools.map fun (name, _) ↦ .string name)),
            ("tools", .array (controllers.map fun name ↦
              .object [("name", .string name), ("inputSchema", .object [])]))])])]

def dynamicOnly (key : String) : Option String :=
  if key = "OBS_MCP_DYNAMIC_TOOLSETS" then some "true" else none

/-- A call that names one group twice. -/
def enableRecord : Request where
  name := "obs-enable-toolset"
  args := .object [("groups", .array [.string "record", .string "record"])]
  reply := ⟨.string "1", .legacy⟩
  targets := []
  notified := .ok ()
  replied := .ok ()

theorem visibility_history_recording : ∃ tools,
    new recordingCatalog ["obs-get-version", "obs-start-record"] true dynamicOnly = .ok tools ∧
      tools.visibility.replay (tools.changes recordingCatalog [enableRecord]) =
        .ok (tools.run recordingCatalog [enableRecord]).visibility := by
  have hsome : (new recordingCatalog ["obs-get-version", "obs-start-record"] true
    dynamicOnly).toOption.isSome = true := by decide
  cases hnew : new recordingCatalog ["obs-get-version", "obs-start-record"] true dynamicOnly with
  | error error =>
    rw [hnew] at hsome
    cases hsome
  | ok tools => exact ⟨tools, rfl, (visibility_history hnew [enableRecord]).2.1⟩

end DynamicTools

end ObsMcp.Dynamic
