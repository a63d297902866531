import ObsMcp.Dynamic.Visibility

/-!
# The controllers of a session

A session keeps its immutable configuration, one override for each group, the visible state and the
manifest that is listed for it. `DynamicTools.call` runs a controller: it rebuilds the visible state
from the configuration and the overrides, lets the controller change that preview, reserves the
output for the notifications and for the reply, and only then replaces the state. The output may
refuse either reservation.

The loop over the requested groups writes its overrides one by one; `length_retain` says that it
keeps their number.
-/

namespace ObsMcp.Dynamic

open Foundations
open Protocol (ReplyContext)

def groupEntries : ℕ := 1024
def argumentBytes : ℕ := 64 * 1024

/-- The number of groups of a session. -/
def groupCount : ℕ := 14

def failure : String :=
  "Native dynamic visibility capacity or contract unavailable; no visibility change was admitted"

/-- The text of a configuration is short enough and has few enough entries. -/
def bounded (value : Option String) : Bool :=
  value.all fun text ↦ text.utf8ByteSize ≤ argumentBytes &&
    (text.toList.splitOn ',').length ≤ groupEntries

/-- A tool of the catalog, or a controller. -/
def tool (catalog : Json) (name : String) : Option Json := do
  let tools ← (catalog.index "tools").asArray
  (tools.find? fun tool ↦ (tool.index "name").asStr = some name).or do
    let tools ← (((catalog.index "toolsets").index "dynamic").index "tools").asArray
    tools.find? fun tool ↦ (tool.index "name").asStr = some name

/-- A session with dynamic tools. The groups are those of the contract, each with one override. -/
structure DynamicTools where
  contract : Contract
  available : List String
  capture : Bool
  settings : Settings
  overrides : List (Option Bool)
  groups : List String
  visibility : Visibility
  manifest : Json
  groups_eq : groups = contract.groupNames
  length_overrides : overrides.length = groups.length

/-- Values that are published one after another, and how many times. -/
structure Cycle where
  values : List Json
  repetitions : ℕ

/-- What a call has reserved on the output: the notifications are committed, the reply is handed to
the caller. -/
structure Publication where
  notifications : Option Cycle
  reply : Cycle

/-- A call of a controller, with the answers of the output to its two reservations. -/
structure Request where
  name : String
  args : Json
  reply : ReplyContext
  targets : List Json
  notified : Except String Unit
  replied : Except String Unit

/-- The notifications of a change of the tools, one for each listener. -/
def toolChanges (reply : ReplyContext) (ids : List Json) : List Json :=
  let method := ("method", Json.string "notifications/tools/list_changed")
  if reply.era = .legacy then
    [.ofMembers [("jsonrpc", .string "2.0"), method]]
  else
    ids.map fun id ↦ .ofMembers [("jsonrpc", .string "2.0"), method, ("params", .ofMembers
      [("_meta", .ofMembers [("io.modelcontextprotocol/subscriptionId", id)])])]

namespace DynamicTools

/-- The visible state of a configuration without overrides. -/
def fresh (contract : Contract) (available : List String) (capture : Bool) (settings : Settings) :
    Except String Visibility :=
  let profile := if capture then CaptureProfile.takeOrMedia else .standalone
  match Availability.new contract available profile with
  | .error _ => .error failure
  | .ok admitted => (Visibility.new contract admitted settings).mapError Error.text

/-- The tools that are listed: the enabled ones of the catalog, and the controllers. -/
def manifestFor (catalog : Json) (visibility : Visibility) : Json :=
  let tools := ((catalog.index "tools").asArray.getD []).filter fun tool ↦
    (tool.index "name").asStr.any visibility.enabledNames.contains
  .ofMembers [("tools", .array (tools ++
    ((((catalog.index "toolsets").index "dynamic").index "tools").asArray.getD [])))]

def new (catalog : Json) (available : List String) (capture : Bool) (get : String → Option String) :
    Except String DynamicTools :=
  match hcontract : Contract.fromSource catalog ((catalog.index "toolsets").index "dynamic") with
  | .error _ => .error failure
  | .ok contract =>
    let settings := Settings.parse get
    if settings.dynamic = false ∨ bounded settings.toolsets = false ∨
        bounded settings.tools = false then
      .error failure
    else
      match hgroups : strings ((catalog.index "toolsets").index "groups") with
      | none => .error failure
      | some groups =>
        if groups.length ≠ groupCount ∨ controllers.any fun name ↦
            (tool catalog name).all fun entry ↦ (entry.get "outputSchema").isSome then
          .error failure
        else
          match fresh contract available capture settings with
          | .error error => .error error
          | .ok visibility => .ok
            { contract, available, capture, settings, groups, visibility
              overrides := groups.map fun _ ↦ none
              manifest := manifestFor catalog visibility
              groups_eq := Option.some.inj
                (hgroups.symm.trans (Contract.groups_of_fromSource hcontract))
              length_overrides := List.length_map _ }

variable (tools : DynamicTools)

def controller (name : String) : Bool := controllers.contains name

def includes (name : String) : Bool :=
  controller name || (tools.visibility.state name).any State.enabled

/-- The totals of the groups in a result, where some tools are not available. -/
def disclose (visibility : Visibility) (transition : Transition) : Transition :=
  if transition.projection = .availabilityRestricted then
    let groups := visibility.groupFacts.map fun facts ↦ Json.ofMembers
      [("group", .string facts.group), ("known", Visibility.count facts.counts.known),
        ("available", Visibility.count facts.counts.available),
        ("registered", Visibility.count facts.counts.registered),
        ("enabled", Visibility.count facts.counts.enabled)]
    let structured := ((Json.object transition.result).index "structuredContent").asObject.getD []
    { transition with
      result := transition.result.insert "structuredContent" (.object
        (structured.insert "nativeVisibility" (.ofMembers
          [("projection", .string "availability-restricted"), ("groups", .array groups)]))) }
  else transition

/-- One turn of the loop over the overrides: the override of a group, if there is one. -/
def applyOverride (visibility : Visibility) (named : String × Option Bool) :
    Except String Visibility :=
  match named.2 with
  | none => .ok visibility
  | some enabled =>
    match visibility.setGroups [named.1] enabled with
    | .error _ => .error failure
    | .ok (_, visibility) => .ok visibility

/-- The visible state of the configuration and the overrides. -/
def preview : Except String Visibility :=
  match fresh tools.contract tools.available tools.capture tools.settings with
  | .error error => .error error
  | .ok initial => (tools.groups.zip tools.overrides).foldlM applyOverride initial

/-- The groups that a call names. -/
def requested (request : Request) : Except String (List String) :=
  if request.name = "obs-list-toolsets" then .ok []
  else
    match (request.args.index "groups").asArray.bind (·.mapM Json.asStr) with
    | none => .error failure
    | some groups => .ok groups

/-- What a call does to the preview. -/
def transition (preview : Visibility) (request : Request) (groups : List String) :
    Except String (Transition × Visibility) :=
  if request.name = "obs-list-toolsets" then
    match preview.list with
    | .error _ => .error failure
    | .ok transition => .ok (transition, preview)
  else
    match preview.setGroups groups (request.name = "obs-enable-toolset") with
    | .error _ => .error failure
    | .ok switched => .ok switched

/-- The loop that writes the overrides of the requested groups. It stops at a group that the session
does not know, with the overrides written so far. -/
def retain (groups : List String) (enabled : Bool) :
    List String → List (Option Bool) → Bool × List (Option Bool)
  | [], overrides => (true, overrides)
  | name :: requested, overrides =>
    match position groups name with
    | none => (false, overrides)
    | some index => retain groups enabled requested (overrides.set index (some enabled))

theorem length_retain (groups : List String) (enabled : Bool) (requested : List String)
    (overrides : List (Option Bool)) :
    (retain groups enabled requested overrides).2.length = overrides.length := by
  induction requested generalizing overrides with
  | nil => rfl
  | cons name requested ih =>
    rw [retain]
    split
    · rfl
    · rw [ih, List.length_set]

/-- The reservation of the notifications, one for each listener and each changed tool. -/
def notify (request : Request) (effects : List VisibilityChanged) : Except String (Option Cycle) :=
  let notices := if effects = [] then [] else toolChanges request.reply request.targets
  if effects = [] ∨ notices = [] then .ok none
  else request.notified.map fun _ ↦ some ⟨notices, effects.length⟩

/-- The part of a call before anything is written: the groups, the changed preview and what is
reserved on the output. -/
def prepare (request : Request) : Except String (List String × Visibility × Publication) := do
  let preview ← tools.preview
  let requested ← requested request
  let (transition, preview) ← transition preview request requested
  let transition := disclose preview transition
  let notifications ← notify request transition.effects
  let frame := request.reply.complete transition.result false
  let _ ← request.replied
  .ok (requested, preview, ⟨notifications, ⟨[frame], 1⟩⟩)

/-- A call of a controller: what it answers, and the session after it. -/
def call (catalog : Json) (request : Request) : Except String Publication × DynamicTools :=
  match tools.prepare request with
  | .error error => (.error error, tools)
  | .ok (requested, preview, publication) =>
    let retained := retain tools.groups (request.name = "obs-enable-toolset") requested
      tools.overrides
    let written := { tools with
      overrides := retained.2
      length_overrides := (length_retain _ _ _ _).trans tools.length_overrides }
    if retained.1 then
      (.ok publication,
        { written with visibility := preview, manifest := manifestFor catalog preview })
    else (.error failure, written)

/-- The session after some calls. -/
def run (catalog : Json) (requests : List Request) : DynamicTools :=
  requests.foldl (fun tools request ↦ (tools.call catalog request).2) tools

end DynamicTools

end ObsMcp.Dynamic
