import ObsMcp.Foundations.Checked
import ObsMcp.Foundations.Json
import ObsMcp.Foundations.Machine

/-!
# Subscription routing

The routing state of the resource notifications: the installed listeners, the URIs a legacy client
subscribed to, and the running sums of their sizes. A listener or a URI is installed in two calls.
The plan checks the budgets and changes nothing; the commit applies it, but only to a routing whose
revision is the one the plan was made at. `cancel` and `setLegacy` change the routing at once, and
every change takes a new revision.

The subtractions of the running sums are unsigned and the index of a replaced listener is not
checked, so the model answers a `Panic` where they would go wrong. `routingMachine` interleaves all
calls, with any number of plans held, committed late or never. The length of an encoded identifier
is that of the serializer, which is a parameter.
-/

namespace ObsMcp.Subscriptions

open Foundations

def MAX_LISTENERS : ℕ := 1024

def MAX_IDS : ℕ := 256 * 1024

def MAX_ID : ℕ := 1024

def MAX_URIS : ℕ := 4096

def MAX_URI : ℕ := 256 * 1024

def MAX_URI_BYTES : ℕ := 1024 * 1024

inductive Failure
  | subscriptionLimit
  | capacity
  | invalidFilter
  | unavailable
  deriving DecidableEq

/-- An unsigned subtraction below zero, or an index out of bounds. -/
inductive Panic
  | underflow
  | outOfBounds
  deriving DecidableEq

structure Listener where
  id : Json
  tools : Bool
  list : Bool
  uris : List String
  idBytes : ℕ
  uriBytes : ℕ

structure Routing where
  revision : ℕ
  legacy : Bool
  tools : Bool
  listeners : List Listener
  legacyUris : List String
  idBytes : ℕ
  uriBytes : ℕ
  uriEntries : ℕ

structure ListenPlan where
  revision : ℕ
  listener : Listener
  prior : Option ℕ
  honored : Json

structure UriPlan where
  revision : ℕ
  uri : String
  add : Bool

/-- `-` on `usize`. -/
def subtract (a b : ℕ) : Except Panic ℕ :=
  match checkedSub a b with
  | some difference => .ok difference
  | none => .error .underflow

/-- The listener at an index, as `listeners[i]`. -/
def listenerAt (listeners : List Listener) (i : ℕ) : Except Panic Listener :=
  match listeners[i]? with
  | some listener => .ok listener
  | none => .error .outOfBounds

/-- The next revision, when it fits 64 bits. -/
def nextRevision (revision : ℕ) : Except Failure ℕ :=
  match checkedAdd revision 1 with
  | some revision => .ok revision
  | none => .error .unavailable

namespace Routing

def new (tools : Bool) : Routing :=
  ⟨0, false, tools, [], [], 0, 0, 0⟩

variable (routing : Routing)

def setLegacy (legacy : Bool) : Except Failure Unit × Routing :=
  if routing.legacy = legacy then (.ok (), routing)
  else
    match nextRevision routing.revision with
    | .error failure => (.error failure, routing)
    | .ok revision => (.ok (), { routing with revision, legacy })

/-- The position of the listener of an identifier. -/
def position (id : Json) : Option ℕ :=
  routing.listeners.findIdx? (fun listener ↦ listener.id == id)

/-- The sums without a listener. -/
def release (old : Listener) : Except Panic Routing := do
  let idBytes ← subtract routing.idBytes old.idBytes
  let uriBytes ← subtract routing.uriBytes old.uriBytes
  let uriEntries ← subtract routing.uriEntries old.uris.length
  return { routing with idBytes, uriBytes, uriEntries }

def cancel (id : Json) : Except Panic (Except Failure Bool × Routing) :=
  match routing.position id with
  | none => .ok (.ok false, routing)
  | some i =>
    match nextRevision routing.revision with
    | .error failure => .ok (.error failure, routing)
    | .ok revision => do
      let old ← listenerAt routing.listeners i
      let released ←
        { routing with revision, listeners := routing.listeners.eraseIdx i }.release old
      return (.ok true, released)

/-- The bytes of the URIs of a filter, each of them checked. -/
def sumUris (uris : List Json) : Except Failure ℕ :=
  uris.foldlM (fun total uri ↦
    match uri.asStr with
    | none => .error .invalidFilter
    | some uri =>
      if MAX_URI < uri.utf8ByteSize then .error .capacity
      else
        match checkedAdd total uri.utf8ByteSize with
        | some total => .ok total
        | none => .error .capacity) 0

/-- The honoured part of a filter. -/
def honoredFilter (tools list : Bool) (uris : List String) : Json :=
  let honored : Members := []
  let honored := if tools then Members.insert honored "toolsListChanged" (.bool true) else honored
  let honored :=
    if list then Members.insert honored "resourcesListChanged" (.bool true) else honored
  let honored :=
    if uris.isEmpty then honored
    else Members.insert honored "resourceSubscriptions" (.array (uris.map .string))
  .object honored

section Plan

variable (encodedLength : Json → ℕ)

/-- `encoded_len`: the length of an encoding within a limit. -/
def encodedLen (value : Json) (limit : ℕ) : Except Failure ℕ :=
  if encodedLength value ≤ limit then .ok (encodedLength value) else .error .capacity

/-- The listener a filter asks for. -/
def requestedListener (routing : Routing) (id filter : Json) (valid : Bool) :
    Except Failure Listener := do
  if MAX_LISTENERS ≤ routing.listeners.length then throw .subscriptionLimit
  if ¬ valid then throw .invalidFilter
  if ¬ (id.isString ∨ id.isI64 ∨ id.isU64) then throw .unavailable
  let idBytes ← encodedLen encodedLength id MAX_ID
  let uris := ((filter.get "resourceSubscriptions").bind Json.asArray).getD []
  if MAX_ID < idBytes ∨ MAX_LISTENERS < uris.length then throw .capacity
  let uriBytes ← sumUris uris
  let tools := routing.tools && (filter.index "toolsListChanged").asBool == some true
  let list := (filter.index "resourcesListChanged").asBool == some true
  return ⟨id, tools, list, uris.filterMap Json.asStr, idBytes, uriBytes⟩

/-- The sums of the routing with a listener put in the place of another one. -/
def replaced (routing : Routing) (old : Option Listener) (listener : Listener) :
    Except Panic (ℕ × ℕ × ℕ) := do
  let idBytes ← subtract routing.idBytes (old.elim 0 Listener.idBytes)
  let uriBytes ← subtract routing.uriBytes (old.elim 0 Listener.uriBytes)
  let uriEntries ← subtract routing.uriEntries (old.elim 0 fun old ↦ old.uris.length)
  return (idBytes + listener.idBytes, uriBytes + listener.uriBytes,
    uriEntries + listener.uris.length)

/-- `plan_listen` on a routing; `active` is the flag as it was loaded before the lock. -/
def planListen (routing : Routing) (active : Bool) (id filter : Json) (valid : Bool) :
    Except Panic (Except Failure ListenPlan) :=
  if ¬ active then .ok (.error .unavailable)
  else
    match routing.requestedListener encodedLength id filter valid with
    | .error failure => .ok (.error failure)
    | .ok listener => do
      let prior := routing.position id
      let old ← prior.mapM (listenerAt routing.listeners)
      let (idBytes, uriBytes, uriEntries) ← routing.replaced old listener
      if MAX_IDS < idBytes ∨ MAX_URI_BYTES < uriBytes ∨ MAX_URIS < uriEntries then
        return .error .capacity
      else
        return .ok ⟨routing.revision, listener, prior,
          honoredFilter listener.tools listener.list listener.uris⟩

end Plan

def commitListen (active : Bool) (plan : ListenPlan) :
    Except Panic (Except Failure Unit × Routing) :=
  if ¬ active ∨ routing.revision ≠ plan.revision then .ok (.error .unavailable, routing)
  else
    match nextRevision routing.revision with
    | .error failure => .ok (.error failure, routing)
    | .ok revision => do
      let released ←
        match plan.prior with
        | none => pure { routing with revision }
        | some i => do
          let old ← listenerAt routing.listeners i
          { routing with revision }.release old
      return (.ok (),
        { released with
          idBytes := released.idBytes + plan.listener.idBytes
          uriBytes := released.uriBytes + plan.listener.uriBytes
          uriEntries := released.uriEntries + plan.listener.uris.length
          listeners :=
            match plan.prior with
            | some i => released.listeners.set i plan.listener
            | none => released.listeners ++ [plan.listener] })

/-- `plan_uri` on a routing; `active` is the flag as it was loaded before the lock. -/
def planUri (active : Bool) (uri : String) (add : Bool) : Except Failure UriPlan :=
  if ¬ active then .error .unavailable
  else if MAX_URI < uri.utf8ByteSize then .error .capacity
  else if add ∧ uri ∉ routing.legacyUris ∧ (MAX_LISTENERS ≤ routing.legacyUris.length ∨
      MAX_URI_BYTES < routing.uriBytes + uri.utf8ByteSize ∨ MAX_URIS ≤ routing.uriEntries) then
    .error .capacity
  else .ok ⟨routing.revision, uri, add⟩

def commitUri (active : Bool) (plan : UriPlan) : Except Panic (Except Failure Unit × Routing) :=
  if ¬ active ∨ routing.revision ≠ plan.revision then .ok (.error .unavailable, routing)
  else
    match nextRevision routing.revision with
    | .error failure => .ok (.error failure, routing)
    | .ok revision =>
      if plan.add then
        if plan.uri ∈ routing.legacyUris then .ok (.ok (), { routing with revision })
        else
          .ok (.ok (),
            { routing with
              revision
              legacyUris := routing.legacyUris ++ [plan.uri]
              uriBytes := routing.uriBytes + plan.uri.utf8ByteSize
              uriEntries := routing.uriEntries + 1 })
      else if plan.uri ∈ routing.legacyUris then do
        let uriBytes ← subtract routing.uriBytes plan.uri.utf8ByteSize
        let uriEntries ← subtract routing.uriEntries 1
        return (.ok (),
          { routing with
            revision, uriBytes, uriEntries
            legacyUris := routing.legacyUris.erase plan.uri })
      else .ok (.ok (), { routing with revision })

end Routing

/-! ### Runs -/

/-- The owner of a routing: the routing, whether the owner is still active, and the plans that were
made so far. -/
structure Owner where
  routing : Routing
  active : Bool
  listenPlans : List ListenPlan
  uriPlans : List UriPlan

/-- A call with its arguments. The planning calls also say what they loaded from the active flag. -/
inductive Call
  | planListen (loaded : Bool) (id filter : Json) (valid : Bool)
  | commitListen (plan : ListenPlan)
  | planUri (loaded : Bool) (uri : String) (add : Bool)
  | commitUri (plan : UriPlan)
  | cancel (id : Json)
  | setLegacy (legacy : Bool)
  | close

/-- What a call answers. -/
inductive Reply
  | listenPlan (result : Except Failure ListenPlan)
  | uriPlan (result : Except Failure UriPlan)
  | cancelled (result : Except Failure Bool)
  | done (result : Except Failure Unit)

/-- The reply is an error. -/
def Reply.isError : Reply → Prop
  | .listenPlan result => ∃ failure, result = .error failure
  | .uriPlan result => ∃ failure, result = .error failure
  | .cancelled result => ∃ failure, result = .error failure
  | .done result => ∃ failure, result = .error failure

namespace Owner

variable (encodedLength : Json → ℕ)

/-- One call. -/
def exec (owner : Owner) : Call → Except Panic (Reply × Owner)
  | .planListen loaded id filter valid => do
    let result ← owner.routing.planListen encodedLength loaded id filter valid
    return (.listenPlan result,
      { owner with listenPlans := owner.listenPlans ++ result.toOption.toList })
  | .commitListen plan => do
    let (result, routing) ← owner.routing.commitListen owner.active plan
    return (.done result, { owner with routing })
  | .planUri loaded uri add =>
    let result := owner.routing.planUri loaded uri add
    .ok (.uriPlan result, { owner with uriPlans := owner.uriPlans ++ result.toOption.toList })
  | .commitUri plan => do
    let (result, routing) ← owner.routing.commitUri owner.active plan
    return (.done result, { owner with routing })
  | .cancel id => do
    let (result, routing) ← owner.routing.cancel id
    return (.cancelled result, { owner with routing })
  | .setLegacy legacy =>
    let (result, routing) := owner.routing.setLegacy legacy
    .ok (.done result, { owner with routing })
  | .close => .ok (.done (.ok ()), { owner with active := false })

/-- The calls that can be made: a planning call loads the flag before it takes the lock, so it may
still see an owner that has been closed since as active; a commit is given a plan that was made. -/
def Enabled (owner : Owner) : Call → Prop
  | .planListen loaded _ _ _ => loaded = false → owner.active = false
  | .planUri loaded _ _ => loaded = false → owner.active = false
  | .commitListen plan => plan ∈ owner.listenPlans
  | .commitUri plan => plan ∈ owner.uriPlans
  | _ => True

end Owner

/-- Runs of an owner from a new one. -/
def routingMachine (encodedLength : Json → ℕ) : Machine Owner (Call × Reply) where
  initial owner := ∃ tools, owner = ⟨.new tools, true, [], []⟩
  step owner event owner' :=
    owner.Enabled event.1 ∧ owner.exec encodedLength event.1 = .ok (event.2, owner')

end ObsMcp.Subscriptions
