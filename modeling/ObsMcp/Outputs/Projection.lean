import ObsMcp.Foundations.Json
import ObsMcp.Foundations.Machine

/-!
# The projection of output transitions

The registry of `output_events.rs`. The socket receives events, the observer of the session takes
them one by one and projects each of them into the cells of the subscriptions it answers, under the
lock of the registry, and then publishes the cursor it has projected. A subscription waits for the
first started or stopped event of its kind. `State.act` is one step of the socket, of the observer,
of a revocation, of a registration or of a receiver. The slots of a projection and of a revocation,
the reads of a registration and the reads of `OutputSubscription::receive` are steps of their own,
so that everything that is not under the lock can happen between any two of them.

A subscription is found by its place in the list of all subscriptions ever made, which stands for
the address of its cell. Its `slot`, `result` and the time in its `cutoff` are its history.
-/

namespace ObsMcp.Outputs

open Foundations

def maxSubscriptions : ℕ := 32

def pathBytes : ℕ := 8 * 1024 * 1024

inductive OutputKind
  | record
  | stream
  | virtualCam
  | replayBuffer
  deriving DecidableEq

namespace OutputKind

def eventName : OutputKind → String
  | record => "RecordStateChanged"
  | stream => "StreamStateChanged"
  | virtualCam => "VirtualcamStateChanged"
  | replayBuffer => "ReplayBufferStateChanged"

def fromEvent (name : String) : Option OutputKind :=
  [record, stream, virtualCam, replayBuffer].find? (fun kind ↦ kind.eventName == name)

end OutputKind

inductive Terminal
  | started
  | stopped
  deriving DecidableEq

inductive OutputEventError
  | capacity
  | byteCapacity
  | pathTooLarge
  | identityExhausted
  | incompleteEvents
  | unavailable
  | revoked
  | confirmationExpired
  | settlementUnavailable
  deriving DecidableEq

/-- An event of the socket. -/
structure ObsEvent where
  connection : ℕ
  sequence : ℕ
  eventType : String
  data : Option Json
  receivedAt : ℕ

/-- One observed transition, with the path it owns. -/
structure OutputEvent where
  connection : ℕ
  sequence : ℕ
  receivedAt : ℕ
  terminal : Terminal
  path : Option String
  deriving DecidableEq

abbrev Result := Except OutputEventError OutputEvent

namespace ObsEvent

/-- A text of the data of an event. -/
def text (event : ObsEvent) (key : String) : Option String :=
  event.data.bind (fun data ↦ (data.asObject.bind (Members.get · key)).bind Json.asStr)

/-- The terminal state an event reports. -/
def terminal (event : ObsEvent) : Option Terminal :=
  (event.text "outputState").bind fun state ↦
    if state = "OBS_WEBSOCKET_OUTPUT_STARTED" then some .started
    else if state = "OBS_WEBSOCKET_OUTPUT_STOPPED" then some .stopped
    else none

/-- The kind of output and the terminal state, of an event that reports one. -/
def transition (event : ObsEvent) : Option (OutputKind × Terminal) :=
  (OutputKind.fromEvent event.eventType).bind fun kind ↦
    event.terminal.map fun terminal ↦ (kind, terminal)

/-- The path of a start. -/
def path (event : ObsEvent) (terminal : Terminal) : Option String :=
  if terminal = .started then event.text "outputPath" else none

end ObsEvent

structure Slot where
  id : ℕ
  kind : OutputKind
  after : ℕ
  registeredAt : ℕ
  confirmationDeadline : ℕ
  cell : ℕ
  deriving DecidableEq

/-- The filter of a projection. -/
def Slot.selects (slot : Slot) (kind : OutputKind) (event : ObsEvent) : Bool :=
  slot.kind = kind && slot.after < event.sequence && slot.registeredAt ≤ event.receivedAt &&
    event.receivedAt ≤ slot.confirmationDeadline

inductive Outcome
  | pending
  | ready (result : Result)
  | consumed
  deriving DecidableEq

/-- Where a subscription is. `held` is before the call of `receive`, `waiting` is its await, and the
places between are those of its loop; `polled` has found no outcome, `current` and `live` have found
the session and the registry there, `expired` and `unexpired` have read the clock, `captured` has a
cutoff and `projected` has found it projected. `closed` has found the watch gone. -/
inductive Phase
  | held
  | polling
  | polled
  | current
  | live
  | expired (now : ℕ)
  | captured (now : ℕ)
  | projected
  | unexpired (now : ℕ)
  | waiting
  | closed
  | returned
  | dropping
  | ended
  deriving DecidableEq

/-- A captured cursor, with the time of its capture. -/
structure Cutoff where
  cursor : ℕ
  time : ℕ
  deriving DecidableEq

/-- A subscription. Its cell is there until the subscription has ended; `event` is the event its
caller got and has not dropped. -/
structure Subscription where
  index : ℕ
  slot : Slot
  settlementDeadline : ℕ
  phase : Phase
  cutoff : Option Cutoff
  cell : Option Outcome
  result : Option Result
  event : Option OutputEvent

/-- What a receiver reads outside of its subscription. -/
structure Reading where
  now : ℕ
  cursor : ℕ
  invalidated : Bool
  alive : Bool
  progress : ℕ

namespace Subscription

variable (sub : Subscription)

/-- The end of a receive with an outcome of its own. -/
def refuse (error : OutputEventError) : Subscription :=
  { sub with phase := .returned, result := some (.error error) }

/-- `Cell::take`: the outcome of a ready cell is returned, otherwise the receive goes on. -/
def take (otherwise : Subscription) : Subscription :=
  match sub.cell with
  | some (.ready result) =>
    { sub with
      phase := .returned
      cell := some .consumed
      result := some result
      event := result.toOption }
  | _ => otherwise

/-- The next read of `OutputSubscription::receive`. -/
def receive (reading : Reading) : Option Subscription :=
  match sub.phase with
  | .polling => some (sub.take { sub with phase := .polled })
  | .polled =>
    some (if reading.invalidated then sub.refuse .revoked else { sub with phase := .current })
  | .current =>
    some (if reading.alive then { sub with phase := .live } else sub.refuse .revoked)
  | .live =>
    some { sub with
      phase :=
        if sub.slot.confirmationDeadline ≤ reading.now then .expired reading.now
        else .unexpired reading.now }
  | .expired now =>
    some { sub with
      phase := .captured now
      cutoff := some (sub.cutoff.getD ⟨reading.cursor, reading.now⟩) }
  | .captured now =>
    some { sub with
      phase :=
        if sub.cutoff.any (fun cutoff ↦ decide (cutoff.cursor ≤ reading.progress)) then .projected
        else .unexpired now }
  | .projected => some (sub.take (sub.refuse .confirmationExpired))
  | .unexpired now =>
    some (if sub.settlementDeadline ≤ now then sub.refuse .settlementUnavailable
      else { sub with phase := .waiting })
  | .closed => some (sub.take (sub.refuse .revoked))
  | _ => none

/-- The first poll of a receive. -/
def start (settlementDeadline : ℕ) : Option Subscription :=
  if sub.phase = .held then some { sub with phase := .polling, settlementDeadline } else none

/-- The await ends: a change, or a deadline. -/
def wake : Option Subscription :=
  if sub.phase = .waiting then some { sub with phase := .polling } else none

/-- The await ends because the registry and its watch are gone. -/
def lose (alive : Bool) : Option Subscription :=
  if sub.phase = .waiting ∧ alive = false then some { sub with phase := .closed } else none

/-- The subscription or its receive is dropped. -/
def drop : Option Subscription :=
  if sub.phase = .held ∨ sub.phase = .waiting then some { sub with phase := .dropping } else none

end Subscription

structure Registry where
  alive : Bool
  active : Bool
  nextId : Option ℕ
  slots : List (Option Slot)
  paths : ℕ
  progress : ℕ

namespace Registry

def new : Registry :=
  ⟨true, true, some 1, List.replicate maxSubscriptions none, pathBytes, 0⟩

/-- The next identity of a registration. -/
def identity (registry : Registry) : Except OutputEventError (ℕ × Registry) :=
  match registry.nextId with
  | none => .error .identityExhausted
  | some id =>
    .ok (id, { registry with nextId := if id + 1 < 2 ^ 64 then some (id + 1) else none })

/-- The first part of `OutputEvents::subscribe`: the free slot and the identity of a
registration. -/
def admission (registry : Registry) (invalidated : Bool) :
    Except OutputEventError (ℕ × ℕ × Registry) :=
  if !registry.active || invalidated then
    .error .revoked
  else
    match registry.slots.findIdx? Option.isNone with
    | none => .error .capacity
    | some index => registry.identity.map fun (id, next) ↦ (index, id, next)

def unregister (registry : Registry) (index id : ℕ) : Registry :=
  match registry.slots[index]? with
  | some (some slot) =>
    if slot.id = id then { registry with slots := registry.slots.set index none } else registry
  | _ => registry

/-- The outcome an event gives a cell, with the permits left. -/
def select (paths : ℕ) (event : ObsEvent) (terminal : Terminal) : Result × ℕ :=
  let selected (path : Option String) : OutputEvent :=
    ⟨event.connection, event.sequence, event.receivedAt, terminal, path⟩
  match event.path terminal with
  | none => (.ok (selected none), paths)
  | some text =>
    if pathBytes < text.utf8ByteSize then (.error .pathTooLarge, paths)
    else if text.utf8ByteSize ≤ paths then
      (.ok (selected (some text)), paths - text.utf8ByteSize)
    else (.error .byteCapacity, paths)

end Registry

/-- Who has the lock of the registry, and where. -/
inductive Holder
  | free
  | publishing (event : ObsEvent) (index : ℕ)
  | revoking (index : ℕ)
  | admitted (kind : OutputKind) (deadline index id : ℕ)
  | placed (kind : OutputKind) (deadline index id after : ℕ)
  | timed (kind : OutputKind) (deadline index id after registeredAt : ℕ)

/-- Where the observer is: between two events, with an event in hand, in the projection of an event,
with an event published, or gone. -/
inductive Observer
  | waiting
  | taken (event : ObsEvent)
  | publishing
  | published
  | stopped

/-- A session, its observer, the registry and the subscriptions. `received` is the history of the
socket. -/
structure State where
  token : ℕ
  now : ℕ
  received : List ObsEvent
  queue : List ObsEvent
  closed : Bool
  invalidated : Bool
  processed : ℕ
  observer : Observer
  registry : Registry
  holder : Holder
  subscriptions : List Subscription

inductive Label
  | tick (elapsed : ℕ)
  | receipt (eventType : String) (data : Option Json) (queued : Bool)
  | hangUp
  | terminate
  | dequeue
  | publish
  | project
  | resume
  | stop
  | revoke
  | revokeSlot
  | dropRegistry
  | subscribe (kind : OutputKind) (deadline : ℕ)
  | register
  | start (n settlementDeadline : ℕ)
  | receive (n : ℕ)
  | wake (n : ℕ)
  | lose (n : ℕ)
  | drop (n : ℕ)
  | unregister (n : ℕ)
  | dropEvent (n : ℕ)

def OutputEvent.bytes (event : OutputEvent) : ℕ := (event.path.map String.utf8ByteSize).getD 0

def Outcome.bytes : Outcome → ℕ
  | .ready (.ok event) => event.bytes
  | _ => 0

/-- The path bytes of an unread cell and of an event that is not dropped. -/
def Subscription.bytes (sub : Subscription) : ℕ :=
  (sub.cell.map Outcome.bytes).getD 0 + (sub.event.map OutputEvent.bytes).getD 0

namespace State

def initial (token : ℕ) : State :=
  ⟨token, 0, [], [], false, false, 0, .waiting, .new, .free, []⟩

variable (s : State)

/-- The cursor of the last event received. -/
def cursor : ℕ := s.received.length

def reading : Reading :=
  ⟨s.now, s.cursor, s.invalidated, s.registry.alive, s.registry.progress⟩

/-- `Publisher::publish`: the time, the cursor and the queueing of an event. An event that finds no
room in the queue ends the socket. -/
def receipt (eventType : String) (data : Option Json) (queued : Bool) : State :=
  let event : ObsEvent := ⟨s.token, s.cursor + 1, eventType, data, s.now⟩
  { s with
    received := s.received ++ [event]
    queue := if queued then s.queue ++ [event] else s.queue
    closed := !queued }

/-- The observer takes the next event; out of order it stops. -/
def dequeue (event : ObsEvent) (rest : List ObsEvent) : State :=
  { s with
    queue := rest
    observer :=
      if event.connection = s.token ∧ s.processed + 1 < 2 ^ 64 ∧
          s.processed + 1 = event.sequence then
        .taken event
      else
        .stopped }

/-- `Registry::publish` takes the lock; a revoked registry projects nothing. -/
def publish (event : ObsEvent) : State :=
  if s.registry.active ∧ event.connection = s.token then
    { s with
      processed := event.sequence
      observer := .publishing
      holder := .publishing event 0 }
  else
    { s with processed := event.sequence, observer := .published }

/-- The cell of a subscription gets its outcome, when it is pending. -/
def fill (n : ℕ) (result : Result) (paths : ℕ) : State :=
  match s.subscriptions[n]? with
  | some sub =>
    if sub.cell = some .pending then
      { s with
        subscriptions := s.subscriptions.set n { sub with cell := some (.ready result) }
        registry := { s.registry with paths } }
    else
      s
  | none => s

/-- The turn of one slot in a projection. -/
def projectSlot (event : ObsEvent) (index : ℕ) : State :=
  match event.transition, s.registry.slots[index]? with
  | some (kind, terminal), some (some slot) =>
    if slot.selects kind event then
      let (result, paths) := Registry.select s.registry.paths event terminal
      s.fill slot.cell result paths
    else
      s
  | _, _ => s

/-- The next part of a projection; after the last slot the cursor is published. -/
def project (event : ObsEvent) (index : ℕ) : State :=
  if index < s.registry.slots.length then
    { s.projectSlot event index with holder := .publishing event (index + 1) }
  else
    { s with
      registry := { s.registry with progress := event.sequence }
      holder := .free
      observer := .published }

/-- The next part of a revocation. -/
def revokeSlot (index : ℕ) : State :=
  match s.registry.slots[index]? with
  | some (some slot) =>
    { s.fill slot.cell (.error .revoked) s.registry.paths with holder := .revoking (index + 1) }
  | some none => { s with holder := .revoking (index + 1) }
  | none => { s with holder := .free }

/-- The registry goes, with its slots. -/
def dropRegistry : State :=
  { s with
    registry := { s.registry with
      alive := false
      slots := List.replicate maxSubscriptions none } }

def subscribe (kind : OutputKind) (deadline : ℕ) : Except OutputEventError State :=
  (s.registry.admission s.invalidated).map fun (index, id, registry) ↦
    { s with registry, holder := .admitted kind deadline index id }

/-- The rest of a registration: the cursor, the clock, and the slot with its cell. -/
def register : Option State :=
  match s.holder with
  | .admitted kind deadline index id =>
    some { s with holder := .placed kind deadline index id s.cursor }
  | .placed kind deadline index id after =>
    some { s with holder := .timed kind deadline index id after s.now }
  | .timed kind deadline index id after registeredAt =>
    let slot : Slot := ⟨id, kind, after, registeredAt, deadline, s.subscriptions.length⟩
    some { s with
      registry := { s.registry with slots := s.registry.slots.set index (some slot) }
      holder := .free
      subscriptions :=
        s.subscriptions ++ [⟨index, slot, 0, .held, none, some .pending, none, none⟩] }
  | _ => none

/-- One subscription takes a step of its own. -/
def move (n : ℕ) (step : Subscription → Option Subscription) : Option State :=
  (s.subscriptions[n]?.bind step).map fun sub ↦
    { s with subscriptions := s.subscriptions.set n sub }

/-- The drop of a subscription: its slot is given back, and its cell is gone. -/
def unregister (s : State) (n : ℕ) : Option State :=
  s.subscriptions[n]?.bind fun sub ↦
    if sub.phase = .returned ∨ sub.phase = .dropping then
      let registry := s.registry.unregister sub.index sub.slot.id
      some { s with
        registry := { registry with
          paths := registry.paths + (sub.cell.map Outcome.bytes).getD 0 }
        subscriptions := s.subscriptions.set n { sub with phase := .ended, cell := none } }
    else
      none

/-- The caller drops the event it got. -/
def dropEvent (n : ℕ) : Option State :=
  s.subscriptions[n]?.bind fun sub ↦
    if sub.phase = .ended then
      some { s with
        registry := { s.registry with
          paths := s.registry.paths + (sub.event.map OutputEvent.bytes).getD 0 }
        subscriptions := s.subscriptions.set n { sub with event := none } }
    else
      none

/-- The step is taken when the lock of the registry is free. -/
def locking (next : Option State) : Option State :=
  match s.holder with
  | .free => next
  | _ => none

def act : Label → Option State
  | .tick elapsed => some { s with now := s.now + elapsed }
  | .receipt eventType data queued =>
    if s.closed = false ∧ s.cursor + 1 < 2 ^ 64 then some (s.receipt eventType data queued)
    else none
  | .hangUp => some { s with closed := true }
  | .terminate => some { s with invalidated := true }
  | .dequeue =>
    match s.observer, s.queue with
    | .waiting, event :: rest => some (s.dequeue event rest)
    | _, _ => none
  | .publish =>
    match s.observer with
    | .taken event => s.locking (some (s.publish event))
    | _ => none
  | .project =>
    match s.holder with
    | .publishing event index => some (s.project event index)
    | _ => none
  | .resume =>
    match s.observer with
    | .published => some { s with observer := .waiting }
    | _ => none
  | .stop =>
    match s.observer with
    | .publishing => none
    | _ => some { s with observer := .stopped }
  | .revoke =>
    if s.registry.alive then
      s.locking (some { s with
        registry := { s.registry with active := false }, holder := .revoking 0 })
    else
      none
  | .revokeSlot =>
    match s.holder with
    | .revoking index => some (s.revokeSlot index)
    | _ => none
  | .dropRegistry =>
    match s.observer with
    | .stopped => s.locking (some s.dropRegistry)
    | _ => none
  | .subscribe kind deadline =>
    if s.registry.alive then s.locking (s.subscribe kind deadline).toOption else none
  | .register => s.register
  | .start n settlementDeadline => s.move n (fun sub ↦ sub.start settlementDeadline)
  | .receive n => s.move n (fun sub ↦ sub.receive s.reading)
  | .wake n => s.move n Subscription.wake
  | .lose n => s.move n (fun sub ↦ sub.lose s.registry.alive)
  | .drop n => s.move n Subscription.drop
  | .unregister n => if s.registry.alive then s.locking (s.unregister n) else s.unregister n
  | .dropEvent n => s.dropEvent n

end State

/-- The runs of a registry with its socket, its observer and its subscriptions. -/
def machine (token : ℕ) : Machine State Label where
  initial s := s = .initial token
  step s label t := s.act label = some t

end ObsMcp.Outputs
