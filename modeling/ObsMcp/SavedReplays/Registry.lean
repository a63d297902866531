import ObsMcp.Outputs.Answers

/-!
# Saved replay observations

The registry of `replay_events.rs`. The socket receives the events of a connection and numbers them,
the observer of the session publishes them in this order. A `ReplayBufferSaved` event goes, under
the lock of the registry, into the cell of each subscription that is armed for it; then the
registry announces the sequence it has published. `candidate` waits for the path in a cell, and
`confirm` first waits until everything received before it is published.

`State.act` is one step of the socket, of the observer, of a revocation, of a subscription or of a
call. The turns of the slots in `publish` and `revoke`, the two reads of `arm`, and the reads of a
call are steps of their own, so that what does not need the lock can happen between any two of
them. A subscription is found by its place in the list of all subscriptions ever made, which stands
for the address of its cell; `arms` counts its successful calls of `arm`, and `upTo` of a call is
the sequence up to which events were published for the subscription when the call read its path.
-/

namespace ObsMcp.SavedReplays

open Foundations
open Outputs (ObsEvent Numbered)

def slotCount : ℕ := 8

def maxPath : ℕ := 4096

/-- The path of a saved replay, when it is one: a text that is not empty, has no NUL and is at most
4096 bytes long. -/
def savedPath (event : ObsEvent) : Option String :=
  (event.text "savedReplayPath").filter fun path ↦
    path ≠ "" && decide (path.utf8ByteSize ≤ maxPath) && !path.toList.contains '\x00'

/-! ### Cells -/

/-- What a subscription has seen. It is armed with a cursor and a time. -/
structure Cell where
  armed : Option (ℕ × ℕ)
  seen : ℕ
  path : Option String
  issue : Option String

namespace Cell

def new : Cell := ⟨none, 0, none, none⟩

/-- The filter of `Registry::publish`. -/
def selects (cell : Cell) (deadline : ℕ) (event : ObsEvent) : Bool :=
  decide (event.eventType = "ReplayBufferSaved") &&
    match cell.armed with
    | none => false
    | some (after, armed) =>
      decide (after < event.sequence) && decide (armed ≤ event.receivedAt) &&
        decide (event.receivedAt ≤ deadline)

/-- The turn of a cell in `Registry::publish`. -/
def observe (cell : Cell) (deadline : ℕ) (event : ObsEvent) : Cell :=
  if cell.selects deadline event then
    let seen := min (min (cell.seen + 1) 255) 2
    if 1 < seen then
      { cell with
        seen
        path := none
        issue := some "Multiple replay-save events make this observation ambiguous" }
    else
      match savedPath event with
      | some path => { cell with seen, path := some path }
      | none =>
        { cell with seen, issue := some "Replay saved event has an invalid or oversized path" }
  else cell

/-- The turn of a cell in `Registry::revoke`. -/
def revoke (cell : Cell) : Cell :=
  { cell with issue := some "Replay observation connection ended" }

end Cell

/-! ### The registry, the subscriptions and the calls -/

structure Slot where
  id : ℕ
  deadline : ℕ
  cell : ℕ

structure Subscription where
  index : ℕ
  id : ℕ
  deadline : ℕ
  cell : Cell
  arms : ℕ
  dropped : Bool

/-- Where a call is: `draining` waits for the cursor of a confirmation, `checking` and `polling` are
the two reads of a turn of `candidate`, and `waiting` is its await. -/
inductive Phase
  | draining
  | checking
  | polling
  | waiting
  | returned (result : Except String String)
  | cancelled

/-- A call of `candidate`, or of `confirm` with the path it expects. -/
structure Call where
  subscription : ℕ
  expected : Option String
  cursor : ℕ
  phase : Phase
  upTo : ℕ

def Call.Running (call : Call) : Prop :=
  call.phase ≠ .cancelled ∧ ∀ result, call.phase ≠ .returned result

/-- Who has the lock of the registry, and where. -/
inductive Holder
  | free
  | publishing (event : ObsEvent) (next : ℕ)
  | revoking (next : ℕ)
  | arming (n after : ℕ)

/-- A connection, its registry, the subscriptions and the calls. `received` is the history of the
socket and `published` the number of events that were handed to the registry. -/
structure State where
  token : ℕ
  now : ℕ
  invalidated : Bool
  received : List ObsEvent
  published : ℕ
  alive : Bool
  active : Bool
  next : Option ℕ
  slots : List (Option Slot)
  progress : ℕ
  holder : Holder
  subscriptions : List Subscription
  calls : List Call

inductive Label
  | tick (elapsed : ℕ)
  | receipt (eventType : String) (data : Option Json) (receivedAt : ℕ)
  | invalidate
  | publish
  | publishSlot
  | revoke
  | revokeSlot
  | dropRegistry
  | subscribe (deadline : ℕ)
  | arm (n : ℕ)
  | stamp
  | candidate (n : ℕ)
  | confirm (n : ℕ) (expected : String)
  | proceed (k : ℕ)
  | wake (k : ℕ)
  | expire (k : ℕ)
  | cancel (k : ℕ)
  | drop (n : ℕ)

namespace State

def initial (token : ℕ) : State where
  token
  now := 0
  invalidated := false
  received := []
  published := 0
  alive := true
  active := true
  next := some 1
  slots := List.replicate slotCount none
  progress := 0
  holder := .free
  subscriptions := []
  calls := []

variable (s : State)

/-- `SessionHandle::event_cursor`. -/
def cursor : ℕ := s.received.length

/-- A step under the lock. -/
def locking (next : Option State) : Option State :=
  match s.holder with
  | .free => next
  | _ => none

/-- A new event of the connection. -/
def receipt (eventType : String) (data : Option Json) (receivedAt : ℕ) : State :=
  { s with received := s.received ++ [⟨s.token, s.cursor + 1, eventType, data, receivedAt⟩] }

/-- The cell of a slot is changed. -/
def touch (index : ℕ) (change : Slot → Cell → Cell) : State :=
  match s.slots[index]? with
  | some (some slot) =>
    { s with
      subscriptions := s.subscriptions.modify slot.cell
        fun sub ↦ { sub with cell := change slot sub.cell } }
  | _ => s

/-- `Registry::publish` takes the lock; a revoked registry, and an event of another connection,
change nothing. -/
def publish : Option State :=
  match s.received[s.published]? with
  | none => none
  | some event =>
    if s.active && event.connection == s.token then
      some { s with published := s.published + 1, holder := .publishing event 0 }
    else some { s with published := s.published + 1 }

/-- The turn of a slot in `Registry::publish`, or its end. -/
def publishSlot : Option State :=
  match s.holder with
  | .publishing event next =>
    if next < s.slots.length then
      some { s.touch next (fun slot cell ↦ cell.observe slot.deadline event) with
        holder := .publishing event (next + 1) }
    else some { s with progress := event.sequence, holder := .free }
  | _ => none

/-- The turn of a slot in `Registry::revoke`, or its end. -/
def revokeSlot : Option State :=
  match s.holder with
  | .revoking next =>
    if next < s.slots.length then
      some { s.touch next (fun _ cell ↦ cell.revoke) with holder := .revoking (next + 1) }
    else some { s with holder := .free }
  | _ => none

/-- `ReplayEvents::subscribe`. -/
def subscribe (deadline : ℕ) : Except String State :=
  if !s.active || s.invalidated || decide (deadline ≤ s.now) then
    .error "Replay observer is not live"
  else
    match s.slots.findIdx? Option.isNone, s.next with
    | none, _ => .error "Replay observation capacity exhausted"
    | some _, none => .error "Replay observation identity exhausted"
    | some index, some id =>
      .ok { s with
        next := if id + 1 < 2 ^ 64 then some (id + 1) else none
        slots := s.slots.set index (some ⟨id, deadline, s.subscriptions.length⟩)
        subscriptions := s.subscriptions ++ [⟨index, id, deadline, .new, 0, false⟩] }

/-- `Subscription::arm` up to its read of the cursor. -/
def arm (n : ℕ) (sub : Subscription) : Except String State :=
  if !s.active || s.invalidated || decide (sub.deadline ≤ s.now) then
    .error "Replay observer is not live"
  else if sub.cell.armed.isSome then
    .error "Replay observation was already armed; save cannot be replayed"
  else .ok { s with holder := .arming n s.cursor }

/-- `Subscription::arm` reads the clock and arms the cell. -/
def stamp : Option State :=
  match s.holder with
  | .arming n after =>
    some { s with
      holder := .free
      subscriptions := s.subscriptions.modify n fun sub ↦
        { sub with cell := { sub.cell with armed := some (after, s.now) }, arms := sub.arms + 1 } }
  | _ => none

/-- A subscription that is not dropped. -/
def live (n : ℕ) : Option Subscription :=
  s.subscriptions[n]?.filter fun sub ↦ !sub.dropped

/-- A call starts. Without the registry it returns at once. -/
def call (n : ℕ) (expected : Option String) (phase : Phase) : State :=
  { s with calls := s.calls ++ [⟨n, expected, s.cursor,
    if s.alive then phase else .returned (.error "Replay observer ended"), 0⟩] }

/-- The sequence up to which the events were published for a slot. -/
def publishedFor (index : ℕ) : ℕ :=
  match s.holder with
  | .publishing _ next => if index < next then s.progress + 1 else s.progress
  | _ => s.progress

/-- The read of a cell in `candidate`, and the comparison of `confirm`. -/
def poll (call : Call) (sub : Subscription) : Call :=
  match sub.cell.issue, sub.cell.path with
  | some issue, _ => { call with phase := .returned (.error issue) }
  | none, some path =>
    if call.expected.all (· == path) then
      { call with phase := .returned (.ok path), upTo := s.publishedFor sub.index }
    else { call with phase := .returned (.error "Replay saved-file observation changed") }
  | none, none => { call with phase := .waiting }

/-- The next read of a call. -/
def proceed (call : Call) (sub : Subscription) : Option Call :=
  match call.phase with
  | .draining => if call.cursor ≤ s.progress then some { call with phase := .checking } else none
  | .checking =>
    some { call with
      phase :=
        if s.invalidated || decide (sub.deadline ≤ s.now) then
          .returned (.error
            "Replay saved-event confirmation did not complete before the original deadline")
        else .polling }
  | .polling => some (s.poll call sub)
  | _ => none

/-- The await of a call ends at the deadline of its subscription. -/
def expire (call : Call) (sub : Subscription) : Option Call :=
  if s.now < sub.deadline then none
  else
    match call.phase with
    | .draining =>
      some { call with phase := .returned (.error "Replay observer barrier timed out") }
    | .waiting =>
      some { call with phase := .returned (.error "Replay saved-event confirmation timed out") }
    | _ => none

/-- A step of one call. -/
def move (k : ℕ) (step : Call → Option Call) : Option State :=
  ((s.calls[k]?).bind step).map fun call ↦ { s with calls := s.calls.set k call }

/-- The slot of a dropped subscription is freed, when it is its own. -/
def release (index id : ℕ) : List (Option Slot) :=
  match s.slots[index]? with
  | some (some slot) => if slot.id = id then s.slots.set index none else s.slots
  | _ => s.slots

/-- `Subscription::drop`. -/
def drop (n : ℕ) (sub : Subscription) : State :=
  { s with
    slots := if s.alive then s.release sub.index sub.id else s.slots
    subscriptions := s.subscriptions.modify n fun sub ↦ { sub with dropped := true } }

/-- No call of a subscription is under way. -/
def idle (n : ℕ) : Bool :=
  s.calls.all fun call ↦ call.subscription != n ||
    match call.phase with
    | .returned _ | .cancelled => true
    | _ => false

/-- No call is under way. -/
def quiet : Bool :=
  s.calls.all fun call ↦
    match call.phase with
    | .returned _ | .cancelled => true
    | _ => false

def act : Label → Option State
  | .tick elapsed => some { s with now := s.now + elapsed }
  | .receipt eventType data receivedAt => some (s.receipt eventType data receivedAt)
  | .invalidate => some { s with invalidated := true }
  | .publish => if s.alive then s.locking s.publish else none
  | .publishSlot => s.publishSlot
  | .revoke =>
    if s.alive then s.locking (some { s with active := false, holder := .revoking 0 }) else none
  | .revokeSlot => s.revokeSlot
  | .dropRegistry =>
    if s.quiet then
      s.locking (some { s with alive := false, slots := List.replicate slotCount none })
    else none
  | .subscribe deadline =>
    if s.alive then s.locking (s.subscribe deadline).toOption else none
  | .arm n =>
    if s.alive then (s.live n).bind fun sub ↦ s.locking (s.arm n sub).toOption else none
  | .stamp => s.stamp
  | .candidate n => (s.live n).map fun _ ↦ s.call n none .checking
  | .confirm n expected => (s.live n).map fun _ ↦ s.call n (some expected) .draining
  | .proceed k => s.move k fun call ↦ (s.live call.subscription).bind (s.proceed call)
  | .wake k => s.move k fun call ↦
    match call.phase with
    | .waiting => some { call with phase := .checking }
    | _ => none
  | .expire k => s.move k fun call ↦ (s.live call.subscription).bind (s.expire call)
  | .cancel k => s.move k fun call ↦
    match call.phase with
    | .returned _ => none
    | _ => some { call with phase := .cancelled }
  | .drop n =>
    (s.live n).bind fun sub ↦
      if s.idle n then
        if s.alive then s.locking (some (s.drop n sub)) else some (s.drop n sub)
      else none

end State

/-- The runs of the registry of a connection. -/
def machine (token : ℕ) : Machine State Label where
  initial s := s = State.initial token
  step s label t := s.act label = some t

end ObsMcp.SavedReplays
