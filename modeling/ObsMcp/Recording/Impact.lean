import ObsMcp.Foundations.Checked
import ObsMcp.Foundations.Machine

/-!
# The recording-impact registry

The registry of `record_impact.rs`: a veto on the stop of an owned recording. A manual request that
may touch the recording is an attempt, which takes the single pending slot when it is sent and
leaves it when its fate is known; a ticket remembers the last identity at its reservation and reads
the registry again before the owned stop is sent. The whole history is kept in three numbers: the
last identity, the largest identity whose fate revoked the older tickets, and the revision.

Every method locks the state for its whole body, so the methods are functions on the state. They go
through `withState`, which first records an invalidation of the session. A method reaches the state
by upgrading a weak reference: while the owner lives the upgrade succeeds, and after its drop it may
still succeed for a moment; `upgraded` is the result. A panic with the lock held does not occur in
these methods, so the poisoned branch is left out.
-/

namespace ObsMcp.Recording

open Foundations

inductive Revocation
  | externalEffect
  | unknownEffect
  | unqualifiedRejection
  | abandonedAttempt
  | ownerGone
  | connectionClosed
  | poisoned
  | identityExhausted
  deriving DecidableEq

inductive ImpactStatus
  | ready
  | suspended (id : ℕ)
  | revoked (reason : Revocation)
  deriving DecidableEq

inductive ImpactError
  | ownerGone
  | connectionClosed
  | wrongConnection
  | capacity
  | staleAttempt
  | poisoned
  | identityExhausted
  | deadline
  deriving DecidableEq

structure State where
  alive : Bool
  terminal : Option Revocation
  lastId : ℕ
  pending : Option ℕ
  revokedThrough : ℕ
  reason : Revocation
  revision : ℕ
  deriving DecidableEq

/-- The fates of an attempt; the last one is its drop without a settlement. -/
inductive Fate
  | notDispatched
  | accepted
  | unknown
  | rejectedUnqualified
  | dropped
  deriving DecidableEq

/-- What a fate revokes the older tickets with. -/
def Fate.revocation : Fate → Option Revocation
  | .notDispatched => none
  | .accepted => some .externalEffect
  | .unknown => some .unknownEffect
  | .rejectedUnqualified => some .unqualifiedRejection
  | .dropped => some .abandonedAttempt

namespace State

def bind : State where
  alive := true
  terminal := none
  lastId := 0
  pending := none
  revokedThrough := 0
  reason := .externalEffect
  revision := 0

def advance (state : State) : State :=
  match checkedAdd state.revision 1 with
  | some next => { state with revision := next }
  | none => { state with terminal := some .identityExhausted, pending := none }

/-- The invalidation of the session, recorded once. -/
def observe (invalidated : Bool) (state : State) : State :=
  if invalidated && state.terminal.isNone then
    { state with terminal := some .connectionClosed, pending := none }.advance
  else
    state

/-- The error of a call on a registry that is at its end. -/
def terminalError : Revocation → ImpactError
  | .poisoned => .poisoned
  | .identityExhausted => .identityExhausted
  | _ => .connectionClosed

/-- `Inner::with`. -/
def withState {α : Type} (invalidated : Bool) (f : State → Except ImpactError α × State)
    (state : State) : Except ImpactError α × State :=
  if !state.alive then (.error .ownerGone, state)
  else
    let state := state.observe invalidated
    match state.terminal with
    | some reason => (.error (terminalError reason), state)
    | none => f state

/-- A method behind a weak reference. -/
def weak {α : Type} (upgraded : Bool) (f : State → Except ImpactError α × State) (state : State) :
    Except ImpactError α × State :=
  if upgraded then f state else (.error .ownerGone, state)

/-- The settlement of the pending attempt. -/
def settlePending (id : ℕ) (fate : Option Revocation) (state : State) :
    Except ImpactError Unit × State :=
  if state.pending ≠ some id then (.error .staleAttempt, state)
  else
    let state := { state with pending := none }
    let state := match fate with
      | some reason => { state with revokedThrough := id, reason }
      | none => state
    (.ok (), state.advance)

/-- `ManualImpactAttempt::finish`, and its drop. -/
def finish (upgraded invalidated : Bool) (id : ℕ) (fate : Fate) (state : State) :
    Except ImpactError Unit × State :=
  state.weak upgraded (withState invalidated (settlePending id fate.revocation))

/-- The epoch of a new ticket. -/
def epoch (state : State) : Except ImpactError ℕ × State :=
  if state.pending.isSome then (.error .capacity, state) else (.ok state.lastId, state)

def reserveTake (upgraded invalidated : Bool) (state : State) : Except ImpactError ℕ × State :=
  state.weak upgraded (withState invalidated epoch)

/-- `changes`, `check_connection` and the waits: they only look. -/
def touch (upgraded invalidated : Bool) (state : State) : Except ImpactError Unit × State :=
  state.weak upgraded (withState invalidated fun state ↦ (.ok (), state))

/-- The next attempt takes the pending slot. -/
def beginAttempt (state : State) : Except ImpactError ℕ × State :=
  if state.pending.isSome then (.error .capacity, state)
  else
    match checkedAdd state.lastId 1 with
    | none => (.error .identityExhausted,
        { state with terminal := some .identityExhausted }.advance)
    | some next =>
      let state := { state with lastId := next, pending := some next }.advance
      if state.terminal.isSome then (.error .identityExhausted, state) else (.ok next, state)

def beginAtSend (upgraded invalidated : Bool) (token expected : ℕ) (state : State) :
    Except ImpactError ℕ × State :=
  if expected ≠ token then (.error .wrongConnection, state)
  else state.weak upgraded (withState invalidated beginAttempt)

/-- What a ticket reads in a state it may read. -/
def read (epoch : ℕ) (state : State) : ImpactStatus :=
  if epoch < state.revokedThrough then .revoked state.reason
  else
    match state.pending with
    | some id => .suspended id
    | none => .ready

/-- The status of a call that failed. -/
def refusal : ImpactError → Revocation
  | .poisoned => .poisoned
  | .identityExhausted => .identityExhausted
  | .ownerGone => .ownerGone
  | _ => .connectionClosed

/-- `TakeImpactTicket::check`. -/
def check (upgraded invalidated : Bool) (epoch : ℕ) (state : State) : ImpactStatus × State :=
  match state.weak upgraded (withState invalidated fun state ↦ (.ok (state.read epoch), state)) with
  | (.ok status, state) => (status, state)
  | (.error error, state) => (.revoked (refusal error), state)

/-- The drop of the owner. -/
def drop (state : State) : State :=
  { state with alive := false, pending := none }.advance

end State

/-! ### The registry with its callers -/

/-- An attempt that was begun, or the fate it was settled with. -/
inductive Entry
  | begun (id : ℕ)
  | settled (id : ℕ) (fate : Fate)
  deriving DecidableEq

/-- A ticket, with the length of the history at its reservation. -/
structure Ticket where
  epoch : ℕ
  mark : ℕ
  deriving DecidableEq

/-- The registry of one session, what was begun and settled so far, and the tickets. -/
structure System where
  state : State
  invalidated : Bool
  history : List Entry
  tickets : List Ticket

inductive Event
  | reserve (upgraded : Bool)
  | beginAtSend (upgraded : Bool) (expected : ℕ)
  | finish (upgraded : Bool) (id : ℕ) (fate : Fate)
  | check (upgraded : Bool) (epoch : ℕ)
  | touch (upgraded : Bool)
  | invalidate
  | dropOwner

/-- The result of the upgrade in an event. -/
def Event.upgraded : Event → Bool
  | .reserve upgraded => upgraded
  | .beginAtSend upgraded _ => upgraded
  | .finish upgraded _ _ => upgraded
  | .check upgraded _ => upgraded
  | .touch upgraded => upgraded
  | .invalidate => true
  | .dropOwner => true

namespace System

/-- What an event does. -/
def apply (token : ℕ) (system : System) : Event → System
  | .reserve upgraded =>
    match system.state.reserveTake upgraded system.invalidated with
    | (.ok epoch, state) =>
      { system with state, tickets := ⟨epoch, system.history.length⟩ :: system.tickets }
    | (.error _, state) => { system with state }
  | .beginAtSend upgraded expected =>
    match system.state.beginAtSend upgraded system.invalidated token expected with
    | (.ok id, state) => { system with state, history := system.history ++ [.begun id] }
    | (.error _, state) => { system with state }
  | .finish upgraded id fate =>
    match system.state.finish upgraded system.invalidated id fate with
    | (.ok (), state) => { system with state, history := system.history ++ [.settled id fate] }
    | (.error _, state) => { system with state }
  | .check upgraded epoch =>
    { system with state := (system.state.check upgraded system.invalidated epoch).2 }
  | .touch upgraded =>
    { system with state := (system.state.touch upgraded system.invalidated).2 }
  | .invalidate => { system with invalidated := true }
  | .dropOwner => { system with state := system.state.drop }

end System

/-- The registry of a session with the given token, from its binding. While the owner lives every
upgrade succeeds, and the owner is dropped once. -/
def registry (token : ℕ) : Machine System Event where
  initial system := system = ⟨.bind, false, [], []⟩
  step system event after := (system.state.alive = true → event.upgraded = true) ∧
    (event = .dropOwner → system.state.alive = true) ∧ after = system.apply token event

end ObsMcp.Recording
