import ObsMcp.Foundations.Permits

/-!
# Ingress connections and request bodies

A connection takes a permit of the ordinary pool or, when that is exhausted, of the emergency pool.
A reader takes the reader permit of its connection and body bytes of the connection's kind, and
becomes a body when its stream ends. The state of a connection is shared: its guard, the supervisor
of its driver and every reader or body hold a counted reference, and its permit is released when
the last of them is gone.

The release of each permit is a step of its own. A dropped reader releases its fields in the order
of their declaration: the reference to its connection, the reader permit, the bytes
(`releaseReader`). A refused call releases its local permits in reverse order, the bytes and then
the reader permit, and it borrows the guard until then. `received` and `handoffs` record the chunks
a reader has got and the bodies that were handed on.
-/

namespace ObsMcp.Ingress

open Foundations

def ORDINARY_CONNECTIONS : ℕ := 32
def EMERGENCY_CONNECTIONS : ℕ := 2
def ORDINARY_BODY_BYTES : ℕ := 32 * 1024 * 1024
def EMERGENCY_BODY_BYTES : ℕ := 16 * 1024
def MAX_BODY_BYTES : ℕ := 4 * 1024 * 1024

inductive Kind
  | ordinary
  | emergency
  deriving DecidableEq

/-- The largest body of a kind. -/
def Kind.max : Kind → ℕ
  | .ordinary => MAX_BODY_BYTES
  | .emergency => EMERGENCY_BODY_BYTES

inductive Failure
  | closed
  | capacity
  | tooLarge
  | lengthMismatch
  | deadline
  | cancelled
  | transport
  | emergencyUsed
  deriving DecidableEq

/-- The semaphores. The last one belongs to a connection. -/
inductive Pool
  | connections (kind : Kind)
  | body (kind : Kind)
  | reader (connection : ℕ)
  deriving DecidableEq

/-- The shared state of a connection. `guard` says that its `Connection` exists and `holders` counts
the references of supervisors. -/
structure Connection where
  kind : Kind
  permits : List (Permit Pool)
  guard : Bool
  holders : ℕ
  departed : Bool
  used : Bool

/-- A reader, a body, the locals of a refused call, or a dropped reader. -/
inductive Stage
  | reading
  | body
  | refused
  | dropping
  deriving DecidableEq

structure Reader where
  connection : ℕ
  capacity : ℕ
  length : Option ℕ
  stage : Stage
  bytes : List UInt8
  received : List (List UInt8)
  holding : Bool
  permits : List (Permit Pool)

/-- A body that was handed on, with the chunks of its stream. -/
structure Handoff where
  connection : ℕ
  kind : Kind
  bytes : List UInt8
  received : List (List UInt8)
  length : Option ℕ
  capacity : ℕ

/-- The ingress. `gate` says that its own state exists. -/
structure State where
  available : Pool → ℕ
  closing : Bool
  gate : Bool
  connections : List Connection
  readers : List Reader
  handoffs : List Handoff

namespace State

def new : State where
  available := fun
    | .connections .ordinary => ORDINARY_CONNECTIONS
    | .connections .emergency => EMERGENCY_CONNECTIONS
    | .body .ordinary => ORDINARY_BODY_BYTES
    | .body .emergency => EMERGENCY_CONNECTIONS * EMERGENCY_BODY_BYTES
    | .reader _ => 0
  closing := false
  gate := true
  connections := []
  readers := []
  handoffs := []

variable (state : State)

/-- The size of a pool. -/
def capacity : Pool → ℕ
  | .connections .ordinary => ORDINARY_CONNECTIONS
  | .connections .emergency => EMERGENCY_CONNECTIONS
  | .body .ordinary => ORDINARY_BODY_BYTES
  | .body .emergency => EMERGENCY_CONNECTIONS * EMERGENCY_BODY_BYTES
  | .reader connection => if connection < state.connections.length then 1 else 0

/-! ### Admission -/

/-- A permit was taken. When the ingress closed in the meantime, nobody gets the connection and its
permit is to be released. -/
def enter (kind : Kind) (taken : Pool → ℕ) (late : Bool) : Except Failure ℕ × State :=
  (if late then .error .closed else .ok state.connections.length,
    { state with
      available := Function.update taken (.reader state.connections.length) 1
      closing := state.closing || late
      connections := state.connections ++
        [{ kind := kind
           permits := [⟨.connections kind, 1⟩]
           guard := !late
           holders := 0
           departed := false
           used := false }] })

/-- A new connection. `late` says that the ingress is closed while the permit is taken. -/
def admitConnection (late : Bool) : Except Failure ℕ × State :=
  if state.closing then (.error .closed, state)
  else match tryAcquire state.available (.connections .ordinary) 1 with
    | some taken => state.enter .ordinary taken late
    | none => match tryAcquire state.available (.connections .emergency) 1 with
      | some taken => state.enter .emergency taken late
      | none => (.error .capacity, state)

def close : State := { state with closing := true }

/-- The ingress itself is dropped. -/
def dropIngress : State := { state.close with gate := false }

def setConnection (c : ℕ) (f : Connection → Connection) : State :=
  match state.connections[c]? with
  | none => state
  | some connection => { state with connections := state.connections.set c (f connection) }

/-- Somebody refers to the connection. -/
def owned (c : ℕ) : Bool :=
  (state.connections[c]?).any (fun connection ↦ connection.guard || 0 < connection.holders) ||
    state.readers.any (fun reader ↦ reader.connection == c && reader.holding)

/-- A refused call on the connection has not returned. -/
def borrowed (c : ℕ) : Bool :=
  state.readers.any (fun reader ↦
    reader.connection == c && reader.stage == .refused && reader.permits != [])

def depart (c : ℕ) : State :=
  state.setConnection c (fun connection ↦ { connection with departed := true })

/-- The guard is dropped, which needs that no call borrows it. -/
def dropConnection (c : ℕ) : State :=
  if state.borrowed c then state
  else state.setConnection c (fun connection ↦
    { connection with guard := false, departed := true })

/-- A supervisor takes a reference from the guard. -/
def hold (c : ℕ) : State :=
  state.setConnection c (fun connection ↦
    if connection.guard then { connection with holders := connection.holders + 1 }
    else connection)

def dropHeld (c : ℕ) : State :=
  state.setConnection c (fun connection ↦ { connection with holders := connection.holders - 1 })

/-- The permit of a connection without references is released. -/
def releaseConnection (c : ℕ) : State :=
  match state.connections[c]? with
  | none => state
  | some connection =>
    if state.owned c then state
    else match connection.permits with
      | [] => state
      | permit :: permits => { state with
          available := release state.available permit
          connections := state.connections.set c { connection with permits := permits } }

/-! ### Readers -/

def addReader (available : Pool → ℕ) (reader : Reader) : State :=
  { state with
    available := available
    readers := state.readers ++ [reader] }

/-- The locals of a refused call. -/
def refuse (available : Pool → ℕ) (c : ℕ) (permits : List (Permit Pool)) : State :=
  state.addReader available
    { connection := c
      capacity := 0
      length := none
      stage := .refused
      bytes := []
      received := []
      holding := false
      permits := permits }

/-- A reader of a body of a known or unknown length. `expired` says that the deadline has passed. -/
def reader (state : State) (c : ℕ) (length : Option ℕ) (expired : Bool) :
    Except Failure ℕ × State :=
  match state.connections[c]? with
  | none => (.error .closed, state)
  | some connection =>
    let capacity := length.getD connection.kind.max
    if !connection.guard || state.closing then (.error .closed, state)
    else if connection.departed then (.error .cancelled, state)
    else if expired then (.error .deadline, state)
    else if connection.kind.max < capacity then (.error .tooLarge, state)
    else if !state.gate then (.error .closed, state)
    else match tryAcquire state.available (.reader c) 1 with
      | none => (.error .capacity, state)
      | some entered => match tryAcquire entered (.body connection.kind) capacity with
        | none => (.error .capacity, state.refuse entered c [⟨.reader c, 1⟩])
        | some taken =>
          if connection.kind = .emergency ∧ connection.used then
            (.error .emergencyUsed,
              state.refuse taken c [⟨.body connection.kind, capacity⟩, ⟨.reader c, 1⟩])
          else
            (.ok state.readers.length,
              (state.setConnection c (fun connection ↦ { connection with
                used := connection.used || connection.kind == .emergency })).addReader taken
                { connection := c
                  capacity := capacity
                  length := length
                  stage := .reading
                  bytes := []
                  received := []
                  holding := true
                  permits := [⟨.reader c, 1⟩, ⟨.body connection.kind, capacity⟩] })

/-- Why a reader has to stop. -/
def stopped (reader : Reader) (expired : Bool) : Option Failure :=
  if state.closing then some .closed
  else if (state.connections[reader.connection]?).any Connection.departed then some .cancelled
  else if expired then some .deadline
  else none

/-- What the stream of a reader does, or that its buffer cannot be allocated. -/
inductive Event
  | chunk (bytes : List UInt8)
  | failed
  | ended
  | unallocated

/-- The reader after one event, or why it is dropped. -/
def collect (reader : Reader) : Event → Except Failure Reader
  | .chunk chunk =>
    if reader.bytes.length + chunk.length ≤ reader.capacity then
      .ok { reader with
        bytes := reader.bytes ++ chunk
        received := reader.received ++ [chunk] }
    else .error .tooLarge
  | .failed => .error .transport
  | .ended =>
    if reader.length.any (fun n ↦ n != reader.bytes.length) then .error .lengthMismatch
    else .ok { reader with stage := .body }
  | .unallocated => .error .capacity

def setReader (r : ℕ) (reader : Reader) : State :=
  { state with readers := state.readers.set r reader }

def drop (r : ℕ) (reader : Reader) : State :=
  state.setReader r { reader with stage := .dropping }

/-- One turn of the loop of a reader. -/
def poll (r : ℕ) (expired : Bool) (event : Event) : Option Failure × State :=
  match state.readers[r]? with
  | none => (none, state)
  | some reader =>
    if reader.stage ≠ .reading then (none, state)
    else match state.stopped reader expired with
      | some failure => (some failure, state.drop r reader)
      | none => match collect reader event with
        | .error failure => (some failure, state.drop r reader)
        | .ok after => (none, state.setReader r after)

/-- A body is handed on, and its reader dropped. -/
def handoff (r : ℕ) (expired : Bool) : Option Failure × State :=
  match state.readers[r]? with
  | none => (none, state)
  | some reader => match state.connections[reader.connection]? with
    | none => (none, state)
    | some connection =>
      if reader.stage ≠ .body then (none, state)
      else match state.stopped reader expired with
        | some failure => (some failure, state.drop r reader)
        | none =>
          (none, { state.drop r reader with
            handoffs := state.handoffs ++
              [{ connection := reader.connection
                 kind := connection.kind
                 bytes := reader.bytes
                 received := reader.received
                 length := reader.length
                 capacity := reader.capacity }] })

/-- A reader or a body is dropped. -/
def dropReader (r : ℕ) : State :=
  match state.readers[r]? with
  | none => state
  | some reader =>
    if reader.stage = .refused then state else state.drop r reader

/-- The next field of a dropped reader, or the next local of a refused call, is released. -/
def releaseReader (r : ℕ) : State :=
  match state.readers[r]? with
  | none => state
  | some reader =>
    if reader.stage ≠ .dropping ∧ reader.stage ≠ .refused then state
    else if reader.holding then state.setReader r { reader with holding := false }
    else match reader.permits with
      | [] => state
      | permit :: permits => { state.setReader r { reader with permits := permits } with
          available := release state.available permit }

end State

/-! ### Runs -/

/-- What can happen: calls, drops of values, and releases of fields. -/
inductive Operation
  | admitConnection (late : Bool)
  | close
  | dropIngress
  | depart (c : ℕ)
  | dropConnection (c : ℕ)
  | hold (c : ℕ)
  | dropHeld (c : ℕ)
  | releaseConnection (c : ℕ)
  | reader (c : ℕ) (length : Option ℕ) (expired : Bool)
  | poll (r : ℕ) (expired : Bool) (event : State.Event)
  | handoff (r : ℕ) (expired : Bool)
  | dropReader (r : ℕ)
  | releaseReader (r : ℕ)

def State.perform (state : State) : Operation → State
  | .admitConnection late => (state.admitConnection late).2
  | .close => state.close
  | .dropIngress => state.dropIngress
  | .depart c => state.depart c
  | .dropConnection c => state.dropConnection c
  | .hold c => state.hold c
  | .dropHeld c => state.dropHeld c
  | .releaseConnection c => state.releaseConnection c
  | .reader c length expired => (state.reader c length expired).2
  | .poll r expired event => (state.poll r expired event).2
  | .handoff r expired => (state.handoff r expired).2
  | .dropReader r => state.dropReader r
  | .releaseReader r => state.releaseReader r

def run (operations : List Operation) : State :=
  operations.foldl State.perform State.new

end ObsMcp.Ingress
