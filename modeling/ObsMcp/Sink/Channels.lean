import ObsMcp.Foundations.Permits
import ObsMcp.Host.Admissions

/-!
# Response channels and their credits

Response bodies are charged to semaphores: an ordinary pool for all ordinary channels, three pools
for each of the two stop classes (a slot, the bytes of the request body and the bytes of the
output), and for every channel a pool of bytes and a pool of items. A `StopLease` is a counted
reference to the `StopCredits` of one exchange of a stop class. A lease is held by callers, by the
sender of a reserved channel and by every packet of that channel.

Dropping a value does not release its fields at once. An owner keeps the permits it still holds in
the order of its declaration, and one release step gives back the first of them: the permits of a
packet and then its lease (`releasePacket`), the lease of a sender without owners
(`releaseSender`), the body and then the slot of credits without leases (`releaseCredits`).
Release steps of several values may interleave. Only the lengths of bodies matter here.
-/

namespace ObsMcp.Sink

open Foundations Host

def GLOBAL_BYTES : ℕ := 32 * 1024 * 1024
def STREAM_BYTES : ℕ := 1024 * 1024
def STREAM_ITEMS : ℕ := 16
def RESPONSE_ITEMS : ℕ := 128
def STOP_BODY_BYTES : ℕ := 16 * 1024
def STOP_OUTPUT_BYTES : ℕ := 64 * 1024

inductive Failure
  | closed
  | capacity
  | encoding
  deriving DecidableEq

/-- The classes with pools of their own. -/
inductive StopClass
  | take
  | safety
  deriving DecidableEq

/-- The semaphores. The last two belong to one sender. -/
inductive Pool
  | ordinary
  | slot (c : StopClass)
  | body (c : StopClass)
  | output (c : StopClass)
  | bytes (sender : ℕ)
  | items (sender : ℕ)
  deriving DecidableEq

/-- The credits of one exchange of a stop class: the body bytes and the slot, as far as they are
not released, and the number of leases that callers hold. -/
structure StopCredits where
  stopClass : StopClass
  permits : List (Permit Pool)
  handles : ℕ

/-- A sender with the receiving end of its channel. `limit` is the size of its item pool and
`holding` says that its lease has not been released. -/
structure Sender where
  global : Pool
  max : ℕ
  limit : ℕ
  failure : Option Failure
  departed : Bool
  closed : Bool
  stop : Option ℕ
  holding : Bool
  handles : ℕ
  receiver : Bool
  queue : List ℕ

/-- Where a packet is: in a reservation, handed to the channel or taken from it, or dropped. -/
inductive Place
  | reserved
  | handed
  | dropping
  deriving DecidableEq

/-- A packet with the permits and the lease that it has not released yet. -/
structure Packet where
  sender : ℕ
  body : ℕ
  place : Place
  permits : List (Permit Pool)
  stop : Option ℕ

structure State where
  available : Pool → ℕ
  credits : List StopCredits
  senders : List Sender
  packets : List Packet

namespace State

variable (state : State)

/-- The size of a pool. -/
def capacity : Pool → ℕ
  | .ordinary => GLOBAL_BYTES
  | .slot _ => 1
  | .body _ => STOP_BODY_BYTES
  | .output _ => STOP_OUTPUT_BYTES
  | .bytes sender => (state.senders[sender]?).elim 0 Sender.max
  | .items sender => (state.senders[sender]?).elim 0 Sender.limit

/-- The budget before any channel. -/
def new : State where
  available := fun
    | .ordinary => GLOBAL_BYTES
    | .slot _ => 1
    | .body _ => STOP_BODY_BYTES
    | .output _ => STOP_OUTPUT_BYTES
    | .bytes _ => 0
    | .items _ => 0
  credits := []
  senders := []
  packets := []

/-! ### Leases -/

/-- The credits of a new exchange of a stop class. -/
def reservePool (c : StopClass) (bytes : ℕ) : Except Failure (Option ℕ) × State :=
  if STOP_BODY_BYTES < bytes then (.error .capacity, state)
  else match tryAcquire state.available (.slot c) 1 with
    | none => (.error .capacity, state)
    | some slotted => match tryAcquire slotted (.body c) bytes with
      | none => (.error .capacity, { state with available := release slotted ⟨.slot c, 1⟩ })
      | some taken =>
        (.ok (some state.credits.length), { state with
          available := taken
          credits := state.credits ++
            [{ stopClass := c
               permits := [⟨.body c, bytes⟩, ⟨.slot c, 1⟩]
               handles := 1 }] })

def reserveStop (c : Host.Class) (bytes : ℕ) : Except Failure (Option ℕ) × State :=
  match c with
  | .ordinary => (.ok none, state)
  | .takeStop => state.reservePool .take bytes
  | .safetyStop => state.reservePool .safety bytes

/-- A caller's leases of some credits become more or fewer. Only the holder of a lease can do
that. -/
def setHandles (lease : ℕ) (f : ℕ → ℕ) : State :=
  match state.credits[lease]? with
  | none => state
  | some credits =>
    if credits.handles = 0 then state
    else { state with
      credits := state.credits.set lease { credits with handles := f credits.handles } }

/-- Somebody holds a lease of the credits. -/
def referenced (lease : ℕ) : Bool :=
  (state.credits[lease]?).any (fun credits ↦ 0 < credits.handles) ||
    state.senders.any (fun sender ↦ sender.holding && sender.stop == some lease) ||
    state.packets.any (fun packet ↦ packet.stop == some lease)

/-- The next field of credits without leases is released: the body bytes before the slot. -/
def releaseCredits (lease : ℕ) : State :=
  match state.credits[lease]? with
  | none => state
  | some credits =>
    if state.referenced lease then state
    else match credits.permits with
      | [] => state
      | permit :: permits => { state with
          available := release state.available permit
          credits := state.credits.set lease { credits with permits := permits } }

/-! ### Channels -/

/-- The sender of a new channel, and the semaphores with its two pools. -/
def openChannel (global : Pool) (max limit : ℕ) (stop : Option ℕ) : State :=
  { state with
    available := Function.update
      (Function.update state.available (.bytes state.senders.length) max)
      (.items state.senders.length) limit
    senders := state.senders ++
      [{ global := global
         max := max
         limit := limit
         failure := none
         departed := false
         closed := false
         stop := stop
         holding := true
         handles := 1
         receiver := true
         queue := [] }] }

/-- A channel, with a caller's lease moved into its sender. Without a lease it is ordinary. -/
def channelReserved (stream : Bool) (stop : Option ℕ) : State :=
  match stop with
  | none =>
    if stream then state.openChannel .ordinary STREAM_BYTES STREAM_ITEMS none
    else state.openChannel .ordinary GLOBAL_BYTES RESPONSE_ITEMS none
  | some lease => match state.credits[lease]? with
    | none => state
    | some credits =>
      if credits.handles = 0 then state
      else (state.openChannel (.output credits.stopClass) STOP_OUTPUT_BYTES 1
        (some lease)).setHandles lease (· - 1)

end State

def Sender.available (sender : Sender) : Bool :=
  !sender.departed && sender.receiver && !sender.closed

/-- The permits of a packet, or a failure with everything it took given back. -/
def Sender.credits (sender : Sender) (index : ℕ) (available : Pool → ℕ) (bytes : ℕ) :
    Except Failure (List (Permit Pool)) × (Pool → ℕ) :=
  if sender.max < bytes || !sender.available then
    (.error (if sender.max < bytes then .capacity else .closed), available)
  else if 2 ^ 32 ≤ bytes then (.error .capacity, available)
  else match tryAcquire available sender.global bytes with
    | none => (.error .capacity, available)
    | some shared => match tryAcquire shared (.bytes index) bytes with
      | none => (.error .capacity, release shared ⟨sender.global, bytes⟩)
      | some bounded => match tryAcquire bounded (.items index) 1 with
        | none => (.error .capacity,
            release (release bounded ⟨.bytes index, bytes⟩) ⟨sender.global, bytes⟩)
        | some taken =>
          (.ok [⟨sender.global, bytes⟩, ⟨.bytes index, bytes⟩, ⟨.items index, 1⟩], taken)

namespace State

variable (state : State) (index : ℕ)

/-- The sender has an owner: a handle or a reservation. -/
def owned : Bool :=
  (state.senders[index]?).any (fun sender ↦ 0 < sender.handles) ||
    state.packets.any (fun packet ↦ packet.sender == index && packet.place == .reserved)

def updateSender (f : Sender → Sender) : State :=
  match state.senders[index]? with
  | none => state
  | some sender => { state with senders := state.senders.set index (f sender) }

/-- A change of the sender by the holder of a handle of it. -/
def useSender (f : Sender → Sender) : State :=
  state.updateSender index (fun sender ↦ if sender.handles = 0 then sender else f sender)

def fail (reason : Failure) : State :=
  state.useSender index (fun sender ↦ { sender with
    closed := true
    failure := sender.failure.or (some reason)
    departed := true })

/-- The last field of a sender without owners is released. -/
def releaseSender : State :=
  if state.owned index then state
  else state.updateSender index (fun sender ↦ { sender with holding := false })

/-! ### Packets -/

/-- A new packet of a sender, in a reservation. -/
def addPacket (sender : Sender) (available : Pool → ℕ) (body : ℕ)
    (permits : List (Permit Pool)) : State :=
  { state with
    available := available
    packets := state.packets ++
      [{ sender := index
         body := body
         place := .reserved
         permits := permits
         stop := sender.stop }] }

/-- A reservation, for the holder of a handle of the sender. -/
def reserve (index body : ℕ) : Except Failure ℕ × State :=
  match state.senders[index]? with
  | none => (.error .closed, state)
  | some sender =>
    if sender.handles = 0 then (.error .closed, state)
    else match sender.credits index state.available body with
      | (.error failure, available) => (.error failure, { state with available := available })
      | (.ok permits, available) =>
        (.ok state.packets.length, state.addPacket index sender available body permits)

/-- Packets move to other places. -/
def move (place : ℕ → Packet → Place) : State :=
  { state with
    packets := state.packets.mapIdx (fun i packet ↦ { packet with place := place i packet }) }

/-- One packet moves. -/
def moveOne (i : ℕ) (place : Place) : State :=
  state.move (fun j packet ↦ if j = i then place else packet.place)

/-- A reservation is handed to the channel, or dropped. -/
def commit (i : ℕ) : Except Failure Unit × State :=
  match state.packets[i]? with
  | none => (.error .closed, state)
  | some packet => match state.senders[packet.sender]? with
    | none => (.error .closed, state)
    | some sender =>
      if packet.place ≠ .reserved then (.error .closed, state)
      else if sender.closed || sender.departed || !sender.receiver then
        (.error .closed, state.moveOne i .dropping)
      else
        (.ok (), (state.updateSender packet.sender
          (fun sender ↦ { sender with queue := sender.queue ++ [i] })).moveOne i .handed)

def send (index body : ℕ) : Except Failure Unit × State :=
  match state.reserve index body with
  | (.error failure, after) => (.error failure, after)
  | (.ok i, after) => after.commit i

/-- The bytes around an encoded notification. -/
def EVENT_FRAME_BYTES : ℕ := 23

/-- A notification. `counted` and `written` are the lengths of the encoding as it is counted and as
it is written, or nothing when the encoder fails. -/
def event (counted written : Option ℕ) : Except Failure Unit × State :=
  match state.senders[index]?, counted with
  | none, _ => (.error .closed, state)
  | some _, none => (.error .capacity, state)
  | some sender, some length =>
    if sender.handles = 0 then (.error .closed, state)
    else if sender.max < EVENT_FRAME_BYTES + length then (.error .capacity, state)
    else match sender.credits index state.available (EVENT_FRAME_BYTES + length) with
      | (.error failure, available) => (.error failure, { state with available := available })
      | (.ok permits, available) =>
        if written = some length then
          (state.addPacket index sender available (EVENT_FRAME_BYTES + length) permits).commit
            state.packets.length
        else
          (.error .encoding, { state with available := permits.reverse.foldl release available })

/-- The next packet of a channel. -/
def next : Option ℕ × State :=
  match state.senders[index]? with
  | none => (none, state)
  | some sender => match sender.receiver, sender.queue with
    | true, i :: queue =>
      (some i, state.updateSender index (fun sender ↦ { sender with queue := queue }))
    | _, _ => (none, state)

/-- The receiver closes the channel and drops what is queued. -/
def dropReceiver : State :=
  match state.senders[index]? with
  | none => state
  | some sender =>
    (state.updateSender index (fun sender ↦ { sender with receiver := false, queue := [] })).move
      (fun i packet ↦ if i ∈ sender.queue then .dropping else packet.place)

/-- A packet outside the queues, or a reservation, is dropped. -/
def dropPacket (i : ℕ) : State :=
  if state.senders.any (fun sender ↦ sender.queue.contains i) then state
  else state.moveOne i .dropping

/-- The next field of a dropped packet is released. -/
def releasePacket (i : ℕ) : State :=
  match state.packets[i]? with
  | none => state
  | some packet =>
    if packet.place ≠ .dropping then state
    else match packet.permits with
      | [] => { state with packets := state.packets.set i { packet with stop := none } }
      | permit :: permits => { state with
          available := release state.available permit
          packets := state.packets.set i { packet with permits := permits } }

end State

/-! ### Runs -/

/-- What can happen: calls, drops of values, and releases of fields. -/
inductive Operation
  | reserveStop (c : Host.Class) (bytes : ℕ)
  | cloneLease (lease : ℕ)
  | dropLease (lease : ℕ)
  | releaseCredits (lease : ℕ)
  | channelReserved (stream : Bool) (stop : Option ℕ)
  | cloneSender (index : ℕ)
  | dropSender (index : ℕ)
  | fail (index : ℕ) (reason : Failure)
  | depart (index : ℕ)
  | releaseSender (index : ℕ)
  | reserve (index body : ℕ)
  | commit (packet : ℕ)
  | send (index body : ℕ)
  | event (index : ℕ) (counted written : Option ℕ)
  | next (index : ℕ)
  | dropReceiver (index : ℕ)
  | dropPacket (packet : ℕ)
  | releasePacket (packet : ℕ)

def State.perform (state : State) : Operation → State
  | .reserveStop c bytes => (state.reserveStop c bytes).2
  | .cloneLease lease => state.setHandles lease (· + 1)
  | .dropLease lease => state.setHandles lease (· - 1)
  | .releaseCredits lease => state.releaseCredits lease
  | .channelReserved stream stop => state.channelReserved stream stop
  | .cloneSender index => state.useSender index
      (fun sender ↦ { sender with handles := sender.handles + 1 })
  | .dropSender index => state.useSender index
      (fun sender ↦ { sender with handles := sender.handles - 1 })
  | .fail index reason => state.fail index reason
  | .depart index => state.updateSender index (fun sender ↦ { sender with departed := true })
  | .releaseSender index => state.releaseSender index
  | .reserve index body => (state.reserve index body).2
  | .commit packet => (state.commit packet).2
  | .send index body => (state.send index body).2
  | .event index counted written => (state.event index counted written).2
  | .next index => (state.next index).2
  | .dropReceiver index => state.dropReceiver index
  | .dropPacket packet => state.dropPacket packet
  | .releasePacket packet => state.releasePacket packet

def run (operations : List Operation) : State :=
  operations.foldl State.perform State.new

end ObsMcp.Sink
