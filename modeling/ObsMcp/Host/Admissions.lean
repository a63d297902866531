import ObsMcp.Foundations.Checked
import ObsMcp.Foundations.KeyMap

/-!
# The admission table of the host

The host registers transport frontends and retains one entry for each admitted exchange until the
exchange is retired. `frontendFor` registers a frontend, reaping the departed registrations that
own no entry; `check` and `admitExchange` decide and record an exchange; `cancel`, `disconnect` and
`close` only signal; `retire` removes an entry and `retireFrontend` a registration without entries.

The departure token of a frontend is created by its registration and shared by the table, the
transport's guard and the entries of the frontend. Its state is the Boolean the table holds for the
frontend, copied into the entries, and `depart` is the cancellation by the guard. `Operation` lists
what can happen to the table and `run` performs a sequence of operations on the new table.
-/

namespace ObsMcp.Host

open Foundations

structure FrontendId where
  value : ℕ
  deriving DecidableEq

structure ExchangeId where
  value : ℕ
  deriving DecidableEq

inductive Refusal
  | capacity
  | closed
  | identity
  | duplicate
  deriving DecidableEq

inductive Class
  | ordinary
  | takeStop
  | safetyStop
  deriving DecidableEq

/-- The reservation and the cancellation signals of retained work. -/
structure Pending where
  reservedStop : Bool
  reservedSafetyStop : Bool
  frontendCancelled : Bool
  cancel : Bool
  media : Option Bool
  deriving DecidableEq

/-- The work holds the reservation of a class. -/
def Pending.reserves (pending : Pending) : Class → Bool
  | .ordinary => false
  | .takeStop => pending.reservedStop
  | .safetyStop => pending.reservedSafetyStop

def Pending.isOrdinary (pending : Pending) : Bool :=
  !pending.reservedStop && !pending.reservedSafetyStop

def cancelPending (pending : Pending) : Pending :=
  { pending with
    frontendCancelled := true
    cancel := true
    media := pending.media.map (fun _ ↦ true) }

structure Entry where
  frontend : FrontendId
  wire : String
  pending : Pending
  departed : Bool
  deriving DecidableEq

def Entry.cancelled (entry : Entry) : Entry :=
  { entry with pending := cancelPending entry.pending }

/-- The table of the host. -/
structure Admissions where
  nextFrontend : Option ℕ
  nextExchange : Option ℕ
  frontends : KeyMap FrontendId Bool
  entries : KeyMap ExchangeId Entry
  wire : KeyMap (FrontendId × String) ExchangeId
  closing : Bool
  ingressTake : Option FrontendId
  ingressSafety : Option FrontendId

def ORDINARY_FRONTEND_JOBS : ℕ := 32

namespace Admissions

def new : Admissions where
  nextFrontend := some 0
  nextExchange := some 0
  frontends := KeyMap.empty
  entries := KeyMap.empty
  wire := KeyMap.empty
  closing := false
  ingressTake := none
  ingressSafety := none

variable (table : Admissions)

/-- A retained entry belongs to the frontend. -/
def hasFrontendJobs (frontend : FrontendId) : Bool :=
  table.entries.entries.any (fun entry ↦ entry.2.frontend = frontend)

/-- The frontend that holds the ingress slot of a class. -/
def ingress : Class → Option FrontendId
  | .ordinary => none
  | .takeStop => table.ingressTake
  | .safetyStop => table.ingressSafety

/-! ### Registration -/

/-- Departed registrations without an entry are dropped, and the ingress slots of frontends that
are not registered any more are freed. -/
def reap : Admissions :=
  let frontends := table.frontends.retain
    (fun id departed ↦ !departed || table.hasFrontendJobs id)
  { table with
    frontends := frontends
    ingressTake := table.ingressTake.filter (fun id ↦ (frontends.get id).isSome)
    ingressSafety := table.ingressSafety.filter (fun id ↦ (frontends.get id).isSome) }

def full : Bool :=
  decide (128 ≤ table.frontends.entries.length)

/-- A full table refuses the class: only a stop class with a free ingress slot still registers. -/
def refuses (c : Class) : Bool :=
  table.full && !(c == .takeStop && table.ingressTake.isNone) &&
    !(c == .safetyStop && table.ingressSafety.isNone)

/-- The table with a frontend registered. In a full table it takes the ingress slot of its
class. -/
def register (c : Class) (id : FrontendId) : Admissions :=
  { table with
    ingressTake := if table.full && c == .takeStop then some id else table.ingressTake
    ingressSafety := if table.full && c == .safetyStop then some id else table.ingressSafety
    nextFrontend := checkedAdd id.value 1
    frontends := table.frontends.insert id false }

def frontendFor (c : Class) : Except Refusal FrontendId × Admissions :=
  if table.closing then (.error .closed, table)
  else if table.reap.refuses c then (.error .capacity, table.reap)
  else match table.reap.nextFrontend with
    | none => (.error .identity, table.reap)
    | some id => (.ok ⟨id⟩, table.reap.register c ⟨id⟩)

/-! ### Admission -/

def ordinary : ℕ :=
  table.entries.entries.countP (fun entry ↦ entry.2.pending.isOrdinary)

/-- The number of entries that hold the reservation of a class. -/
def reserved (c : Class) : ℕ :=
  table.entries.entries.countP (fun entry ↦ entry.2.pending.reserves c)

section Wire

variable {Value : Type*} (toString : Value → String)

/-- The reservations an exchange would hold, or why it is refused. -/
def check (table : Admissions) (frontend : FrontendId) (wire : Value) (c : Class) :
    Except Refusal (Bool × Bool) :=
  if table.closing || table.frontends.get frontend != some false then .error .closed
  else if table.nextExchange.isNone then .error .identity
  else if (table.wire.get (frontend, toString wire)).isSome then .error .duplicate
  else if table.ordinary < ORDINARY_FRONTEND_JOBS then .ok (false, false)
  else match c with
    | .takeStop =>
      if table.entries.entries.any (fun entry ↦ entry.2.pending.reservedStop) then
        .error .capacity
      else .ok (true, false)
    | .safetyStop =>
      if table.entries.entries.any (fun entry ↦ entry.2.pending.reservedSafetyStop) then
        .error .capacity
      else .ok (false, true)
    | .ordinary => .error .capacity

/-- The table with an entry recorded under an exchange identity. -/
def record (table : Admissions) (id : ExchangeId) (entry : Entry) : Admissions :=
  { table with
    nextExchange := checkedAdd id.value 1
    wire := table.wire.insert (entry.frontend, entry.wire) id
    entries := table.entries.insert id entry }

def admitExchange (table : Admissions) (frontend : FrontendId) (wire : Value) (c : Class)
    (pending : Pending) : Except Refusal ExchangeId × Admissions :=
  match table.check toString frontend wire c, table.nextExchange with
  | .error refusal, _ => (.error refusal, table)
  | .ok _, none => (.error .identity, table)
  | .ok (reservedStop, reservedSafetyStop), some id =>
    (.ok ⟨id⟩, table.record ⟨id⟩
      { frontend := frontend
        wire := toString wire
        pending := { pending with
          reservedStop := reservedStop
          reservedSafetyStop := reservedSafetyStop }
        departed := (table.frontends.get frontend).getD false })

/-! ### Signals -/

def cancel (table : Admissions) (frontend : FrontendId) (wire : Value) : Admissions :=
  match table.wire.get (frontend, toString wire) with
  | none => table
  | some id => { table with entries := table.entries.modify id Entry.cancelled }

end Wire

/-- The departure token of a frontend is cancelled by its guard. -/
def depart (frontend : FrontendId) : Admissions :=
  { table with
    frontends := table.frontends.modify frontend (fun _ ↦ true)
    entries := table.entries.mapValues (fun entry ↦
      if entry.frontend = frontend then { entry with departed := true } else entry) }

def disconnect (frontend : FrontendId) : Admissions :=
  let registered := (table.frontends.get frontend).isSome
  { table with
    frontends := table.frontends.erase frontend
    entries := table.entries.mapValues (fun entry ↦
      if entry.frontend = frontend then
        { entry.cancelled with departed := entry.departed || registered }
      else entry) }

def close : Admissions :=
  { table with
    closing := true
    frontends := KeyMap.empty
    entries := table.entries.mapValues (fun entry ↦
      { entry.cancelled with
        departed := entry.departed || (table.frontends.get entry.frontend).isSome }) }

/-! ### Retirement -/

def retire (id : ExchangeId) : Option Pending × Admissions :=
  match table.entries.get id with
  | none => (none, table)
  | some entry =>
    (some entry.pending, { table with
      entries := table.entries.erase id
      wire := table.wire.erase (entry.frontend, entry.wire) })

def retireFrontend (frontend : FrontendId) : Except Refusal Unit × Admissions :=
  if table.hasFrontendJobs frontend then (.error .capacity, table)
  else (.ok (), { table with frontends := table.frontends.erase frontend })

end Admissions

/-! ### Runs -/

/-- What can happen to the table. -/
inductive Operation (Value : Type*)
  | frontendFor (c : Class)
  | admitExchange (frontend : FrontendId) (wire : Value) (c : Class) (pending : Pending)
  | cancel (frontend : FrontendId) (wire : Value)
  | disconnect (frontend : FrontendId)
  | retire (id : ExchangeId)
  | retireFrontend (frontend : FrontendId)
  | depart (frontend : FrontendId)
  | close

variable {Value : Type*} (toString : Value → String)

def Admissions.perform (table : Admissions) : Operation Value → Admissions
  | .frontendFor c => (table.frontendFor c).2
  | .admitExchange frontend wire c pending =>
    (table.admitExchange toString frontend wire c pending).2
  | .cancel frontend wire => table.cancel toString frontend wire
  | .disconnect frontend => table.disconnect frontend
  | .retire id => (table.retire id).2
  | .retireFrontend frontend => (table.retireFrontend frontend).2
  | .depart frontend => table.depart frontend
  | .close => table.close

/-- The table after a sequence of operations. -/
def run (operations : List (Operation Value)) : Admissions :=
  operations.foldl (Admissions.perform toString) Admissions.new

end ObsMcp.Host
