import ObsMcp.Foundations.Machine
import ObsMcp.Stdio.Cursor

/-!
# The writer of the standard output

The output of `stdio_output.rs` with its worker. A caller opens a publication and takes the credits
of the four pools one by one, until the publication is reserved or refused; a reservation is dropped
or committed to the queue; the worker takes the entries from the queue and writes their frames, line
by line and flush by flush, to a writer that accepts any part of what it is offered. `State.act` is
one step of a caller or of the worker. The parts of a reservation are steps of their own, so that
several callers and the worker can go on between any two of them; a commit and the end of the queue
exclude each other by the lock of `closed`. `Output::try_send` is the reservation of one value and
its commit.

A publication is found by its place in the list of all publications ever opened. `accepted`,
`flushes`, `committed` and `finished` are the history: the bytes the writer accepted, how many they
were at each flush, the commits in their order, and the publications written to their end.
-/

namespace ObsMcp.Stdio

open Foundations

inductive Pool
  | items
  | bytes
  | templateEntries
  | headerBytes
  deriving DecidableEq

def Limits.pool (limits : Limits) : Pool → ℕ
  | .items => limits.items
  | .bytes => limits.bytes
  | .templateEntries => limits.templateEntries
  | .headerBytes => limits.headerBytes

inductive ErrorKind
  | brokenPipe
  | invalidInput
  | writer (code : ℕ)
  deriving DecidableEq

inductive Stage
  | queued
  | writing
  | flushing
  | complete
  | failed (kind : ErrorKind)
  deriving DecidableEq

def Stage.terminal : Stage → Bool
  | complete => true
  | failed _ => true
  | _ => false

structure Progress where
  stage : Stage
  frame : ℕ
  byte : ℕ
  deriving DecidableEq

structure Entry where
  cursor : Cursor
  progress : Progress
  maxLine : ℕ

/-- Where a publication is: in its reservation, with the credits taken so far, reserved, in the
queue, with the worker, or gone. -/
inductive Place
  | opened
  | permitted
  | planned (tally : Tally)
  | entriesTaken (tally : Tally)
  | templated (tally : Tally)
  | charged (tally : Tally)
  | reserved (entry : Entry)
  | queued (entry : Entry)
  | active (entry : Entry)
  | gone

/-- A place of the channel is kept from its reservation to the receipt of the entry. -/
def Place.channel : Place → Bool
  | opened => false
  | active _ => false
  | gone => false
  | _ => true

/-- A publication with its charges. `signal` is what its ticket reads. -/
structure Publication where
  cycles : List Cycle
  place : Place
  charge : Pool → ℕ
  signal : Progress

/-- Where the worker is: waiting for an entry, at the head of the loop of `write_entry`, in a write,
in a flush, with an entry written to its end, or on its way out. -/
inductive Worker
  | receiving
  | checking (n : ℕ)
  | writing (n : ℕ)
  | flushing (n : ℕ)
  | completed (n : ℕ)
  | unwinding (entry : Option ℕ)
  | draining
  | ended
  deriving DecidableEq

structure State where
  available : Pool → ℕ
  publications : List Publication
  queue : List ℕ
  closed : Bool
  sender : Bool
  worker : Worker
  accepted : List UInt8
  flushes : List ℕ
  committed : List ℕ
  finished : List ℕ

inductive Label
  | reserve (cycles : List Cycle)
  | proceed (n : ℕ) (fits : Bool)
  | drop (n : ℕ)
  | commit (n : ℕ)
  | receive
  | check
  | write (count : ℕ)
  | endLine
  | flush
  | fail (code : ℕ)
  | release
  | abort
  | unwind
  | finish
  | dropOutput

namespace State

def initial (limits : Limits) : State :=
  ⟨limits.pool, [], [], false, true, .receiving, [], [], [], []⟩

def put (s : State) (n : ℕ) (pub : Publication) : State :=
  { s with publications := s.publications.set n pub }

/-- The publication is gone, and its credits are back. -/
def discard (s : State) (n : ℕ) (pub : Publication) : State :=
  { s.put n { pub with place := .gone, charge := fun _ ↦ 0 } with
    available := fun pool ↦ s.available pool + pub.charge pool }

/-- `Entry::drop`: an entry that is neither complete nor failed fails. -/
def dropEntry (s : State) (n : ℕ) (pub : Publication) (entry : Entry) : State :=
  if entry.progress.stage.terminal then s.discard n pub
  else s.discard n { pub with signal := { entry.progress with stage := .failed .brokenPipe } }

/-- A number of credits of one pool is taken, or the reservation is refused. -/
def acquire (s : State) (n : ℕ) (pub : Publication) (pool : Pool) (count : ℕ) (next : Place) :
    State :=
  if count < 2 ^ 32 ∧ count ≤ s.available pool then
    { s.put n { pub with
        place := next
        charge := fun p ↦ if p = pool then pub.charge p + count else pub.charge p } with
      available := fun p ↦ if p = pool then s.available p - count else s.available p }
  else
    s.discard n pub

section Steps

variable (encoding : Json → List UInt8) (limits : Limits) (s : State)

/-- `Output::reserve_publication` takes an item. -/
def start (cycles : List Cycle) : Option State :=
  if s.sender ∧ 1 ≤ s.available .items then
    some { s with
      available := fun pool ↦ if pool = .items then s.available pool - 1 else s.available pool
      publications := s.publications ++
        [⟨cycles, .opened, fun pool ↦ if pool = .items then 1 else 0, ⟨.queued, 0, 0⟩⟩] }
  else
    none

/-- The places of the channel that are taken. -/
def channelUsed : ℕ := s.publications.countP (fun pub ↦ pub.place.channel)

/-- The next part of `Output::reserve_publication`. `fits` says that no buffer has a larger capacity
than was asked for. -/
def proceed (n : ℕ) (pub : Publication) (fits : Bool) : Option State :=
  match pub.place with
  | .opened =>
    some (if s.closed = false ∧ s.channelUsed < limits.items then
      s.put n { pub with place := .permitted } else s.discard n pub)
  | .permitted =>
    match plan encoding limits pub.cycles with
    | .ok tally =>
      some (s.put n { pub with
        place := if tally.frames = 1 then .templated tally else .planned tally })
    | .error _ => some (s.discard n pub)
  | .planned tally =>
    some (if limits.headerBytes < tally.headers then s.discard n pub
      else s.acquire n pub .templateEntries (tally.templates + pub.cycles.length)
        (.entriesTaken tally))
  | .entriesTaken tally => some (s.acquire n pub .headerBytes tally.headers (.templated tally))
  | .templated tally => some (s.acquire n pub .bytes tally.encodedSum (.charged tally))
  | .charged tally =>
    match payload encoding limits pub.cycles tally with
    | .ok encoded =>
      if fits then
        let entry : Entry := ⟨⟨encoded, 0, 0, 0, tally.frames⟩, ⟨.queued, 0, 0⟩, tally.maximum⟩
        some (s.put n { pub with place := .reserved entry, signal := entry.progress })
      else
        some (s.discard n pub)
    | .error _ => some (s.discard n pub)
  | _ => none

/-- `Reservation::commit`, under the lock of `closed`. -/
def commit (n : ℕ) (pub : Publication) : Option State :=
  match pub.place with
  | .reserved entry =>
    if s.worker = .draining then
      none
    else
      let t := { s with committed := s.committed ++ [n] }
      some (if s.closed then t.dropEntry n pub entry
        else { t.put n { pub with place := .queued entry } with queue := s.queue ++ [n] })
  | _ => none

/-- The entry of the worker gets a new progress, which its ticket reads when it is reported. -/
def progress (s : State) (n : ℕ) (pub : Publication) (entry : Entry) (next : Progress)
    (reported : Bool) (worker : Worker) : State :=
  { s.put n { pub with
      place := .active { entry with progress := next }
      signal := if reported then next else pub.signal } with
    worker }

/-- `Entry::fail` at the end of `write_entry`. -/
def failEntry (n : ℕ) (pub : Publication) (entry : Entry) (kind : ErrorKind) : State :=
  s.progress n pub entry { entry.progress with stage := .failed kind } true (.unwinding (some n))

/-- The head of the loop of `write_entry`. -/
def check (n : ℕ) (pub : Publication) (entry : Entry) : State :=
  match entry.cursor.current with
  | some line =>
    if entry.maxLine < line.length ∨ entry.cursor.frames ≤ entry.progress.frame then
      s.failEntry n pub entry .invalidInput
    else
      s.progress n pub entry { entry.progress with stage := .writing } true (.writing n)
  | none =>
    if entry.progress.frame ≠ entry.cursor.frames then
      s.failEntry n pub entry .invalidInput
    else
      { s.progress n pub entry { entry.progress with stage := .complete } true (.completed n) with
        finished := s.finished ++ [n] }

/-- The writer accepts some of the bytes it is offered. -/
def write (n : ℕ) (pub : Publication) (entry : Entry) (count : ℕ) : Option State :=
  match entry.cursor.current with
  | some line =>
    if 0 < count ∧ entry.progress.byte + count ≤ line.length then
      some { s.progress n pub entry
          { entry.progress with byte := entry.progress.byte + count } true (.writing n) with
        accepted := s.accepted ++ (line.drop entry.progress.byte).take count }
    else
      none
  | none => none

/-- A line is written to its end. -/
def endLine (n : ℕ) (pub : Publication) (entry : Entry) : Option State :=
  match entry.cursor.current with
  | some line =>
    if line.length ≤ entry.progress.byte then
      some (s.progress n pub entry { entry.progress with stage := .flushing } true (.flushing n))
    else
      none
  | none => none

/-- A flush succeeds, and the cursor goes to the next frame. -/
def flush (n : ℕ) (pub : Publication) (entry : Entry) : State :=
  { s.progress n pub { entry with cursor := entry.cursor.advance }
      { entry.progress with frame := entry.progress.frame + 1, byte := 0 } false (.checking n) with
    flushes := s.flushes ++ [s.accepted.length] }

/-- The publication with the worker, and its entry. -/
def activeEntry (n : ℕ) : Option (Publication × Entry) :=
  s.publications[n]?.bind fun pub ↦
    match pub.place with
    | .active entry => some (pub, entry)
    | _ => none

/-- The publication at the head of the queue, and its entry. -/
def queuedEntry (n : ℕ) : Option (Publication × Entry) :=
  s.publications[n]?.bind fun pub ↦
    match pub.place with
    | .queued entry => some (pub, entry)
    | _ => none

/-- The next part of the end of the worker: its entry is dropped, then the receiver with what is
queued. -/
def unwind : Option State :=
  match s.worker with
  | .unwinding (some n) =>
    (s.activeEntry n).map fun (pub, entry) ↦
      { s.dropEntry n pub entry with worker := .unwinding none }
  | .unwinding none => some { s with closed := true, worker := .draining }
  | .draining =>
    match s.queue with
    | [] => some { s with worker := .ended }
    | n :: rest =>
      (s.queuedEntry n).map fun (pub, entry) ↦ { s.dropEntry n pub entry with queue := rest }
  | _ => none

def act : Label → Option State
  | .reserve cycles => s.start cycles
  | .proceed n fits => s.publications[n]?.bind fun pub ↦ s.proceed encoding limits n pub fits
  | .drop n =>
    s.publications[n]?.bind fun pub ↦
      match pub.place with
      | .reserved entry => some (s.dropEntry n pub entry)
      | _ => none
  | .commit n => s.publications[n]?.bind fun pub ↦ s.commit n pub
  | .receive =>
    match s.worker, s.queue with
    | .receiving, n :: rest =>
      (s.queuedEntry n).map fun (pub, entry) ↦
        { s.put n { pub with place := .active entry } with queue := rest, worker := .checking n }
    | _, _ => none
  | .check =>
    match s.worker with
    | .checking n => (s.activeEntry n).map fun (pub, entry) ↦ s.check n pub entry
    | _ => none
  | .write count =>
    match s.worker with
    | .writing n => (s.activeEntry n).bind fun (pub, entry) ↦ s.write n pub entry count
    | _ => none
  | .endLine =>
    match s.worker with
    | .writing n => (s.activeEntry n).bind fun (pub, entry) ↦ s.endLine n pub entry
    | _ => none
  | .flush =>
    match s.worker with
    | .flushing n => (s.activeEntry n).map fun (pub, entry) ↦ s.flush n pub entry
    | _ => none
  | .fail code =>
    match s.worker with
    | .writing n =>
      (s.activeEntry n).map fun (pub, entry) ↦ s.failEntry n pub entry (.writer code)
    | .flushing n =>
      (s.activeEntry n).map fun (pub, entry) ↦ s.failEntry n pub entry (.writer code)
    | _ => none
  | .release =>
    match s.worker with
    | .completed n =>
      (s.activeEntry n).map fun (pub, entry) ↦
        { s.dropEntry n pub entry with worker := .receiving }
    | _ => none
  | .abort =>
    match s.worker with
    | .receiving => some { s with worker := .unwinding none }
    | .writing n => some { s with worker := .unwinding (some n) }
    | .flushing n => some { s with worker := .unwinding (some n) }
    | _ => none
  | .unwind => s.unwind
  | .finish =>
    if s.worker = .receiving ∧ s.queue = [] ∧ s.sender = false ∧ s.channelUsed = 0 then
      some { s with worker := .unwinding none }
    else
      none
  | .dropOutput => some { s with sender := false }

end Steps

end State

/-- The runs of an output with its callers and its worker. -/
def machine (encoding : Json → List UInt8) (limits : Limits) : Machine State Label where
  initial s := s = .initial limits
  step s label t := s.act encoding limits label = some t

end ObsMcp.Stdio
