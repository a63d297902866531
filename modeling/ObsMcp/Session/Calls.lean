import ObsMcp.Foundations.Machine
import ObsMcp.Session.Exchange

/-!
# Calls and the actor

A call of `enqueue` shares a state word and a reply channel with the command it puts into a queue.
The actor takes commands from the queues, checks them in `prepare_dispatch`, hands their frames to
the writer and answers them. Each step here is one access to what the two sides share, so that every
interleaving of the calls with each other and with the actor is a run of the machine `session`.

A command has one owner at a time, its `Place`: the call that made it, a queue, the hands of the
actor, a slot of the exchange, or nobody. The sending half of its reply channel is dropped with it.
-/

namespace ObsMcp.Session

open Foundations

/-! ### Calls -/

/-- The state word: `QUEUED`, `DISPATCHING` or `ABANDONED`. -/
inductive Word
  | queued | dispatching | abandoned
  deriving DecidableEq

/-- Who owns a command. -/
inductive Place
  | call | queue | held | slot | dropped
  deriving DecidableEq

/-- Where a call stands in `enqueue`: before the command is built, before the deadline is checked,
before the command is sent, at the reply; then at the reading of the reason and of the state word
after the channel was closed, at the exchange of the word after the deadline, or at the cancellation
after the future was dropped. A known result is returned after the cancellation guard has run. -/
inductive Phase
  | admitted | built | sending | waiting
  | closed
  | loading (reason : Invalidation)
  | expired
  | abandoning
  | returning (outcome : Outcome)
  | returned (outcome : Outcome)
  | gone

structure Call where
  command : Command
  word : Word
  receiver : Bool
  reply : Option Outcome
  place : Place
  phase : Phase

namespace Call

/-- The exchange of `QUEUED` for another word; it fails on every other word. -/
def exchangeWord (call : Call) (word : Word) : Call :=
  if call.word = .queued then { call with word } else call

/-- The command is dropped with the sending half of the channel. -/
def drop (call : Call) : Call :=
  { call with place := .dropped }

/-- `finish`: the outcome goes into the channel unless its receiver is gone. -/
def deliver (call : Call) (outcome : Outcome) : Call :=
  { call with
    place := .dropped
    reply := if call.receiver then some outcome else call.reply }

/-- The call is about to return, and holds neither half of the channel. -/
def conclude (call : Call) (outcome : Outcome) : Call :=
  { call with receiver := false, phase := .returning outcome }

end Call

/-! ### The actor -/

/-- The next check of `prepare_dispatch` on the command in hand, after the observations of the
exchange were retired. -/
inductive Stage
  | retire | token | deadline | channel | word | guard | lateness
  | companions (rest : List Lane)
  | companionChannel (lane : Lane) (rest : List Lane)
  | exchange | recheck

/-- What the actor is doing: a turn of the exchange, a check, the answer to a refused command, the
steps of its shutdown. `aborted` is a task that was aborted or panicked; what it owned is dropped
piece by piece. -/
inductive Activity
  | running
  | preparing (command : Command) (stage : Stage)
  | refusing (command : Command) (refusal : BeforeDispatch)
  | closing (reason : Invalidation)
  | announced (reason : Invalidation)
  | draining (reason : Invalidation)
  | finished
  | aborted (held : Option Command)

/-- The command in the hands of the actor. -/
def Activity.held : Activity → Option Command
  | preparing command _ | refusing command _ => some command
  | aborted held => held
  | _ => none

structure State where
  now : ℕ
  calls : List Call
  queues : Lane → List Command
  sealed : Bool
  terminal : Option Invalidation
  exchange : Exchange
  activity : Activity
  handed : List ℕ

/-- A move of one call. -/
inductive Move
  | refuse (refusal : BeforeDispatch)
  | build | check | submit | poll | expire | inquire | load | exchange | abandon | finish

inductive Label
  | tick
  | ownerDropped
  | start (kind : CommandKind) (expected deadline : ℕ)
  | move (caller : ℕ) (move : Move)
  | turn (event : Event)
  | receive (lane : Lane)
  | prepare (guard : Except String Unit)
  | refuse
  | announce
  | closeQueues
  | drain
  | abort
  | dropHeld
  | dropSlot (lane : Lane)
  | dropQueued (lane : Lane)
  | dropLifetime

section Model

variable (token : ℕ) (capacity : Lane → ℕ)

/-- The request id of a sequence number. -/
def requestId (token sequence : ℕ) : String :=
  s!"{token}:{sequence}"

namespace State

variable (s : State)

/-- What the exchange reads of the calls. -/
def view : View where
  now := s.now
  gone := fun caller ↦ (s.calls[caller]?).all (fun call ↦ !call.receiver)

/-- The session's reason as a handle reads it. -/
def invalidation : Invalidation :=
  s.terminal.getD .actorStopped

def setCall (caller : ℕ) (call : Call) : State :=
  { s with calls := s.calls.set caller call }

/-- A call that passed the checks on its request and got a sequence number. -/
def start (kind : CommandKind) (expected deadline : ℕ) : Option State :=
  if s.calls.length + 1 < 2 ^ 64 then
    some { s with calls := s.calls ++ [{
      command := {
        caller := s.calls.length
        expected, kind, deadline
        requestId := requestId token (s.calls.length + 1)
        flushed := false }
      word := .queued
      receiver := true
      reply := none
      place := .call
      phase := .admitted }] }
  else none

/-- The result of `try_send`. -/
def submit (caller : ℕ) (call : Call) : State :=
  let lane := call.command.kind.lane
  if s.sealed then
    s.setCall caller (call.drop.conclude (.error (.beforeDispatch (.closed s.invalidation))))
  else if capacity lane ≤ (s.queues lane).length then
    s.setCall caller (call.drop.conclude (.error (.beforeDispatch .capacity)))
  else
    { s.setCall caller { call with place := .queue, phase := .waiting } with
      queues := Function.update s.queues lane (s.queues lane ++ [call.command]) }

/-- One move of a call. -/
def moveCall (caller : ℕ) (call : Call) : Move → Option State
  | .refuse refusal =>
    match call.phase with
    | .admitted =>
      if refusal = .byteCapacity ∨ refusal = .invalidRequest then
        some (s.setCall caller { call.drop with
          receiver := false, phase := .returned (.error (.beforeDispatch refusal)) })
      else none
    | _ => none
  | .build =>
    match call.phase with
    | .admitted => some (s.setCall caller { call with phase := .built })
    | _ => none
  | .check =>
    match call.phase with
    | .built =>
      if call.command.deadline ≤ s.now then
        some (s.setCall caller (call.drop.conclude (.error (.beforeDispatch .deadline))))
      else some (s.setCall caller { call with phase := .sending })
    | _ => none
  | .submit =>
    match call.phase with
    | .sending => some (s.submit capacity caller call)
    | _ => none
  | .poll =>
    match call.phase, call.reply with
    | .waiting, some outcome => some (s.setCall caller (call.conclude outcome))
    | .waiting, none =>
      if call.place = .dropped then
        some (s.setCall caller { call with receiver := false, phase := .closed })
      else none
    | _, _ => none
  | .expire =>
    match call.phase, call.reply with
    | .waiting, none =>
      if call.command.deadline ≤ s.now ∧ call.place ≠ .dropped then
        some (s.setCall caller { call with receiver := false, phase := .expired })
      else none
    | _, _ => none
  | .inquire =>
    match call.phase with
    | .closed => some (s.setCall caller { call with phase := .loading s.invalidation })
    | _ => none
  | .load =>
    match call.phase with
    | .loading reason =>
      some (s.setCall caller (call.conclude (.error (
        if call.word = .dispatching then .unknown reason else .beforeDispatch (.closed reason)))))
    | _ => none
  | .exchange =>
    match call.phase with
    | .expired =>
      some (s.setCall caller ((call.exchangeWord .abandoned).conclude (.error (
        if call.word = .queued then .beforeDispatch .deadline
        else .unknown .deadlineAfterDispatch))))
    | _ => none
  | .abandon =>
    match call.phase with
    | .waiting => some (s.setCall caller { call with receiver := false, phase := .abandoning })
    | _ => none
  | .finish =>
    match call.phase with
    | .returning outcome =>
      some (s.setCall caller { call.exchangeWord .abandoned with phase := .returned outcome })
    | .abandoning => some (s.setCall caller { call.exchangeWord .abandoned with phase := .gone })
    | _ => none

/-- The outcome that a turn of the exchange has for a call. -/
def outcomeFor (active : ActiveCommands) (finished : Lane → Option Outcome) (caller : ℕ) :
    Option Outcome :=
  Lane.all.findSome? (fun lane ↦ (active lane).bind (fun command ↦
    if command.caller = caller then finished lane else none))

/-- A turn of the exchange, with its outcomes delivered. -/
def settle (result : Turn) : State :=
  { s with
    exchange := result.next
    calls := s.calls.mapIdx (fun caller call ↦
      match outcomeFor s.exchange.active result.finished caller with
      | some outcome => call.deliver outcome
      | none => call)
    handed := (result.handed.map Command.caller).toList ++ s.handed }

/-- One turn of the loops of the actor. -/
def turn (event : Event) : Option State :=
  match s.activity with
  | .running => do
    let result ← s.exchange.turn s.view event
    match result.closed with
    | some reason => some { s.settle result with activity := .closing reason }
    | none => some (s.settle result)
  | _ => none

/-- The next command of a lane is taken: by the actor when nothing is active, else only a control
whose slot is free. -/
def receive (lane : Lane) : Option State :=
  match s.activity, s.queues lane with
  | .running, command :: rest => do
    let call ← s.calls[command.caller]?
    if s.exchange.sending.isNone && (s.exchange.active.idle ||
        (decide (lane ≠ .normal) && (s.exchange.active lane).isNone)) then
      some { s.setCall command.caller { call with place := .held } with
        queues := Function.update s.queues lane rest
        activity := .preparing command .retire }
    else none
  | _, _ => none

/-- The command in hand becomes active and its frame is the one to write. -/
def activate (command : Command) (call : Call) : State :=
  { s.setCall command.caller { call with place := .slot } with
    exchange := {
      active := Function.update s.exchange.active command.kind.lane (some command)
      sending := some ⟨command.kind.lane, false, none⟩ }
    activity := .running }

/-- One check of `prepare_dispatch`. -/
def check (command : Command) (call : Call) (guard : Except String Unit) (stage : Stage) : State :=
  let refuse (refusal : BeforeDispatch) : State := { s with activity := .refusing command refusal }
  let next (stage : Stage) : State := { s with activity := .preparing command stage }
  match stage with
  | .retire =>
    { s.settle (s.exchange.retireObservations s.view) with activity := .preparing command .token }
  | .token => if command.expected ≠ token then refuse .staleConnection else next .deadline
  | .deadline => if command.deadline ≤ s.now then refuse .deadline else next .channel
  | .channel => if !call.receiver then refuse .cancelled else next .word
  | .word => if call.word ≠ .queued then refuse .cancelled else next .guard
  | .guard =>
    match guard with
    | .error reason => refuse (.guardRefused reason)
    | .ok () => next .lateness
  | .lateness =>
    if command.deadline ≤ s.now then refuse .deadline else next (.companions Lane.all)
  | .companions [] => next .exchange
  | .companions (lane :: rest) =>
    match s.exchange.active lane with
    | none => next (.companions rest)
    | some other =>
      if other.deadline ≤ s.now then refuse (.closed .deadlineAfterDispatch)
      else next (.companionChannel lane rest)
  | .companionChannel lane rest =>
    match s.exchange.active lane with
    | none => next (.companions rest)
    | some other =>
      if s.view.gone other.caller then refuse (.closed .cancelledAfterDispatch)
      else next (.companions rest)
  | .exchange =>
    if call.word = .queued then
      { s.setCall command.caller (call.exchangeWord .dispatching) with
        activity := .preparing command .recheck }
    else refuse .cancelled
  | .recheck => if !call.receiver then refuse .cancelled else s.activate command call

/-- The command in hand is answered with its refusal. -/
def refuse : Option State :=
  match s.activity with
  | .refusing command refusal => do
    let call ← s.calls[command.caller]?
    some { s.setCall command.caller (call.deliver (.error (.beforeDispatch refusal))) with
      activity := .running }
  | _ => none

/-- The first command of a queue leaves it. -/
def pop (lane : Lane) (change : Call → Call) : Option State :=
  match s.queues lane with
  | command :: rest => do
    let call ← s.calls[command.caller]?
    some { s.setCall command.caller (change call) with
      queues := Function.update s.queues lane rest }
  | [] => none

/-- The queues are emptied, the safety stops first, and then the actor is done. -/
def drain : Option State :=
  match s.activity with
  | .draining reason =>
    match [Lane.safetyStop, .ownedStop, .normal].find? (fun lane ↦ !(s.queues lane).isEmpty) with
    | some lane => s.pop lane (fun call ↦ call.deliver (.error (.beforeDispatch (.closed reason))))
    | none => some { s with activity := .finished }
  | _ => none

/-- The command of a slot is dropped unanswered. -/
def dropSlot (lane : Lane) : Option State := do
  let command ← s.exchange.active lane
  let call ← s.calls[command.caller]?
  some { s.setCall command.caller call.drop with
    exchange := { s.exchange with active := Function.update s.exchange.active lane none } }

/-- The command in the hands of an aborted actor is dropped unanswered. -/
def dropHeld : Option State :=
  match s.activity with
  | .aborted (some command) => do
    let call ← s.calls[command.caller]?
    some { s.setCall command.caller call.drop with activity := .aborted none }
  | _ => none

/-- One step of the session. -/
def act : Label → Option State
  | .tick => some { s with now := s.now + 1 }
  | .ownerDropped => some { s with terminal := s.terminal.or (some .ownerDropped) }
  | .start kind expected deadline => s.start token kind expected deadline
  | .move caller move => do
    let call ← s.calls[caller]?
    s.moveCall capacity caller call move
  | .turn event => s.turn event
  | .receive lane => s.receive lane
  | .prepare guard =>
    match s.activity with
    | .preparing command stage => do
      let call ← s.calls[command.caller]?
      some (s.check token command call guard stage)
    | _ => none
  | .refuse => s.refuse
  | .announce =>
    match s.activity with
    | .closing reason => some { s with terminal := some reason, activity := .announced reason }
    | _ => none
  | .closeQueues =>
    match s.activity with
    | .announced reason => some { s with sealed := true, activity := .draining reason }
    | .aborted _ => some { s with sealed := true }
    | _ => none
  | .drain => s.drain
  | .abort => some { s with activity := .aborted s.activity.held }
  | .dropHeld => s.dropHeld
  | .dropSlot lane =>
    match s.activity with
    | .aborted _ => s.dropSlot lane
    | _ => none
  | .dropQueued lane =>
    match s.activity with
    | .aborted _ => s.pop lane Call.drop
    | _ => none
  | .dropLifetime =>
    match s.activity with
    | .finished | .aborted _ => some { s with terminal := s.terminal.or (some .actorStopped) }
    | _ => none

/-- The session before its first call. -/
def Initial : Prop :=
  s.calls = [] ∧ (∀ lane, s.queues lane = []) ∧ s.sealed = false ∧ s.terminal = none ∧
    (∀ lane, s.exchange.active lane = none) ∧ s.exchange.sending = none ∧
    s.activity = .running ∧ s.handed = []

end State

/-- The runs of a session with its callers. -/
def session : Machine State Label where
  initial := State.Initial
  step s label t := s.act token capacity label = some t

end Model

end ObsMcp.Session
