import ObsMcp.Session.Response

/-!
# The exchange of frames

The sole owner of the socket has at most one active command in each lane. An `Exchange` is the
state of its `drive` loop: the active commands, and the frame that is being written when
`send_active` runs. `turn` is one turn of these loops. It may hand a frame to the writer, hear a
message, find the write complete, retire observations whose caller no longer waits, or fail, which
settles every active command as unknown.

`Exchange.Effect` lists once what a turn can do, and `turn_effect` says that it does nothing else;
the later proofs use these and not the definition.
-/

namespace ObsMcp.Session

open Foundations Option

/-! ### Messages -/

/-- What the socket delivers. A text comes with its parse; `ended` is the end of the stream or an
error of it. -/
inductive Received
  | text (raw : String) (frame : Option Json)
  | ping | pong | close | ended | other

inductive Incoming
  | response (batch : Bool) (data : Json) (raw : String)
  | other

/-- The meaning of a message; `published` is what the publisher of events answers. -/
def incoming (received : Received) (published : Except Invalidation Unit) :
    Except Invalidation Incoming :=
  match received with
  | .text _ none => .error .malformedMessage
  | .text raw (some frame) =>
    if !frame.isObject || !(frame.index "d").isObject then .error .malformedMessage
    else if (frame.index "op").asU64 = some 5 then (fun _ ↦ .other) <$> published
    else if (frame.index "op").asU64 = some 7 then .ok (.response false (frame.index "d") raw)
    else if (frame.index "op").asU64 = some 9 then .ok (.response true (frame.index "d") raw)
    else if (frame.index "op").asU64 = some 0 ∨ (frame.index "op").asU64 = some 2 then
      .error .responseIdentityMismatch
    else .error .malformedMessage
  | .ping | .pong => .ok .other
  | .close | .ended => .error .disconnected
  | .other => .error .malformedMessage

/-! ### The active commands -/

/-- The slots of the commands whose reply is awaited. -/
abbrev ActiveCommands := Lane → Option Command

namespace ActiveCommands

variable (active : ActiveCommands)

/-- The command of a slot has a request id. -/
def names (id : Option String) (lane : Lane) : Bool :=
  (active lane).any (fun command ↦ id == some command.requestId)

/-- No command is active. -/
def idle : Bool :=
  Lane.all.all (fun lane ↦ (active lane).isNone)

/-- The slot a reply is read for: the one that it names, else the normal one, else the first. -/
def slot (id : Option String) : Option Lane :=
  ((Lane.all.find? (active.names id)).or
    (Lane.all.find? (fun lane ↦ (active lane).any (fun command ↦ command.kind.lane = .normal)))).or
    (Lane.all.find? (fun lane ↦ (active lane).isSome))

end ActiveCommands

/-- Where a reply goes. -/
inductive Route
  | ignored
  | deferred (outcome : Outcome)
  | finished (lane : Lane) (outcome : Outcome)

/-- The destination of a message. The reply of the slot `defer`, whose frame is still being
written, is kept back. -/
def routeResponse (message : Incoming) (active : ActiveCommands) (defer : Option Lane)
    (capture : Capture) : Except Invalidation Route :=
  match message with
  | .other => .ok .ignored
  | .response batch data raw =>
    let id := (data.index "requestId").asStr
    if !batch && !Lane.all.any (active.names id) then .ok .ignored
    else
      match (active.slot id).bind (fun lane ↦ (active lane).map
        (fun command ↦ (lane, command))) with
      | none => .ok .ignored
      | some (lane, command) =>
        match response data command batch raw capture with
        | .error reason => .error reason
        | .ok none => .ok .ignored
        | .ok (some outcome) =>
          if defer = some lane then .ok (.deferred outcome) else .ok (.finished lane outcome)

/-! ### The loop -/

/-- A frame that is being written: its slot, whether the writer has it, and an early reply. -/
structure Sending where
  slot : Lane
  handed : Bool
  early : Option Outcome

structure Exchange where
  active : ActiveCommands
  sending : Option Sending

/-- What the loop reads of the world around it: the time, and whether a caller no longer holds its
half of the reply channel. -/
structure View where
  now : ℕ
  gone : ℕ → Bool

/-- The result of a turn: the slots it finished, the command whose frame it handed to the writer
and the reason it ended with. -/
structure Turn where
  next : Exchange
  finished : Lane → Option Outcome
  handed : Option Command
  closed : Option Invalidation

/-- What the loop waits for. -/
inductive Event
  | heard (received : Received) (published : Except Invalidation Unit) (capture : Capture)
  | handOver
  | written
  | writeFailed
  | interrupted (reason : Invalidation)
  | deadline
  | abandoned
  | retire

namespace Exchange

variable (exchange : Exchange) (view : View)

/-- The turn that finishes the slots with a verdict. -/
def conclude (verdict : Lane → Command → Option Outcome) (sending : Option Sending)
    (closed : Option Invalidation) : Turn where
  next := {
    active := fun lane ↦ (exchange.active lane).filter (fun command ↦ (verdict lane command).isNone)
    sending }
  finished := fun lane ↦ (exchange.active lane).bind (verdict lane)
  handed := none
  closed

/-- Every active command becomes unknown and the loop ends. -/
def fail (reason : Invalidation) : Turn :=
  exchange.conclude (fun _ _ ↦ some (.error (.unknown reason))) none (some reason)

/-- The slot of one lane is finished. -/
def finish (lane : Lane) (outcome : Outcome) (sending : Option Sending) : Turn :=
  exchange.conclude (fun other _ ↦ if other = lane then some outcome else none) sending none

/-- Nothing is finished. -/
def keep (sending : Option Sending) : Turn :=
  exchange.conclude (fun _ _ ↦ none) sending none

@[simp] theorem keep_active (sending : Option Sending) :
    (exchange.keep sending).next.active = exchange.active := by
  funext lane
  simp only [keep, conclude, isNone_none]
  cases exchange.active lane <;> rfl

theorem finish_active_of_ne {lane other : Lane} (hother : other ≠ lane) (outcome : Outcome)
    (sending : Option Sending) :
    (exchange.finish lane outcome sending).next.active other = exchange.active other := by
  simp only [finish, conclude, if_neg hother, isNone_none]
  cases exchange.active other <;> rfl

/-- Why the response of a command is no longer awaited: only that of an observation whose frame was
completely written. -/
def retirement (command : Command) : Option Invalidation :=
  if !command.flushed || !command.kind.isObservation then none
  else if command.deadline ≤ view.now then some .deadlineAfterDispatch
  else if view.gone command.caller then some .cancelledAfterDispatch
  else none

/-- The observations whose response is no longer awaited are finished. -/
def retireObservations : Turn :=
  exchange.conclude (fun _ command ↦
    (retirement view command).map (fun reason ↦ .error (.unknown reason))) exchange.sending none

/-- Some observation is finished by `retireObservations`. -/
def retires : Bool :=
  Lane.all.any (fun lane ↦ ((exchange.active lane).bind (retirement view)).isSome)

/-- The frame of the slot is completely written. -/
def flush (slot : Lane) : Exchange where
  active := fun lane ↦ if lane = slot then
      (exchange.active lane).map (fun command ↦ { command with flushed := true })
    else exchange.active lane
  sending := exchange.sending

/-- A message is heard. Without an active command the actor itself reads it, and it takes no reply
of a batch. -/
def hear (received : Received) (published : Except Invalidation Unit) (capture : Capture) : Turn :=
  match incoming received published with
  | .error reason => exchange.fail reason
  | .ok message =>
    if exchange.active.idle then
      match message with
      | .response true _ _ => exchange.fail .responseIdentityMismatch
      | _ => exchange.keep exchange.sending
    else
      match routeResponse message exchange.active (exchange.sending.map Sending.slot) capture with
      | .error reason => exchange.fail reason
      | .ok .ignored => exchange.keep exchange.sending
      | .ok (.deferred outcome) =>
        exchange.keep (exchange.sending.map (fun sending ↦
          { sending with early := sending.early.or (some outcome) }))
      | .ok (.finished lane outcome) => exchange.finish lane outcome exchange.sending

/-- The caller of some active command is gone, or its deadline has passed. -/
def someActive (holds : Command → Bool) : Bool :=
  Lane.all.any (fun lane ↦ (exchange.active lane).any holds)

/-- An active command ran out: observations are retired, else the loop fails. While a frame is
written nothing is retired. -/
def expire (reason : Invalidation) : Turn :=
  if exchange.sending.isNone && exchange.retires view then exchange.retireObservations view
  else exchange.fail reason

/-- One turn of the loop, for an event that can happen now. -/
def turn : Event → Option Turn
  | .heard received published capture => some (exchange.hear received published capture)
  | .handOver => do
    let sending ← exchange.sending
    let command ← exchange.active sending.slot
    if sending.handed then none
    else some { exchange.keep (some { sending with handed := true }) with handed := some command }
  | .written => do
    let sending ← exchange.sending
    if sending.handed then
      match sending.early with
      | some outcome => some ((exchange.flush sending.slot).finish sending.slot outcome none)
      | none => some ((exchange.flush sending.slot).keep none)
    else none
  | .writeFailed => do
    let _ ← exchange.sending
    some (exchange.fail .socketWriteFailed)
  | .interrupted reason =>
    if reason = .shutdown ∨ reason = .eventConsumerDropped then some (exchange.fail reason)
    else none
  | .deadline =>
    if exchange.someActive (fun command ↦ command.deadline ≤ view.now) then
      some (exchange.expire view .deadlineAfterDispatch)
    else none
  | .abandoned =>
    if exchange.someActive (fun command ↦ view.gone command.caller) then
      some (exchange.expire view .cancelledAfterDispatch)
    else none
  | .retire => if exchange.sending.isNone then some (exchange.retireObservations view) else none

end Exchange

/-! ### What a turn can do -/

section Route

variable {message : Incoming} {active : ActiveCommands} {defer : Option Lane} {capture : Capture}
  {route : Route} {data : Json} {raw : String} {batch : Bool}

variable {lane : Lane}

theorem ActiveCommands.names_iff {id : Option String} :
    active.names id lane = true ↔
      ∃ command, active lane = some command ∧ id = some command.requestId := by
  simp [names, any_eq_true]

/-- A reply that is not ignored is read for an active command. -/
theorem routeResponse_eq_ok (hroute : routeResponse message active defer capture = .ok route) :
    route = .ignored ∨ ∃ batch data raw lane command outcome,
      message = .response batch data raw ∧ active lane = some command ∧
        response data command batch raw capture = .ok (some outcome) ∧
          (defer = some lane ∧ route = .deferred outcome ∨
            defer ≠ some lane ∧ route = .finished lane outcome) := by
  unfold routeResponse at hroute
  split at hroute
  · cases hroute
    exact .inl rfl
  · rename_i batch data raw
    simp only at hroute
    split_ifs at hroute
    · cases hroute
      exact .inl rfl
    · split at hroute
      · cases hroute
        exact .inl rfl
      · rename_i lane command hslot
        obtain ⟨found, -, hfound⟩ := bind_eq_some_iff.mp hslot
        obtain ⟨_, hcommand, hpair⟩ := map_eq_some_iff.mp hfound
        cases hpair
        split at hroute
        · cases hroute
        · cases hroute
          exact .inl rfl
        · rename_i outcome hresponse
          refine .inr ⟨batch, data, raw, _, _, outcome, rfl, hcommand, hresponse, ?_⟩
          split_ifs at hroute with hdefer
          · cases hroute
            exact .inl ⟨hdefer, rfl⟩
          · cases hroute
            exact .inr ⟨hdefer, rfl⟩

/-- A single reply that names no active command is ignored. -/
theorem routeResponse_foreign
    (hforeign : ∀ lane command, active lane = some command →
      (data.index "requestId").asStr ≠ some command.requestId) :
    routeResponse (.response false data raw) active defer capture = .ok .ignored := by
  have hnames : Lane.all.any (active.names (data.index "requestId").asStr) = false := by
    rw [List.any_eq_false]
    intro lane _ hnames
    obtain ⟨command, hcommand, hid⟩ := ActiveCommands.names_iff.mp hnames
    exact hforeign lane command hcommand hid
  simp [routeResponse, hnames]

/-- A reply that names an active command is read for it. Assumes: the request ids of the active
commands are distinct. -/
theorem slot_of_named {command : Command}
    (hdistinct : ∀ lane other command found, active lane = some command →
      active other = some found → command.requestId = found.requestId → lane = other)
    (hcommand : active lane = some command) : active.slot (some command.requestId) = some lane := by
  have hnames : active.names (some command.requestId) lane = true :=
    ActiveCommands.names_iff.mpr ⟨command, hcommand, rfl⟩
  have hfind : Lane.all.find? (active.names (some command.requestId)) = some lane := by
    cases hfind : Lane.all.find? (active.names (some command.requestId)) with
    | none => exact absurd hnames (List.find?_eq_none.mp hfind lane lane.mem_all)
    | some other =>
      obtain ⟨found, hfound, hid⟩ := ActiveCommands.names_iff.mp (List.find?_some hfind)
      rw [hdistinct lane other command found hcommand hfound (Option.some.inj hid)]
  simp [ActiveCommands.slot, hfind]

/-- A reply that names an active command and does not match it closes the session. Assumes: the
request ids of the active commands are distinct. -/
theorem routeResponse_mismatch {command : Command}
    (hdistinct : ∀ lane other command found, active lane = some command →
      active other = some found → command.requestId = found.requestId → lane = other)
    (hcommand : active lane = some command)
    (hid : (data.index "requestId").asStr = some command.requestId)
    (hmatches : ¬ command.Matches batch data) :
    ∃ reason, routeResponse (.response batch data raw) active defer capture = .error reason := by
  have hrefused : ∃ reason, response data command batch raw capture = .error reason :=
    response_error_of_not_matches hid hmatches
  obtain ⟨reason, hreason⟩ := hrefused
  have hany : Lane.all.any (active.names (some command.requestId)) = true :=
    List.any_eq_true.mpr
      ⟨lane, lane.mem_all, ActiveCommands.names_iff.mpr ⟨command, hcommand, rfl⟩⟩
  refine ⟨reason, ?_⟩
  simp [routeResponse, hid, hany, slot_of_named hdistinct hcommand, hcommand, hreason]

end Route

namespace Exchange

/-- What a turn can do. Every way of failing is one case, and so is every way of retiring. -/
inductive Effect (exchange : Exchange) (view : View) : Event → Turn → Prop
  | fail (event : Event) (reason : Invalidation) : Effect exchange view event (exchange.fail reason)
  | retire (event : Event) (hsending : exchange.sending = none) :
    Effect exchange view event (exchange.retireObservations view)
  | handOver (sending : Sending) (command : Command) (hsending : exchange.sending = some sending)
    (hcommand : exchange.active sending.slot = some command) (hhanded : sending.handed = false) :
    Effect exchange view .handOver
      { exchange.keep (some { sending with handed := true }) with handed := some command }
  | written (sending : Sending) (hsending : exchange.sending = some sending)
    (hhanded : sending.handed = true) (hearly : sending.early = none) :
    Effect exchange view .written ((exchange.flush sending.slot).keep none)
  | answered (sending : Sending) (outcome : Outcome) (hsending : exchange.sending = some sending)
    (hhanded : sending.handed = true) (hearly : sending.early = some outcome) :
    Effect exchange view .written ((exchange.flush sending.slot).finish sending.slot outcome none)
  | ignored (received : Received) (published : Except Invalidation Unit) (capture : Capture) :
    Effect exchange view (.heard received published capture) (exchange.keep exchange.sending)
  | deferred (received : Received) (published : Except Invalidation Unit) (capture : Capture)
    (batch : Bool) (data : Json) (raw : String) (sending : Sending) (command : Command)
    (outcome : Outcome) (hincoming : incoming received published = .ok (.response batch data raw))
    (hsending : exchange.sending = some sending)
    (hcommand : exchange.active sending.slot = some command)
    (hresponse : response data command batch raw capture = .ok (some outcome)) :
    Effect exchange view (.heard received published capture)
      (exchange.keep (some { sending with early := sending.early.or (some outcome) }))
  | finished (received : Received) (published : Except Invalidation Unit) (capture : Capture)
    (batch : Bool) (data : Json) (raw : String) (lane : Lane) (command : Command)
    (outcome : Outcome) (hincoming : incoming received published = .ok (.response batch data raw))
    (hlane : exchange.sending.map Sending.slot ≠ some lane)
    (hcommand : exchange.active lane = some command)
    (hresponse : response data command batch raw capture = .ok (some outcome)) :
    Effect exchange view (.heard received published capture)
      (exchange.finish lane outcome exchange.sending)

variable {exchange : Exchange} {view : View} {event : Event} {result : Turn}

theorem hear_effect (received : Received) (published : Except Invalidation Unit)
    (capture : Capture) : exchange.Effect view (.heard received published capture)
      (exchange.hear received published capture) := by
  unfold hear
  split
  · exact .fail _ _
  · rename_i message hincoming
    split_ifs
    · split
      · exact .fail _ _
      · exact .ignored _ _ _
    · split
      · exact .fail _ _
      · exact .ignored _ _ _
      · rename_i outcome hroute
        obtain hroute | ⟨batch, data, raw, lane, command, _, rfl, hcommand, hresponse, hwhere⟩ :=
          routeResponse_eq_ok hroute
        · cases hroute
        · obtain ⟨hdefer, hroute⟩ | ⟨-, hroute⟩ := hwhere
          · cases hroute
            obtain ⟨sending, hsending, rfl⟩ := map_eq_some_iff.mp hdefer
            rw [hsending]
            exact .deferred received published capture batch data raw sending command outcome
              hincoming hsending hcommand hresponse
          · cases hroute
      · rename_i lane outcome hroute
        obtain hroute | ⟨batch, data, raw, _, command, _, rfl, hcommand, hresponse, hwhere⟩ :=
          routeResponse_eq_ok hroute
        · cases hroute
        · obtain ⟨-, hroute⟩ | ⟨hdefer, hroute⟩ := hwhere
          · cases hroute
          · cases hroute
            exact .finished received published capture batch data raw lane command outcome
              hincoming hdefer hcommand hresponse

theorem expire_effect (event : Event) (reason : Invalidation) :
    exchange.Effect view event (exchange.expire view reason) := by
  unfold expire
  split_ifs with hretires
  · simp only [Bool.and_eq_true, isNone_iff_eq_none] at hretires
    exact .retire event hretires.1
  · exact .fail event reason

/-- Every turn has one of the effects. -/
theorem turn_effect (hturn : exchange.turn view event = some result) :
    exchange.Effect view event result := by
  cases event with
  | heard received published capture =>
    cases hturn
    exact hear_effect received published capture
  | handOver =>
    obtain ⟨sending, hsending, hturn⟩ := bind_eq_some_iff.mp hturn
    obtain ⟨command, hcommand, hturn⟩ := bind_eq_some_iff.mp hturn
    split_ifs at hturn with hhanded
    cases hturn
    exact .handOver sending command hsending hcommand (by simpa using hhanded)
  | written =>
    obtain ⟨sending, hsending, hturn⟩ := bind_eq_some_iff.mp hturn
    split_ifs at hturn with hhanded
    split at hturn
    · rename_i outcome hearly
      cases hturn
      exact .answered sending outcome hsending hhanded hearly
    · rename_i hearly
      cases hturn
      exact .written sending hsending hhanded hearly
  | writeFailed =>
    obtain ⟨-, -, hturn⟩ := bind_eq_some_iff.mp hturn
    cases hturn
    exact .fail _ _
  | interrupted reason =>
    simp only [turn] at hturn
    split_ifs at hturn
    cases hturn
    exact .fail _ _
  | deadline =>
    simp only [turn] at hturn
    split_ifs at hturn
    cases hturn
    exact expire_effect _ _
  | abandoned =>
    simp only [turn] at hturn
    split_ifs at hturn
    cases hturn
    exact expire_effect _ _
  | retire =>
    simp only [turn] at hturn
    split_ifs at hturn with hsending
    cases hturn
    exact .retire _ (by simpa using hsending)

/-- The active commands and the finished slots of a turn come from one verdict on each active
command, whose frame may be marked as written before. -/
theorem Effect.concludes (heffect : exchange.Effect view event result) :
    ∃ (base : ActiveCommands) (verdict : Lane → Command → Option Outcome),
      (∀ lane, base lane = exchange.active lane ∨ base lane =
        (exchange.active lane).map (fun command ↦ { command with flushed := true })) ∧
      (∀ lane, result.next.active lane =
        (base lane).filter (fun command ↦ (verdict lane command).isNone)) ∧
      ∀ lane, result.finished lane = (base lane).bind (verdict lane) := by
  have hflush : ∀ slot lane, (exchange.flush slot).active lane = exchange.active lane ∨
      (exchange.flush slot).active lane =
        (exchange.active lane).map (fun command ↦ { command with flushed := true }) := by
    intro slot lane
    by_cases hlane : lane = slot <;> simp [flush, hlane]
  cases heffect with
  | fail | retire | handOver | ignored | deferred | finished =>
    exact ⟨exchange.active, _, fun _ ↦ .inl rfl, fun _ ↦ rfl, fun _ ↦ rfl⟩
  | written sending | answered sending =>
    exact ⟨(exchange.flush sending.slot).active, _, hflush _, fun _ ↦ rfl, fun _ ↦ rfl⟩

variable {command : Command}

section

variable (heffect : exchange.Effect view event result)
include heffect

/-- A command that stays active was active, with at most its frame marked as written, and was not
finished. -/
theorem Effect.remains {lane : Lane} (hcommand : result.next.active lane = some command) :
    ∃ found, exchange.active lane = some found ∧
      command = { found with flushed := command.flushed } ∧ result.finished lane = none := by
  obtain ⟨base, verdict, hbase, hnext, hfinished⟩ := heffect.concludes
  rw [hnext] at hcommand
  obtain ⟨hcommand, hnone⟩ := filter_eq_some_iff.mp hcommand
  have hverdict : result.finished lane = none := by
    rw [hfinished, hcommand]
    simpa using hnone
  rcases hbase lane with hsame | hflushed
  · exact ⟨command, by rw [← hsame, hcommand], rfl, hverdict⟩
  · rw [hflushed] at hcommand
    obtain ⟨found, hfound, rfl⟩ := map_eq_some_iff.mp hcommand
    exact ⟨found, hfound, rfl, hverdict⟩

/-- The outcome of a finished slot is unknown, the early reply of the frame being written, or what
the message that is heard says. -/
theorem Effect.outcome {lane : Lane} {outcome : Outcome}
    (hcommand : exchange.active lane = some command)
    (hfinished : result.finished lane = some outcome) :
    (∃ reason, outcome = .error (.unknown reason)) ∨
      (∃ sending, exchange.sending = some sending ∧ sending.slot = lane ∧
        sending.early = some outcome) ∨
      ∃ received published capture batch data raw,
        event = .heard received published capture ∧
          incoming received published = .ok (.response batch data raw) ∧
            response data command batch raw capture = .ok (some outcome) := by
  cases heffect with
  | fail event reason =>
    simp only [Exchange.fail, conclude, hcommand, bind_some, Option.some.injEq] at hfinished
    exact .inl ⟨reason, hfinished.symm⟩
  | retire event hsending =>
    simp only [retireObservations, conclude, hcommand, bind_some,
      map_eq_some_iff] at hfinished
    obtain ⟨reason, -, rfl⟩ := hfinished
    exact .inl ⟨reason, rfl⟩
  | handOver | written | ignored | deferred =>
    simp [keep, conclude] at hfinished
  | answered sending early hsending hhanded hearly =>
    refine .inr (.inl ⟨sending, hsending, ?_⟩)
    simp only [finish, conclude] at hfinished
    obtain ⟨_, -, hfinished⟩ := bind_eq_some_iff.mp hfinished
    split_ifs at hfinished with hlane
    exact ⟨hlane.symm, hearly.trans hfinished⟩
  | finished received published capture batch data raw slot found answer hincoming hlane hfound
      hresponse =>
    simp only [finish, conclude] at hfinished
    obtain ⟨_, -, hfinished⟩ := bind_eq_some_iff.mp hfinished
    split_ifs at hfinished with hslot
    cases hfinished
    subst hslot
    cases hcommand.symm.trans hfound
    exact .inr (.inr ⟨received, published, capture, batch, data, raw, rfl, hincoming, hresponse⟩)

/-- The frame being written after a turn was being written before, and is as little handed over; its
early reply is the one before or what a message says. -/
theorem Effect.sending {sending : Sending} (hsending : result.next.sending = some sending) :
    ∃ before, exchange.sending = some before ∧ before.slot = sending.slot ∧
      (sending.handed = false → before.handed = false ∧ result.handed = none) ∧
      ∀ outcome, sending.early = some outcome → before.early = some outcome ∨ outcome.Definite := by
  cases heffect with
  | fail | written | answered => cases hsending
  | retire _ hnone => exact absurd (hnone.symm.trans hsending) (by simp)
  | handOver before command hbefore =>
    cases hsending
    exact ⟨before, hbefore, rfl, by simp, fun _ hearly ↦ .inl hearly⟩
  | ignored | finished =>
    exact ⟨sending, hsending, rfl, fun hhanded ↦ ⟨hhanded, rfl⟩, fun _ hearly ↦ .inl hearly⟩
  | deferred received published capture batch data raw before command answer _ hbefore _
      hresponse =>
    cases hsending
    refine ⟨before, hbefore, rfl, fun hhanded ↦ ⟨hhanded, rfl⟩, fun outcome hearly ↦ ?_⟩
    cases hold : before.early with
    | some first => exact .inl (by simpa [hold] using hearly)
    | none =>
      obtain rfl : answer = outcome := by simpa [hold] using hearly
      exact .inr (matches_of_response hresponse).2

/-- A frame is handed over when it is the one being written and was not handed over before. -/
theorem Effect.handed (hhanded : result.handed = some command) :
    ∃ sending, exchange.sending = some sending ∧ exchange.active sending.slot = some command ∧
      sending.handed = false ∧ ∀ lane, result.finished lane = none := by
  cases heffect with
  | fail | retire | written | answered | ignored | deferred | finished => cases hhanded
  | handOver sending found hsending hcommand hbefore =>
    cases hhanded
    exact ⟨sending, hsending, hcommand, hbefore, fun lane ↦ by simp [keep, conclude]⟩

end

end Exchange

end ObsMcp.Session
