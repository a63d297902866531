import Mathlib.Data.List.Nodup
import ObsMcp.Foundations.Machine
import ObsMcp.Session.Exchange

/-!
# Replies reach the command they answer

The machine of this module runs the turns of an `Exchange` from any set of active commands with
distinct request ids, and lets new commands become active in free lanes, with ids that were not
used before. Its `trace` records what was dispatched and heard and how each command was settled,
the newest entry first.

`reply_routing` collects the four facts about every run. A command is settled with data or with a
rejection only by a frame heard while it was active, which matches it and which `response` reads as
that very outcome; no command is settled twice; a single reply that names no active command changes
nothing; and a reply that names an active command and does not match it closes the session, with
every active command unknown.
-/

namespace ObsMcp.Session

open Foundations List

/-! ### The machine -/

/-- What happens to the commands of a session. -/
inductive Entry
  | dispatched (requestId : String)
  | heard (batch : Bool) (data : Json)
  | settled (command : Command) (outcome : Outcome)

/-- An exchange with its history: the request ids used so far, and the trace, newest entry first. -/
structure History where
  exchange : Exchange
  closed : Option Invalidation
  used : List String
  trace : List Entry

inductive RoutingLabel
  | turn (view : View) (event : Event)
  | dispatch (command : Command)

/-- The commands that a turn settles. -/
def settlements (active : ActiveCommands) (finished : Lane → Option Outcome) : List Entry :=
  Lane.all.filterMap (fun lane ↦ (active lane).bind (fun command ↦
    (finished lane).map (Entry.settled command)))

/-- The reply that a turn hears. -/
def hearing : Event → List Entry
  | .heard received published _ =>
    match incoming received published with
    | .ok (.response batch data _) => [.heard batch data]
    | _ => []
  | _ => []

namespace History

/-- A turn of the exchange, recorded. -/
def record (history : History) (event : Event) (result : Turn) : History where
  exchange := result.next
  closed := result.closed
  used := history.used
  trace := settlements history.exchange.active result.finished ++ (hearing event ++ history.trace)

/-- The command may become active: the session is open, no frame is being written, its lane is free
and its request id is new. -/
def Accepts (history : History) (command : Command) : Prop :=
  history.closed = none ∧ history.exchange.sending = none ∧
    history.exchange.active command.kind.lane = none ∧ command.requestId ∉ history.used ∧
      command.flushed = false

instance (history : History) (command : Command) : Decidable (history.Accepts command) :=
  inferInstanceAs (Decidable (_ ∧ _ ∧ _ ∧ _ ∧ _))

/-- The command becomes active and its frame is the one to write. -/
def dispatch (history : History) (command : Command) : History where
  exchange := {
    active := Function.update history.exchange.active command.kind.lane (some command)
    sending := some ⟨command.kind.lane, false, none⟩ }
  closed := history.closed
  used := command.requestId :: history.used
  trace := .dispatched command.requestId :: history.trace

def act (history : History) : RoutingLabel → Option History
  | .turn view event =>
    if history.closed.isSome then none
    else (history.exchange.turn view event).map (history.record event)
  | .dispatch command =>
    if history.Accepts command then some (history.dispatch command) else none

/-- The request ids of the active commands are distinct. -/
def Distinct (history : History) : Prop :=
  ∀ lane other command found, history.exchange.active lane = some command →
    history.exchange.active other = some found → command.requestId = found.requestId → lane = other

/-- Any set of active commands with distinct ids, each in the lane of its kind; one of them may be
the one whose frame is being written. -/
def Initial (history : History) : Prop :=
  history.closed = none ∧ history.trace = [] ∧ history.Distinct ∧
    (∀ lane command, history.exchange.active lane = some command →
      command.kind.lane = lane ∧ command.requestId ∈ history.used) ∧
    ∀ sending, history.exchange.sending = some sending →
      sending.early = none ∧ (history.exchange.active sending.slot).isSome

end History

/-- The runs of an exchange. -/
def routing : Machine History RoutingLabel where
  initial := History.Initial
  step s label t := s.act label = some t

/-! ### Traces -/

/-- A command was answered with an outcome: by a reply of the trace that was heard after the command
became active and that `response` reads so. -/
def Answered (trace : List Entry) (command : Command) (outcome : Outcome) : Prop :=
  ∃ later batch data earlier raw capture, trace = later ++ Entry.heard batch data :: earlier ∧
    Entry.dispatched command.requestId ∉ later ∧
      response data command batch raw capture = .ok (some outcome)

/-- Every definite settlement was answered before. -/
def Justified (trace : List Entry) : Prop :=
  ∀ later command outcome earlier, trace = later ++ Entry.settled command outcome :: earlier →
    outcome.Definite → Answered earlier command outcome

/-- The request ids of the settled commands. -/
def settledIds (trace : List Entry) : List String :=
  trace.filterMap fun
    | .settled command _ => some command.requestId
    | _ => none

section Traces

variable {trace entries : List Entry} {command : Command} {outcome : Outcome}

theorem Answered.append (hanswered : Answered trace command outcome)
    (hentries : Entry.dispatched command.requestId ∉ entries) :
    Answered (entries ++ trace) command outcome := by
  obtain ⟨later, batch, data, earlier, raw, capture, rfl, hlater, hresponse⟩ := hanswered
  refine ⟨entries ++ later, batch, data, earlier, raw, capture, by simp, ?_, hresponse⟩
  simp [hentries, hlater]

variable {entry : Entry} {active : ActiveCommands} {finished : Lane → Option Outcome}

theorem Justified.cons (hjustified : Justified trace)
    (hentry : ∀ command outcome, entry = .settled command outcome → outcome.Definite →
      Answered trace command outcome) : Justified (entry :: trace) := by
  intro later command outcome earlier htrace hdefinite
  cases later with
  | nil =>
    obtain ⟨hhead, rfl⟩ := List.cons.inj htrace
    exact hentry command outcome hhead hdefinite
  | cons first later =>
    obtain ⟨-, htail⟩ := List.cons.inj htrace
    exact hjustified later command outcome earlier htail hdefinite

/-- Settlements in front of a trace are justified when the trace answers each of them. -/
theorem Justified.append (hjustified : Justified trace)
    (hentries : ∀ entry ∈ entries, ∃ command outcome, entry = .settled command outcome ∧
      (outcome.Definite → Answered trace command outcome)) : Justified (entries ++ trace) := by
  induction entries with
  | nil => exact hjustified
  | cons entry entries ih =>
    have hrest := fun other hother ↦ hentries other (mem_cons_of_mem entry hother)
    refine (ih hrest).cons fun command outcome hentry hdefinite ↦ ?_
    obtain ⟨found, answer, hfound, hanswered⟩ := hentries entry mem_cons_self
    rw [hfound] at hentry
    cases hentry
    refine (hanswered hdefinite).append fun hmem ↦ ?_
    obtain ⟨_, _, hother, -⟩ := hrest _ hmem
    cases hother

theorem mem_settlements : entry ∈ settlements active finished ↔
      ∃ lane command outcome, active lane = some command ∧ finished lane = some outcome ∧
        entry = .settled command outcome := by
  simp only [settlements, mem_filterMap, Option.bind_eq_some_iff, Option.map_eq_some_iff]
  constructor
  · rintro ⟨lane, -, command, hcommand, outcome, houtcome, rfl⟩
    exact ⟨lane, command, outcome, hcommand, houtcome, rfl⟩
  · rintro ⟨lane, command, outcome, hcommand, houtcome, rfl⟩
    exact ⟨lane, lane.mem_all, command, hcommand, outcome, houtcome, rfl⟩

theorem mem_settledIds {id : String} : id ∈ settledIds trace ↔
    ∃ command outcome, Entry.settled command outcome ∈ trace ∧ command.requestId = id := by
  simp only [settledIds, mem_filterMap]
  constructor
  · rintro ⟨entry, hmem, hentry⟩
    cases entry with
    | settled command outcome => exact ⟨command, outcome, hmem, Option.some.inj hentry⟩
    | dispatched | heard => cases hentry
  · rintro ⟨command, outcome, hmem, rfl⟩
    exact ⟨_, hmem, rfl⟩

theorem settledIds_hearing (event : Event) : settledIds (hearing event) = [] := by
  unfold hearing
  split
  · split <;> rfl
  · rfl

/-- The commands that one turn settles have distinct ids. -/
theorem nodup_settlements (hdistinct : ∀ lane other command found, active lane = some command →
      active other = some found → command.requestId = found.requestId → lane = other) :
    (settledIds (settlements active finished)).Nodup := by
  rw [settledIds, settlements, filterMap_filterMap]
  refine List.Nodup.filterMap (fun lane other id hlane hother ↦ ?_) (by decide)
  simp only [Option.mem_def, Option.bind_eq_some_iff, Option.map_eq_some_iff] at hlane hother
  obtain ⟨_, ⟨command, hcommand, outcome, -, rfl⟩, hid⟩ := hlane
  obtain ⟨_, ⟨found, hfound, answer, -, rfl⟩, hfoundId⟩ := hother
  exact hdistinct lane other command found hcommand hfound
    ((Option.some.inj hid).trans (Option.some.inj hfoundId).symm)

end Traces

/-! ### The invariant -/

/-- What holds in every state of a run. -/
structure History.Good (s : History) : Prop where
  distinct : s.Distinct
  placed : ∀ lane command, s.exchange.active lane = some command → command.kind.lane = lane
  used : ∀ lane command, s.exchange.active lane = some command → command.requestId ∈ s.used
  unsettled : ∀ lane command, s.exchange.active lane = some command →
    command.requestId ∉ settledIds s.trace
  settled : ∀ id ∈ settledIds s.trace, id ∈ s.used
  once : (settledIds s.trace).Nodup
  early : ∀ sending outcome, s.exchange.sending = some sending → sending.early = some outcome →
    ∃ command, s.exchange.active sending.slot = some command ∧ Answered s.trace command outcome
  justified : Justified s.trace

variable {s : History} {command : Command}

theorem initial_good (hs : s.Initial) : s.Good := by
  obtain ⟨-, htrace, hdistinct, hactive, hsending⟩ := hs
  refine ⟨hdistinct, fun lane command hcommand ↦ (hactive lane command hcommand).1,
    fun lane command hcommand ↦ (hactive lane command hcommand).2, ?_, ?_, ?_, ?_, ?_⟩
  · simp [htrace, settledIds]
  · simp [htrace, settledIds]
  · simp [htrace, settledIds]
  · intro sending outcome hsome hearly
    rw [(hsending sending hsome).1] at hearly
    cases hearly
  · intro later command outcome earlier hsplit
    rw [htrace] at hsplit
    simp at hsplit

theorem dispatch_good (hs : s.Good) (haccepts : s.Accepts command) : (s.dispatch command).Good := by
  obtain ⟨-, hsending, hfree, hnew, -⟩ := haccepts
  have hactive : ∀ lane found, (s.dispatch command).exchange.active lane = some found →
      (lane = command.kind.lane ∧ found = command) ∨ s.exchange.active lane = some found := by
    intro lane found hfound
    by_cases hlane : lane = command.kind.lane
    · subst hlane
      exact .inl ⟨rfl, by simpa [History.dispatch] using hfound.symm⟩
    · exact .inr (by simpa [History.dispatch, hlane] using hfound)
  have hids : settledIds (s.dispatch command).trace = settledIds s.trace := rfl
  refine ⟨?_, ?_, ?_, ?_, ?_, hids ▸ hs.once, ?_, ?_⟩
  · intro lane other first second hfirst hsecond hid
    rcases hactive lane first hfirst with ⟨rfl, rfl⟩ | hbefore <;>
      rcases hactive other second hsecond with ⟨rfl, rfl⟩ | hotherBefore
    · rfl
    · exact absurd (hid ▸ hs.used other second hotherBefore) hnew
    · exact absurd (hid ▸ hs.used lane first hbefore) hnew
    · exact hs.distinct lane other first second hbefore hotherBefore hid
  · intro lane found hfound
    rcases hactive lane found hfound with ⟨rfl, rfl⟩ | hfound
    · rfl
    · exact hs.placed lane found hfound
  · intro lane found hfound
    rcases hactive lane found hfound with ⟨rfl, rfl⟩ | hfound
    · exact mem_cons_self
    · exact mem_cons_of_mem _ (hs.used lane found hfound)
  · intro lane found hfound
    rw [hids]
    rcases hactive lane found hfound with ⟨rfl, rfl⟩ | hfound
    · exact fun hsettled ↦ hnew (hs.settled _ hsettled)
    · exact hs.unsettled lane found hfound
  · exact fun id hid ↦ mem_cons_of_mem _ (hs.settled id hid)
  · intro sending outcome hsome hearly
    cases hsome
    cases hearly
  · refine hs.justified.cons fun _ _ hentry ↦ ?_
    cases hentry

theorem dispatched_notMem_hearing (id : String) (event : Event) :
    Entry.dispatched id ∉ hearing event := by
  unfold hearing
  split
  · split <;> simp
  · simp

theorem dispatched_notMem_settlements (id : String) (active : ActiveCommands)
    (finished : Lane → Option Outcome) : Entry.dispatched id ∉ settlements active finished := by
  intro hmem
  obtain ⟨_, _, _, -, -, hentry⟩ := mem_settlements.mp hmem
  cases hentry

/-- The reply that is heard answers the command it is read for. -/
theorem answered_of_hearing {received : Received} {published : Except Invalidation Unit}
    {capture : Capture} {batch : Bool} {data : Json} {raw : String} {outcome : Outcome}
    (trace : List Entry) (hincoming : incoming received published = .ok (.response batch data raw))
    (hresponse : response data command batch raw capture = .ok (some outcome)) :
    Answered (hearing (.heard received published capture) ++ trace) command outcome := by
  refine ⟨[], batch, data, trace, raw, capture, ?_, not_mem_nil, hresponse⟩
  simp [hearing, hincoming]

section Turns

variable {s : History} {view : View} {event : Event} {result : Turn} {outcome : Outcome}

/-- The early reply after a turn is the one before, of the same frame, or the one just heard. -/
theorem early_of_effect (heffect : s.exchange.Effect view event result) {sending : Sending}
    (hsending : result.next.sending = some sending) (hearly : sending.early = some outcome) :
    ∃ before, s.exchange.sending = some before ∧ before.slot = sending.slot ∧
      result.next.active sending.slot = s.exchange.active sending.slot ∧
      (before.early = some outcome ∨
        ∃ command, s.exchange.active sending.slot = some command ∧
          Answered (hearing event ++ s.trace) command outcome) := by
  cases heffect with
  | fail | written | answered => cases hsending
  | retire event hnone => exact absurd (hnone.symm.trans hsending) (by simp)
  | handOver before command hbefore hcommand =>
    cases hsending
    exact ⟨before, hbefore, rfl, by simp only [Exchange.keep_active], .inl hearly⟩
  | ignored =>
    exact ⟨sending, hsending, rfl, by rw [Exchange.keep_active], .inl hearly⟩
  | deferred received published capture batch data raw before command answer hincoming hbefore
      hcommand hresponse =>
    cases hsending
    refine ⟨before, hbefore, rfl, by rw [Exchange.keep_active], ?_⟩
    cases hold : before.early with
    | some first => exact .inl (by simpa [hold] using hearly)
    | none =>
      obtain rfl : answer = outcome := by simpa [hold] using hearly
      exact .inr ⟨command, hcommand, answered_of_hearing s.trace hincoming hresponse⟩
  | finished received published capture batch data raw lane command answer hincoming hlane =>
    refine ⟨sending, hsending, rfl, ?_, .inl hearly⟩
    have hne : sending.slot ≠ lane := by
      rintro rfl
      exact hlane (by rw [show s.exchange.sending = some sending from hsending, Option.map_some])
    exact Exchange.finish_active_of_ne _ hne _ _

/-- A definite outcome of a turn was answered. -/
theorem answered_of_effect (hs : s.Good) (heffect : s.exchange.Effect view event result)
    {lane : Lane} (hcommand : s.exchange.active lane = some command)
    (hfinished : result.finished lane = some outcome) (hdefinite : outcome.Definite) :
    Answered (hearing event ++ s.trace) command outcome := by
  rcases heffect.outcome hcommand hfinished with ⟨reason, rfl⟩ | ⟨sending, hsending, rfl, hearly⟩ |
      ⟨received, published, capture, batch, data, raw, rfl, hincoming, hresponse⟩
  · exact absurd hdefinite id
  · obtain ⟨found, hfound, hanswered⟩ := hs.early sending outcome hsending hearly
    cases hcommand.symm.trans hfound
    exact hanswered.append (dispatched_notMem_hearing _ event)
  · exact answered_of_hearing s.trace hincoming hresponse

theorem record_good (hs : s.Good) (heffect : s.exchange.Effect view event result) :
    (s.record event result).Good := by
  have hids : settledIds (s.record event result).trace =
      settledIds (settlements s.exchange.active result.finished) ++ settledIds s.trace := by
    have hhearing := settledIds_hearing event
    unfold settledIds at hhearing ⊢
    simp [History.record, hhearing]
  have hactive : ∀ lane command, (s.record event result).exchange.active lane = some command →
      ∃ found, s.exchange.active lane = some found ∧ command.requestId = found.requestId ∧
        command.kind = found.kind ∧ result.finished lane = none := by
    intro lane command hcommand
    obtain ⟨found, hfound, hsame, hnone⟩ := heffect.remains hcommand
    exact ⟨found, hfound, by rw [hsame], by rw [hsame], hnone⟩
  refine ⟨?_, ?_, ?_, ?_, ?_, ?_, ?_, ?_⟩
  · intro lane other command found hcommand hfound hid
    obtain ⟨first, hfirst, hfirstId, -⟩ := hactive lane command hcommand
    obtain ⟨second, hsecond, hsecondId, -⟩ := hactive other found hfound
    exact hs.distinct lane other first second hfirst hsecond
      (hfirstId.symm.trans (hid.trans hsecondId))
  · intro lane command hcommand
    obtain ⟨found, hfound, -, hkind, -⟩ := hactive lane command hcommand
    rw [hkind]
    exact hs.placed lane found hfound
  · intro lane command hcommand
    obtain ⟨found, hfound, hid, -⟩ := hactive lane command hcommand
    rw [hid]
    exact hs.used lane found hfound
  · intro lane command hcommand
    obtain ⟨found, hfound, hid, -, hnone⟩ := hactive lane command hcommand
    rw [hids, hid, mem_append]
    rintro (hnow | hbefore)
    · obtain ⟨settled, outcome, hmem, hsettledId⟩ := mem_settledIds.mp hnow
      obtain ⟨other, _, _, hother, houtcome, hentry⟩ := mem_settlements.mp hmem
      cases hentry
      obtain rfl := hs.distinct other lane settled found hother hfound hsettledId
      rw [hnone] at houtcome
      cases houtcome
    · exact hs.unsettled lane found hfound hbefore
  · intro id hid
    rw [hids, mem_append] at hid
    rcases hid with hnow | hbefore
    · obtain ⟨settled, outcome, hmem, rfl⟩ := mem_settledIds.mp hnow
      obtain ⟨lane, _, _, hcommand, -, hentry⟩ := mem_settlements.mp hmem
      cases hentry
      exact hs.used lane settled hcommand
    · exact hs.settled id hbefore
  · rw [hids]
    refine List.Nodup.append (nodup_settlements hs.distinct) hs.once ?_
    intro id hnow hbefore
    obtain ⟨settled, outcome, hmem, rfl⟩ := mem_settledIds.mp hnow
    obtain ⟨lane, _, _, hcommand, -, hentry⟩ := mem_settlements.mp hmem
    cases hentry
    exact hs.unsettled lane settled hcommand hbefore
  · intro sending outcome hsending hearly
    obtain ⟨before, hbefore, hslot, hkept, hanswer⟩ := early_of_effect heffect hsending hearly
    have hanswered : ∃ command, s.exchange.active sending.slot = some command ∧
        Answered (hearing event ++ s.trace) command outcome := by
      rcases hanswer with hold | hnew
      · obtain ⟨command, hcommand, hanswered⟩ := hs.early before outcome hbefore hold
        rw [hslot] at hcommand
        exact ⟨command, hcommand, hanswered.append (dispatched_notMem_hearing _ event)⟩
      · exact hnew
    obtain ⟨command, hcommand, hanswered⟩ := hanswered
    refine ⟨command, hkept.trans hcommand, ?_⟩
    exact hanswered.append (dispatched_notMem_settlements _ _ _)
  · refine Justified.append ?_ fun entry hmem ↦ ?_
    · unfold hearing
      split
      · split
        · exact hs.justified.cons fun _ _ hentry ↦ by cases hentry
        · exact hs.justified
      · exact hs.justified
    · obtain ⟨lane, command, outcome, hcommand, hfinished, rfl⟩ := mem_settlements.mp hmem
      exact ⟨command, outcome, rfl, answered_of_effect hs heffect hcommand hfinished⟩

end Turns

theorem good_of_routing (hs : routing.Reachable s) : s.Good := by
  refine Machine.invariant_of_step History.Good (fun _ h ↦ initial_good h) ?_ hs
  intro s label t _ hgood hstep
  cases label with
  | turn view event =>
    simp only [routing, History.act] at hstep
    split_ifs at hstep
    obtain ⟨result, hturn, rfl⟩ := Option.map_eq_some_iff.mp hstep
    exact record_good hgood (Exchange.turn_effect hturn)
  | dispatch command =>
    simp only [routing, History.act] at hstep
    split_ifs at hstep with haccepts
    cases hstep
    exact dispatch_good hgood haccepts

/-! ### Foreign and mismatched replies -/

section Replies

variable {exchange : Exchange} {received : Received} {published : Except Invalidation Unit}
  {capture : Capture} {batch : Bool} {data : Json} {raw : String}

theorem settlements_none (active : ActiveCommands) : settlements active (fun _ ↦ none) = [] := by
  simp [settlements]

variable {lane : Lane}

theorem not_idle {active : ActiveCommands} (hcommand : active lane = some command) :
    active.idle = false := by
  rw [ActiveCommands.idle, all_eq_false]
  exact ⟨lane, lane.mem_all, by simp [hcommand]⟩

/-- A single reply that names no active command is passed over. -/
theorem hear_foreign (hincoming : incoming received published = .ok (.response false data raw))
    (hforeign : ∀ lane command, exchange.active lane = some command →
      (data.index "requestId").asStr ≠ some command.requestId) :
    exchange.hear received published capture = exchange.keep exchange.sending := by
  unfold Exchange.hear
  rw [hincoming]
  simp only [routeResponse_foreign hforeign]
  split_ifs <;> rfl

/-- A reply that names an active command and does not match it ends the exchange. -/
theorem hear_mismatch (hincoming : incoming received published = .ok (.response batch data raw))
    (hdistinct : ∀ lane other command found, exchange.active lane = some command →
      exchange.active other = some found → command.requestId = found.requestId → lane = other)
    (hcommand : exchange.active lane = some command)
    (hid : (data.index "requestId").asStr = some command.requestId)
    (hmatches : ¬ command.Matches batch data) :
    ∃ reason, exchange.hear received published capture = exchange.fail reason := by
  have hroute : ∃ reason, routeResponse (.response batch data raw) exchange.active
      (exchange.sending.map Sending.slot) capture = .error reason :=
    routeResponse_mismatch hdistinct hcommand hid hmatches
  obtain ⟨reason, hreason⟩ := hroute
  refine ⟨reason, ?_⟩
  unfold Exchange.hear
  rw [hincoming]
  simp only [not_idle hcommand, hreason, Bool.false_eq_true, if_false]

theorem settlements_fail (active : ActiveCommands) (outcome : Outcome) :
    settlements active (fun lane ↦ (active lane).bind (fun _ ↦ some outcome)) =
      settlements active (fun _ ↦ some outcome) := by
  unfold settlements
  refine filterMap_congr fun lane _ ↦ ?_
  cases hactive : active lane <;> simp [hactive]

end Replies

/-- In every run, over any set of active commands with distinct request ids. A command is settled
with data or with a rejection only by a reply that was heard while it was active, that matches it
and that says so. No command is settled twice. A single reply that names no active command is
recorded and changes nothing else. A reply that names an active command and does not match it closes
the session, and what it settles is every active command, as unknown. -/
theorem reply_routing :
    (∀ s, routing.Reachable s → ∀ later command outcome earlier,
      s.trace = later ++ Entry.settled command outcome :: earlier → outcome.Definite →
        ∃ since batch data before raw capture, earlier = since ++ Entry.heard batch data :: before ∧
          Entry.dispatched command.requestId ∉ since ∧ command.Matches batch data ∧
            response data command batch raw capture = .ok (some outcome)) ∧
    (∀ s, routing.Reachable s → (settledIds s.trace).Nodup) ∧
    (∀ s, routing.Reachable s → s.closed = none →
      ∀ view received published capture data raw,
        incoming received published = .ok (.response false data raw) →
        (∀ lane command, s.exchange.active lane = some command →
          (data.index "requestId").asStr ≠ some command.requestId) →
        s.act (.turn view (.heard received published capture)) =
          some { s with trace := .heard false data :: s.trace }) ∧
    (∀ s, routing.Reachable s → s.closed = none →
      ∀ view received published capture batch data raw lane command,
        incoming received published = .ok (.response batch data raw) →
        s.exchange.active lane = some command →
        (data.index "requestId").asStr = some command.requestId →
        ¬ command.Matches batch data →
        ∃ t reason, s.act (.turn view (.heard received published capture)) = some t ∧
          t.closed = some reason ∧ (∀ lane, t.exchange.active lane = none) ∧
          t.trace = settlements s.exchange.active (fun _ ↦ some (.error (.unknown reason))) ++
            .heard batch data :: s.trace) := by
  refine ⟨?_, fun s hs ↦ (good_of_routing hs).once, ?_, ?_⟩
  · intro s hs later command outcome earlier htrace hdefinite
    obtain ⟨since, batch, data, before, raw, capture, hsplit, hsince, hresponse⟩ :=
      (good_of_routing hs).justified later command outcome earlier htrace hdefinite
    exact ⟨since, batch, data, before, raw, capture, hsplit, hsince,
      (matches_of_response hresponse).1, hresponse⟩
  · intro s hs hopen view received published capture data raw hincoming hforeign
    have hhear : s.exchange.hear received published capture =
        s.exchange.keep s.exchange.sending := hear_foreign hincoming hforeign
    have hnext : (s.exchange.keep s.exchange.sending).next = s.exchange :=
      congrArg (Exchange.mk · s.exchange.sending) (s.exchange.keep_active s.exchange.sending)
    have hnone : (s.exchange.keep s.exchange.sending).finished = fun _ ↦ none := by
      funext lane
      simp [Exchange.keep, Exchange.conclude]
    have hrecord : s.record (.heard received published capture)
        (s.exchange.keep s.exchange.sending) =
          { s with trace := .heard false data :: s.trace } := by
      simp only [History.record, hnext, hnone, settlements_none, hearing, hincoming, hopen]
      rfl
    simp [History.act, hopen, Exchange.turn, hhear, hrecord]
  · intro s hs hopen view received published capture batch data raw lane command hincoming hcommand
      hid hmatches
    have hhear : ∃ reason, s.exchange.hear received published capture = s.exchange.fail reason :=
      hear_mismatch hincoming (good_of_routing hs).distinct hcommand hid hmatches
    obtain ⟨reason, hfail⟩ := hhear
    refine ⟨s.record (.heard received published capture) (s.exchange.fail reason), reason, ?_, rfl,
      ?_, ?_⟩
    · simp [History.act, hopen, Exchange.turn, hfail]
    · intro other
      simp only [History.record, Exchange.fail, Exchange.conclude]
      cases s.exchange.active other <;> rfl
    · simp only [History.record, hearing, hincoming, Exchange.fail, Exchange.conclude,
        settlements_fail, singleton_append]

end ObsMcp.Session
