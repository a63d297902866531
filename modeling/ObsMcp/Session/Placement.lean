import Mathlib.Data.List.Nodup
import ObsMcp.Foundations.Indexed
import ObsMcp.Session.Calls

/-!
# The place of a command

`Placed` ties the owner of each command to the place that holds it, so that no command is in two
places, and `Placed.change` keeps it when one call changes. `Call.Sound` says, for one call, that a
frame was handed over only while the state word was `DISPATCHING` and the command in its slot, and
that a result of `BeforeDispatch` is only there when the command is dropped or its word is
`ABANDONED`, so that the frame can never be handed over later. Each change that a step makes to a
call keeps it.
-/

namespace ObsMcp.Session

open Foundations List Option

/-- What the shared parts of a call say about its frame. -/
structure Call.Sound (handed : List ℕ) (caller : ℕ) (call : Call) : Prop where
  sent : caller ∈ handed → call.word = .dispatching ∧ (call.place = .slot ∨ call.place = .dropped)
  slot : call.place = .slot → call.word = .dispatching
  reply : ∀ outcome, call.reply = some outcome →
    call.place = .dropped ∧ (outcome.notDispatched → caller ∉ handed)
  told : ∀ outcome, call.phase = .returning outcome ∨ call.phase = .returned outcome →
    outcome.notDispatched → caller ∉ handed ∧ (call.place = .dropped ∨ call.word = .abandoned)
  closed : ∀ reason, call.phase = .closed ∨ call.phase = .loading reason → call.place = .dropped
  fresh : call.phase = .admitted ∨ call.phase = .built ∨ call.phase = .sending →
    call.place = .call

/-- Every command is where its call says it is. -/
structure State.Placed (s : State) : Prop where
  numbered : ∀ (caller : ℕ) (call : Call), s.calls[caller]? = some call →
    call.command.caller = caller
  queue : ∀ lane, ∀ command ∈ s.queues lane, ∃ call, s.calls[command.caller]? = some call ∧
    call.command = command ∧ call.place = .queue ∧ command.kind.lane = lane
  fifo : ∀ lane, ((s.queues lane).map Command.caller).Nodup
  held : ∀ command, s.activity.held = some command →
    ∃ call, s.calls[command.caller]? = some call ∧ call.command = command ∧ call.place = .held
  active : ∀ lane command, s.exchange.active lane = some command →
    ∃ call, s.calls[command.caller]? = some call ∧ call.command.kind = command.kind ∧
      call.place = .slot ∧ command.kind.lane = lane

variable {s t : State} {caller : ℕ} {call : Call} {outcome : Outcome}

namespace State.Placed

variable {command : Command} {lane : Lane}

section

variable (hs : s.Placed) (hcall : s.calls[caller]? = some call)
include hs hcall

theorem of_queue (hmem : command ∈ s.queues lane) (hcaller : command.caller = caller) :
    call.command = command ∧ call.place = .queue ∧ command.kind.lane = lane := by
  subst hcaller
  obtain ⟨found, hfound, hhere⟩ := hs.queue lane command hmem
  cases hcall.symm.trans hfound
  exact hhere

theorem of_held (hheld : s.activity.held = some command) (hcaller : command.caller = caller) :
    call.command = command ∧ call.place = .held := by
  subst hcaller
  obtain ⟨found, hfound, hhere⟩ := hs.held command hheld
  cases hcall.symm.trans hfound
  exact hhere

theorem of_active (hactive : s.exchange.active lane = some command)
    (hcaller : command.caller = caller) :
    call.command.kind = command.kind ∧ call.place = .slot ∧ command.kind.lane = lane := by
  subst hcaller
  obtain ⟨found, hfound, hhere⟩ := hs.active lane command hactive
  cases hcall.symm.trans hfound
  exact hhere

theorem notMem_queue (hplace : call.place ≠ .queue) (hmem : command ∈ s.queues lane) :
    command.caller ≠ caller :=
  fun hcaller ↦ hplace (hs.of_queue hcall hmem hcaller).2.1

theorem ne_held (hplace : call.place ≠ .held) (hheld : s.activity.held = some command) :
    command.caller ≠ caller :=
  fun hcaller ↦ hplace (hs.of_held hcall hheld hcaller).2

theorem ne_active (hplace : call.place ≠ .slot) (hactive : s.exchange.active lane = some command) :
    command.caller ≠ caller :=
  fun hcaller ↦ hplace (hs.of_active hcall hactive hcaller).2.1

end

variable {found : Command} {other : Lane}

/-- A call has its command in one slot at most. -/
theorem lane_unique (hs : s.Placed) (hcommand : s.exchange.active lane = some command)
    (hfound : s.exchange.active other = some found) (hcaller : command.caller = found.caller) :
    lane = other := by
  obtain ⟨call, hcall, hkind, -, rfl⟩ := hs.active lane command hcommand
  obtain ⟨hsame, -, rfl⟩ := hs.of_active hcall hfound hcaller.symm
  rw [← hkind, ← hsame]

/-- A command whose lane gives it is in the queue of that lane only. -/
theorem queue_unique (hs : s.Placed) (hcommand : command ∈ s.queues lane)
    (hfound : found ∈ s.queues other) (hcaller : command.caller = found.caller) : lane = other := by
  obtain ⟨call, hcall, rfl, -, rfl⟩ := hs.queue lane command hcommand
  obtain ⟨rfl, -, rfl⟩ := hs.of_queue hcall hfound hcaller.symm
  rfl

/-- One call changes, and with it the place of its command; every other command stays where it is
or leaves. -/
theorem change (hs : s.Placed) {next : Call} (hcall : s.calls[caller]? = some call)
    (hcalls : t.calls = s.calls.set caller next) (hcommand : next.command = call.command)
    (hqueue : ∀ lane, ∀ command ∈ t.queues lane,
      (command.caller ≠ caller ∧ command ∈ s.queues lane) ∨
        (command = call.command ∧ next.place = .queue ∧ command.kind.lane = lane))
    (hfifo : ∀ lane, ((t.queues lane).map Command.caller).Nodup)
    (hheld : ∀ command, t.activity.held = some command →
      (command.caller ≠ caller ∧ s.activity.held = some command) ∨
        (command = call.command ∧ next.place = .held))
    (hactive : ∀ lane command, t.exchange.active lane = some command →
      (command.caller ≠ caller ∧ s.exchange.active lane = some command) ∨
        (command.caller = caller ∧ command.kind = call.command.kind ∧ next.place = .slot ∧
          command.kind.lane = lane)) :
    t.Placed := by
  have hnumber := hs.numbered caller call hcall
  have hself : t.calls[caller]? = some next := by
    rw [hcalls, getElem?_set_of_some hcall]
  have hothers : ∀ other, other ≠ caller → t.calls[other]? = s.calls[other]? := by
    intro other hother
    rw [hcalls, getElem?_set_ne (Ne.symm hother)]
  refine ⟨?_, ?_, hfifo, ?_, ?_⟩
  · intro other found hfound
    by_cases hother : other = caller
    · subst hother
      cases hself.symm.trans hfound
      rw [hcommand, hnumber]
    · rw [hothers other hother] at hfound
      exact hs.numbered other found hfound
  · intro lane command hmem
    rcases hqueue lane command hmem with ⟨hne, hbefore⟩ | ⟨rfl, hplace, hlane⟩
    · rw [hothers _ hne]
      exact hs.queue lane command hbefore
    · exact ⟨next, hnumber ▸ hself, hcommand, hplace, hlane⟩
  · intro command hcommandHeld
    rcases hheld command hcommandHeld with ⟨hne, hbefore⟩ | ⟨rfl, hplace⟩
    · rw [hothers _ hne]
      exact hs.held command hbefore
    · exact ⟨next, hnumber ▸ hself, hcommand, hplace⟩
  · intro lane command hcommandActive
    rcases hactive lane command hcommandActive with ⟨hne, hbefore⟩ | ⟨hsame, hkind, hplace, hlane⟩
    · rw [hothers _ hne]
      exact hs.active lane command hbefore
    · exact ⟨next, hsame ▸ hself, by rw [hcommand, hkind], hplace, hlane⟩

end State.Placed

/-! ### Changes of one call -/

namespace Call

variable (call : Call) (word : Word)

theorem exchangeWord_kept : (call.exchangeWord word).command = call.command ∧
    (call.exchangeWord word).place = call.place ∧
      (call.exchangeWord word).phase = call.phase := by
  unfold exchangeWord
  split_ifs
  · exact ⟨rfl, rfl, rfl⟩
  · exact ⟨rfl, rfl, rfl⟩

theorem exchangeWord_dispatching (hword : call.word = .dispatching) :
    (call.exchangeWord word).word = .dispatching := by
  simp [exchangeWord, hword]

end Call

namespace Call.Sound

variable {handed : List ℕ}

/-- A command that is neither in its slot nor dropped has not been handed over. -/
theorem notMem_handed (hsound : call.Sound handed caller) (hslot : call.place ≠ .slot)
    (hdropped : call.place ≠ .dropped) : caller ∉ handed := by
  intro hmem
  rcases (hsound.sent hmem).2 with hplace | hplace
  · exact hslot hplace
  · exact hdropped hplace

theorem exchangeWord (hsound : call.Sound handed caller) (word : Word) :
    (call.exchangeWord word).Sound handed caller := by
  unfold Call.exchangeWord
  split_ifs with hqueued
  · have hnot : caller ∉ handed := by
      intro hmem
      have := (hsound.sent hmem).1
      rw [hqueued] at this
      cases this
    refine ⟨fun hmem ↦ absurd hmem hnot, fun hslot ↦ ?_, hsound.reply, ?_, hsound.closed,
      hsound.fresh⟩
    · have := hsound.slot hslot
      rw [hqueued] at this
      cases this
    · intro outcome hphase hrefused
      refine ⟨hnot, .inl ?_⟩
      rcases (hsound.told outcome hphase hrefused).2 with hplace | hword
      · exact hplace
      · rw [hqueued] at hword
        cases hword
  · exact hsound

variable {outcome : Outcome}

section

variable (hsound : call.Sound handed caller)
include hsound

/-- The command leaves its place: the outcome, if it is a refusal, is one of a frame that was not
handed over. -/
theorem deliver (hplace : call.place ≠ .call) (houtcome : outcome.notDispatched → caller ∉ handed) :
    (call.deliver outcome).Sound handed caller := by
  refine ⟨fun hmem ↦ ⟨(hsound.sent hmem).1, .inr rfl⟩, fun hslot ↦ (by cases hslot), ?_, ?_,
    fun _ _ ↦ rfl, fun hfresh ↦ absurd (hsound.fresh hfresh) hplace⟩
  · intro found hfound
    refine ⟨rfl, ?_⟩
    simp only [Call.deliver] at hfound
    split_ifs at hfound
    · cases hfound
      exact houtcome
    · exact (hsound.reply found hfound).2
  · intro found hphase hrefused
    exact ⟨(hsound.told found hphase hrefused).1, .inl rfl⟩

theorem drop (hplace : call.place ≠ .call) : call.drop.Sound handed caller := by
  refine ⟨fun hmem ↦ ⟨(hsound.sent hmem).1, .inr rfl⟩, fun hslot ↦ (by cases hslot), ?_, ?_,
    fun _ _ ↦ rfl, fun hfresh ↦ absurd (hsound.fresh hfresh) hplace⟩
  · exact fun outcome houtcome ↦ ⟨rfl, (hsound.reply outcome houtcome).2⟩
  · exact fun outcome hphase hrefused ↦ ⟨(hsound.told outcome hphase hrefused).1, .inl rfl⟩

/-- The command goes on from a queue or from the hands of the actor. -/
theorem proceed (hplace : call.place = .queue ∨ call.place = .held) {place : Place}
    (hslot : place = .slot → call.word = .dispatching) :
    ({ call with place } : Call).Sound handed caller := by
  have hhere : call.place ≠ .slot ∧ call.place ≠ .dropped ∧ call.place ≠ .call := by
    rcases hplace with hplace | hplace <;> simp [hplace]
  have hnot := hsound.notMem_handed hhere.1 hhere.2.1
  refine ⟨fun hmem ↦ absurd hmem hnot, hslot, ?_, ?_, ?_, fun hfresh ↦ ?_⟩
  · exact fun outcome houtcome ↦ absurd (hsound.reply outcome houtcome).1 hhere.2.1
  · intro outcome hphase hrefused
    refine ⟨hnot, .inr ?_⟩
    exact (hsound.told outcome hphase hrefused).2.resolve_left hhere.2.1
  · exact fun reason hclosed ↦ absurd (hsound.closed reason hclosed) hhere.2.1
  · exact absurd (hsound.fresh hfresh) hhere.2.2

/-- The call goes on without a result. -/
theorem rephase (receiver : Bool) {phase : Phase}
    (hresult : ∀ outcome, phase ≠ .returning outcome ∧ phase ≠ .returned outcome)
    (hclosed : ∀ reason, phase = .closed ∨ phase = .loading reason → call.place = .dropped)
    (hfresh : phase = .admitted ∨ phase = .built ∨ phase = .sending → call.place = .call) :
    ({ call with receiver, phase } : Call).Sound handed caller := by
  refine ⟨hsound.sent, hsound.slot, hsound.reply, ?_, hclosed, hfresh⟩
  rintro outcome (hphase | hphase)
  · exact absurd hphase (hresult outcome).1
  · exact absurd hphase (hresult outcome).2

/-- The call has its result. -/
theorem conclude (hrefused : outcome.notDispatched → caller ∉ handed ∧ (call.place = .dropped ∨
      call.word = .abandoned)) : (call.conclude outcome).Sound handed caller := by
  refine ⟨hsound.sent, hsound.slot, hsound.reply, ?_, ?_, ?_⟩
  · rintro found (hphase | hphase)
    · obtain rfl := Phase.returning.inj hphase
      exact hrefused
    · cases hphase
  · rintro reason (hphase | hphase) <;> cases hphase
  · rintro (hphase | hphase | hphase) <;> cases hphase

/-- A call that is refused before its command was sent. -/
theorem refuse (hplace : call.place = .call) (outcome : Outcome) :
    (call.drop.conclude outcome).Sound handed caller := by
  have hnot : caller ∉ handed := hsound.notMem_handed (by simp [hplace]) (by simp [hplace])
  refine ⟨fun hmem ↦ absurd hmem hnot, fun hslot ↦ (by cases hslot), ?_, ?_, ?_, ?_⟩
  · exact fun found hfound ↦ ⟨rfl, fun _ ↦ hnot⟩
  · exact fun found _ _ ↦ ⟨hnot, .inl rfl⟩
  · exact fun _ _ ↦ rfl
  · rintro (hphase | hphase | hphase) <;> cases hphase

/-- The call returns its result. -/
theorem finish (hphase : call.phase = .returning outcome) :
    ({ call with phase := .returned outcome } : Call).Sound handed caller := by
  refine ⟨hsound.sent, hsound.slot, hsound.reply, ?_, ?_, ?_⟩
  · rintro found (hfound | hfound)
    · cases hfound
    · obtain rfl := Phase.returned.inj hfound
      exact hsound.told outcome (.inl hphase)
  · rintro reason (hfound | hfound) <;> cases hfound
  · rintro (hfound | hfound | hfound) <;> cases hfound

end

end Call.Sound

end ObsMcp.Session
